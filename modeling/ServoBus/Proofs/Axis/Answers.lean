import ServoBus.Axis.Channel
import ServoBus.Axis.Param
import ServoBus.Proofs.Setup.Answers

/-!
# Axes depend on the answers of the master alone

Parameters are sent and channels are registered alike if the master answers alike. The requests of
a channel may have other numbers then; `Channel.seen` is what is seen of a channel through a focus.
-/

namespace ServoBus.Axis

open Setup (Agrees)

variable {μ ν : Type} [Master μ] [Master ν] {F : Focus} {site : Site}

/-! ## Parameters -/

section Params

variable {o : Options} {p : Param.Setting}

theorem agrees_applyObject (q : ObjectParam) :
    Agrees (MasterCall.Prepares site.position) F id (applyObject (μ := Traced μ) site o p q)
      (applyObject (μ := ν) site o p q) :=
  (Setup.agrees_writeParam _ _ _).bind_id fun _ => Setup.agrees_pure rfl

theorem agrees_applyRatio (q : RatioParam) :
    Agrees (MasterCall.Prepares site.position) F id (applyRatio (μ := Traced μ) site p q)
      (applyRatio (μ := ν) site p q) := by
  refine ((Setup.agrees_ofChecked _).noting _).bind_id fun r => ?_
  have hsend : Agrees (μ := μ) (ν := ν) (MasterCall.Prepares site.position) F id
      (do
        Setup.writeParam site ⟨base (Param.channelOf p.id) + q.offset, 1⟩
          (payload 32 r.numerator.toInt) p.name
        Setup.writeParam site ⟨base (Param.channelOf p.id) + q.offset, 2⟩
          (payload 32 r.denominator.toNat) p.name)
      (do
        Setup.writeParam site ⟨base (Param.channelOf p.id) + q.offset, 1⟩
          (payload 32 r.numerator.toInt) p.name
        Setup.writeParam site ⟨base (Param.channelOf p.id) + q.offset, 2⟩
          (payload 32 r.denominator.toNat) p.name) :=
    (Setup.agrees_writeParam _ _ _).bind_id fun _ => Setup.agrees_writeParam _ _ _
  split
  · exact (Setup.agrees_lift _).bind_id fun _ => (Setup.agrees_throw _).bind_id fun _ => hsend
  · exact hsend

theorem agrees_applySetting? :
    Agrees (MasterCall.Prepares site.position) F id (applySetting? (μ := Traced μ) site o p)
      (applySetting? (μ := ν) site o p) := by
  unfold applySetting?
  extract_lets common
  clear_value common
  split
  · exact Setup.agrees_pure rfl
  · split
    · split
      · exact Setup.agrees_pure rfl
      · exact Setup.agrees_throw _
    · split
      · exact (agrees_applyObject _).map_id _
      · exact (agrees_applyRatio _).bind_id fun _ => Setup.agrees_pure rfl
      · exact Setup.agrees_pure rfl

end Params

/-! ## Channels -/

/-- What is seen of a service. -/
def Served.seen (F : Focus) (s : Served) : Served :=
  { s with writer := { s.writer with request := F.request s.writer.request } }

/-- What is seen of a channel. -/
def Channel.seen (F : Focus) (c : Channel) : Channel :=
  { c with services := c.services.map (·.seen F) }

theorem Served.seen_sharp (s : Served) : s.seen .sharp = s := rfl

namespace Channel

theorem seen_sharp (c : Channel) : c.seen .sharp = c := by
  have hid : (fun s : Served => s.seen .sharp) = id := funext Served.seen_sharp
  rw [seen, hid, List.map_id]

theorem entry?_seen (F : Focus) (c : Channel) (f : Feature) :
    Channel.entry? (c.seen F) f = c.entry? f := rfl

theorem agrees_readModes (b : UInt16) (label : String) :
    Agrees (MasterCall.Prepares site.position) F id (readModes (μ := Traced μ) site b label)
      (readModes (μ := ν) site b label) :=
  (Setup.agrees_readWord32 _).tryCatch fun _ =>
    (Setup.agrees_lift _).bind_id fun _ => Setup.agrees_pure rfl

theorem agrees_addModePins {P : MasterCall → Prop} (label : String) (modes : UInt32)
    (bits : List (String × Nat)) :
    Agrees P F id (addModePins (μ := Traced μ) site label modes bits)
      (addModePins (μ := ν) site label modes bits) := by
  induction bits with
  | nil => exact Setup.agrees_pure rfl
  | cons bit bits ih =>
    exact (Setup.agrees_addPin _ _ _ _).bind_id fun pin =>
      (Setup.agrees_putPin _ _).bind_id fun _ => ih

theorem agrees_addObjectPins {P : MasterCall → Prop} (label : String) (packed : FeatureSet)
    (xs : List Registered) :
    Agrees P F id (addObjectPins (μ := Traced μ) site label packed xs)
      (addObjectPins (μ := ν) site label packed xs) := by
  induction xs with
  | nil => exact Setup.agrees_pure rfl
  | cons x xs ih =>
    rw [addObjectPins, addObjectPins]
    split
    · exact ih.bind_id fun _ => Setup.agrees_pure rfl
    · refine (Setup.agrees_addPin _ _ _ _).bind_id fun pin => ih.bind_id fun e => ?_
      split
      · exact Setup.agrees_pure rfl
      · exact Setup.agrees_pure rfl

/-- The writer of a service starts from the value of its pin. -/
theorem agrees_start {P : MasterCall → Prop} (name : String) {r r' : RequestRef}
    (hr : F.request r' = F.request r) (width : Nat) (pin : PinRef) :
    Agrees P F (Served.seen F)
      (do
        let w ← get
        pure ⟨.start name r width (w.pins.raw pin), pin⟩ : Setup (Traced μ) Served)
      (do
        let w ← get
        pure ⟨.start name r' width (w.pins.raw pin), pin⟩ : Setup ν Served) := by
  let start (r : RequestRef) (pins : PinTable) : Served := ⟨.start name r width (pins.raw pin), pin⟩
  refine Setup.agrees_get_bind (f := fun x => pure (start r x.2.2))
    (g := fun x => pure (start r' x.2.2)) fun x => Setup.agrees_pure ?_
  simp only [start, Served.seen, Writer.start, hr]

theorem agrees_addService (b : UInt16) (c : ChannelOptions) (o : DriveObject) :
    Agrees (MasterCall.Prepares site.position) F (Served.seen F)
      (addService (μ := Traced μ) site b c o) (addService (μ := ν) site b c o) := by
  refine ((Setup.agrees_createRequest _ _).noting _).bind fun r r' hr => ?_
  refine (Setup.agrees_addPin _ _ _ _).bind_id fun pin => ?_
  split
  · exact (Setup.agrees_onPins _).bind_id fun _ => agrees_start _ hr _ _
  · exact agrees_start _ hr _ _

theorem agrees_register (n : Nat) (c : ChannelOptions) :
    Agrees (MasterCall.Prepares site.position) F (Channel.seen F)
      (register (μ := Traced μ) site n c) (register (μ := ν) site n c) := by
  refine (Setup.agrees_within _ _).bind_id fun own => ?_
  refine (Setup.agrees_append _).bind_id fun start => ?_
  refine (Setup.agrees_addPin _ _ _ _).bind_id fun control => ?_
  refine (Setup.agrees_addPin _ _ _ _).bind_id fun status => ?_
  refine (agrees_readModes _ _).bind_id fun modes => ?_
  refine (Setup.agrees_addPin _ _ _ _).bind_id fun pin => ?_
  refine (Setup.agrees_putPin _ _).bind_id fun _ => ?_
  refine (agrees_addModePins _ _ _).bind_id fun _ => ?_
  refine (agrees_addObjectPins _ _ _).bind_id fun x => ?_
  refine (Setup.agrees_mapM (fun ⟨_, o⟩ => agrees_addService _ _ o) _).bind fun ss ss' hs => ?_
  have hlength : ss'.length = ss.length := by simpa using congrArg List.length hs
  rw [hlength]
  refine (Setup.agrees_lift _).bind_id fun _ => Setup.agrees_pure ?_
  simp only [Channel.seen, hs]

end Channel

theorem agrees_configure (o : Options) :
    Agrees (MasterCall.Prepares site.position) F (List.map (Channel.seen F))
      (configure (μ := Traced μ) site o) (configure (μ := ν) site o) := by
  refine (Setup.agrees_ofChecked _).bind_id fun _ => ?_
  refine (Setup.agrees_onSyncs _).bind_id fun _ => ?_
  exact Setup.agrees_mapM (fun ⟨c, n⟩ => Channel.agrees_register n c) _

end ServoBus.Axis
