import ServoBus.Proofs.Axis.Pins
import ServoBus.Proofs.Setup.Trace

/-!
# How services start

A service starts with the pin of its object, and the pin with the value that was sent to the
object during setup, or with zero. The writer takes what is in the pin as what the object holds.
From then on the setup only adds pins, and it sends nothing to any object.
-/

namespace ServoBus

open ServoBus.Action (Moves)

theorem PinTable.Adds.raw_eq {t t' : PinTable} {refs : List PinRef} (h : t.Adds t' refs)
    {ref : PinRef} (hr : ref.index < t.size) : t'.raw ref = t.raw ref := by
  rw [raw, raw, h.pin?_eq hr]

theorem Setup.pin?_of_result_addPin {μ : Type} {site : Site} {label? : Option String}
    {name : String} {kind : Pin.Kind} {direction : Pin.Direction} {w w' : Workspace μ}
    {ref : PinRef} (h : (addPin site label? name kind direction).result w = (.ok ref, w')) :
    w'.pins.pin? ref =
      some ⟨Pin.fullName site.master site.slave label? name, direction, .zero kind⟩ := by
  obtain ⟨t, ht, rfl⟩ := Action.result_zoom_eq_ok_iff.1 h
  obtain ⟨-, rfl, rfl⟩ := PinTable.result_add_eq_ok_iff.1 ht
  exact w.pins.pin?_push_size _ kind direction

namespace Axis

/-- A service of an object starts with the value that was sent, or with zero. -/
structure Served.Seeded (pins : PinTable) (d : DriveObject) (sent? : Option Int) (x : Served) :
    Prop where
  bound : x.pin.index < pins.size
  raw : pins.raw x.pin = (sent?.map fun v => (Pin.Value.ofRaw d.format.pinKind v).raw).getD 0
  last : x.writer.last = pins.raw x.pin
  phase : x.writer.phase = .idle

theorem Served.Seeded.mono {pins pins' : PinTable} {refs : List PinRef} {d : DriveObject}
    {sent? : Option Int} {x : Served} (h : x.Seeded pins d sent?) (hp : pins.Adds pins' refs) :
    x.Seeded pins' d sent? where
  bound := Nat.lt_of_lt_of_le h.bound hp.size_le
  raw := (hp.raw_eq h.bound).trans h.raw
  last := h.last.trans (hp.raw_eq h.bound).symm
  phase := h.phase

namespace Channel

/-- The services of a channel start with what the options note. -/
def Seeded (pins : PinTable) (o : ChannelOptions) (c : Channel) : Prop :=
  List.Forall₂ (fun x s => s.Seeded pins x.2 (o.sent? x.2.offset x.2.subindex))
    (c.enabled.objects .service) c.services

variable {μ : Type} {site : Site} {label : String}

section Seeded

variable [Master μ]

variable {w w' : Workspace μ} {o : ChannelOptions}

theorem Seeded.mono {pins pins' : PinTable} {refs : List PinRef} {c : Channel}
    (h : c.Seeded pins o) (hp : pins.Adds pins' refs) : c.Seeded pins' o :=
  h.imp fun _ _ hx => hx.mono hp

theorem seeded_of_result_addService {base : UInt16} {d : DriveObject} {x : Served}
    (h : (addService site base o d).result w = (.ok x, w')) :
    x.Seeded w'.pins d (o.sent? d.offset d.subindex) := by
  obtain ⟨request, w₁, -, w₂, hpin, rfl, hwriter⟩ := exists_of_result_addService h
  have hnew := Setup.pin?_of_result_addPin hpin
  have hbound := ((Setup.adds_of_result_addPin hpin).bounds x.pin (List.mem_singleton_self x.pin)).2
  have hlast := congrArg Writer.last hwriter
  have hphase := congrArg Writer.phase hwriter
  cases hsent : o.sent? d.offset d.subindex with
  | none =>
    rw [hsent] at hlast
    refine ⟨hbound, ?_, hlast, hphase⟩
    rw [Option.elim_none, PinTable.raw_of_pin? hnew, Format.pinKind]
    cases d.format.signed <;> rfl
  | some v =>
    rw [hsent] at hlast
    have hput : (w₂.pins.putRaw x.pin v).pin? x.pin = some ⟨Pin.fullName site.master site.slave
        (some o.label) d.pinName, .input, .ofRaw d.format.pinKind v⟩ := by
      rw [PinTable.putRaw, PinTable.pin?_modify, if_pos rfl, hnew, Option.map_some, Pin.putRaw,
        Pin.kind, Pin.Value.kind_zero]
    refine ⟨?_, PinTable.raw_of_pin? hput, hlast, hphase⟩
    exact Nat.lt_of_lt_of_le hbound (Nat.le_of_eq (w₂.pins.size_modify x.pin _).symm)

theorem seeded_of_result_addServices {base : UInt16} {l : List (Feature × DriveObject)}
    {xs : List Served}
    (h : Action.result (l.mapM fun (_, d) => addService site base o d) w = (.ok xs, w')) :
    List.Forall₂ (fun x s => s.Seeded w'.pins x.2 (o.sent? x.2.offset x.2.subindex)) l xs := by
  induction l generalizing w xs with
  | nil =>
    rw [Action.result_mapM_nil] at h
    cases h
    exact .nil
  | cons x l ih =>
    obtain ⟨s, w₁, xs, hs, hxs, rfl⟩ := Action.result_mapM_cons_eq_ok_iff.1 h
    exact .cons ((seeded_of_result_addService hs).mono (adds_of_result_addServices hxs)) (ih hxs)

theorem seeded_of_result_register {n : Nat} {c : Channel}
    (h : (register site n o).result w = (.ok c, w')) : c.Seeded w'.pins o := by
  obtain ⟨_, _, _, _, -, _, _, -, _, _, -, _, _, -, _, _, -, _, -, _, -, _, _, -, services, hserv,
    rfl⟩ := exists_of_result_register h
  exact seeded_of_result_addServices hserv

end Seeded

/-- Registering a channel sends nothing. -/
theorem asks_register [Master μ] (n : Nat) (o : ChannelOptions) :
    Moves (Setup.Asks (μ := μ)) (register site n o) := by
  unfold register
  refine (Action.moves_within _ _).bind fun ⟨⟨control, status, objects⟩, entries⟩ => ?_
  refine (Setup.asks_onRegs _).bind fun start => ?_
  refine (Setup.moves_addPin _ _ _ _ _).bind fun controlPin => ?_
  refine (Setup.moves_addPin _ _ _ _ _).bind fun statusPin => ?_
  refine (moves_readModes _).bind fun modes => ?_
  refine (Setup.moves_addPin _ _ _ _ _).bind fun modesPin => ?_
  refine (Setup.moves_putPin _ _).bind fun _ => ?_
  refine (moves_addModePins _ _).bind fun _ => (moves_addObjectPins _).bind fun exchange => ?_
  refine (Action.Moves.mapM (fun _ => moves_addService _ _ _) _).bind fun services => ?_
  exact (Action.moves_lift _).bind fun _ => Action.moves_pure _

end Channel

variable {μ : Type} [Master μ] {site : Site}

theorem asks_configure (o : Options) : Moves (Setup.Asks (μ := μ)) (configure site o) :=
  (Action.moves_ofChecked _).bind fun _ => (Setup.asks_onSyncs _).bind fun _ =>
    Action.Moves.mapM (fun _ => Channel.asks_register _ _) _

theorem seeded_of_result_registerAll {xs : List (ChannelOptions × Nat)} {cs : List Channel}
    {w w' : Workspace μ}
    (h : Action.result (xs.mapM fun (o, n) => Channel.register site n o) w = (.ok cs, w')) :
    List.Forall₂ (fun x c => c.Seeded w'.pins x.1) xs cs := by
  induction xs generalizing w cs with
  | nil =>
    rw [Action.result_mapM_nil] at h
    cases h
    exact .nil
  | cons x xs ih =>
    obtain ⟨c, w₁, cs, hc, hcs, rfl⟩ := Action.result_mapM_cons_eq_ok_iff.1 h
    have hadds := Setup.adds_of_result_mapM (fun _ _ _ _ => Channel.adds_of_result_register) hcs
    exact .cons ((Channel.seeded_of_result_register hc).mono hadds) (ih hcs)

theorem seeded_of_result_configure {o : Options} {cs : List Channel} {w w' : Workspace μ}
    (h : (configure site o).result w = (.ok cs, w')) :
    List.Forall₂ (fun q c => c.Seeded w'.pins q) o.active cs := by
  obtain ⟨b, -, hcs⟩ := exists_of_result_configure h
  have hmap := List.forall₂_map_left_iff.2 (seeded_of_result_registerAll hcs)
  rwa [List.zipIdx_map_fst] at hmap

end Axis

end ServoBus
