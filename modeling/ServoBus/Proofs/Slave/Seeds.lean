import ServoBus.Proofs.Axis.Noted
import ServoBus.Proofs.Axis.Seeds
import ServoBus.Proofs.Slave.Seen

/-!
# What services start with

During the setup of a slave the options note what is sent to the objects that are written on
change, and from the notes come the values of their pins. So after an activation the pin of such
an object has the value that was sent to the object last, and where nothing was sent it has zero,
which is also what its writer takes the object to hold.
-/

namespace ServoBus

namespace Axis

/-- A service starts with what was sent to its object last, or with zero. -/
structure Served.Starts (pins : PinTable) (width : Nat) (sent? : Option Bytes) (x : Served) :
    Prop where
  bound : x.pin.index < pins.size
  sent : ∀ content, sent? = some content → payload width (pins.raw x.pin) = content
  unsent : sent? = none → pins.raw x.pin = 0
  last : x.writer.last = pins.raw x.pin
  phase : x.writer.phase = .idle

theorem Served.Starts.mono {pins pins' : PinTable} {refs : List PinRef} {width : Nat}
    {sent? : Option Bytes} {x : Served} (h : x.Starts pins width sent?)
    (hp : pins.Adds pins' refs) : x.Starts pins' width sent? := by
  have hraw := hp.raw_eq h.bound
  refine ⟨Nat.lt_of_lt_of_le h.bound hp.size_le, ?_, ?_, ?_, h.phase⟩
  · rw [hraw]
    exact h.sent
  · rw [hraw]
    exact h.unsent
  · rw [hraw]
    exact h.last

/-- The services of a channel start with what was sent to their objects last. -/
def Channel.Starts (pins : PinTable) (sent? : DriveObject → Option Bytes) (c : Channel) : Prop :=
  List.Forall₂ (fun x s => s.Starts pins x.2.format.width (sent? x.2))
    (c.enabled.objects .service) c.services

/-- What was noted of an object says what it was sent last. -/
theorem Served.Seeded.starts {pins : PinTable} {d : DriveObject} {value? : Option Int}
    {x : Served} (h : x.Seeded pins d value?)
    (hraw : ∀ v, value? = some v → (Pin.Value.ofRaw d.format.pinKind v).raw = v) :
    x.Starts pins d.format.width (value?.map (payload d.format.width)) where
  bound := h.bound
  sent content hs := by
    obtain ⟨v, hv, rfl⟩ := Option.map_eq_some_iff.1 hs
    rw [h.raw, hv, Option.map_some, Option.getD_some, hraw v hv]
  unsent hs := by
    rw [h.raw, Option.map_eq_none_iff.1 hs]
    rfl
  last := h.last
  phase := h.phase

variable {μ : Type} {site : Site} {t : Traced μ} {w w' : Workspace (Traced μ)}

/-- The services of channels start with what has been sent since a trace began. -/
def Seeds (site : Site) (t : Traced μ) (cs : List Channel) (w : Workspace (Traced μ)) : Prop :=
  ∃ new, w.master.calls = new ++ t.calls ∧ ∀ (n : Nat) c, cs[n]? = some c →
    c.Starts w.pins fun d => lastSent? site.position (serviceAddress n d) new

/-- Nothing is sent any more, and only pins are added. -/
theorem Seeds.mono {cs : List Channel} {refs : List PinRef} (h : Seeds site t cs w)
    (hw : Setup.Asks w w') (hp : w.pins.Adds w'.pins refs) : Seeds site t cs w' := by
  obtain ⟨new, hcalls, hstarts⟩ := h
  obtain ⟨idle, hidle, hall⟩ := hw
  refine ⟨idle ++ new, by rw [hidle, hcalls, List.append_assoc], fun n c hc => ?_⟩
  refine (hstarts n c hc).imp fun x s hs => ?_
  simp only [lastSent?_append_of_idle hall]
  exact hs.mono hp

theorem Options.Noted.numberLabels {o : Options} (h : o.Noted site t w) :
    o.numberLabels.Noted site t w := by
  obtain ⟨new, hcalls, hnotes⟩ := h
  refine ⟨new, hcalls, hnotes.congr fun ch => ?_⟩
  unfold Options.numberLabels
  split
  · change ChannelOptions.sent (o.channel.mapIdx _)[ch] = o.channel[ch].sent
    simp only [Fin.getElem_fin, Vector.getElem_mapIdx]
    split <;> rfl
  · rfl

/-- The channels in use are the first ones. -/
theorem Options.exists_of_getElem?_active {o : Options} {n : Nat} {q : ChannelOptions}
    (h : o.active[n]? = some q) : ∃ ch, ch.val = n ∧ o.channel.get ch = q := by
  obtain ⟨hlt, rfl⟩ := List.getElem?_eq_some_iff.1 h
  have hn : n < Param.maxChannels := by
    rw [length_active] at hlt
    exact Nat.lt_of_lt_of_le hlt (Nat.min_le_right _ _)
  refine ⟨⟨n, hn⟩, rfl, ?_⟩
  change o.channel[n] = _
  simp [active]

/-- Channels are set up from the notes of what was sent, and they send nothing themselves. -/
theorem Options.Noted.seeds [Master μ] {o : Options} {cs : List Channel} (hn : o.Noted site t w)
    (h : (configure site o).result w = (.ok cs, w')) : Seeds site t cs w' := by
  obtain ⟨new, hcalls, hnotes⟩ := hn
  obtain ⟨idle, hidle, hall⟩ := (asks_configure o).of_result h
  have hnotes := hnotes.idle hall
  refine ⟨idle ++ new, by rw [hidle, hcalls, List.append_assoc], fun n c hc => ?_⟩
  obtain ⟨q, hq, hseeded⟩ := exists_left_of_getElem? (seeded_of_result_configure h) hc
  obtain ⟨ch, rfl, rfl⟩ := Options.exists_of_getElem?_active hq
  have hservice : ∀ x ∈ c.enabled.objects .service, IsService x.2 := by
    rintro ⟨f, d⟩ hx
    obtain ⟨-, hobject, ht⟩ := FeatureSet.mem_objects.1 hx
    exact ⟨f, hobject, ht⟩
  refine ((List.forall₂_and_left _ _).2 ⟨hservice, hseeded⟩).imp ?_
  rintro ⟨f, d⟩ s ⟨hd, hs⟩
  obtain ⟨hlast, hraw⟩ := hnotes ch d hd
  simp only [hlast]
  exact hs.starts hraw

end Axis

/-! ## Devices -/

section SetUp

variable {μ : Type} [Master μ] {site : Site} {settings : List Param.Setting} {d : DeviceType}
  {rig : Rig} {w w' : Workspace (Traced μ)}

theorem Generic.seeds_of_result_setUp
    (h : (Generic.setUp site settings).result w = (.ok rig, w')) :
    Axis.Seeds site w.master rig.channels w' := by
  obtain ⟨o, w₁, cs, ho, hcs, rfl⟩ := Generic.exists_of_result_setUp h
  have hstart : Generic.initialOptions.Noted site w.master w :=
    Axis.Options.noted_nil ((Axis.uniform_default _).mapChannels fun _ hc => hc) rfl
  have hnoted := Action.holds_of_result_foldlM (fun _ _ _ _ _ => Generic.noted_apply) hstart ho
  exact hnoted.numberLabels.seeds hcs

theorem Stepper.seeds_of_result_setUp
    (h : (Stepper.setUp d site settings).result w = (.ok rig, w')) :
    Axis.Seeds site w.master rig.channels w' := by
  obtain ⟨o, w₁, cs, w₂, ho, hcs, hlines⟩ := Stepper.exists_of_result_setUp h
  have hstart : (Stepper.initialOptions d.axes d.digitalInputs d.digitalOutputs).Noted site
      w.master w :=
      Axis.Options.noted_nil ((Axis.uniform_default _).mapChannels fun _ hc => hc) rfl
  have hnoted := Action.holds_of_result_foldlM (fun _ _ _ _ _ => Stepper.noted_apply) hstart ho
  obtain ⟨new, hnew, -⟩ := adds_of_result_addChannelLines hlines
  have hchannels : rig.channels = cs := (Stepper.of_result_addChannelLines hlines).1
  rw [hchannels]
  exact (hnoted.numberLabels.seeds hcs).mono
    ((Stepper.moves_addChannelLines _ _).of_result hlines) hnew

theorem DeviceType.seeds_of_result_setUp (h : (d.setUp site settings).result w = (.ok rig, w')) :
    Axis.Seeds site w.master rig.channels w' := by
  rcases DeviceType.cases_of_result_setUp h with ⟨-, h⟩ | ⟨-, h⟩
  · exact Generic.seeds_of_result_setUp h
  · exact Stepper.seeds_of_result_setUp h

end SetUp

/-! ## Slaves -/

/-- After an activation the services of a slave start with what was sent in it. -/
theorem Slave.seeds_of_activate {μ : Type} [Master μ] {s s' : Slave} {t : Traced μ} {rig : Rig}
    (hs : (s.activate t).value.2.1 = s') (hrig : s'.rig? = some rig) :
    ∃ sent, (s.activate t).value.2.2.calls = sent ++ t.calls ∧
      ∀ (n : Nat) c, rig.channels[n]? = some c →
        c.Starts s'.pins fun d =>
          lastSent? s'.site.position (Axis.serviceAddress n d) sent := by
  subst hs
  rw [value_activate] at hrig ⊢
  split at hrig
  · next rig' w hset =>
    cases hrig
    obtain ⟨w₁, managers, w₂, htype, hconf, hloc⟩ := exists_of_result_setUp hset
    -- behind the setup by the type nothing is sent, and no pin is touched
    have hconfig := (Setup.asks_onMaster fun t => .single (fun _ _ => rfl) _).of_result hconf
    have hasks := trans_of Setup.Asks hconfig (Setup.asks_locate.of_result hloc)
    have hadds := Setup.adds_of_made_eq ((Setup.keeps_onMaster _).of_result hconf)
    obtain ⟨⟨r, m'⟩, -, rfl⟩ := Action.result_zoom_eq_ok_iff.1 hloc
    exact (DeviceType.seeds_of_result_setUp htype).mono hasks hadds
  · cases hrig

end ServoBus
