import ServoBus.Proofs.Axis.Channels

/-!
# The sync managers of a drive

`Layout.build` adds the sync managers of the mailbox and one for each direction. It
succeeds exactly if both directions accept all channels, and the sync managers that it
has built then are those of `wiring`. `Acceptable` is the same condition read off the
options alone: no channel asks for too much, the blocks of a direction stay in their range
and do not meet, and the slave can describe what all channels need together.
-/

namespace ServoBus.Axis

theorem Options.validate_eq_ok_iff {device : String} {o : Options} :
    (o.validate device).outcome = .ok () ↔
      o.channels ≤ Param.maxChannels ∧ o.channels ≠ 0 ∧ o.pdoEntryLimit ≠ 0 ∧
        o.pdoLimit ≠ 0 := by
  unfold validate
  split
  · next h =>
    simp only [Checked.outcome_reject, reduceCtorEq, false_iff]
    omega
  · next h =>
    split
    · next h0 =>
      simp [misconfigured, h0]
    · next h0 =>
      split
      · next hz =>
        simp only [misconfigured, Checked.outcome_reject, reduceCtorEq, false_iff]
        omega
      · next hz =>
        simp only [Checked.outcome_pure, true_iff]
        omega

/-- The channels in use, each with what it exchanges. -/
theorem Options.active_enabled {o : Options} (hc : o.channels ≤ Param.maxChannels) :
    o.active.zipIdx.map (fun (c, n) => (n, c.requested.resolve)) =
      (List.range o.channels).map fun n => (n, o.enabled n) := by
  apply List.ext_getElem
  · simp [o.length_active, hc]
  · intro n h h'
    have hn : n < o.channels := by simpa using h'
    have hn' : n < Param.maxChannels := Nat.lt_of_lt_of_le hn hc
    simp [active, enabled, hn']

namespace Layout

open Sync (Builder Entry Pdo Manager)

variable {o : Options} {s : Side} {b : Builder} {device : String}

/-- The PDOs of all channels in one direction. -/
def sidePdos (o : Options) (s : Side) : List Pdo :=
  (List.range o.channels).flatMap (channelPdos o s)

/-- The sync managers of a drive: two for the mailbox, and one for each direction with the
PDOs of all channels. -/
def wiring (o : Options) : List Manager :=
  [⟨0, .output, .default, []⟩, ⟨1, .input, .default, []⟩,
   ⟨2, .output, .default, sidePdos o .output⟩, ⟨3, .input, .default, sidePdos o .input⟩]

/-- Where the output PDOs are added: behind the mailbox. -/
def outputSite (device : String) : Site :=
  ⟨device, [⟨0, .output, .default, []⟩, ⟨1, .input, .default, []⟩], ⟨2, .output, .default, []⟩⟩

/-- Where the input PDOs are added: behind the output PDOs. -/
def inputSite (device : String) (o : Options) : Site :=
  ⟨device, [⟨0, .output, .default, []⟩, ⟨1, .input, .default, []⟩,
    ⟨2, .output, .default, sidePdos o .output⟩], ⟨3, .input, .default, []⟩⟩

theorem pdos_outputSite (device : String) : (outputSite device).pdos = [] := rfl

theorem pdos_inputSite (device : String) (o : Options) :
    (inputSite device o).pdos = sidePdos o .output := by
  simp [inputSite, Site.pdos]

theorem entries_outputSite (device : String) : (outputSite device).entries = [] := rfl

theorem entries_inputSite (device : String) (o : Options) :
    (inputSite device o).entries = (sidePdos o .output).flatMap (·.entries) := by
  rw [Site.entries, pdos_inputSite]

/-- A direction is added exactly if it accepts all channels. -/
theorem result_addSide_eq_ok_iff (hc : o.channels ≤ Param.maxChannels)
    (hl : 0 < o.pdoEntryLimit) (hp : o.pdoLimit ≠ 0) (hs : s.lastPdo < UInt16.size) {x : Site}
    (hx : x.current = ⟨x.earlier.length, s.direction, .default, []⟩)
    (hms : x.earlier.length < Sync.managerLimit) (hroom : x.pdos.length ≤ Sync.pdoLimit)
    (hentries : x.entries.length ≤ Sync.entryLimit) :
    (addSide o s).result (Builder.ofWire x.device false x.earlier) = (.ok (), b) ↔
      Accepts o s x o.channels ∧ b = (x.add (sidePdos o s)).builder := by
  have hadd : (Builder.addManager s.direction .default).result
      (Builder.ofWire x.device false x.earlier) = (.ok (), x.builder) := by
    rw [Builder.result_addManager_ofWire, if_neg (Nat.not_le.2 hms), ← hx]
    rfl
  have hforM : (o.active.zipIdx.forM fun (c, channel) =>
      addChannel o s channel c.requested.resolve) =
        forM (List.range o.channels) fun c => addChannel o s c (o.enabled c) := by
    have h := congrArg (fun l => forM l fun a : Nat × FeatureSet => addChannel o s a.1 a.2)
      (Options.active_enabled hc)
    rw [List.forM_eq_forM]
    simpa only [List.forM_map] using h
  rw [addSide, hforM, Action.result_bind, hadd, sidePdos,
    ← result_addChannels_eq_ok_iff hl hp hs hroom hentries]

/-- The sync managers are built exactly if both directions accept all channels. -/
theorem result_build_eq_ok_iff (hv : (o.validate device).outcome = .ok ()) :
    (build o).result ⟨device, [], false⟩ = (.ok (), b) ↔
      (Accepts o .output (outputSite device) o.channels ∧
        Accepts o .input (inputSite device o) o.channels) ∧
      b = Builder.ofWire device false (wiring o) := by
  obtain ⟨hc, -, hl, hp⟩ := Options.validate_eq_ok_iff.1 hv
  have hl := Nat.pos_of_ne_zero hl
  have hmail : addMailbox.result ⟨device, [], false⟩ =
      (.ok (), Builder.ofWire device false (outputSite device).earlier) := rfl
  have hout (t : Builder) := @result_addSide_eq_ok_iff o .output t hc hl hp (by decide)
    (outputSite device) rfl (show 2 < Sync.managerLimit by decide) (Nat.zero_le _)
    (Nat.zero_le _)
  have hmid : ((outputSite device).add (sidePdos o .output)).builder =
      Builder.ofWire device false (inputSite device o).earlier := rfl
  have hend : ((inputSite device o).add (sidePdos o .input)).builder =
      Builder.ofWire device false (wiring o) := rfl
  have hin (h : Accepts o .output (outputSite device) o.channels) :
      (addSide o .input).result (Builder.ofWire device false (inputSite device o).earlier) =
          (.ok (), b) ↔
        Accepts o .input (inputSite device o) o.channels ∧
          b = Builder.ofWire device false (wiring o) := by
    rw [← hend]
    refine result_addSide_eq_ok_iff hc hl hp (by decide) rfl
      (show 3 < Sync.managerLimit by decide) ?_ ?_
    · rw [pdos_inputSite, sidePdos, length_flatMap_channelPdos hl]
      have hroom := h.room
      rwa [pdos_outputSite, List.length_nil, Nat.zero_add] at hroom
    · rw [entries_inputSite, sidePdos, length_entries_flatMap_channelPdos hl]
      have hentries := h.entries
      rwa [entries_outputSite, List.length_nil, Nat.zero_add] at hentries
  rw [build, Action.result_bind, hmail]
  simp only [Action.result_seq_eq_ok_iff]
  constructor
  · rintro ⟨t, ht, hr⟩
    obtain ⟨hao, rfl⟩ := (hout t).1 ht
    rw [hmid, hin hao] at hr
    exact ⟨⟨hao, hr.1⟩, hr.2⟩
  · rintro ⟨⟨hao, hai⟩, hb⟩
    refine ⟨_, (hout _).2 ⟨hao, rfl⟩, ?_⟩
    rw [hmid, hin hao]
    exact ⟨hai, hb⟩

end Layout

end ServoBus.Axis
