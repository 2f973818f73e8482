import Mathlib.Data.List.Forall2
import ServoBus.Device.Stepper
import ServoBus.Proofs.Setup

/-!
# Pins of digital lines

The lines of a stepper drive get their pins after the entries of all channels were
registered. Only the lines of a channel whose object is mapped have pins, one for every
line, and the bits of the object are named as the lines are.
-/

namespace ServoBus

/-- In lists that run side by side each element on the right has one on the left, at its place. -/
theorem exists_left_of_getElem? {α β : Type} {R : α → β → Prop} {as : List α} {bs : List β}
    (h : List.Forall₂ R as bs) {n : Nat} {b : β} (hb : bs[n]? = some b) :
    ∃ a, as[n]? = some a ∧ R a b := by
  induction h generalizing n with
  | nil => cases hb
  | cons hfirst _ ih =>
    cases n with
    | zero =>
      cases hb
      exact ⟨_, rfl, hfirst⟩
    | succ n => exact ih hb

theorem exists_left_of_forall₂ {α β : Type} {R : α → β → Prop} {as : List α} {bs : List β}
    (h : List.Forall₂ R as bs) {b : β} (hb : b ∈ bs) : ∃ a ∈ as, R a b := by
  obtain ⟨n, hn⟩ := List.mem_iff_getElem?.1 hb
  obtain ⟨a, ha, hab⟩ := exists_left_of_getElem? h hn
  exact ⟨a, List.mem_of_getElem? ha, hab⟩

namespace Stepper

open ServoBus.Action (Moves)

variable {μ : Type} {site : Site} {label : String} {direction : Pin.Direction}

/-- A line has a pin of its name for its bit. -/
def ShowsLine (site : Site) (label : String) (direction : Pin.Direction) (pins : PinTable)
    (line : String × Nat) (bit : Nat × PinRef) : Prop :=
  bit.1 = line.2 ∧
    pins.Has bit.2 ⟨Pin.fullName site.master site.slave (some label) line.1, direction, .bit⟩

/-- Each line has a pin. -/
def Shown (site : Site) (label : String) (direction : Pin.Direction) (pins : PinTable)
    (lines : List (String × Nat)) (bits : List (Nat × PinRef)) : Prop :=
  List.Forall₂ (ShowsLine site label direction pins) lines bits

section Shown

variable {pins pins' : PinTable} {lines : List (String × Nat)} {bits : List (Nat × PinRef)}

theorem Shown.mono (h : Shown site label direction pins lines bits) (hp : pins.Grows pins') :
    Shown site label direction pins' lines bits :=
  h.imp fun _ _ hb => ⟨hb.1, hp.has hb.2⟩

theorem Shown.exists_line (h : Shown site label direction pins lines bits) {bit : Nat × PinRef}
    (hb : bit ∈ bits) : ∃ line ∈ lines, ShowsLine site label direction pins line bit :=
  exists_left_of_forall₂ h hb

theorem Shown.exists_bit (h : Shown site label direction pins lines bits)
    {line : String × Nat} (hl : line ∈ lines) :
    ∃ bit ∈ bits, ShowsLine site label direction pins line bit := by
  have hflip : List.Forall₂ (flip (ShowsLine site label direction pins)) bits lines := h.flip
  exact exists_left_of_forall₂ hflip hl

end Shown

theorem mem_numberedOutputs {count : Nat} {line : String × Nat} :
    line ∈ numberedOutputs count ↔ ∃ n < count, line = (s!"dout-{n + 1}", 16 + n) := by
  simp only [numberedOutputs, List.mem_map, List.mem_range, eq_comm]

section Moves

variable {R : Workspace μ → Workspace μ → Prop} [IsPreorder (Workspace μ) R] [Setup.AdmitsPins R]

theorem moves_addLines (lines : List (String × Nat)) :
    Moves R (addLines site label direction lines) := by
  induction lines with
  | nil => exact Action.moves_pure _
  | cons line rest ih =>
    exact (Setup.moves_addPin _ _ _ _ _).bind fun _ => ih.bind fun _ => Action.moves_pure _

theorem moves_addPacked (lines : List (String × Nat)) (ref? : Option RegRef) :
    Moves R (addPacked site label direction lines ref?) := by
  cases ref? with
  | none => exact Action.moves_pure _
  | some entry => exact (moves_addLines lines).bind fun _ => Action.moves_pure _

theorem moves_addChannelLines (l : List (Axis.Channel × Axis.ChannelOptions)) (rig : Rig) :
    Moves R (addChannelLines site rig l) := by
  induction l generalizing rig with
  | nil => exact Action.moves_pure _
  | cons x rest ih =>
    exact (moves_addPacked _ _).bind fun _ => (moves_addPacked _ _).bind fun _ => ih _

end Moves

theorem of_result_addLines {lines : List (String × Nat)} {bits : List (Nat × PinRef)}
    {w w' : Workspace μ} (h : (addLines site label direction lines).result w = (.ok bits, w')) :
    Shown site label direction w'.pins lines bits := by
  induction lines generalizing w bits with
  | nil =>
    rw [addLines, Action.result_pure_eq_ok_iff] at h
    rw [h.1]
    exact .nil
  | cons line rest ih =>
    obtain ⟨name, bit⟩ := line
    rw [addLines] at h
    simp only [Action.result_bind_eq_ok_iff, Action.result_pure_eq_ok_iff] at h
    obtain ⟨pin, w₁, hpin, others, w₂, hothers, rfl, rfl⟩ := h
    have hgrow : Setup.Decorates w₁ w' := (moves_addLines rest).of_result hothers
    exact .cons ⟨rfl, hgrow.2.has (Setup.of_result_addPin hpin)⟩ (ih hothers)

/-- The bits of an object, with a pin for each line. -/
def Packs (site : Site) (label : String) (direction : Pin.Direction) (pins : PinTable)
    (lines : List (String × Nat)) (entry : RegRef) (p : PackedBits) : Prop :=
  p.entry = entry ∧ Shown site label direction pins lines p.bits

theorem Packs.mono {pins pins' : PinTable} {lines : List (String × Nat)} {entry : RegRef}
    {p : PackedBits} (h : Packs site label direction pins lines entry p)
    (hp : pins.Grows pins') : Packs site label direction pins' lines entry p :=
  ⟨h.1, h.2.mono hp⟩

theorem of_result_addPacked {lines : List (String × Nat)} {ref? : Option RegRef}
    {ps : List PackedBits} {w w' : Workspace μ}
    (h : (addPacked site label direction lines ref?).result w = (.ok ps, w')) :
    (∀ p ∈ ps, ∃ entry, ref? = some entry ∧
        Packs site label direction w'.pins lines entry p) ∧
      ∀ entry, ref? = some entry →
        ∃ p ∈ ps, Packs site label direction w'.pins lines entry p := by
  cases ref? with
  | none =>
    rw [addPacked, Action.result_pure_eq_ok_iff] at h
    rw [h.1]
    exact ⟨fun p hp => (List.not_mem_nil hp).elim, fun entry he => by cases he⟩
  | some entry =>
    rw [addPacked] at h
    simp only [Action.result_bind_eq_ok_iff, Action.result_pure_eq_ok_iff] at h
    obtain ⟨bits, w₁, hbits, rfl, rfl⟩ := h
    have hpacks : Packs site label direction w'.pins lines entry ⟨entry, bits⟩ :=
      ⟨rfl, of_result_addLines hbits⟩
    constructor
    · intro p hp
      rw [List.mem_singleton] at hp
      rw [hp]
      exact ⟨entry, rfl, hpacks⟩
    · intro entry' he
      cases he
      exact ⟨_, List.mem_singleton_self _, hpacks⟩

/-- The output lines of a channel. -/
def OutputLines (site : Site) (pins : PinTable) (x : Axis.Channel × Axis.ChannelOptions)
    (entry : RegRef) (p : PackedBits) : Prop :=
  Packs site x.2.label .input pins (numberedOutputs x.2.digitalOutputs) entry p

/-- The input lines of a channel, those with a meaning before the others. -/
def InputLines (site : Site) (pins : PinTable) (x : Axis.Channel × Axis.ChannelOptions)
    (entry : RegRef) (p : PackedBits) : Prop :=
  Packs site x.2.label .output pins (namedInputs ++ numberedInputs x.2.digitalInputs) entry p

/-- The lines of all channels come behind those that are there. -/
theorem of_result_addChannelLines {l : List (Axis.Channel × Axis.ChannelOptions)}
    {rig rig' : Rig} {w w' : Workspace μ}
    (h : (addChannelLines site rig l).result w = (.ok rig', w')) :
    rig'.channels = rig.channels ∧ rig.outputs ⊆ rig'.outputs ∧
      (∀ p ∈ rig'.outputs, p ∈ rig.outputs ∨ ∃ x ∈ l, ∃ entry,
        Axis.Channel.entry? x.1 .digitalOutput = some entry ∧ OutputLines site w'.pins x entry p) ∧
      (∀ x ∈ l, ∀ entry, Axis.Channel.entry? x.1 .digitalOutput = some entry →
        ∃ p ∈ rig'.outputs, OutputLines site w'.pins x entry p) ∧
      ∀ p ∈ rig'.inputs, p ∈ rig.inputs ∨ ∃ x ∈ l, ∃ entry,
        Axis.Channel.entry? x.1 .digitalInput = some entry ∧ InputLines site w'.pins x entry p := by
  induction l generalizing w rig with
  | nil =>
    rw [addChannelLines, Action.result_pure_eq_ok_iff] at h
    obtain ⟨rfl, -⟩ := h
    exact ⟨rfl, List.Subset.refl _, fun p hp => .inl hp, fun x hx => (List.not_mem_nil hx).elim,
      fun p hp => .inl hp⟩
  | cons x rest ih =>
    obtain ⟨c, o⟩ := x
    rw [addChannelLines] at h
    simp only [Action.result_bind_eq_ok_iff] at h
    obtain ⟨ins, w₁, hins, outs, w₂, houts, hrest⟩ := h
    obtain ⟨hchannels, hsub, hall, hex, hallins⟩ := ih hrest
    obtain ⟨hsound, hcomplete⟩ := of_result_addPacked houts
    have hsoundins := (of_result_addPacked hins).1
    have hrests : Setup.Decorates w₂ w' := (moves_addChannelLines rest _).of_result hrest
    have hins : Setup.Decorates w₁ w' :=
      trans_of Setup.Decorates ((moves_addPacked _ _).of_result houts) hrests
    have hgrow := hrests.2
    have hgrowins := hins.2
    refine ⟨hchannels, List.Subset.trans (List.subset_append_left _ _) hsub, ?_, ?_, ?_⟩
    · intro p hp
      rcases hall p hp with hp | ⟨x, hx, hp⟩
      · rcases List.mem_append.1 hp with hp | hp
        · exact .inl hp
        · obtain ⟨entry, he, hpacks⟩ := hsound p hp
          exact .inr ⟨(c, o), List.mem_cons_self, entry, he, hpacks.mono hgrow⟩
      · exact .inr ⟨x, List.mem_cons_of_mem _ hx, hp⟩
    · intro x hx entry he
      rcases List.mem_cons.1 hx with rfl | hx
      · obtain ⟨p, hp, hpacks⟩ := hcomplete entry he
        exact ⟨p, hsub (List.mem_append_right _ hp), hpacks.mono hgrow⟩
      · exact hex x hx entry he
    · intro p hp
      rcases hallins p hp with hp | ⟨x, hx, hp⟩
      · rcases List.mem_append.1 hp with hp | hp
        · exact .inl hp
        · obtain ⟨entry, he, hpacks⟩ := hsoundins p hp
          exact .inr ⟨(c, o), List.mem_cons_self, entry, he, hpacks.mono hgrowins⟩
      · exact .inr ⟨x, List.mem_cons_of_mem _ hx, hp⟩

end Stepper

end ServoBus
