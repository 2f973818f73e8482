import ServoBus.Image.Words
import ServoBus.Registration.Overlap

/-!
# Overlapping entries in machine words

The check for overlaps with counts for the bits at which entries start and stop. All of these are
found before any two entries are compared, so a single one that does not fit breaks the check.
-/

namespace ServoBus

namespace Registration

/-- The bits that an entry takes, if it has an offset. -/
def range? (r : Registration) : Option (Option Extent) :=
  match r.offset? with
  | some o => do
    let start ← o.position?
    let stop ← count? (start.toNat + r.width)
    some (some ⟨r.address, start.toNat, stop.toNat⟩)
  | none => some none

/-- The bits of the entry, and the one behind them, have numbers that fit. -/
def Fits (r : Registration) : Prop := ∀ o ∈ r.offset?, o.position + r.width < USize.size

instance : DecidablePred Fits := fun r =>
  inferInstanceAs (Decidable (∀ o ∈ r.offset?, o.position + r.width < USize.size))

theorem range?_eq {r : Registration} (h : r.Fits) : r.range? = some r.extent? := by
  unfold range? extent?
  cases ho : r.offset? with
  | none => rfl
  | some o =>
    have hstop : o.position + r.width < USize.size := h o ho
    have hstart : o.position < USize.size := Nat.lt_of_le_of_lt (Nat.le_add_right ..) hstop
    simp only [Offset.position?_eq hstart, Option.bind_eq_bind, Option.bind_some,
      USize.toNat_ofNat_of_lt' hstart, count?_eq hstop, USize.toNat_ofNat_of_lt' hstop,
      Option.map_some]

theorem range?_eq_none {r : Registration} (h : ¬ r.Fits) : r.range? = none := by
  unfold range?
  cases ho : r.offset? with
  | none => exact absurd (by simp [Fits, ho]) h
  | some o =>
    have hstop : USize.size ≤ o.position + r.width := by simpa [Fits, ho] using h
    dsimp only
    by_cases hstart : o.position < USize.size
    · simp only [Offset.position?_eq hstart, Option.bind_eq_bind, Option.bind_some,
        USize.toNat_ofNat_of_lt' hstart, count?_eq_none hstop, Option.bind_none]
    · simp only [Offset.position?_eq_none (Nat.not_lt.1 hstart), Option.bind_eq_bind,
        Option.bind_none]

end Registration

def checkOverlap? (entries : List Registration) : Option (Checked Unit) := do
  let ranges ← entries.mapM (·.range?)
  some (Extent.check (ranges.filterMap id))

theorem mapM_range?_eq_none {entries : List Registration} (h : ∃ r ∈ entries, ¬ r.Fits) :
    entries.mapM (·.range?) = none := by
  induction entries with
  | nil =>
    obtain ⟨r, hr, -⟩ := h
    cases hr
  | cons r rest ih =>
    rw [List.mapM_cons]
    by_cases hr : r.Fits
    · have hrest : ∃ q ∈ rest, ¬ q.Fits := by
        obtain ⟨q, hq, hfits⟩ := h
        rcases List.mem_cons.1 hq with rfl | hq
        · exact absurd hr hfits
        · exact ⟨q, hq, hfits⟩
      rw [Registration.range?_eq hr, ih hrest]
      rfl
    · rw [Registration.range?_eq_none hr]
      rfl

/-- Entries whose bits can be counted are checked as ever. -/
theorem checkOverlap?_eq {entries : List Registration} (h : ∀ r ∈ entries, r.Fits) :
    checkOverlap? entries = some (checkOverlap entries) := by
  have hranges : entries.mapM (·.range?) = some (entries.map (·.extent?)) :=
    mapM_eq_some_map fun r hr => Registration.range?_eq (h r hr)
  rw [checkOverlap?, hranges, Option.bind_eq_bind, Option.bind_some, List.filterMap_map]
  rfl

/-- One entry whose bits cannot be counted is enough to break the check. -/
theorem checkOverlap?_eq_none {entries : List Registration} (h : ∃ r ∈ entries, ¬ r.Fits) :
    checkOverlap? entries = none := by
  rw [checkOverlap?, mapM_range?_eq_none h]
  rfl

theorem checkOverlap?_eq_some_iff {entries : List Registration} {check : Checked Unit} :
    checkOverlap? entries = some check ↔
      (∀ r ∈ entries, r.Fits) ∧ check = checkOverlap entries := by
  by_cases h : ∀ r ∈ entries, r.Fits
  · rw [checkOverlap?_eq h, Option.some_inj, eq_comm]
    exact (and_iff_right h).symm
  · have hsome : ∃ r ∈ entries, ¬ r.Fits := by simpa using h
    rw [checkOverlap?_eq_none hsome]
    constructor
    · intro heq
      cases heq
    · rintro ⟨hfits, -⟩
      exact absurd hfits h

theorem yields_checkOverlap (entries : List Registration) :
    Yields (∀ r ∈ entries, r.Fits) (checkOverlap? entries) (checkOverlap entries) where
  eq _ h := (checkOverlap?_eq_some_iff.1 h).2
  safe := checkOverlap?_eq

end ServoBus
