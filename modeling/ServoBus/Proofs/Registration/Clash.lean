import Mathlib.Data.List.Basic
import Mathlib.Data.List.Perm.Subperm
import Mathlib.Data.List.Permutation
import ServoBus.Proofs.Registration.Overlap
import ServoBus.Registration.Words

/-!
# What the check for overlaps says

When the check for overlaps fails it names two neighbours in the order of positions. They stand
at different places of the list that was checked, both have an offset, and the bit at which the
second one starts belongs to both. Whether the check fails does not depend on the order of the
entries, although the pair that is named may, and entries without an offset have no part in it.

All of this is so as long as the bits of all entries can be counted. A single entry too far away
leaves the check without an answer, even where nothing overlaps.
-/

namespace ServoBus

namespace Extent

/-- What is found are neighbours, of which the first reaches over the start of the second. -/
theorem of_clash?_eq_some {l : List Extent} {a b : Extent} (h : clash? l = some (a, b)) :
    [a, b].Sublist l ∧ b.start < a.stop := by
  induction l with
  | nil => cases h
  | cons c rest ih =>
    cases rest with
    | nil => cases h
    | cons d rest =>
      rw [clash?] at h
      split at h
      · next hlt =>
        cases h
        exact ⟨((List.nil_sublist rest).cons_cons _).cons_cons _, hlt⟩
      · obtain ⟨hsub, hlt⟩ := ih h
        exact ⟨hsub.cons c, hlt⟩

end Extent

namespace Registration

variable {entries : List Registration} {r q : Registration} {a b : Extent}

/-- The bits of an extent are those of its entry. -/
theorem covers_iff_extent? (h : r.extent? = some a) {i : Nat} :
    r.Covers i ↔ a.start ≤ i ∧ i < a.stop := by
  obtain ⟨o, ho, rfl⟩ := Option.map_eq_some_iff.1 h
  rw [Covers, ho]
  simp

theorem address_of_extent? (h : r.extent? = some a) : a.address = r.address := by
  obtain ⟨o, -, rfl⟩ := Option.map_eq_some_iff.1 h
  rfl

/-- Two extents in a row belong to entries in a row. -/
theorem exists_places_of_sublist (h : [a, b].Sublist (entries.filterMap (·.extent?))) :
    ∃ (i j : Nat) (r q : Registration), i < j ∧ entries[i]? = some r ∧ entries[j]? = some q ∧
      r.extent? = some a ∧ q.extent? = some b := by
  induction entries with
  | nil => cases h
  | cons e rest ih =>
    have hlater (hrest : [a, b].Sublist (rest.filterMap (·.extent?))) :
        ∃ (i j : Nat) (r q : Registration), i < j ∧ (e :: rest)[i]? = some r ∧
          (e :: rest)[j]? = some q ∧ r.extent? = some a ∧ q.extent? = some b := by
      obtain ⟨i, j, r, q, hij, hr, hq, hra, hqb⟩ := ih hrest
      exact ⟨i + 1, j + 1, r, q, Nat.succ_lt_succ hij, hr, hq, hra, hqb⟩
    cases he : e.extent? with
    | none =>
      rw [List.filterMap_cons_none he] at h
      exact hlater h
    | some c =>
      rw [List.filterMap_cons_some he] at h
      rcases List.sublist_cons_iff.1 h with h | ⟨tail, htail, hrest⟩
      · exact hlater h
      · obtain ⟨rfl, rfl⟩ := List.cons.inj htail
        obtain ⟨q, hq, hqb⟩ := List.mem_filterMap.1 (List.singleton_sublist.1 hrest)
        obtain ⟨j, hj⟩ := List.getElem?_of_mem hq
        exact ⟨0, j + 1, e, q, Nat.succ_pos j, rfl, hj, he, hqb⟩

/-- Two extents, in whatever order, belong to entries at different places. -/
theorem exists_places_of_subperm (h : [a, b].Subperm (entries.filterMap (·.extent?))) :
    ∃ (i j : Nat) (r q : Registration), i ≠ j ∧ entries[i]? = some r ∧ entries[j]? = some q ∧
      r.extent? = some a ∧ q.extent? = some b := by
  obtain ⟨l, hperm, hl⟩ := h
  rcases List.perm_pair.1 hperm with rfl | rfl
  · obtain ⟨i, j, r, q, hij, hr, hq, hra, hqb⟩ := exists_places_of_sublist hl
    exact ⟨i, j, r, q, Nat.ne_of_lt hij, hr, hq, hra, hqb⟩
  · obtain ⟨j, i, q, r, hij, hq, hr, hqb, hra⟩ := exists_places_of_sublist hl
    exact ⟨i, j, r, q, Nat.ne_of_gt hij, hr, hq, hra, hqb⟩

end Registration

/-- The entries that are found share the bit at which the second one starts. -/
theorem of_overlapping?_eq_some {entries : List Registration}
    (hw : ∀ r ∈ entries, 0 < r.width) {a b : Extent} (h : overlapping? entries = some (a, b)) :
    ∃ (i j : Nat) (r q : Registration), i ≠ j ∧ entries[i]? = some r ∧ entries[j]? = some q ∧
      a.address = r.address ∧ b.address = q.address ∧ ∃ k, r.Covers k ∧ q.Covers k := by
  obtain ⟨hsub, hlt⟩ := Extent.of_clash?_eq_some h
  have hle := Extent.le_iff.1 (List.rel_of_pairwise_cons
    ((Extent.sort_sorted _).sublist hsub) List.mem_cons_self)
  obtain ⟨i, j, r, q, hij, hr, hq, hra, hqb⟩ :=
    Registration.exists_places_of_subperm (hsub.subperm.trans (Extent.sort_perm _).subperm)
  have hwidth : b.start < b.stop := by
    obtain ⟨o, -, rfl⟩ := Option.map_eq_some_iff.1 hqb
    exact Nat.lt_add_of_pos_right (hw q (List.mem_of_getElem? hq))
  refine ⟨i, j, r, q, hij, hr, hq, Registration.address_of_extent? hra,
    Registration.address_of_extent? hqb, b.start, ?_, ?_⟩
  · rw [Registration.covers_iff_extent? hra]
    omega
  · rw [Registration.covers_iff_extent? hqb]
    omega

/-- A failed check names entries at different places that share a bit. -/
theorem exists_of_outcome_checkOverlap_eq_error {entries : List Registration}
    (hw : ∀ r ∈ entries, 0 < r.width) {e : Fault} (h : (checkOverlap entries).outcome = .error e) :
    ∃ (i j : Nat) (r q : Registration), i ≠ j ∧ entries[i]? = some r ∧ entries[j]? = some q ∧
      e = .overlap r.address q.address ∧ ∃ k, r.Covers k ∧ q.Covers k := by
  rw [outcome_checkOverlap] at h
  split at h
  · cases h
  · next a b hfound =>
    cases h
    obtain ⟨i, j, r, q, hij, hr, hq, hra, hqb, hk⟩ := of_overlapping?_eq_some hw hfound
    exact ⟨i, j, r, q, hij, hr, hq, by rw [hra, hqb], hk⟩

/-- Entries without an offset take no part in the check. -/
theorem checkOverlap_filter (entries : List Registration) :
    checkOverlap (entries.filter (·.offset?.isSome)) = checkOverlap entries := by
  rw [checkOverlap, checkOverlap, List.filterMap_filter]
  congr 1
  refine List.filterMap_congr fun r _ => ?_
  cases ho : r.offset? with
  | none => simp [Registration.extent?, ho]
  | some o => simp [Registration.extent?, ho]

theorem isOk_checkOverlap_of_perm {entries entries' : List Registration}
    (hw : ∀ r ∈ entries, 0 < r.width) (hperm : entries'.Perm entries) :
    (checkOverlap entries').outcome.isOk = (checkOverlap entries).outcome.isOk := by
  have hw' : ∀ r ∈ entries', 0 < r.width := fun r hr => hw r (hperm.mem_iff.1 hr)
  have hiff :
      (checkOverlap entries').outcome = .ok () ↔ (checkOverlap entries).outcome = .ok () := by
    rw [outcome_checkOverlap_eq_ok_iff hw, outcome_checkOverlap_eq_ok_iff hw',
      hperm.pairwise_iff Registration.Apart.symm]
  rcases h : (checkOverlap entries).outcome with e | ⟨⟩
  · rcases h' : (checkOverlap entries').outcome with e' | ⟨⟩
    · rfl
    · rw [hiff.1 h'] at h
      cases h
  · rw [hiff.2 h]

/-- Whether all bits can be counted is a matter of the entries that have an offset. -/
theorem forall_fits_filter_iff {entries : List Registration} :
    (∀ r ∈ entries.filter (·.offset?.isSome), r.Fits) ↔ ∀ r ∈ entries, r.Fits := by
  constructor
  · intro h r hr o ho
    exact h r (List.mem_filter.2 ⟨hr, Option.isSome_of_mem ho⟩) o ho
  · intro h r hr
    exact h r (List.mem_filter.1 hr).1

/-- The check gives an answer exactly if the bits of all entries can be counted. Then it passes
exactly if no two entries share a bit, and otherwise it names two entries of the list that do. It
does not look at entries without an offset, and neither whether it gives an answer nor whether it
passes depends on the order of the entries. -/
theorem checkOverlap?_exact {entries : List Registration} (hw : ∀ r ∈ entries, 0 < r.width) :
    (checkOverlap? entries = none ↔ ∃ r ∈ entries, ¬ r.Fits) ∧
    (∀ check, checkOverlap? entries = some check →
      (check.outcome = .ok () ↔ entries.Pairwise Registration.Apart) ∧
      ∀ e, check.outcome = .error e →
        ∃ (i j : Nat) (r q : Registration), i ≠ j ∧ entries[i]? = some r ∧ entries[j]? = some q ∧
          e = .overlap r.address q.address ∧ ∃ k, r.Covers k ∧ q.Covers k) ∧
    checkOverlap? (entries.filter (·.offset?.isSome)) = checkOverlap? entries ∧
    ∀ entries' : List Registration, entries'.Perm entries →
      (checkOverlap? entries').map (·.outcome.isOk) =
        (checkOverlap? entries).map (·.outcome.isOk) := by
  by_cases hfits : ∀ r ∈ entries, r.Fits
  case pos =>
    rw [checkOverlap?_eq hfits, checkOverlap?_eq (forall_fits_filter_iff.2 hfits),
      checkOverlap_filter]
    refine ⟨?_, ?_, rfl, ?_⟩
    · simpa using hfits
    · intro check hcheck
      cases hcheck
      exact ⟨outcome_checkOverlap_eq_ok_iff hw,
        fun e he => exists_of_outcome_checkOverlap_eq_error hw he⟩
    · intro entries' hperm
      rw [checkOverlap?_eq fun r hr => hfits r (hperm.mem_iff.1 hr), Option.map_some,
        Option.map_some, isOk_checkOverlap_of_perm hw hperm]
  case neg =>
    have hfar : ∃ r ∈ entries, ¬ r.Fits := by simpa using hfits
    have hfilter : ∃ r ∈ entries.filter (·.offset?.isSome), ¬ r.Fits := by
      simpa [and_assoc] using mt forall_fits_filter_iff.1 hfits
    rw [checkOverlap?_eq_none hfar, checkOverlap?_eq_none hfilter]
    refine ⟨iff_of_true rfl hfar, ?_, rfl, ?_⟩
    · intro check hcheck
      cases hcheck
    · intro entries' hperm
      obtain ⟨r, hr, hnot⟩ := hfar
      rw [checkOverlap?_eq_none ⟨r, hperm.mem_iff.2 hr, hnot⟩]

/-- A wide entry, which stands last, two narrow ones within it that are apart, and one without an
offset. -/
def nestedEntries : List Registration :=
  [⟨0, ⟨0x6064, 0⟩, 8, some ⟨3, 0⟩⟩, ⟨0, ⟨0x6041, 0⟩, 16, none⟩,
    ⟨1, ⟨0x60fd, 0⟩, 4, some ⟨1, 4⟩⟩, ⟨1, ⟨0x6077, 0⟩, 32, some ⟨0, 2⟩⟩]

/-- The wide entry is named with its neighbour, and the list fails in any other order, too. -/
theorem checkOverlap?_nestedEntries :
    (∀ r ∈ nestedEntries, 0 < r.width) ∧
      (checkOverlap? nestedEntries).map (·.outcome) =
        some (.error (.overlap ⟨0x6077, 0⟩ ⟨0x60fd, 0⟩)) ∧
      (∃ (i j : Nat) (r q : Registration), i ≠ j ∧ nestedEntries[i]? = some r ∧
        nestedEntries[j]? = some q ∧ r.address = ⟨0x6077, 0⟩ ∧ q.address = ⟨0x60fd, 0⟩ ∧
          ∃ k, r.Covers k ∧ q.Covers k) ∧
      ∀ entries' : List Registration, entries'.Perm nestedEntries →
        (checkOverlap? entries').map (·.outcome.isOk) = some false := by
  have hw : ∀ r ∈ nestedEntries, 0 < r.width := by decide
  have hfits : ∀ r ∈ nestedEntries, r.Fits := by
    have hsmall : ∀ r ∈ nestedEntries, ∀ o ∈ r.offset?, o.position + r.width < 4294967296 := by
      decide
    exact fun r hr o ho => lt_size_of_lt (hsmall r hr o ho)
  have hcheck := checkOverlap?_eq hfits
  have hfound : overlapping? nestedEntries =
      some (⟨⟨0x6077, 0⟩, 2, 34⟩, ⟨⟨0x60fd, 0⟩, 12, 16⟩) := by decide
  have herror : (checkOverlap nestedEntries).outcome =
      .error (.overlap ⟨0x6077, 0⟩ ⟨0x60fd, 0⟩) := by
    rw [outcome_checkOverlap, hfound]
  obtain ⟨-, hanswer, -, hperm⟩ := checkOverlap?_exact hw
  refine ⟨hw, by rw [hcheck, Option.map_some, herror], ?_, ?_⟩
  · obtain ⟨i, j, r, q, hij, hr, hq, haddr, hk⟩ := (hanswer _ hcheck).2 _ herror
    obtain ⟨hra, hqb⟩ := Fault.overlap.inj haddr
    exact ⟨i, j, r, q, hij, hr, hq, hra.symm, hqb.symm, hk⟩
  · intro entries' hentries
    rw [hperm entries' hentries, hcheck, Option.map_some, herror]
    rfl

/-- Two entries that are apart, of which the second one is so far away that its bits cannot be
counted, however large the words are. -/
def farEntries : List Registration :=
  [⟨0, ⟨0x6040, 0⟩, 16, some ⟨0, 0⟩⟩, ⟨0, ⟨0x6041, 0⟩, 16, some ⟨0x2000000000000000, 0⟩⟩]

/-- The check does not pass although no two entries share a bit, and it does not fail either. -/
theorem checkOverlap?_farEntries :
    (∀ r ∈ farEntries, 0 < r.width) ∧ farEntries.Pairwise Registration.Apart ∧
      checkOverlap? farEntries = none := by
  have hw : ∀ r ∈ farEntries, 0 < r.width := by decide
  refine ⟨hw, (overlapping?_eq_none_iff hw).1 (by decide), checkOverlap?_eq_none ?_⟩
  refine ⟨_, List.mem_cons_of_mem _ (List.mem_singleton_self _), fun hfits => ?_⟩
  have hlt : 0x2000000000000000 * 8 + 16 < USize.size := hfits _ rfl
  exact absurd hlt (Nat.not_lt.2 (Nat.le_trans USize.size_le (by decide)))

end ServoBus
