import Mathlib.Data.List.Nodup
import Mathlib.Data.List.Perm.Basic
import ServoBus.Param.Declaration

/-!
# The latest settings

A configuration may set a parameter more than once, under one name or under two. The latest
setting of each number is what counts, provided that settings of different numbers write different
things: `foldl_latest` says this of a single thing that is written, whatever it is.
-/

namespace ServoBus.Param.Setting

variable {β : Type} {p q : Setting} {ps qs : List Setting}

/-- The last setting of each number, in the order in which they are given. -/
def latest : List Setting → List Setting
  | [] => []
  | p :: ps => if ps.any (·.id == p.id) then latest ps else p :: latest ps

theorem latest_cons_of_mem (hq : q ∈ ps) (hid : q.id = p.id) :
    latest (p :: ps) = latest ps := by
  have hany : ps.any (·.id == p.id) = true := List.any_eq_true.2 ⟨q, hq, beq_iff_eq.2 hid⟩
  rw [latest, if_pos hany]

theorem latest_cons_of_not_mem (h : ∀ q ∈ ps, q.id ≠ p.id) :
    latest (p :: ps) = p :: latest ps := by
  have hany : ¬ ps.any (·.id == p.id) = true := by simpa using h
  rw [latest, if_neg hany]

theorem latest_sublist (ps : List Setting) : (latest ps).Sublist ps := by
  induction ps with
  | nil => exact .slnil
  | cons p ps ih =>
    rw [latest]
    split
    · exact ih.cons p
    · exact ih.cons_cons p

theorem nodup_ids_latest (ps : List Setting) : ((latest ps).map (·.id)).Nodup := by
  induction ps with
  | nil => exact List.nodup_nil
  | cons p ps ih =>
    by_cases h : ∃ q ∈ ps, q.id = p.id
    · obtain ⟨q, hq, hid⟩ := h
      rwa [latest_cons_of_mem hq hid]
    · have h : ∀ q ∈ ps, q.id ≠ p.id := fun q hq hid => h ⟨q, hq, hid⟩
      rw [latest_cons_of_not_mem h, List.map_cons, List.nodup_cons]
      refine ⟨fun hmem => ?_, ih⟩
      obtain ⟨q, hq, hid⟩ := List.mem_map.1 hmem
      exact h q ((latest_sublist ps).subset hq) hid

/-- What settings write is written by those of one number, and by all of these. -/
def Owned (write : Setting → Option β) (ps : List Setting) : Prop :=
  ∀ p ∈ ps, ∀ q ∈ ps, (write p).isSome → ((write q).isSome ↔ q.id = p.id)

variable {write : Setting → Option β}

theorem Owned.mono (h : Owned write ps) (hsub : qs ⊆ ps) : Owned write qs :=
  fun p hp q hq => h p (hsub hp) q (hsub hq)

/-- What is written somewhere does not depend on what was there before. -/
theorem foldl_getD_eq_of_isSome (hp : p ∈ ps) (h : (write p).isSome) (b b' : β) :
    ps.foldl (fun b p => (write p).getD b) b = ps.foldl (fun b p => (write p).getD b) b' := by
  induction ps generalizing b b' with
  | nil => cases hp
  | cons q ps ih =>
    rw [List.foldl_cons, List.foldl_cons]
    rcases List.mem_cons.1 hp with rfl | hp
    · obtain ⟨x, hx⟩ := Option.isSome_iff_exists.1 h
      rw [hx, Option.getD_some, Option.getD_some]
    · exact ih hp _ _

/-- A setting that is given again later leaves nothing behind. -/
theorem foldl_latest (h : Owned write ps) (b : β) :
    (latest ps).foldl (fun b p => (write p).getD b) b =
      ps.foldl (fun b p => (write p).getD b) b := by
  induction ps generalizing b with
  | nil => rfl
  | cons p ps ih =>
    have htail := h.mono (List.subset_cons_self p ps)
    by_cases hlater : ∃ q ∈ ps, q.id = p.id
    · obtain ⟨q, hq, hid⟩ := hlater
      rw [latest_cons_of_mem hq hid, ih htail, List.foldl_cons]
      cases hw : write p with
      | none => rfl
      | some x =>
        have hsome : (write p).isSome := by rw [hw, Option.isSome_some]
        exact foldl_getD_eq_of_isSome hq
          ((h p List.mem_cons_self q (List.mem_cons_of_mem p hq) hsome).2 hid) _ _
    · rw [latest_cons_of_not_mem fun q hq hid => hlater ⟨q, hq, hid⟩, List.foldl_cons,
        List.foldl_cons, ih htail]

/-- The latest settings may be given in any order. -/
theorem foldl_perm_latest (h : Owned write ps) (hqs : qs.Perm (latest ps)) (b : β) :
    qs.foldl (fun b p => (write p).getD b) b = ps.foldl (fun b p => (write p).getD b) b := by
  rw [← foldl_latest h]
  refine List.Perm.foldl_eq' hqs (fun p hp q hq b => ?_) b
  have hp := hqs.subset hp
  have hq := hqs.subset hq
  cases hwp : write p with
  | none => rfl
  | some x =>
    cases hwq : write q with
    | none => rfl
    | some y =>
      -- two settings that write are one, as they have one number
      have hid : q.id = p.id :=
        (h p ((latest_sublist ps).subset hp) q ((latest_sublist ps).subset hq)
          (by rw [hwp, Option.isSome_some])).1 (by rw [hwq, Option.isSome_some])
      have heq : q = p := List.inj_on_of_nodup_map (nodup_ids_latest ps) hq hp hid
      rw [heq, hwp] at hwq
      cases hwq
      rfl

end ServoBus.Param.Setting
