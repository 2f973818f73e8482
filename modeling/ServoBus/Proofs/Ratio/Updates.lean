import Mathlib.Data.Option.Basic
import ServoBus.Ratio.Convergent

/-!
# Updates of a convergent

The loop behind `Expansion.best` is told here without a count of its steps. What it has done so far
are the quotients that it has taken. It goes on as long as there is a number left to be expanded and
the convergent can be extended by its whole part.

Whatever the numbers are, the cross products of a convergent differ by one, so that it is in lowest
terms, and its denominator is within the bound.
-/

namespace ServoBus

namespace Convergent

variable {bound a : Int} {c d : Convergent}

theorem mulAdd?_of_nonneg {m a k : Int} (hp : 0 ≤ m * a) (hk : 0 ≤ k)
    (hlt : m * a + k < 0x8000000000000000) : mulAdd? m a k = some (m * a + k) :=
  mulAdd?_eq_some_iff.2 ⟨⟨by omega, by omega⟩, ⟨by omega, by omega⟩, rfl⟩

theorem extend?_eq_some_iff :
    c.extend? bound a = some d ↔
      mulAdd? c.denominator a c.lastDenominator = some d.denominator ∧ d.denominator ≤ bound ∧
        mulAdd? c.numerator a c.lastNumerator = some d.numerator ∧ d = c.extend a := by
  simp only [extend?, Option.bind_eq_bind, Option.bind_eq_some_iff, Option.guard_eq_some',
    Option.pure_def, Option.some.injEq]
  constructor
  · rintro ⟨n, hn, _, hle, m, hm, rfl⟩
    obtain ⟨-, -, rfl⟩ := mulAdd?_eq_some_iff.1 hn
    obtain ⟨-, -, rfl⟩ := mulAdd?_eq_some_iff.1 hm
    exact ⟨hn, hle, hm, rfl⟩
  · rintro ⟨hn, hle, hm, rfl⟩
    exact ⟨_, hn, (), hle, _, hm, rfl⟩

theorem eq_extend_of_extend? (h : c.extend? bound a = some d) : d = c.extend a :=
  (extend?_eq_some_iff.1 h).2.2.2

theorem denominator_le_of_extend? (h : c.extend? bound a = some d) : d.denominator ≤ bound :=
  (extend?_eq_some_iff.1 h).2.1

/-- The parts that do not fit keep a convergent from being extended. -/
theorem extend?_eq_none_of_mulAdd?
    (h : mulAdd? c.denominator a c.lastDenominator = none ∨
      mulAdd? c.numerator a c.lastNumerator = none) : c.extend? bound a = none := by
  refine Option.eq_none_iff_forall_ne_some.2 fun d hd => ?_
  obtain ⟨hn, -, hm, -⟩ := extend?_eq_some_iff.1 hd
  rcases h with h | h
  · rw [h] at hn
    cases hn
  · rw [h] at hm
    cases hm

end Convergent

namespace Expansion

variable {α : Type}

/-- The convergent after some quotients, with the number that is expanded next, if any. -/
inductive Updates (e : Expansion α) (bound : Nat) (x : α) :
    List Int → Convergent → Option α → Prop
  | start : Updates e bound x [] .start (some x)
  | update {as c y a d} : Updates e bound x as c (some y) → e.whole? y = some a →
      c.extend? bound a = some d → Updates e bound x (as ++ [a]) d (e.rest? y a)

/-- The convergent cannot be extended by the whole part of a number. -/
def Stops (e : Expansion α) (bound : Nat) (c : Convergent) (y : α) : Prop :=
  ∀ a, e.whole? y = some a → c.extend? bound a = none

/-- The loop comes to its end with a convergent. -/
def Ends (e : Expansion α) (bound : Nat) (x : α) (c : Convergent) : Prop :=
  ∃ as next, e.Updates bound x as c next ∧ ∀ y ∈ next, e.Stops bound c y

variable {e : Expansion α} {bound : Nat} {x y : α} {as : List Int} {c d : Convergent}
  {next : Option α}

namespace Updates

theorem cross_eq (h : e.Updates bound x as c next) : c.cross = 1 ∨ c.cross = -1 := by
  induction h with
  | start => exact Or.inl Convergent.cross_start
  | update _ _ hd ih =>
    rw [Convergent.eq_extend_of_extend? hd, Convergent.cross_extend]
    omega

theorem denominator_le (h : e.Updates bound x as c next) : c.denominator ≤ bound := by
  cases h with
  | start => exact Int.natCast_nonneg bound
  | update _ _ hd => exact Convergent.denominator_le_of_extend? hd

theorem ends (h : e.Updates bound x as c next) (hstop : ∀ y ∈ next, e.Stops bound c y) :
    e.Ends bound x c :=
  ⟨as, next, h, hstop⟩

/-- An overflow ends the loop with what was complete before it. -/
theorem ends_of_mulAdd? (h : e.Updates bound x as c (some y))
    (hoverflow : ∀ a, e.whole? y = some a →
      Convergent.mulAdd? c.denominator a c.lastDenominator = none ∨
        Convergent.mulAdd? c.numerator a c.lastNumerator = none) : e.Ends bound x c := by
  refine h.ends fun z hz a ha => ?_
  cases hz
  exact Convergent.extend?_eq_none_of_mulAdd? (hoverflow a ha)

end Updates

/-- Every update but the latest left a number that was expanded further. -/
theorem Updates.exists_update (h : e.Updates bound x as c next) {n : Nat} (hn : n < as.length) :
    ∃ bs d y a d', bs.length = n ∧ e.Updates bound x bs d (some y) ∧ e.whole? y = some a ∧
      d.extend? bound a = some d' := by
  induction h with
  | start => exact absurd hn (Nat.not_lt_zero n)
  | @update bs c y a d hu ha hd ih =>
    rw [List.length_append, List.length_singleton] at hn
    rcases Nat.lt_or_eq_of_le (Nat.lt_succ_iff.1 hn) with hlt | rfl
    · exact ih hlt
    · exact ⟨bs, c, y, a, d, rfl, hu, ha, hd⟩

/-- The number of updates determines what they have come to. -/
theorem Updates.unique {bs : List Int} {next' : Option α} (h : e.Updates bound x as c next)
    (h' : e.Updates bound x bs d next') (hlength : as.length = bs.length) :
    c = d ∧ next = next' := by
  induction h generalizing bs d next' with
  | start =>
    cases h' with
    | start => exact ⟨rfl, rfl⟩
    | update => simp at hlength
  | update hu ha hd ih =>
    cases h' with
    | start => simp at hlength
    | update hu' ha' hd' =>
      obtain ⟨rfl, hy⟩ := ih hu' (by simpa using hlength)
      cases hy
      obtain rfl := Option.some.inj (ha.symm.trans ha')
      exact ⟨Option.some.inj (hd.symm.trans hd'), rfl⟩

/-- The loop does not go on where it has come to its end. -/
theorem Updates.length_le_of_stops {bs : List Int} {next' : Option α}
    (h : e.Updates bound x as c next) (hstop : ∀ y ∈ next, e.Stops bound c y)
    (h' : e.Updates bound x bs d next') : bs.length ≤ as.length := by
  by_contra hlt
  obtain ⟨cs, c', y, a, d', hlength, hu, ha, hd⟩ := h'.exists_update (Nat.not_le.1 hlt)
  obtain ⟨rfl, rfl⟩ := h.unique hu hlength.symm
  rw [hstop y rfl a ha] at hd
  cases hd

theorem Ends.unique (h : e.Ends bound x c) (h' : e.Ends bound x d) : c = d := by
  obtain ⟨as, next, hu, hstop⟩ := h
  obtain ⟨bs, next', hu', hstop'⟩ := h'
  have hlength := Nat.le_antisymm (hu'.length_le_of_stops hstop' hu)
    (hu.length_le_of_stops hstop hu')
  exact (hu.unique hu' hlength).1

theorem run_succ (e : Expansion α) (bound steps : Nat) (y : α) (c : Convergent) :
    (e.Stops bound c y ∧ e.run bound (steps + 1) y c = c) ∨
      ∃ a d, e.whole? y = some a ∧ c.extend? bound a = some d ∧
        e.run bound (steps + 1) y c =
          match e.rest? y a with
          | none => d
          | some z => e.run bound steps z d := by
  rw [run]
  cases hb : (e.whole? y).bind fun a => (c.extend? bound a).map fun d => (a, d) with
  | none =>
    refine Or.inl ⟨fun a ha => ?_, rfl⟩
    rw [ha, Option.bind_some, Option.map_eq_none_iff] at hb
    exact hb
  | some ad =>
    obtain ⟨a, ha, hmap⟩ := Option.bind_eq_some_iff.1 hb
    obtain ⟨d, hd, rfl⟩ := Option.map_eq_some_iff.1 hmap
    exact Or.inr ⟨a, d, ha, hd, rfl⟩

/-- A loop that is given a number of steps comes to its end or takes that number of quotients. -/
theorem Updates.run (h : e.Updates bound x as c (some y)) (steps : Nat) :
    ∃ bs next, e.Updates bound x bs (e.run bound steps y c) next ∧
      ((∀ z ∈ next, e.Stops bound (e.run bound steps y c) z) ∨ bs.length = as.length + steps) := by
  induction steps generalizing as c y with
  | zero => exact ⟨as, some y, h, Or.inr rfl⟩
  | succ steps ih =>
    rcases e.run_succ bound steps y c with ⟨hstop, hrun⟩ | ⟨a, d, ha, hd, hrun⟩
    · rw [hrun]
      refine ⟨as, some y, h, Or.inl fun z hz => ?_⟩
      cases hz
      exact hstop
    · have hnext := h.update ha hd
      rw [hrun]
      cases hz : e.rest? y a with
      | none =>
        rw [hz] at hnext
        exact ⟨_, none, hnext, Or.inl fun z hz => nomatch hz⟩
      | some z =>
        rw [hz] at hnext
        obtain ⟨bs, next, hu, hend⟩ := ih hnext
        refine ⟨bs, next, hu, hend.imp_right fun hlength => ?_⟩
        rw [hlength, List.length_append, List.length_singleton]
        omega

/-- What the loop gives back is a convergent that it has come to. -/
theorem exists_updates_best (e : Expansion α) (bound : Nat) (x : α) :
    ∃ as next, e.Updates bound x as (e.best bound x) next ∧
      ((∀ y ∈ next, e.Stops bound (e.best bound x) y) ∨
        as.length = 2 * Nat.log2 bound + 4) := by
  have hstart : e.Updates bound x [] .start (some x) := .start
  obtain ⟨as, next, hu, hend⟩ := hstart.run (2 * Nat.log2 bound + 4)
  refine ⟨as, next, hu, hend.imp_right fun hlength => ?_⟩
  rw [hlength, List.length_nil, Nat.zero_add]

end Expansion

end ServoBus
