import ServoBus.Proofs.Double.Expansion
import ServoBus.Proofs.Ratio.Updates

/-!
# Denominators that grow

A denominator may stay as it is for one step, when a quotient is one and the denominator before it
is zero, so it need not double. It is at least the sum of the two before it whenever the quotients
are at least one, and so denominators grow like the Fibonacci numbers. That bounds the number of
steps by the logarithm of the bound, and the loop comes to its end with the steps that it is given.
-/

namespace ServoBus

namespace Expansion

variable {α : Type}

/-- The numbers of a set have whole parts that are not negative, and what they leave belongs to the
set again and has a whole part that is at least one. -/
structure Proper (e : Expansion α) (P : α → Prop) : Prop where
  whole_nonneg : ∀ {y a}, P y → e.whole? y = some a → 0 ≤ a
  rest : ∀ {y a z}, P y → e.whole? y = some a → e.rest? y a = some z → P z
  one_le : ∀ {y a z b}, P y → e.whole? y = some a → e.rest? y a = some z →
    e.whole? z = some b → 1 ≤ b

/-- What the denominators have grown to with some quotients, and what is known of the number that is
expanded next. -/
structure Grown (e : Expansion α) (P : α → Prop) (as : List Int) (c : Convergent)
    (next : Option α) : Prop where
  one_le : ∀ a ∈ as.tail, 1 ≤ a
  fib_le : (Nat.fib as.length : Int) ≤ c.denominator
  fib_le_last : ∀ n, as.length = n + 1 → (Nat.fib n : Int) ≤ c.lastDenominator
  next : ∀ y ∈ next, P y ∧ (as ≠ [] → ∀ b, e.whole? y = some b → 1 ≤ b)

variable {e : Expansion α} {P : α → Prop} {bound : Nat} {x y : α} {as : List Int} {a : Int}
  {c d : Convergent} {next : Option α}

theorem Updates.eq_start (h : e.Updates bound x [] c next) : c = .start := by
  generalize hnil : ([] : List Int) = bs at h
  cases h with
  | start => rfl
  | update => simp at hnil

/-- One more quotient behind the first. -/
theorem Grown.le_extend (h : Grown e P as c next) (hne : as ≠ []) (ha : 1 ≤ a) :
    c.denominator + c.lastDenominator ≤ (c.extend a).denominator ∧ 0 ≤ c.lastDenominator := by
  obtain ⟨n, hn⟩ := Nat.exists_eq_add_one_of_ne_zero (mt List.length_eq_zero_iff.1 hne)
  have hden : 0 ≤ c.denominator := (Int.natCast_nonneg _).trans h.fib_le
  have hlast : 0 ≤ c.lastDenominator := (Int.natCast_nonneg _).trans (h.fib_le_last n hn)
  refine ⟨Int.add_le_add_right ?_ _, hlast⟩
  exact le_mul_of_one_le_right hden ha

theorem Grown.extend (hproper : e.Proper P) (hu : e.Updates bound x as c (some y))
    (h : Grown e P as c (some y)) (ha : e.whole? y = some a) :
    Grown e P (as ++ [a]) (c.extend a) (e.rest? y a) := by
  have hy := h.next y rfl
  have hnext : ∀ z ∈ e.rest? y a, P z ∧ (as ++ [a] ≠ [] → ∀ b, e.whole? z = some b → 1 ≤ b) :=
    fun z hz => ⟨hproper.rest hy.1 ha hz, fun _ b hb => hproper.one_le hy.1 ha hz hb⟩
  by_cases hne : as = []
  · subst hne
    obtain rfl := hu.eq_start
    rw [Convergent.start_extend]
    refine ⟨by simp, by simp, ?_, hnext⟩
    rintro n hn
    obtain rfl : n = 0 := by simpa using hn.symm
    simp
  · have hone := hy.2 hne a ha
    obtain ⟨hle, -⟩ := h.le_extend hne hone
    refine ⟨?_, ?_, ?_, hnext⟩
    · rw [List.tail_append_of_ne_nil hne]
      intro b hb
      rcases List.mem_append.1 hb with hb | hb
      · exact h.one_le b hb
      · rwa [List.mem_singleton.1 hb]
    · obtain ⟨n, hn⟩ := Nat.exists_eq_add_one_of_ne_zero (mt List.length_eq_zero_iff.1 hne)
      have hfib := h.fib_le
      have hlast := h.fib_le_last n hn
      rw [hn] at hfib
      rw [List.length_append, List.length_singleton, hn, Nat.fib_add_two]
      push_cast at hfib hlast ⊢
      omega
    · intro n hn
      obtain rfl : as.length = n := by simpa using hn
      exact h.fib_le

theorem Updates.grown (hproper : e.Proper P) (hx : P x) (h : e.Updates bound x as c next) :
    Grown e P as c next := by
  induction h with
  | start =>
    refine ⟨by simp, by simp [Convergent.start], by simp, ?_⟩
    rintro y ⟨⟩
    exact ⟨hx, fun hne => absurd rfl hne⟩
  | update hu ha hd ih =>
    rw [Convergent.eq_extend_of_extend? hd]
    exact ih.extend hproper hu ha

theorem Updates.denominator_mono (hproper : e.Proper P) (hx : P x)
    (h : e.Updates bound x as c (some y)) (ha : e.whole? y = some a) :
    c.denominator ≤ (c.extend a).denominator := by
  have hgrown := h.grown hproper hx
  by_cases hne : as = []
  · subst hne
    rw [h.eq_start, Convergent.start_extend]
    exact zero_le_one
  · obtain ⟨hle, hlast⟩ := hgrown.le_extend hne ((hgrown.next y rfl).2 hne a ha)
    omega

theorem Updates.fib_le (hproper : e.Proper P) (hx : P x) (h : e.Updates bound x as c next) :
    Nat.fib as.length ≤ bound := by
  exact_mod_cast (h.grown hproper hx).fib_le.trans h.denominator_le

/-- Fibonacci numbers double in every two steps. -/
theorem two_pow_le_fib (m : Nat) : 2 ^ m ≤ Nat.fib (2 * m + 1) := by
  induction m with
  | zero => exact le_rfl
  | succ m ih =>
    have hmono : Nat.fib (2 * m + 1) ≤ Nat.fib (2 * m + 2) := Nat.fib_le_fib_succ
    calc 2 ^ (m + 1) = 2 ^ m + 2 ^ m := by rw [pow_succ, mul_two]
      _ ≤ Nat.fib (2 * m + 1) + Nat.fib (2 * m + 2) := Nat.add_le_add ih (ih.trans hmono)
      _ = Nat.fib (2 * (m + 1) + 1) := Nat.fib_add_two.symm

/-- The steps that the loop is given are enough. -/
theorem ends_best (hproper : e.Proper P) (hx : P x) : e.Ends bound x (e.best bound x) := by
  obtain ⟨as, next, hu, hstop | hlength⟩ := e.exists_updates_best bound x
  · exact hu.ends hstop
  · have hle := hu.fib_le hproper hx
    have hlog : bound < 2 ^ (Nat.log2 bound + 1) := Nat.lt_log2_self
    have hpow := two_pow_le_fib (Nat.log2 bound + 1)
    have hfib : Nat.fib (2 * (Nat.log2 bound + 1) + 1) ≤ Nat.fib as.length :=
      Nat.fib_mono (by omega)
    omega

end Expansion

namespace Float

/-- What a whole part leaves is at least one. -/
theorem exists_value_of_rest? {y z : Float} {a : Int} (h0 : 0 ≤ y)
    (ha : expansion.whole? y = some a) (hz : expansion.rest? y a = some z) :
    ∃ v, Double.value? z = some v ∧ 1 ≤ v := by
  obtain ⟨p, hp, hp0, hplt, rfl⟩ := Double.exists_value_of_whole? h0 ha
  by_cases hfract : Int.fract p = 0
  · rw [Double.rest?_of_fract_eq_zero hp hp0 hplt hfract] at hz
    cases hz
  · rcases Double.rest?_cases hp hp0 hplt hfract with ⟨hnone, -⟩ | ⟨z', v, m, hz', hv, -, hnear⟩
    · rw [hnone] at hz
      cases hz
    · rw [hz'] at hz
      cases hz
      exact ⟨v, hv, (Nat.one_le_cast.2 hnear.pos).trans hnear.le_rounded⟩

/-- The doubles that are not negative. -/
theorem expansion_proper : expansion.Proper (0 ≤ ·) where
  whole_nonneg h0 h := by
    obtain ⟨p, -, hp0, -, rfl⟩ := Double.exists_value_of_whole? h0 h
    exact Int.floor_nonneg.2 hp0
  rest h0 ha hz := by
    obtain ⟨v, hv, hone⟩ := exists_value_of_rest? h0 ha hz
    exact (Double.le_iff Double.value?_zero hv).2 (zero_le_one.trans hone)
  one_le {_ _ z _} h0 ha hz hb := by
    obtain ⟨v, hv, hone⟩ := exists_value_of_rest? h0 ha hz
    have hz0 : 0 ≤ z := (Double.le_iff Double.value?_zero hv).2 (zero_le_one.trans hone)
    obtain ⟨p, hp, -, -, rfl⟩ := Double.exists_value_of_whole? hz0 hb
    obtain rfl : v = p := Option.some.inj (hv.symm.trans hp)
    exact Int.le_floor.2 (by exact_mod_cast hone)

/-- The loop comes to its end, and to one only, for every double that is not negative. Its quotients
behind the first are at least one, its denominators never decrease, and after a number of updates
they have reached the Fibonacci number of that number, which the bound has to leave room for. -/
theorem expansion_terminates (x : Float) (h0 : 0 ≤ x) (bound : Nat) :
    (∀ c, expansion.Ends bound x c ↔ c = expansion.best bound x) ∧
      ∀ as c next, expansion.Updates bound x as c next →
        (∀ a ∈ as.tail, 1 ≤ a) ∧
        (∀ y a d, next = some y → expansion.whole? y = some a → c.extend? bound a = some d →
          c.denominator ≤ d.denominator) ∧
        (Nat.fib as.length : Int) ≤ c.denominator ∧
        Nat.fib as.length ≤ bound := by
  have hbest : expansion.Ends bound x (expansion.best bound x) :=
    Expansion.ends_best expansion_proper h0
  refine ⟨fun c => ⟨fun hends => hends.unique hbest, ?_⟩, fun as c next hu => ?_⟩
  · rintro rfl
    exact hbest
  · have hgrown := hu.grown expansion_proper h0
    refine ⟨hgrown.one_le, ?_, hgrown.fib_le, hu.fib_le expansion_proper h0⟩
    rintro y a d rfl ha hd
    rw [Convergent.eq_extend_of_extend? hd]
    exact hu.denominator_mono expansion_proper h0 ha

theorem expansion_terminates_decimal :
    (0 : Float) ≤ 3.14159265 ∧ expansion.best 1000 3.14159265 = ⟨355, 113, 333, 106⟩ ∧
      expansion.Ends 1000 3.14159265 ⟨355, 113, 333, 106⟩ := by
  have h0 : (0 : Float) ≤ 3.14159265 := by decide +kernel
  have hbest : expansion.best 1000 3.14159265 = ⟨355, 113, 333, 106⟩ := by decide +kernel
  exact ⟨h0, hbest, ((expansion_terminates 3.14159265 h0 1000).1 _).2 hbest.symm⟩

end Float

end ServoBus
