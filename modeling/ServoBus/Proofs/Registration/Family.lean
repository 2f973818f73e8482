import Mathlib.Logic.Function.Basic
import ServoBus.Proofs.Registration.Register

/-!
# Lists that are filled side by side

Several lists of entries are filled and located in any order, and a list may be put behind
another one as a whole. Then it is gone, whether the other list had room for it or not.

A reference is a bare place, so the list in which it counts has to be kept in mind with it. By an
operation it stays where it is, or it is rebased into the list that its own one was put behind
(`Family.move`), and so on by further operations (`Family.follow`). Whatever a reference denotes, it
denotes that entry ever after, wherever it has gone to.
-/

namespace ServoBus.Registrations

/-- Lists of entries, each under a name. -/
abbrev Family (ι : Type) := ι → Registrations

/-- There are no more entries than there is room for. -/
def Fits (r : Registrations) : Prop := r.size ≤ r.capacity

section Fits

variable {r : Registrations}

theorem Fits.register (h : r.Fits) (slave : Position) (address : ObjectAddress) (width : Nat) :
    Fits ((register slave address width).result r).2 := by
  rw [result_register]
  split
  · exact h
  · next hroom =>
    rw [Fits, size_extend]
    exact Nat.lt_of_not_le hroom

theorem Fits.append (h : r.Fits) (other : Registrations) : Fits ((append other).result r).2 := by
  rw [result_append]
  split
  · exact h
  · next hroom =>
    rw [Fits, size_extend]
    exact Nat.le_of_not_lt hroom

theorem Fits.locate {μ : Type} [Master μ] (h : r.Fits) (m : μ) :
    Fits (locate.result (r, m)).2.1 := by
  have hcleared := congrArg capacity (cleared_locate r m)
  have hcapacity : (Registrations.locate.result (r, m)).2.1.capacity = r.capacity := hcleared
  have hsize := congrArg List.length (wanted_locate r m)
  simp only [wanted, List.length_map] at hsize
  rw [Fits, size, hsize, hcapacity]
  exact h

end Fits

/-- Entries are only added, and only at the end. -/
theorem wanted_prefix_register (slave : Position) (address : ObjectAddress) (width : Nat)
    (r : Registrations) : r.wanted <+: ((register slave address width).result r).2.wanted := by
  rw [result_register]
  split
  · exact List.prefix_refl _
  · rw [wanted_extend]
    exact List.prefix_append _ _

theorem wanted_prefix_append (other r : Registrations) :
    r.wanted <+: ((append other).result r).2.wanted := by
  rw [result_append]
  split
  · exact List.prefix_refl _
  · rw [wanted_extend]
    exact List.prefix_append _ _

/-- What a list denotes it denotes behind another one, at the rebased place. -/
theorem Lists.append {other r r' : Registrations} {ref start : RegRef} {e : Registration}
    (h : other.Lists ref e) (hr : (Registrations.append other).result r = (.ok start, r')) :
    r'.Lists (ref.rebase start) e := by
  obtain ⟨-, rfl, rfl⟩ := result_append_eq_ok_iff.1 hr
  rw [lists_iff, get?_rebase, ← lists_iff]
  exact h

/-- Where further entries start, there is the first of them. -/
theorem get?_size_extend (r : Registrations) (entries : List Registration) :
    (r.extend entries).get? ⟨r.size⟩ = entries.head? := by
  have h : (r.entries ++ entries)[r.entries.length]? =
      entries[r.entries.length - r.entries.length]? :=
    List.getElem?_append_right (Nat.le_refl _)
  rw [Nat.sub_self, ← List.head?_eq_getElem?] at h
  exact h

namespace Family

variable {ι μ : Type}

inductive Operation (ι μ : Type) where
  | register (i : ι) (slave : Position) (address : ObjectAddress) (width : Nat)
  /-- The second list is put behind the first one. -/
  | append (i j : ι)
  /-- The master is asked for the places of all entries. -/
  | locate (i : ι) (m : μ)

/-- Lists without entries, for devices and with capacities. -/
def new (spec : ι → String × Nat) : Family ι := fun i => ⟨(spec i).1, (spec i).2, []⟩

/-- What is there in the place of a list that was put behind another one. -/
def gone : Registrations := ⟨"", 0, []⟩

/-- The reference stands for this entry in its list. -/
def Denotes (F : Family ι) (x : ι × RegRef) (e : Registration) : Prop := (F x.1).Lists x.2 e

section Run

variable [DecidableEq ι] [Master μ]

/-- Carries out an operation, which may give a reference. -/
def perform (op : Operation ι μ) (F : Family ι) : Except Fault (Option RegRef) × Family ι :=
  match op with
  | .register i slave address width =>
    let x := (Registrations.register slave address width).result (F i)
    (x.1.map some, Function.update F i x.2)
  | .append i j =>
    let rest := Function.update F j gone
    let x := (Registrations.append (F j)).result (rest i)
    (x.1.map some, Function.update rest i x.2)
  | .locate i m =>
    let x := Registrations.locate.result (F i, m)
    (x.1.map fun _ => none, Function.update F i x.2.1)

/-- Carries out operations one after the other, whether they fail or not. -/
def run (F : Family ι) (ops : List (Operation ι μ)) : Family ι :=
  ops.foldl (fun F op => (perform op F).2) F

/-- Where a reference leads to after an operation. It is lost together with a list that did not find
room. -/
def move (F : Family ι) : Operation ι μ → ι × RegRef → Option (ι × RegRef)
  | .append i j, (k, ref) =>
    if k = j then
      match (perform (.append i j : Operation ι μ) F).1 with
      | .ok (some start) => some (i, ref.rebase start)
      | _ => none
    else some (k, ref)
  | .register .., x => some x
  | .locate .., x => some x

/-- Where a reference leads to after operations in a row. -/
def follow (F : Family ι) : List (Operation ι μ) → ι × RegRef → Option (ι × RegRef)
  | [], x => some x
  | op :: ops, x => (F.move op x).bind ((perform op F).2.follow ops)

variable {F F' : Family ι} {op : Operation ι μ} {x y : ι × RegRef} {e : Registration}

theorem fits_perform (h : ∀ i, (F i).Fits) (op : Operation ι μ) :
    ∀ i, ((perform op F).2 i).Fits := by
  have hupdate {F : Family ι} (hF : ∀ i, (F i).Fits) {r : Registrations} (hr : r.Fits) (i : ι) :
      ∀ k, (Function.update F i r k).Fits :=
    (Function.forall_update_iff F fun _ r => r.Fits).2 ⟨hr, fun k _ => hF k⟩
  cases op with
  | register i slave address width => exact hupdate h ((h i).register slave address width) i
  | append i j =>
    have hgone : gone.Fits := Nat.le_refl 0
    have hrest := hupdate h hgone j
    exact hupdate hrest ((hrest i).append (F j)) i
  | locate i m => exact hupdate h ((h i).locate m) i

/-- A list that is not put behind another one keeps its entries in their places. -/
theorem wanted_prefix_perform {k : ι} (hk : ∀ i, op ≠ .append i k) :
    (F k).wanted <+: ((perform op F).2 k).wanted := by
  have hupdate (F : Family ι) {i : ι} {r : Registrations} (hr : (F i).wanted <+: r.wanted) :
      (F k).wanted <+: (Function.update F i r k).wanted :=
    (Function.forall_update_iff F fun k r => (F k).wanted <+: r.wanted).2
      ⟨hr, fun _ _ => List.prefix_refl _⟩ k
  cases op with
  | register i slave address width => exact hupdate F (wanted_prefix_register ..)
  | append i j =>
    have hkj : k ≠ j := fun heq => hk i (by rw [heq])
    have hprefix := hupdate (Function.update F j gone) (i := i) (wanted_prefix_append (F j) _)
    rwa [Function.update_of_ne hkj] at hprefix
  | locate i m =>
    have hsame := wanted_locate (F i) m
    exact hupdate F (hsame ▸ List.prefix_refl _)

theorem move_of_ne (h : ∀ i, op ≠ .append i x.1) : F.move op x = some x := by
  cases op with
  | append i j => exact if_neg fun heq => h i (by rw [heq])
  | _ => rfl

theorem exists_of_move_append {i j : ι} {ref : RegRef}
    (h : F.move (.append i j : Operation ι μ) (j, ref) = some y) :
    ∃ start r, (Registrations.append (F j)).result (Function.update F j gone i) = (.ok start, r) ∧
      y = (i, ref.rebase start) ∧ (perform (.append i j : Operation ι μ) F).2 i = r := by
  rw [move, if_pos rfl, perform] at h
  rcases hr : (Registrations.append (F j)).result (Function.update F j gone i) with ⟨e | start, r⟩
  · rw [hr] at h
    cases h
  · rw [hr] at h
    cases h
    refine ⟨start, r, rfl, rfl, ?_⟩
    simp only [perform, hr, Function.update_self]

/-- One operation takes a reference to a place where it denotes what it denoted before. -/
theorem Denotes.move (h : F.Denotes x e) (hy : F.move op x = some y) :
    (perform op F).2.Denotes y e := by
  by_cases htaken : ∃ i, op = .append i x.1
  · obtain ⟨i, rfl⟩ := htaken
    obtain ⟨start, r, hr, rfl, hlist⟩ := exists_of_move_append hy
    rw [Denotes, hlist]
    exact Lists.append h hr
  · have hne : ∀ i, op ≠ .append i x.1 := not_exists.1 htaken
    rw [move_of_ne hne] at hy
    cases hy
    exact Lists.mono h (wanted_prefix_perform hne)

theorem Denotes.follow {ops : List (Operation ι μ)} (h : F.Denotes x e)
    (hy : F.follow ops x = some y) : (F.run ops).Denotes y e := by
  induction ops generalizing F x with
  | nil =>
    cases hy
    exact h
  | cons op ops ih =>
    obtain ⟨x', hx', hy⟩ := Option.bind_eq_some_iff.1 hy
    exact ih (h.move hx') hy

/-- A reference stays as long as its list is not put behind another one. -/
theorem follow_of_ne {ops : List (Operation ι μ)} (h : ∀ op ∈ ops, ∀ i, op ≠ .append i x.1) :
    F.follow ops x = some x := by
  induction ops generalizing F with
  | nil => rfl
  | cons op ops ih =>
    obtain ⟨hop, hops⟩ := List.forall_mem_cons.1 h
    rw [follow, move_of_ne hop]
    exact ih hops

theorem fits_run (h : ∀ i, (F i).Fits) (ops : List (Operation ι μ)) : ∀ i, (F.run ops i).Fits := by
  induction ops generalizing F with
  | nil => exact h
  | cons op ops ih => exact ih (fits_perform h op)

end Run

/-- What holds of lists and of the references into them. -/
structure Stable (μ : Type) [Master μ] [DecidableEq ι] (F : Family ι) : Prop where
  fits : ∀ i, (F i).size ≤ (F i).capacity
  /-- An entry is refused only by a full list, and nothing changes then. -/
  register_refused : ∀ i slave address width e F',
    perform (.register i slave address width : Operation ι μ) F = (.error e, F') →
      F' = F ∧ (F i).size = (F i).capacity
  /-- An entry goes to the end, and its reference denotes it. -/
  registered : ∀ i slave address width ref? F',
    perform (.register i slave address width : Operation ι μ) F = (.ok ref?, F') →
      (F' i).entries = (F i).entries ++ [⟨slave, address, width, none⟩] ∧
        ∃ ref, ref? = some ref ∧ (F' i).get? ref = some ⟨slave, address, width, none⟩
  /-- A list is refused only if there is no room for all of it, and nothing of it is taken then. -/
  append_refused : ∀ i j e F', i ≠ j →
    perform (.append i j : Operation ι μ) F = (.error e, F') →
      F' i = F i ∧ (F i).capacity < (F i).size + (F j).size
  /-- A list goes to the end as a whole, and what its references denoted is found by rebasing them.
  The reference that is given denotes the first entry of the list, and nothing if it has none. -/
  appended : ∀ i j ref? F', i ≠ j →
    perform (.append i j : Operation ι μ) F = (.ok ref?, F') →
      (F' i).entries = (F i).entries ++ (F j).entries ∧
        ∃ start, ref? = some start ∧
          (∀ ref, (F' i).get? (ref.rebase start) = (F j).get? ref) ∧
          (F' i).get? start = (F j).entries.head?
  /-- References stay as long as their list is not put behind another one. -/
  stays : ∀ (later : List (Operation ι μ)) (k : ι) (ref : RegRef),
    (∀ op ∈ later, ∀ i, op ≠ .append i k) → F.follow later (k, ref) = some (k, ref)
  /-- Where a reference has gone to, it denotes what it denoted before. -/
  follows : ∀ (later : List (Operation ι μ)) (x y : ι × RegRef) (e : Registration),
    F.Denotes x e → F.follow later x = some y → (F.run later).Denotes y e

section Run

variable [DecidableEq ι] [Master μ] {F F' : Family ι}

theorem cases_of_perform_register {i : ι} {slave : Position} {address : ObjectAddress}
    {width : Nat} {result : Except Fault (Option RegRef)}
    (h : perform (.register i slave address width : Operation ι μ) F = (result, F')) :
    (F i).capacity ≤ (F i).size ∧ F' = F ∧ (∃ e, result = .error e) ∨
      result = .ok (some ⟨(F i).size⟩) ∧ F' i = (F i).extend [⟨slave, address, width, none⟩] := by
  rw [perform, result_register] at h
  split at h
  · next hfull =>
    cases h
    exact .inl ⟨hfull, Function.update_eq_self i F, _, rfl⟩
  · cases h
    exact .inr ⟨rfl, Function.update_self ..⟩

theorem cases_of_perform_append {i j : ι} (hij : i ≠ j) {result : Except Fault (Option RegRef)}
    (h : perform (.append i j : Operation ι μ) F = (result, F')) :
    (F i).capacity < (F i).size + (F j).size ∧ F' i = F i ∧ (∃ e, result = .error e) ∨
      result = .ok (some ⟨(F i).size⟩) ∧ F' i = (F i).extend (F j).entries := by
  have hrest : Function.update F j gone i = F i := Function.update_of_ne hij ..
  rw [perform, hrest, result_append] at h
  split at h
  · next hfull =>
    cases h
    exact .inl ⟨hfull, Function.update_self .., _, rfl⟩
  · cases h
    exact .inr ⟨rfl, Function.update_self ..⟩

/-- Lists that are filled, located and put together in any order are stable all the time. -/
theorem stable_run (spec : ι → String × Nat) (before : List (Operation ι μ)) :
    Stable μ ((new spec).run before) := by
  have hfits := fits_run (F := new spec) (fun _ => Nat.zero_le _) before
  generalize (new spec).run before = F at hfits ⊢
  constructor
  case fits => exact hfits
  case register_refused =>
    intro i slave address width e F' h
    rcases cases_of_perform_register h with ⟨hfull, hF, -⟩ | ⟨hok, -⟩
    · exact ⟨hF, Nat.le_antisymm (hfits i) hfull⟩
    · cases hok
  case registered =>
    intro i slave address width ref? F' h
    rcases cases_of_perform_register h with ⟨-, -, e, he⟩ | ⟨hok, hlist⟩
    · cases he
    · cases hok
      rw [hlist]
      exact ⟨rfl, _, rfl, get?_size_extend ..⟩
  case append_refused =>
    intro i j e F' hij h
    rcases cases_of_perform_append hij h with ⟨hfull, hlist, -⟩ | ⟨hok, -⟩
    · exact ⟨hlist, hfull⟩
    · cases hok
  case appended =>
    intro i j ref? F' hij h
    rcases cases_of_perform_append hij h with ⟨-, -, e, he⟩ | ⟨hok, hlist⟩
    · cases he
    · cases hok
      rw [hlist]
      exact ⟨rfl, _, rfl, get?_rebase (F i) (F j), get?_size_extend ..⟩
  case stays => exact fun later k ref h => follow_of_ne h
  case follows => exact fun later x y e h hy => h.follow hy

end Run

end Family

/-- The reference that is given for a list without entries denotes nothing at first, and then what
is registered next. -/
theorem get?_start_of_empty : ∃ start r r',
    (append ⟨"m0.b", 1, []⟩).result ⟨"m0.a", 1, []⟩ = (.ok start, r) ∧
      r.get? start = none ∧
      (register 0 ⟨0x6040, 0⟩ 16).result r = (.ok ⟨0⟩, r') ∧
      r'.get? start = some ⟨0, ⟨0x6040, 0⟩, 16, none⟩ :=
  ⟨⟨0⟩, ⟨"m0.a", 1, []⟩, ⟨"m0.a", 1, [⟨0, ⟨0x6040, 0⟩, 16, none⟩]⟩, rfl, rfl, rfl, rfl⟩

end ServoBus.Registrations
