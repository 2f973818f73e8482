import Mathlib.Data.List.Induction
import ServoBus.Sync.Basic

/-!
# Entries spread over PDOs

Entries fill one PDO after another. `spread` says where they get to without following
any counter: the PDO with number `k` holds the entries from `k * limit` on, as many as
the limit allows. One more entry either joins the last PDO or, if that one is full, opens
the next.
-/

namespace ServoBus.Axis.Layout

open Sync (Entry Pdo)

/-- The number of PDOs for `n` entries. A channel without entries would have one, too. -/
def pdosFor (limit n : Nat) : Nat := (n - 1) / limit + 1

/-- The PDO with number `k` of those that hold the entries. -/
def piece (limit first : Nat) (es : List Entry) (k : Nat) : Pdo :=
  ⟨UInt16.ofNat (first + k), (es.drop (k * limit)).take limit⟩

/-- The entries in consecutive PDOs from the index `first` on. -/
def spread (limit first : Nat) (es : List Entry) : List Pdo :=
  (List.range (pdosFor limit es.length)).map (piece limit first es)

theorem pdosFor_pos (limit n : Nat) : 0 < pdosFor limit n := Nat.succ_pos _

/-- The number of PDOs is the number of entries divided by the limit, rounded up. -/
theorem pdosFor_eq {limit n : Nat} (hl : 0 < limit) (hn : 0 < n) :
    pdosFor limit n = (n + limit - 1) / limit := by
  have h : n + limit - 1 = n - 1 + limit := by omega
  rw [pdosFor, h, Nat.add_div_right _ hl]

theorem pdosFor_mono (limit : Nat) {n n' : Nat} (h : n ≤ n') :
    pdosFor limit n ≤ pdosFor limit n' := by
  unfold pdosFor
  exact Nat.succ_le_succ (Nat.div_le_div_right (Nat.sub_le_sub_right h 1))

theorem le_mul_pdosFor {limit : Nat} (hl : 0 < limit) (n : Nat) :
    n ≤ limit * pdosFor limit n := by
  have h := Nat.lt_mul_div_succ (n - 1) hl
  unfold pdosFor
  omega

/-- The PDO at hand is full: the next entry needs a further one. -/
theorem pdosFor_succ_of_full {limit n : Nat} (hl : 0 < limit)
    (h : n = limit * pdosFor limit n) : pdosFor limit (n + 1) = pdosFor limit n + 1 := by
  have hd : n / limit = pdosFor limit n := by
    calc n / limit = limit * pdosFor limit n / limit := congrArg (· / limit) h
      _ = pdosFor limit n := Nat.mul_div_cancel_left _ hl
  unfold pdosFor at hd ⊢
  rw [Nat.add_sub_cancel, hd]

/-- The PDO at hand takes the next entry. -/
theorem pdosFor_succ_of_open {limit n : Nat} (hl : 0 < limit)
    (h : n < limit * pdosFor limit n) : pdosFor limit (n + 1) = pdosFor limit n := by
  have hle : (n - 1) / limit ≤ n / limit := Nat.div_le_div_right (Nat.sub_le n 1)
  have hlt : n / limit < pdosFor limit n :=
    (Nat.div_lt_iff_lt_mul hl).2 (by rwa [Nat.mul_comm] at h)
  unfold pdosFor at hlt ⊢
  rw [Nat.add_sub_cancel]
  omega

@[simp] theorem length_spread_pdos (limit first : Nat) (es : List Entry) :
    (spread limit first es).length = pdosFor limit es.length := by
  simp [spread]

/-- PDOs that are full already do not change. -/
theorem piece_append {limit k : Nat} (first : Nat) {es : List Entry} (more : List Entry)
    (h : (k + 1) * limit ≤ es.length) :
    piece limit first (es ++ more) k = piece limit first es k := by
  have hk : k * limit + limit ≤ es.length := by rwa [Nat.succ_mul] at h
  unfold piece
  rw [List.drop_append_of_le_length (by omega),
    List.take_append_of_le_length (by rw [List.length_drop]; omega)]

theorem pieces_append {limit q : Nat} (first : Nat) {es : List Entry} (more : List Entry)
    (h : q * limit ≤ es.length) :
    (List.range q).map (piece limit first (es ++ more)) =
      (List.range q).map (piece limit first es) := by
  apply List.map_congr_left
  intro k hk
  apply piece_append
  exact Nat.le_trans (Nat.mul_le_mul_right _ (List.mem_range.1 hk)) h

/-- The last PDO holds what is left. -/
theorem piece_last {limit q : Nat} (first : Nat) {es : List Entry}
    (h : es.length ≤ (q + 1) * limit) :
    piece limit first es q = ⟨UInt16.ofNat (first + q), es.drop (q * limit)⟩ := by
  unfold piece
  rw [List.take_of_length_le]
  rw [List.length_drop]
  rw [Nat.succ_mul] at h
  omega

/-- The PDOs before the last one, and the last one. -/
theorem spread_eq {limit : Nat} (hl : 0 < limit) (first : Nat) (es : List Entry) :
    spread limit first es =
      (List.range ((es.length - 1) / limit)).map (piece limit first es) ++
        [⟨UInt16.ofNat (first + (es.length - 1) / limit),
          es.drop ((es.length - 1) / limit * limit)⟩] := by
  have h := le_mul_pdosFor hl es.length
  rw [Nat.mul_comm] at h
  rw [spread, pdosFor, List.range_succ, List.map_append, List.map_singleton, piece_last first h]

theorem spread_nil {limit : Nat} (hl : 0 < limit) (first : Nat) :
    spread limit first [] = [⟨UInt16.ofNat first, []⟩] := by
  simp [spread_eq hl, Nat.div_eq_of_lt hl]

/-- An entry behind a full PDO opens the next one. -/
theorem spread_append_of_full {limit : Nat} (hl : 0 < limit) (first : Nat) {es : List Entry}
    (e : Entry) (h : es.length = limit * pdosFor limit es.length) :
    spread limit first (es ++ [e]) =
      spread limit first es ++
        [⟨UInt16.ofNat (first + pdosFor limit es.length), [e]⟩] := by
  have hs := pdosFor_succ_of_full hl h
  have hd : es.drop (pdosFor limit es.length * limit) = [] := by
    rw [List.drop_eq_nil_iff]
    rw [Nat.mul_comm]
    exact Nat.le_of_eq h
  have hc : pdosFor limit es.length * limit ≤ es.length := by
    rw [Nat.mul_comm]
    exact Nat.le_of_eq h.symm
  have hlast : (es ++ [e]).length ≤ (pdosFor limit es.length + 1) * limit := by
    rw [List.length_append, List.length_singleton, Nat.succ_mul]
    have : es.length = pdosFor limit es.length * limit := by rw [Nat.mul_comm]; exact h
    omega
  rw [spread, List.length_append, List.length_singleton, hs, List.range_succ, List.map_append,
    pieces_append first [e] hc, List.map_singleton, piece_last first hlast,
    List.drop_append_of_le_length hc, hd]
  rfl

/-- An entry joins a PDO that is not full. -/
theorem spread_append_of_open {limit : Nat} (hl : 0 < limit) (first : Nat) {es : List Entry}
    (e : Entry) (h : es.length < limit * pdosFor limit es.length) :
    spread limit first (es ++ [e]) =
      (List.range ((es.length - 1) / limit)).map (piece limit first es) ++
        [⟨UInt16.ofNat (first + (es.length - 1) / limit),
          es.drop ((es.length - 1) / limit * limit) ++ [e]⟩] := by
  have hs := pdosFor_succ_of_open hl h
  have hc : (es.length - 1) / limit * limit ≤ es.length :=
    Nat.le_trans (Nat.div_mul_le_self _ _) (Nat.sub_le _ _)
  have hlast : (es ++ [e]).length ≤ ((es.length - 1) / limit + 1) * limit := by
    rw [List.length_append, List.length_singleton, Nat.mul_comm]
    exact h
  rw [spread, List.length_append, List.length_singleton, hs, pdosFor, List.range_succ,
    List.map_append, pieces_append first [e] hc, List.map_singleton, piece_last first hlast,
    List.drop_append_of_le_length hc]

/-- All entries are there, in their order. -/
theorem entries_spread {limit : Nat} (hl : 0 < limit) (first : Nat) (es : List Entry) :
    (spread limit first es).flatMap (·.entries) = es := by
  induction es using List.reverseRecOn with
  | nil => simp [spread_nil hl]
  | append_singleton es e ih =>
    rcases Nat.lt_or_eq_of_le (le_mul_pdosFor hl es.length) with h | h
    · rw [spread_eq hl, List.flatMap_append] at ih
      rw [spread_append_of_open hl first e h, List.flatMap_append, List.flatMap_singleton]
      rw [List.flatMap_singleton] at ih
      rw [← List.append_assoc, ih]
    · rw [spread_append_of_full hl first e h, List.flatMap_append, ih, List.flatMap_singleton]

theorem mem_spread {limit first : Nat} {es : List Entry} {p : Pdo} :
    p ∈ spread limit first es ↔
      ∃ k < pdosFor limit es.length, p = piece limit first es k := by
  simp [spread, eq_comm]

end ServoBus.Axis.Layout
