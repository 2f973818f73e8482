import ServoBus.Axis.Layout
import ServoBus.Proofs.Action.Success
import ServoBus.Proofs.Axis.Spread
import ServoBus.Proofs.Sync.Wire

/-!
# The flow of one channel

The entries of a channel go into the latest sync manager one by one, behind a `Site` of
nodes that are there already. `Fits` collects what has to hold for the first `n` of them
to find a place. An entry more is taken exactly if it still fits, and the PDOs are then
those of `spread` for one entry more, so the whole of a channel is taken exactly if it
fits.
-/

namespace ServoBus.Axis.Layout

open Sync (Builder Entry Pdo Manager)

/-- The nodes that are there: finished sync managers and the one at hand. -/
structure Site where
  device : String
  earlier : List Manager
  current : Manager

namespace Site

def builder (x : Site) : Builder := Builder.ofWire x.device false (x.earlier ++ [x.current])

/-- The site with further PDOs in the sync manager at hand. -/
def add (x : Site) (ps : List Pdo) : Site :=
  { x with current := { x.current with pdos := x.current.pdos ++ ps } }

def pdos (x : Site) : List Pdo := (x.earlier ++ [x.current]).flatMap (·.pdos)

def entries (x : Site) : List Entry := x.pdos.flatMap (·.entries)

@[simp] theorem add_nil (x : Site) : x.add [] = x := by
  simp [add]

@[simp] theorem add_add (x : Site) (ps qs : List Pdo) :
    (x.add ps).add qs = x.add (ps ++ qs) := by
  simp [add]

@[simp] theorem pdos_add (x : Site) (ps : List Pdo) : (x.add ps).pdos = x.pdos ++ ps := by
  simp [add, pdos]

@[simp] theorem entries_add (x : Site) (ps : List Pdo) :
    (x.add ps).entries = x.entries ++ ps.flatMap (·.entries) := by
  simp [entries]

theorem pdos_builder (x : Site) : x.builder.pdos = x.pdos := Builder.pdos_ofWire _ _ _

theorem entries_builder (x : Site) : x.builder.entries = x.entries := by
  rw [builder, Builder.entries_ofWire, entries, pdos, List.flatMap_assoc]
  rfl

end Site

theorem result_refuse_ne_ok {α : Type} {reason : Reason} {b b' : Builder} {a : α} :
    (refuse reason).result b ≠ (.ok a, b') := by
  rw [refuse, Action.result_bind]
  intro h
  cases h

/-- A PDO is added unless its index is taken or there are too many. -/
theorem result_addPdo_eq_ok_iff {x : Site} {pdo : Nat} {b : Builder} :
    (addPdo pdo).result x.builder = (.ok (), b) ↔
      (∀ p ∈ x.pdos, p.index.toNat ≠ pdo) ∧ x.pdos.length < Sync.pdoLimit ∧
        b = (x.add [⟨UInt16.ofNat pdo, []⟩]).builder := by
  have hany : (x.builder.pdoIndices.any fun i => i.toNat == pdo) = true ↔
      ¬ ∀ p ∈ x.pdos, p.index.toNat ≠ pdo := by
    simp [Builder.pdoIndices, Site.pdos_builder]
  rw [addPdo, Action.result_bind]
  simp only [Action.result_get]
  split
  · next h =>
    constructor
    · intro hr
      exact absurd hr result_refuse_ne_ok
    · rintro ⟨hfresh, -⟩
      exact absurd hfresh (hany.1 h)
  · next h =>
    have hfresh : ∀ p ∈ x.pdos, p.index.toNat ≠ pdo := by
      by_contra hc
      exact h (hany.2 hc)
    have hr := Builder.result_addPdo_ofWire (UInt16.ofNat pdo) x.device false x.earlier x.current
    change (Builder.addPdo _).result x.builder = _ at hr
    rw [hr]
    split
    · next hfull =>
      have hfull : Sync.pdoLimit ≤ x.pdos.length := hfull
      constructor
      · intro hr
        cases hr
      · rintro ⟨-, hroom, -⟩
        omega
    · next hroom =>
      have hroom : ¬ Sync.pdoLimit ≤ x.pdos.length := hroom
      constructor
      · intro hr
        cases hr
        exact ⟨hfresh, by omega, rfl⟩
      · rintro ⟨-, -, rfl⟩
        rfl

/-- An entry joins the latest PDO unless there are too many. -/
theorem result_addEntry_eq_ok_iff {x : Site} {ps : List Pdo} {p : Pdo} {e : Entry}
    {b : Builder} :
    (Builder.addEntry e).result (x.add (ps ++ [p])).builder = (.ok (), b) ↔
      (x.add (ps ++ [p])).entries.length < Sync.entryLimit ∧
        b = (x.add (ps ++ [{ p with entries := p.entries ++ [e] }])).builder := by
  have hr := Builder.result_addEntry_ofWire e x.device false x.earlier x.current
    (x.current.pdos ++ ps) p
  have hb : Builder.ofWire x.device false
      (x.earlier ++ [{ x.current with pdos := x.current.pdos ++ ps ++ [p] }]) =
      (x.add (ps ++ [p])).builder := by
    rw [Site.builder, Site.add, List.append_assoc]
  have hb' : Builder.ofWire x.device false
      (x.earlier ++ [{ x.current with
        pdos := x.current.pdos ++ ps ++ [{ p with entries := p.entries ++ [e] }] }]) =
      (x.add (ps ++ [{ p with entries := p.entries ++ [e] }])).builder := by
    rw [Site.builder, Site.add, List.append_assoc]
  have hn := congrArg List.length (Site.entries_builder (x.add (ps ++ [p])))
  rw [← hb, Builder.entries_ofWire] at hn
  rw [hb, hb', hn] at hr
  rw [hr]
  split
  · next hfull =>
    constructor
    · intro hr
      cases hr
    · rintro ⟨hroom, -⟩
      omega
  · next hroom =>
    constructor
    · intro hr
      cases hr
      exact ⟨by omega, rfl⟩
    · rintro ⟨-, rfl⟩
      rfl

/-- How many PDOs one channel may have in one direction. -/
def allowedPdos (o : Options) : Nat := if o.autoflow then o.pdoLimit else 1

theorem allowedPdos_pos {o : Options} (hp : o.pdoLimit ≠ 0) : 0 < allowedPdos o := by
  unfold allowedPdos
  split <;> omega

/-- A channel may have a further PDO only if it may flow on. -/
theorem lt_allowedPdos_iff {o : Options} {n : Nat} (hn : 0 < n) :
    n < allowedPdos o ↔ o.autoflow = true ∧ n < o.pdoLimit := by
  unfold allowedPdos
  cases o.autoflow with
  | true => simp
  | false =>
    simp only [Bool.false_eq_true, if_false, false_and, iff_false]
    omega

/-- What has to hold for the first `n` entries of a channel to find a place behind a site,
in PDOs from the index `first` on. -/
structure Fits (o : Options) (s : Side) (first : Nat) (x : Site) (n : Nat) : Prop where
  pdos : pdosFor o.pdoEntryLimit n ≤ allowedPdos o
  last : first + pdosFor o.pdoEntryLimit n ≤ s.lastPdo + 1
  fresh : ∀ k < pdosFor o.pdoEntryLimit n, ∀ p ∈ x.pdos, p.index.toNat ≠ first + k
  room : x.pdos.length + pdosFor o.pdoEntryLimit n ≤ Sync.pdoLimit
  entries : x.entries.length + n ≤ Sync.entryLimit

/-- What has to hold for a channel with `k` PDOs to flow on into a further one. -/
structure FlowsOn (o : Options) (s : Side) (first : Nat) (x : Site) (k : Nat) : Prop where
  allowed : k < allowedPdos o
  last : first + k ≤ s.lastPdo
  fresh : ∀ p ∈ x.pdos, p.index.toNat ≠ first + k
  room : x.pdos.length + k < Sync.pdoLimit

section Flow

variable {o : Options} {s : Side} {first n : Nat} {x : Site} {b : Builder}

theorem Fits.of_le {m : Nat} (h : Fits o s first x n) (hm : m ≤ n) : Fits o s first x m where
  pdos := Nat.le_trans (pdosFor_mono _ hm) h.pdos
  last := Nat.le_trans (Nat.add_le_add_left (pdosFor_mono _ hm) _) h.last
  fresh k hk := h.fresh k (Nat.lt_of_lt_of_le hk (pdosFor_mono _ hm))
  room := Nat.le_trans (Nat.add_le_add_left (pdosFor_mono _ hm) _) h.room
  entries := Nat.le_trans (Nat.add_le_add_left hm _) h.entries

/-- No entry is there yet, and one PDO is. -/
theorem fits_zero_iff (hp : o.pdoLimit ≠ 0) (hfirst : first ≤ s.lastPdo)
    (hx : x.entries.length ≤ Sync.entryLimit) :
    Fits o s first x 0 ↔
      (∀ p ∈ x.pdos, p.index.toNat ≠ first) ∧ x.pdos.length < Sync.pdoLimit := by
  have h1 : pdosFor o.pdoEntryLimit 0 = 1 := by simp [pdosFor]
  constructor
  · intro h
    have hroom := h.room
    have hfresh := h.fresh 0 (pdosFor_pos _ _)
    exact ⟨hfresh, by omega⟩
  · rintro ⟨hfresh, hroom⟩
    have hpos := allowedPdos_pos hp
    refine ⟨by omega, by omega, ?_, by omega, hx⟩
    intro k hk
    rw [h1, Nat.lt_one_iff] at hk
    subst hk
    exact hfresh

/-- As long as the last PDO is open, an entry more takes only its own place. -/
theorem fits_succ_of_open (hl : 0 < o.pdoEntryLimit)
    (hopen : n < o.pdoEntryLimit * pdosFor o.pdoEntryLimit n) (h : Fits o s first x n) :
    Fits o s first x (n + 1) ↔ x.entries.length + n < Sync.entryLimit := by
  have hs := pdosFor_succ_of_open hl hopen
  constructor
  · intro h'
    exact h'.entries
  · intro he
    exact ⟨by rw [hs]; exact h.pdos, by rw [hs]; exact h.last, by rw [hs]; exact h.fresh,
      by rw [hs]; exact h.room, he⟩

/-- Behind a full PDO an entry more needs a further PDO. -/
theorem fits_succ_of_full (hl : 0 < o.pdoEntryLimit)
    (hfull : n = o.pdoEntryLimit * pdosFor o.pdoEntryLimit n) (h : Fits o s first x n) :
    Fits o s first x (n + 1) ↔
      FlowsOn o s first x (pdosFor o.pdoEntryLimit n) ∧
        x.entries.length + n < Sync.entryLimit := by
  have hs := pdosFor_succ_of_full hl hfull
  constructor
  · intro h'
    have hpdos := h'.pdos
    have hlast := h'.last
    have hroom := h'.room
    rw [hs] at hpdos hlast hroom
    have hfresh := h'.fresh (pdosFor o.pdoEntryLimit n) (by omega)
    exact ⟨⟨hpdos, by omega, hfresh, by omega⟩, h'.entries⟩
  · rintro ⟨⟨hpdos, hin, hfresh, hroom⟩, he⟩
    refine ⟨by omega, by omega, ?_, by omega, he⟩
    intro k hk
    rw [hs] at hk
    rcases Nat.lt_or_eq_of_le (Nat.le_of_lt_succ hk) with hk | rfl
    · exact h.fresh k hk
    · exact hfresh

/-- The cursor behind `n` entries. -/
def Cursor.behind (o : Options) (first n : Nat) : Cursor :=
  ⟨first + (n - 1) / o.pdoEntryLimit, pdosFor o.pdoEntryLimit n,
    n - (n - 1) / o.pdoEntryLimit * o.pdoEntryLimit⟩

theorem filled_behind_eq_iff (hl : 0 < o.pdoEntryLimit) :
    (Cursor.behind o first n).filled = o.pdoEntryLimit ↔
      n = o.pdoEntryLimit * pdosFor o.pdoEntryLimit n := by
  have hle : (n - 1) / o.pdoEntryLimit * o.pdoEntryLimit ≤ n :=
    Nat.le_trans (Nat.div_mul_le_self _ _) (Nat.sub_le _ _)
  have hm : o.pdoEntryLimit * pdosFor o.pdoEntryLimit n =
      (n - 1) / o.pdoEntryLimit * o.pdoEntryLimit + o.pdoEntryLimit := by
    rw [pdosFor, Nat.mul_comm, Nat.succ_mul]
  rw [hm, Cursor.behind]
  simp only
  omega

theorem behind_succ_of_open (hl : 0 < o.pdoEntryLimit)
    (hopen : n < o.pdoEntryLimit * pdosFor o.pdoEntryLimit n) :
    Cursor.behind o first (n + 1) =
      { Cursor.behind o first n with filled := (Cursor.behind o first n).filled + 1 } := by
  have hs := pdosFor_succ_of_open hl hopen
  have hq : n / o.pdoEntryLimit = (n - 1) / o.pdoEntryLimit := by
    simpa [pdosFor] using hs
  have hle : (n - 1) / o.pdoEntryLimit * o.pdoEntryLimit ≤ n :=
    Nat.le_trans (Nat.div_mul_le_self _ _) (Nat.sub_le _ _)
  simp only [Cursor.behind, hs, Nat.add_sub_cancel, hq, Cursor.mk.injEq, true_and]
  omega

theorem behind_succ_of_full (hl : 0 < o.pdoEntryLimit)
    (hfull : n = o.pdoEntryLimit * pdosFor o.pdoEntryLimit n) :
    Cursor.behind o first (n + 1) =
      ⟨(Cursor.behind o first n).pdo + 1, (Cursor.behind o first n).pdos + 1, 1⟩ := by
  have hs := pdosFor_succ_of_full hl hfull
  have hq : n / o.pdoEntryLimit = (n - 1) / o.pdoEntryLimit + 1 := by
    simpa [pdosFor] using hs
  have hn : n = ((n - 1) / o.pdoEntryLimit + 1) * o.pdoEntryLimit := by
    rw [Nat.mul_comm]
    exact hfull
  simp only [Cursor.behind, hs, Nat.add_sub_cancel, hq, Cursor.mk.injEq, true_and]
  omega

/-- The indices of the PDOs count up from the first one. -/
theorem index_of_mem_spread {limit first : Nat} {es : List Entry}
    (hb : first + pdosFor limit es.length ≤ UInt16.size) {p : Pdo}
    (hp : p ∈ spread limit first es) :
    ∃ k < pdosFor limit es.length, p.index.toNat = first + k := by
  obtain ⟨k, hk, rfl⟩ := mem_spread.1 hp
  refine ⟨k, hk, ?_⟩
  exact UInt16.toNat_ofNat_of_lt' (by omega)

/-- The PDOs of the channel itself do not stand in the way of a further one. -/
theorem fresh_add_spread_iff {es : List Entry} (hs : s.lastPdo < UInt16.size)
    (h : Fits o s first x es.length) :
    (∀ p ∈ (x.add (spread o.pdoEntryLimit first es)).pdos,
        p.index.toNat ≠ first + pdosFor o.pdoEntryLimit es.length) ↔
      ∀ p ∈ x.pdos, p.index.toNat ≠ first + pdosFor o.pdoEntryLimit es.length := by
  rw [Site.pdos_add, List.forall_mem_append, and_iff_left_iff_imp]
  intro _ p hp
  obtain ⟨k, hk, hi⟩ := index_of_mem_spread (Nat.le_trans h.last hs) hp
  omega

/-- The checks before a further PDO is asked for. -/
theorem result_flowOn_eq_ok_iff_of_fits (h : Fits o s first x n) {b₀ : Builder} {c : Cursor} :
    (flowOn o s first (Cursor.behind o first n)).result b₀ = (.ok c, b) ↔
      (pdosFor o.pdoEntryLimit n < allowedPdos o ∧
        first + pdosFor o.pdoEntryLimit n ≤ s.lastPdo) ∧
      (addPdo (first + pdosFor o.pdoEntryLimit n)).result b₀ = (.ok (), b) ∧
      c = ⟨(Cursor.behind o first n).pdo + 1, (Cursor.behind o first n).pdos + 1, 0⟩ := by
  have hpdo : (Cursor.behind o first n).pdo + 1 = first + pdosFor o.pdoEntryLimit n := rfl
  have hmore := @lt_allowedPdos_iff o _ (pdosFor_pos o.pdoEntryLimit n)
  have hle := h.pdos
  have hlast := h.last
  unfold flowOn
  split
  · next hflow =>
    constructor
    · intro hr
      exact absurd hr result_refuse_ne_ok
    · rintro ⟨⟨hlt, -⟩, -⟩
      rw [(hmore.1 hlt).1] at hflow
      cases hflow
  · next hflow =>
    split
    · next hfull =>
      constructor
      · intro hr
        exact absurd hr result_refuse_ne_ok
      · rintro ⟨⟨hlt, hin⟩, -⟩
        rcases hfull with hc | hc
        · exact absurd hc (Nat.ne_of_lt (hmore.1 hlt).2)
        · omega
    · next hopen =>
      have hlt : pdosFor o.pdoEntryLimit n < allowedPdos o := by
        refine Nat.lt_of_le_of_ne hle ?_
        intro heq
        rw [allowedPdos, if_pos (by simpa using hflow)] at heq
        exact hopen (.inl heq)
      have hin : first + pdosFor o.pdoEntryLimit n ≤ s.lastPdo := by
        refine Nat.le_of_lt_succ (Nat.lt_of_le_of_ne hlast ?_)
        intro heq
        exact hopen (.inr (Nat.succ.inj (hpdo.trans heq)))
      rw [hpdo, Action.result_seq_eq_ok_iff]
      simp only [Action.result_pure_eq_ok_iff]
      constructor
      · rintro ⟨_, hadd, rfl, rfl⟩
        exact ⟨⟨hlt, hin⟩, hadd, rfl⟩
      · rintro ⟨-, hadd, rfl⟩
        exact ⟨_, hadd, rfl, rfl⟩

/-- The flow goes on exactly if a further PDO finds a place. -/
theorem result_flowOn_eq_ok_iff {es : List Entry} (hs : s.lastPdo < UInt16.size)
    (h : Fits o s first x es.length) {c : Cursor} :
    (flowOn o s first (Cursor.behind o first es.length)).result
        (x.add (spread o.pdoEntryLimit first es)).builder = (.ok c, b) ↔
      FlowsOn o s first x (pdosFor o.pdoEntryLimit es.length) ∧
      c = ⟨(Cursor.behind o first es.length).pdo + 1,
        (Cursor.behind o first es.length).pdos + 1, 0⟩ ∧
      b = (x.add (spread o.pdoEntryLimit first es ++
        [⟨UInt16.ofNat (first + pdosFor o.pdoEntryLimit es.length), []⟩])).builder := by
  rw [result_flowOn_eq_ok_iff_of_fits h, result_addPdo_eq_ok_iff, fresh_add_spread_iff hs h,
    Site.pdos_add, List.length_append, length_spread_pdos, Site.add_add]
  constructor
  · rintro ⟨⟨hlt, hin⟩, ⟨hfresh, hroom, hb⟩, hc⟩
    exact ⟨⟨hlt, hin, hfresh, hroom⟩, hc, hb⟩
  · rintro ⟨⟨hlt, hin, hfresh, hroom⟩, hc, hb⟩
    exact ⟨⟨hlt, hin⟩, ⟨hfresh, hroom, hb⟩, hc⟩

theorem length_entries_add_spread {limit : Nat} (hl : 0 < limit) (x : Site) (first : Nat)
    (es : List Entry) :
    (x.add (spread limit first es)).entries.length = x.entries.length + es.length := by
  rw [Site.entries_add, entries_spread hl, List.length_append]

/-- One entry more is taken exactly if it fits. -/
theorem result_addEntries_cons_eq_ok_iff (hl : 0 < o.pdoEntryLimit)
    (hs : s.lastPdo < UInt16.size) {es rest : List Entry} {e : Entry}
    (h : Fits o s first x es.length) :
    (addEntries o s first (Cursor.behind o first es.length) (e :: rest)).result
        (x.add (spread o.pdoEntryLimit first es)).builder = (.ok (), b) ↔
      Fits o s first x (es.length + 1) ∧
      (addEntries o s first (Cursor.behind o first (es.length + 1)) rest).result
        (x.add (spread o.pdoEntryLimit first (es ++ [e]))).builder = (.ok (), b) := by
  rw [addEntries]
  rcases Nat.lt_or_eq_of_le (le_mul_pdosFor hl es.length) with hopen | hfull
  · have hne : ¬ (Cursor.behind o first es.length).filled = o.pdoEntryLimit := by
      rw [filled_behind_eq_iff hl]
      omega
    rw [if_neg hne, pure_bind, Action.result_seq_eq_ok_iff, fits_succ_of_open hl hopen h,
      behind_succ_of_open hl hopen, spread_append_of_open hl first e hopen]
    have hlen := length_entries_add_spread hl x first es
    rw [spread_eq hl first es] at hlen ⊢
    simp only [result_addEntry_eq_ok_iff, hlen]
    constructor
    · rintro ⟨_, ⟨he, rfl⟩, hr⟩
      exact ⟨he, hr⟩
    · rintro ⟨he, hr⟩
      exact ⟨_, ⟨he, rfl⟩, hr⟩
  · have heq : (Cursor.behind o first es.length).filled = o.pdoEntryLimit :=
      (filled_behind_eq_iff hl).2 hfull
    rw [if_pos heq, Action.result_bind_eq_ok_iff, fits_succ_of_full hl hfull h,
      behind_succ_of_full hl hfull, spread_append_of_full hl first e hfull]
    have hlen : (x.add (spread o.pdoEntryLimit first es ++
        [⟨UInt16.ofNat (first + pdosFor o.pdoEntryLimit es.length), []⟩])).entries.length =
          x.entries.length + es.length := by
      rw [← length_entries_add_spread hl x first es]
      simp
    simp only [result_flowOn_eq_ok_iff hs h, Action.result_seq_eq_ok_iff]
    constructor
    · rintro ⟨_, _, ⟨hflow, rfl, rfl⟩, _, hadd, hr⟩
      obtain ⟨he, rfl⟩ := result_addEntry_eq_ok_iff.1 hadd
      rw [hlen] at he
      exact ⟨⟨hflow, he⟩, hr⟩
    · rintro ⟨⟨hflow, he⟩, hr⟩
      refine ⟨_, _, ⟨hflow, rfl, rfl⟩, _, result_addEntry_eq_ok_iff.2 ⟨?_, rfl⟩, hr⟩
      rw [hlen]
      exact he

/-- All entries that are left are taken exactly if they fit, and then they are spread. -/
theorem result_addEntries_eq_ok_iff (hl : 0 < o.pdoEntryLimit) (hs : s.lastPdo < UInt16.size)
    (rest : List Entry) {es : List Entry} (h : Fits o s first x es.length) :
    (addEntries o s first (Cursor.behind o first es.length) rest).result
        (x.add (spread o.pdoEntryLimit first es)).builder = (.ok (), b) ↔
      Fits o s first x (es ++ rest).length ∧
        b = (x.add (spread o.pdoEntryLimit first (es ++ rest))).builder := by
  induction rest generalizing es with
  | nil =>
    rw [addEntries, Action.result_pure_eq_ok_iff, List.append_nil]
    constructor
    · rintro ⟨-, rfl⟩
      exact ⟨h, rfl⟩
    · rintro ⟨-, rfl⟩
      exact ⟨rfl, rfl⟩
  | cons e rest ih =>
    have hlen : (es ++ [e]).length = es.length + 1 := by simp
    have happ : es ++ e :: rest = (es ++ [e]) ++ rest := by simp
    rw [result_addEntries_cons_eq_ok_iff hl hs h, happ]
    constructor
    · rintro ⟨h', hr⟩
      rw [← hlen] at h' hr
      exact (ih h').1 hr
    · rintro ⟨hfits, hb⟩
      have h' : Fits o s first x (es ++ [e]).length :=
        hfits.of_le (List.prefix_append (es ++ [e]) rest).length_le
      have hr := (ih h').2 ⟨hfits, hb⟩
      rw [hlen] at h' hr
      exact ⟨h', hr⟩

/-- A channel is taken exactly if it starts in the range, does not ask for more than its
direction allows, and fits. Then its entries are spread behind the site. -/
theorem result_addChannel_eq_ok_iff (hl : 0 < o.pdoEntryLimit) (hp : o.pdoLimit ≠ 0)
    (hs : s.lastPdo < UInt16.size) (hx : x.entries.length ≤ Sync.entryLimit) (channel : Nat)
    (enabled : FeatureSet) :
    (addChannel o s channel enabled).result x.builder = (.ok (), b) ↔
      (channel * o.increment.toNat ≤ 0x1ff ∧
        (s.entries channel enabled).length ≤ s.limit o ∧
        Fits o s (s.firstPdo + channel * o.increment.toNat) x
          (s.entries channel enabled).length) ∧
      b = (x.add (spread o.pdoEntryLimit (s.firstPdo + channel * o.increment.toNat)
        (s.entries channel enabled))).builder := by
  unfold addChannel firstPdo
  simp only
  split
  · next hoff =>
    have hfirst : s.firstPdo + channel * o.increment.toNat ≤ s.lastPdo :=
      Nat.add_le_add_left hoff _
    generalize s.firstPdo + channel * o.increment.toNat = first at hfirst ⊢
    generalize s.entries channel enabled = es
    rw [pure_bind]
    split
    · next hlimit =>
      constructor
      · intro hr
        obtain ⟨_, h, -⟩ := Action.result_seq_eq_ok_iff.1 hr
        exact absurd h result_refuse_ne_ok
      · rintro ⟨⟨-, hle, -⟩, -⟩
        omega
    · next hlimit =>
      have hstart : (⟨first, 1, 0⟩ : Cursor) = Cursor.behind o first 0 := by
        simp [Cursor.behind, pdosFor]
      have hrun := @result_addEntries_eq_ok_iff o s first x b hl hs es []
      rw [spread_nil hl, List.nil_append, List.length_nil] at hrun
      simp only [Action.result_seq_eq_ok_iff, result_addPdo_eq_ok_iff]
      rw [hstart]
      constructor
      · rintro ⟨_, ⟨hfresh, hroom, rfl⟩, hr⟩
        have h0 := (fits_zero_iff hp hfirst hx).2 ⟨hfresh, hroom⟩
        obtain ⟨hfits, hb⟩ := (hrun h0).1 hr
        exact ⟨⟨hoff, by omega, hfits⟩, hb⟩
      · rintro ⟨⟨-, -, hfits⟩, hb⟩
        have h0 := hfits.of_le (Nat.zero_le _)
        obtain ⟨hfresh, hroom⟩ := (fits_zero_iff hp hfirst hx).1 h0
        exact ⟨_, ⟨hfresh, hroom, rfl⟩, (hrun h0).2 ⟨hfits, hb⟩⟩
  · next hoff =>
    constructor
    · intro hr
      obtain ⟨_, _, h, -⟩ := Action.result_bind_eq_ok_iff.1 hr
      exact absurd h result_refuse_ne_ok
    · rintro ⟨⟨h, -⟩, -⟩
      exact absurd h hoff

end Flow

end ServoBus.Axis.Layout
