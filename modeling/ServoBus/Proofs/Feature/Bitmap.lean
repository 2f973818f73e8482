import Mathlib.Data.Finset.Card
import ServoBus.Feature.Bitmap
import ServoBus.Proofs.Feature.Objects

/-!
# A bitmap is a finite set

Whatever is inserted and erased, a bitmap gives the answers of the finite set with the same history.
The bits of a `FeatureSet` are the low bits of its bitmap and the others stay zero, so the two give
the same answers, and the number of bits that are set is the number of members. Since the number of
a feature is the place of its row, and the row names the feature, going through the table lists the
members, and looking up their objects finds a row for each of them.
-/

namespace ServoBus

variable {s t : FeatureSet} {f : Feature}

namespace Feature

/-- The number of a feature is the place of its row. -/
theorem index_feature_of_table {i : Nat} {row : Row} (h : table[i]? = some row) :
    row.feature.index = i := by
  have hi : all[i]? = some row.feature := by
    rw [← map_feature_table, List.getElem?_map, h]
    rfl
  have hlt := row.feature.index_lt
  exact (List.getElem?_inj hlt nodup_all).1 ((getElem?_index_all _).trans hi.symm)

theorem map_index_all : all.map index = List.range count := rfl

end Feature

/-- Counting the set bits of a word is going through its bits. -/
theorem cpopNatRec_eq_countP {w : Nat} (x : BitVec w) (n : Nat) :
    x.cpopNatRec n 0 = (List.range n).countP x.getLsbD := by
  induction n with
  | zero => rfl
  | succ n ih =>
    rw [BitVec.cpopNatRec_succ, BitVec.cpopNatRec_add, ih, List.range_succ, List.countP_append,
      List.countP_singleton]
    cases x.getLsbD n <;> rfl

namespace FeatureSet

/-- The number of set bits is the number of members. -/
theorem size_eq_length_toList (s : FeatureSet) : s.size = s.toList.length := by
  rw [size, BitVec.toNat_cpop, cpopNatRec_eq_countP, ← Feature.map_index_all, List.countP_map,
    List.countP_eq_length_filter]
  rfl

theorem isEmpty_iff : s.isEmpty = true ↔ ∀ f, f ∉ s := by
  have h : s.isEmpty = true ↔ s = ∅ := by
    rw [isEmpty, beq_iff_eq]
    constructor
    · intro h
      exact congrArg FeatureSet.mk h
    · rintro rfl
      rfl
  rw [h, ext_iff_mem]
  simp only [not_mem_empty, iff_false]

end FeatureSet

namespace Bitmap

theorem contains_eq (b : Bitmap) (f : Feature) : b.contains f = b.word.getLsbD f.index := by
  have hlt : f.index < 128 := Nat.lt_trans f.index_lt (by decide)
  have hne : BitVec.twoPow 128 f.index ≠ 0#128 := by
    intro h
    have hbit := congrArg (·.getLsbD f.index) h
    simp [hlt] at hbit
  have hbit : bit f = BitVec.twoPow 128 f.index := rfl
  rw [contains, hbit, BitVec.and_twoPow]
  cases b.word.getLsbD f.index with
  | false => simp
  | true => simpa using hne

theorem getLsbD_ofSet (s : FeatureSet) (i : Nat) : (ofSet s).word.getLsbD i = s.bits.getLsbD i := by
  rw [ofSet, BitVec.getLsbD_setWidth]
  by_cases hi : i < 128
  · rw [decide_eq_true hi, Bool.true_and]
  · have hcount : Feature.count ≤ i := Nat.le_trans (by decide) (Nat.not_lt.1 hi)
    rw [decide_eq_false hi, Bool.false_and, BitVec.getLsbD_of_ge _ _ hcount]

@[simp] theorem contains_ofSet (s : FeatureSet) (f : Feature) :
    (ofSet s).contains f = s.contains f := by
  rw [contains_eq, getLsbD_ofSet, FeatureSet.contains]

theorem setWidth_inj {x y : BitVec Feature.count} : x.setWidth 128 = y.setWidth 128 ↔ x = y := by
  rw [← BitVec.toNat_inj, BitVec.toNat_setWidth_of_le (by decide),
    BitVec.toNat_setWidth_of_le (by decide), BitVec.toNat_inj]

/-- The bit of a feature is the same in the word and in the set. -/
theorem getLsbD_bit (f : Feature) (i : Nat) :
    (bit f).getLsbD i = (BitVec.twoPow Feature.count f.index).getLsbD i := by
  have hlt := f.index_lt
  have hlt' : f.index < 128 := Nat.lt_trans hlt (by decide)
  have hbit : bit f = BitVec.twoPow 128 f.index := rfl
  rw [hbit, BitVec.getLsbD_twoPow, BitVec.getLsbD_twoPow, decide_eq_true hlt, decide_eq_true hlt']

theorem ofSet_empty : ofSet ∅ = empty := rfl

@[simp] theorem insert_ofSet (s : FeatureSet) (f : Feature) :
    (ofSet s).insert f = ofSet (s.insert f) := by
  refine congrArg Bitmap.mk (BitVec.eq_of_getLsbD_eq fun i _ => ?_)
  rw [BitVec.getLsbD_or, getLsbD_ofSet, getLsbD_bit]
  exact (getLsbD_ofSet (s.insert f) i).symm ▸ (BitVec.getLsbD_or ..).symm

@[simp] theorem erase_ofSet (s : FeatureSet) (f : Feature) :
    (ofSet s).erase f = ofSet (s.erase f) := by
  refine congrArg Bitmap.mk (BitVec.eq_of_getLsbD_eq fun i hi => ?_)
  have herase := getLsbD_ofSet (s.erase f) i
  rw [FeatureSet.erase, BitVec.getLsbD_and, BitVec.getLsbD_not, ← getLsbD_bit] at herase
  rw [BitVec.getLsbD_and, BitVec.getLsbD_not, getLsbD_ofSet, decide_eq_true hi, Bool.true_and]
  refine Eq.trans ?_ herase.symm
  -- A bit that the set does not have is not set.
  cases hbit : s.bits.getLsbD i with
  | false => rfl
  | true => rw [decide_eq_true (BitVec.lt_of_getLsbD hbit), Bool.true_and, Bool.true_and]

@[simp] theorem size_ofSet (s : FeatureSet) : (ofSet s).size = s.size :=
  BitVec.toNat_cpop_setWidth_eq_of_le (by decide)

@[simp] theorem isEmpty_ofSet (s : FeatureSet) : (ofSet s).isEmpty = s.isEmpty := by
  have hzero : (0 : BitVec 128) = (0 : BitVec Feature.count).setWidth 128 := rfl
  rw [Bool.eq_iff_iff, isEmpty, FeatureSet.isEmpty, beq_iff_eq, beq_iff_eq, hzero]
  exact setWidth_inj

@[simp] theorem includes_ofSet (s t : FeatureSet) : (ofSet s).includes (ofSet t) = t.subset s := by
  have hand : (ofSet s).word &&& (ofSet t).word = (s.bits &&& t.bits).setWidth 128 :=
    BitVec.setWidth_and.symm
  rw [Bool.eq_iff_iff, includes, FeatureSet.subset, beq_iff_eq, beq_iff_eq, hand]
  exact setWidth_inj

@[simp] theorem toList_ofSet (s : FeatureSet) : (ofSet s).toList = s.toList := by
  rw [toList, Feature.map_feature_table, FeatureSet.toList]
  exact List.filter_congr fun f _ => contains_ofSet s f

/-- There is a row for every member. -/
theorem objects?_ofSet (s : FeatureSet) (t : Transfer) :
    (ofSet s).objects? t = some (s.objects t) := by
  have hrow (f : Feature) : (f.row?.map fun row => (f, row.descriptor.object?)) =
      pure (f, f.object?) := by
    rw [Feature.row?_eq]
    rfl
  simp only [objects?, toList_ofSet, hrow, List.mapM_pure, pure_bind]
  rw [List.filterMap_map, List.filter_filterMap, FeatureSet.objects]
  congr 2
  funext f
  cases hf : f.object? with
  | none => simp [hf]
  | some o => by_cases ht : o.transfer = t <;> simp [hf, Option.filter_some, ht]

end Bitmap

/-! ## Histories -/

/-- A change to a set of features. -/
inductive Edit where
  | insert (f : Feature)
  | erase (f : Feature)
deriving DecidableEq, Repr

namespace Edit

variable {σ : Type}

/-- Changes a set that is kept in some form, by the two operations of this form. -/
def perform (insert erase : σ → Feature → σ) (s : σ) : Edit → σ
  | .insert f => insert s f
  | .erase f => erase s f

/-- The set after some changes to an empty one. -/
def run (empty : σ) (insert erase : σ → Feature → σ) (edits : List Edit) : σ :=
  edits.foldl (perform insert erase) empty

def bitmap : List Edit → Bitmap := run .empty Bitmap.insert Bitmap.erase

def featureSet : List Edit → FeatureSet := run ∅ FeatureSet.insert FeatureSet.erase

def finset : List Edit → Finset Feature := run ∅ (fun S f => Insert.insert f S) Finset.erase

theorem bitmap_eq (edits : List Edit) : bitmap edits = .ofSet (featureSet edits) := by
  refine List.foldl_rel (r := fun b s => b = Bitmap.ofSet s) Bitmap.ofSet_empty.symm ?_
  rintro (f | f) - b s rfl
  · exact Bitmap.insert_ofSet s f
  · exact Bitmap.erase_ofSet s f

theorem mem_featureSet (edits : List Edit) : ∀ f, f ∈ featureSet edits ↔ f ∈ finset edits := by
  refine List.foldl_rel (r := fun s S => ∀ f : Feature, f ∈ s ↔ f ∈ S) ?_ ?_
  · intro f
    simp [FeatureSet.not_mem_empty]
  · rintro (g | g) - s S h f
    · simp [perform, FeatureSet.mem_insert, h, or_comm]
    · simp [perform, FeatureSet.mem_erase, h, and_comm]

/-- Every finite set has a history. -/
theorem exists_finset_eq (S : Finset Feature) : ∃ edits, finset edits = S := by
  induction S using Finset.induction_on with
  | empty => exact ⟨[], rfl⟩
  | insert f S _ ih =>
    obtain ⟨edits, rfl⟩ := ih
    refine ⟨edits ++ [.insert f], ?_⟩
    rw [finset, run, List.foldl_concat]
    rfl

end Edit

/-- The table has a row for every feature, at its number, and no other rows. -/
structure Feature.Tabulated : Prop where
  row : ∀ f : Feature, f.row? = some ⟨f, f.descriptor⟩
  index : ∀ (i : Nat) (row : Row), table[i]? = some row → row.feature.index = i

namespace Bitmap

/-- A bitmap gives the answers of a finite set, and it lists the members. -/
structure Implements (b : Bitmap) (S : Finset Feature) : Prop where
  contains : ∀ f, b.contains f = true ↔ f ∈ S
  size : b.size = S.card
  isEmpty : b.isEmpty = true ↔ S = ∅
  mem_toList : ∀ f, f ∈ b.toList ↔ f ∈ S
  nodup_toList : b.toList.Nodup
  toList_sublist : b.toList.Sublist (Feature.table.map (·.feature))

/-- A bitmap gives the answers of a set of features. -/
structure Mirrors (b : Bitmap) (s : FeatureSet) : Prop where
  contains : ∀ f, b.contains f = s.contains f
  size : b.size = s.size
  isEmpty : b.isEmpty = s.isEmpty
  includes : ∀ t, b.includes (ofSet t) = t.subset s
  toList : b.toList = s.toList
  objects? : ∀ t, b.objects? t = some (s.objects t)

/-- The objects of each kind of transfer are members, and what is left are operating modes. -/
structure Arranges (b : Bitmap) (objects : Transfer → List (Feature × DriveObject)) : Prop where
  found : ∀ t, b.objects? t = some (objects t)
  described : ∀ t f d, (f, d) ∈ objects t → f.object? = some d ∧ d.transfer = t
  nodup : ∀ t, ((objects t).map Prod.fst).Nodup
  ordered : ∀ t, ((objects t).map Prod.fst).Sublist (Feature.table.map (·.feature))
  disjoint : ∀ t t', t ≠ t' → ((objects t).map Prod.fst).Disjoint ((objects t').map Prod.fst)
  whole : b.toList = Feature.modes.filter b.contains ++
    ((objects .input).map Prod.fst ++
      ((objects .output).map Prod.fst ++ (objects .service).map Prod.fst))

theorem mirrors_ofSet (s : FeatureSet) : (ofSet s).Mirrors s where
  contains := contains_ofSet s
  size := size_ofSet s
  isEmpty := isEmpty_ofSet s
  includes := includes_ofSet s
  toList := toList_ofSet s
  objects? := objects?_ofSet s

theorem arranges_ofSet (s : FeatureSet) : (ofSet s).Arranges s.objects where
  found := objects?_ofSet s
  described t f d h := (FeatureSet.mem_objects.1 h).2
  nodup := s.nodup_features_objects
  ordered t := Feature.map_feature_table ▸ s.features_objects_sublist t
  disjoint t t' h := s.disjoint_features_objects h
  whole := by
    rw [toList_ofSet, s.toList_eq_groups]
    exact congrArg (· ++ _) (List.filter_congr fun f _ => (contains_ofSet s f).symm)

/-- A set of features with the members of a finite set has as many of them. -/
theorem implements_ofSet {S : Finset Feature} (h : ∀ f, f ∈ s ↔ f ∈ S) :
    (ofSet s).Implements S where
  contains f := by
    rw [contains_ofSet]
    exact h f
  size := by
    have hS : s.toList.toFinset = S := by
      ext f
      rw [List.mem_toFinset, FeatureSet.mem_toList, h]
    rw [size_ofSet, FeatureSet.size_eq_length_toList, ← hS,
      List.toFinset_card_of_nodup s.nodup_toList]
  isEmpty := by
    rw [isEmpty_ofSet, FeatureSet.isEmpty_iff, Finset.eq_empty_iff_forall_notMem]
    exact forall_congr' fun f => not_congr (h f)
  mem_toList f := by
    rw [toList_ofSet, FeatureSet.mem_toList, h]
  nodup_toList := by
    rw [toList_ofSet]
    exact s.nodup_toList
  toList_sublist := by
    rw [toList_ofSet, Feature.map_feature_table]
    exact List.filter_sublist

/-- After any insertions and removals a bitmap is the finite set that they make, its members are
its operating modes and its objects of each kind, and the set of features with the same history
gives the same answers. Every finite set comes about so. -/
theorem implements_of_edits (edits others : List Edit) :
    Feature.Tabulated ∧ (Edit.bitmap edits).Implements (Edit.finset edits) ∧
      ((Edit.bitmap edits).includes (Edit.bitmap others) = true ↔
        Edit.finset others ⊆ Edit.finset edits) ∧
      (Edit.bitmap edits).Arranges (Edit.featureSet edits).objects ∧
      (Edit.bitmap edits).Mirrors (Edit.featureSet edits) ∧
      (∀ S, ∃ history, Edit.finset history = S) := by
  have hincludes : (Edit.bitmap edits).includes (Edit.bitmap others) = true ↔
      Edit.finset others ⊆ Edit.finset edits := by
    rw [Edit.bitmap_eq, Edit.bitmap_eq, includes_ofSet]
    refine FeatureSet.subset_iff.trans (forall_congr' fun f => ?_)
    rw [Edit.mem_featureSet, Edit.mem_featureSet]
  refine ⟨⟨Feature.row?_eq, fun _ _ => Feature.index_feature_of_table⟩, ?_, hincludes, ?_, ?_,
    Edit.exists_finset_eq⟩
  · rw [Edit.bitmap_eq]
    exact implements_ofSet (Edit.mem_featureSet edits)
  · rw [Edit.bitmap_eq]
    exact arranges_ofSet _
  · rw [Edit.bitmap_eq]
    exact mirrors_ofSet _

end Bitmap

end ServoBus
