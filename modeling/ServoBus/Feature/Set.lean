import ServoBus.Fault
import ServoBus.Feature.Basic

/-!
# Sets of features

A set of features is a vector with one bit for every feature, so that sets with the
same members are equal. `Membership` is the view through which the operations are
stated: `mem_insert`, `mem_erase` and `subset_iff` say what they do to it.
-/

namespace ServoBus

structure FeatureSet where
  bits : BitVec Feature.count
deriving DecidableEq, Repr

namespace FeatureSet

def contains (s : FeatureSet) (f : Feature) : Bool := s.bits.getLsbD f.index

instance : Membership Feature FeatureSet := ⟨fun s f => s.contains f = true⟩

instance (f : Feature) (s : FeatureSet) : Decidable (f ∈ s) :=
  inferInstanceAs (Decidable (s.contains f = true))

theorem mem_iff {f : Feature} {s : FeatureSet} : f ∈ s ↔ s.bits.getLsbD f.index = true := Iff.rfl

def empty : FeatureSet := ⟨0⟩

instance : EmptyCollection FeatureSet := ⟨empty⟩

instance : Inhabited FeatureSet := ⟨empty⟩

def isEmpty (s : FeatureSet) : Bool := s.bits == 0

def size (s : FeatureSet) : Nat := s.bits.cpop.toNat

def insert (s : FeatureSet) (f : Feature) : FeatureSet :=
  ⟨s.bits ||| BitVec.twoPow _ f.index⟩

def erase (s : FeatureSet) (f : Feature) : FeatureSet :=
  ⟨s.bits &&& ~~~BitVec.twoPow _ f.index⟩

/-- Inserts a feature or erases it. -/
def assign (s : FeatureSet) (f : Feature) (on : Bool) : FeatureSet :=
  if on then s.insert f else s.erase f

/-- Assigns a feature that is given by its configuration name. -/
def assignNamed (s : FeatureSet) (name : String) (on : Bool) : Except Fault FeatureSet :=
  match Feature.ofConfigName? name with
  | some f => .ok (s.assign f on)
  | none => .error (.unknownFeature name)

def subset (s t : FeatureSet) : Bool := t.bits &&& s.bits == s.bits

instance : HasSubset FeatureSet := ⟨fun s t => s.subset t = true⟩

def insertMany (s : FeatureSet) (fs : List Feature) : FeatureSet := fs.foldl insert s

def ofList (fs : List Feature) : FeatureSet := insertMany ∅ fs

/-- The members in the order of all features. -/
def toList (s : FeatureSet) : List Feature := Feature.all.filter s.contains

/-- The members that are objects of one kind of transfer, with these objects. -/
def objects (s : FeatureSet) (transfer : Transfer) : List (Feature × DriveObject) :=
  s.toList.filterMap fun f =>
    (f.object?.filter (·.transfer == transfer)).map fun o => (f, o)

theorem not_mem_empty (f : Feature) : f ∉ (∅ : FeatureSet) := by
  intro h
  have h : (0 : BitVec Feature.count).getLsbD f.index = true := h
  simp at h

theorem mem_insert {s : FeatureSet} {f g : Feature} : g ∈ s.insert f ↔ g ∈ s ∨ g = f := by
  have hf := f.index_lt
  simp only [mem_iff, insert, BitVec.getLsbD_or, BitVec.getLsbD_twoPow, Bool.or_eq_true,
    Bool.and_eq_true, decide_eq_true_eq, hf, true_and, Feature.index_inj, eq_comm (a := g)]

theorem mem_erase {s : FeatureSet} {f g : Feature} : g ∈ s.erase f ↔ g ∈ s ∧ g ≠ f := by
  have hf := f.index_lt
  have hg := g.index_lt
  simp only [mem_iff, erase, BitVec.getLsbD_and, BitVec.getLsbD_not, BitVec.getLsbD_twoPow,
    Bool.and_eq_true, Bool.not_eq_true', Bool.and_eq_false_iff, decide_eq_true_eq,
    decide_eq_false_iff_not, hf, hg, not_true_eq_false, true_and, false_or, Feature.index_inj,
    ne_eq, eq_comm (a := g)]

theorem ext_iff_mem {s t : FeatureSet} : s = t ↔ ∀ f, f ∈ s ↔ f ∈ t := by
  constructor
  · rintro rfl _
    exact Iff.rfl
  · intro h
    rcases s with ⟨a⟩
    rcases t with ⟨b⟩
    congr 1
    apply BitVec.eq_of_getLsbD_eq
    intro i hi
    have hf := getElem?_pos Feature.all i hi
    have hif : Feature.all[i].index = i := by
      have := Feature.getElem?_index_all Feature.all[i]
      exact (List.getElem?_inj (Feature.index_lt _) Feature.nodup_all).1 (this.trans hf.symm)
    have := h Feature.all[i]
    simp only [mem_iff, hif] at this
    exact Bool.eq_iff_iff.2 this

theorem subset_iff {s t : FeatureSet} : s ⊆ t ↔ ∀ f, f ∈ s → f ∈ t := by
  have h : s ⊆ t ↔ (⟨t.bits &&& s.bits⟩ : FeatureSet) = s := by
    rcases s with ⟨a⟩
    simp [HasSubset.Subset, subset]
  rw [h, ext_iff_mem]
  simp only [mem_iff, BitVec.getLsbD_and, Bool.and_eq_true, and_iff_right_iff_imp]

theorem mem_toList {s : FeatureSet} {f : Feature} : f ∈ s.toList ↔ f ∈ s := by
  simp only [toList, List.mem_filter, Feature.mem_all, true_and]
  exact Iff.rfl

theorem nodup_toList (s : FeatureSet) : s.toList.Nodup := Feature.nodup_all.filter _

end FeatureSet

end ServoBus
