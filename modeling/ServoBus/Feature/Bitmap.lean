import ServoBus.Feature.Set

/-!
# Sets of features in a machine word

What is known about a feature stands in a row of a table, and the row is found at the number of the
feature. A set of features takes one word of 128 bits, in which every feature has the bit at its
number. To list the members the rows are gone through: a row says which feature it describes, and
the word whether this is a member.

So three things have to agree: the number of a feature, the place of its row, and the feature that
the row names. A place without a row gives nothing, and listing the objects has no result then.
-/

namespace ServoBus

namespace Feature

/-- A feature and what is known about it. -/
structure Row where
  feature : Feature
  descriptor : Descriptor
deriving DecidableEq, Repr

def table : List Row := all.map fun f => ⟨f, f.descriptor⟩

/-- The row at the number of a feature. -/
def row? (f : Feature) : Option Row := table[f.index]?

theorem row?_eq (f : Feature) : f.row? = some ⟨f, f.descriptor⟩ := by
  rw [row?, table, List.getElem?_map, getElem?_index_all]
  rfl

/-- The rows name the features in their order. -/
theorem map_feature_table : table.map (·.feature) = all := by
  rw [table, List.map_map]
  exact List.map_id all

end Feature

structure Bitmap where
  word : BitVec 128
deriving DecidableEq, Repr

namespace Bitmap

/-- The word in which only the bit of a feature is set. -/
def bit (f : Feature) : BitVec 128 := 1 <<< f.index

def empty : Bitmap := ⟨0⟩

def contains (b : Bitmap) (f : Feature) : Bool := b.word &&& bit f != 0

def insert (b : Bitmap) (f : Feature) : Bitmap := ⟨b.word ||| bit f⟩

def erase (b : Bitmap) (f : Feature) : Bitmap := ⟨b.word &&& ~~~bit f⟩

def isEmpty (b : Bitmap) : Bool := b.word == 0

def size (b : Bitmap) : Nat := b.word.cpop.toNat

/-- Whether all members of another set are members. -/
def includes (b c : Bitmap) : Bool := b.word &&& c.word == c.word

/-- The members in the order of the table. -/
def toList (b : Bitmap) : List Feature := (Feature.table.map (·.feature)).filter b.contains

/-- The members that are objects of one kind of transfer, with these objects. -/
def objects? (b : Bitmap) (transfer : Transfer) : Option (List (Feature × DriveObject)) := do
  let described ← b.toList.mapM fun f => f.row?.map fun row => (f, row.descriptor.object?)
  let objects := described.filterMap fun (f, object?) => object?.map fun o => (f, o)
  some (objects.filter fun (_, o) => o.transfer == transfer)

/-- The bitmap of a set. Its further bits are zero. -/
def ofSet (s : FeatureSet) : Bitmap := ⟨s.bits.setWidth 128⟩

end Bitmap

end ServoBus
