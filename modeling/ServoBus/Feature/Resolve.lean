import ServoBus.Feature.Set

/-!
# Implied features

An operating mode needs objects, and so does an object that is set: the mode that
was chosen is read back. A set of features is used only after all that its members
imply has been added. One pass over the rules may add a feature that triggers a rule
passed before, so passes are repeated until nothing is added. Every pass but the
last adds a feature, hence no more passes are needed than there are features.
-/

namespace ServoBus

/-- A feature and what it needs. -/
structure Implication where
  trigger : Feature
  implied : List Feature
deriving DecidableEq, Repr

namespace Implication

def all : List Implication :=
  [⟨.opmode, [.opmodeDisplay]⟩,
   ⟨.pp, [.actualPosition, .targetPosition]⟩,
   ⟨.csp, [.actualPosition, .targetPosition]⟩,
   ⟨.pv, [.actualVelocity, .targetVelocity]⟩,
   ⟨.csv, [.actualVelocity, .targetVelocity]⟩,
   ⟨.tq, [.actualTorque, .targetTorque]⟩,
   ⟨.cst, [.actualTorque, .targetTorque]⟩,
   ⟨.vl, [.actualVl, .targetVl, .demandVl]⟩,
   ⟨.hm, [.homeMethod, .homeVelocityFast, .homeVelocitySlow, .homeAccel]⟩,
   ⟨.ip, [.interpolationTimePeriod, .actualPosition, .targetPosition]⟩]

/-- Adds what a rule implies if its trigger is there. -/
def apply (s : FeatureSet) (rule : Implication) : FeatureSet :=
  if rule.trigger ∈ s then s.insertMany rule.implied else s

end Implication

namespace FeatureSet

/-- One pass over the rules in their order. -/
def pass (s : FeatureSet) : FeatureSet := Implication.all.foldl Implication.apply s

/-- Repeats the pass until it changes nothing. -/
def settle : Nat → FeatureSet → FeatureSet
  | 0, s => s
  | n + 1, s => if s.pass = s then s else settle n s.pass

/-- A set of requested features with all that it implies. -/
def resolve (s : FeatureSet) : FeatureSet := settle Feature.count s

theorem mem_insertMany {s : FeatureSet} {fs : List Feature} {g : Feature} :
    g ∈ s.insertMany fs ↔ g ∈ s ∨ g ∈ fs := by
  induction fs generalizing s with
  | nil => simp [insertMany]
  | cons f fs ih =>
    have h : s.insertMany (f :: fs) = (s.insert f).insertMany fs := rfl
    rw [h, ih, mem_insert, List.mem_cons, or_assoc]

end FeatureSet

end ServoBus
