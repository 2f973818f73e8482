import Mathlib.Data.List.Basic
import ServoBus.Feature.Set

/-!
# Objects of a set of features

Features come in four groups, which follow each other in the order of all features: the operating
modes, and behind them the objects of each kind of transfer. The objects of a set are those of a
group that are members, so in their order the members are the modes and the objects of each kind.
-/

namespace ServoBus

namespace Feature

def modes : List Feature := [pp, pv, tq, hm, ip, csp, csv, cst, vl]

/-- The features with an object of one kind of transfer. -/
def ofTransfer (t : Transfer) : List Feature := all.filter fun f => f.object?.any (·.transfer == t)

/-- The operating modes are the features without an object. -/
theorem mem_modes_iff (f : Feature) : f ∈ modes ↔ f.object? = none := by
  cases f <;> decide

theorem all_eq_groups :
    all = modes ++ (ofTransfer .input ++ (ofTransfer .output ++ ofTransfer .service)) := by
  decide +kernel

end Feature

namespace FeatureSet

variable {s : FeatureSet} {t t' : Transfer} {f : Feature} {d : DriveObject}

theorem mem_objects : (f, d) ∈ s.objects t ↔ f ∈ s ∧ f.object? = some d ∧ d.transfer = t := by
  simp only [objects, List.mem_filterMap, mem_toList, Option.map_eq_some_iff,
    Option.filter_eq_some_iff, beq_iff_eq, Prod.mk.injEq]
  constructor
  · rintro ⟨g, hg, e, ⟨he, ht⟩, rfl, rfl⟩
    exact ⟨hg, he, ht⟩
  · rintro ⟨hf, hd, ht⟩
    exact ⟨f, hf, d, ⟨hd, ht⟩, rfl, rfl⟩

/-- The objects of a set are the members of a group. -/
theorem features_objects (s : FeatureSet) (t : Transfer) :
    (s.objects t).map Prod.fst = (Feature.ofTransfer t).filter s.contains := by
  have h : (s.objects t).map Prod.fst =
      s.toList.filter fun f => f.object?.any (·.transfer == t) := by
    rw [objects, List.map_filterMap, ← List.filterMap_eq_filter]
    congr 1
    funext f
    cases ho : f.object? with
    | none => simp [Option.guard, ho]
    | some d => by_cases ht : d.transfer = t <;> simp [Option.guard, ho, ht]
  rw [h, toList, Feature.ofTransfer, List.filter_filter, List.filter_filter]
  exact List.filter_congr fun f _ => Bool.and_comm _ _

/-- An object is listed once. -/
theorem nodup_features_objects (s : FeatureSet) (t : Transfer) :
    ((s.objects t).map Prod.fst).Nodup := by
  rw [features_objects]
  exact (Feature.nodup_all.filter _).filter _

/-- Objects are listed in the order of all features. -/
theorem features_objects_sublist (s : FeatureSet) (t : Transfer) :
    ((s.objects t).map Prod.fst).Sublist Feature.all := by
  rw [features_objects]
  exact List.filter_sublist.trans List.filter_sublist

/-- A feature has one kind of transfer. -/
theorem disjoint_features_objects (s : FeatureSet) (h : t ≠ t') :
    ((s.objects t).map Prod.fst).Disjoint ((s.objects t').map Prod.fst) := by
  intro f hf hf'
  obtain ⟨⟨_, d⟩, hd, rfl⟩ := List.mem_map.1 hf
  obtain ⟨⟨_, e⟩, he, rfl⟩ := List.mem_map.1 hf'
  obtain ⟨-, hd, ht⟩ := mem_objects.1 hd
  obtain ⟨-, he, ht'⟩ := mem_objects.1 he
  cases hd.symm.trans he
  exact h (ht.symm.trans ht')

/-- The members are the operating modes among them, followed by the objects of each kind. -/
theorem toList_eq_groups (s : FeatureSet) :
    s.toList = Feature.modes.filter s.contains ++
      ((s.objects .input).map Prod.fst ++
        ((s.objects .output).map Prod.fst ++ (s.objects .service).map Prod.fst)) := by
  rw [toList, Feature.all_eq_groups]
  simp only [List.filter_append, features_objects]

end FeatureSet

end ServoBus
