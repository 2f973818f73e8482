import ServoBus.Proofs.Axis.Mapping
import ServoBus.Proofs.Axis.Settings
import ServoBus.Proofs.Setup.Exposes
import ServoBus.Proofs.Setup.Masked

/-!
# The pins of an axis

An axis exposes its two words, its supported modes as a whole and one by one, and a pin for each of
its objects that is not packed. `Axis.pins` lists these pins by the names that they have within the
axis, and `lay` puts those of all axes of a drive in a row under their labels.
-/

namespace ServoBus

/-- The pin that shows an object. -/
def DriveObject.pin (d : DriveObject) : Pin.Shape :=
  ⟨d.pinName, if d.transfer = .input then .output else .input, d.format.pinKind⟩

section NotDuplicate

variable {μ : Type} [Master μ] {slave : Position} {e : Fault}

theorem Fault.OfLayout.notDuplicate (h : e.OfLayout) : e.NotDuplicate μ slave := by
  rintro ⟨name, rfl⟩
  exact h.elim

theorem Fault.IsRegistrationsFull.notDuplicate (h : e.IsRegistrationsFull) :
    e.NotDuplicate μ slave := by
  obtain ⟨device, used, limit, rfl⟩ := h
  rintro ⟨name, h⟩
  cases h

end NotDuplicate

namespace Axis

open ServoBus.Action (FailsWith)
open Setup (Exposes)

/-- The pins of the words and of the supported modes, which every axis has. -/
def basicPins : List Pin.Shape :=
  [⟨"cia-controlword", .input, .u32⟩, ⟨"cia-statusword", .output, .u32⟩,
    ⟨"supported-modes", .output, .u32⟩] ++
    modeBits.map fun mode => ⟨s!"supports-mode-{mode.1}", .output, .bit⟩

/-- The pins of mapped objects that are not packed. -/
def mappedPins (packed enabled : FeatureSet) : List Pin.Shape :=
  ((mappedObjects enabled).filter fun x => x.1 ∉ packed).map fun x => x.2.pin

def servicePins (enabled : FeatureSet) : List Pin.Shape :=
  (enabled.objects .service).map fun x => x.2.pin

/-- The pins of an axis by their names within it. -/
def pins (packed enabled : FeatureSet) : List Pin.Shape :=
  basicPins ++ (mappedPins packed enabled ++ servicePins enabled)

/-- Pins of the axes of a drive, all of them under the label of their axis. -/
def lay (site : Site) (shapes : FeatureSet → List Pin.Shape) (enabled : List FeatureSet) :
    List Pin.Shape :=
  enabled.zipIdx.flatMap fun x =>
    (shapes x.1).map (·.under site (channelLabel enabled.length x.2))

variable {μ : Type} [Master μ] {site : Site}

namespace Channel

theorem exposes_readModes (base : UInt16) (label : String) :
    Exposes site (readModes (μ := μ) site base label) [] := by
  refine Setup.exposes_of_made (moves_readModes base) (FailsWith.tryCatch fun e => ?_)
  exact (Action.failsWith_lift _).bind fun _ => Action.failsWith_pure _

theorem exposes_putPin (ref : PinRef) (v : Pin.Value) :
    Exposes site (Setup.putPin (μ := μ) ref v) [] :=
  Setup.exposes_onPins_modify fun t => t.shapes_put ref v

theorem exposes_addModePins (label : String) (modes : UInt32) (bits : List (String × Nat)) :
    Exposes site (addModePins (μ := μ) site label modes bits)
      ((bits.map fun mode => ⟨s!"supports-mode-{mode.1}", .output, .bit⟩).map
        (Pin.Shape.under site label)) := by
  induction bits with
  | nil => exact Setup.exposes_pure ()
  | cons mode bits ih =>
    exact (Setup.exposes_addPin label ⟨s!"supports-mode-{mode.1}", .output, .bit⟩).bind fun pin =>
      (exposes_putPin pin _).after fun _ => ih

theorem exposes_addObjectPins (label : String) (packed : FeatureSet) (xs : List Registered) :
    Exposes site (addObjectPins (μ := μ) site label packed xs)
      (((xs.filter fun r => r.feature ∉ packed).map (·.object.pin)).map
        (Pin.Shape.under site label)) := by
  induction xs with
  | nil => exact Setup.exposes_pure _
  | cons r rest ih =>
    rw [addObjectPins]
    by_cases hp : r.feature ∈ packed
    · rw [if_pos hp, List.filter_cons_of_neg (by simpa using hp)]
      exact ih.before fun x => Setup.exposes_pure _
    · rw [if_neg hp, List.filter_cons_of_pos (by simpa using hp)]
      have hpin : Exposes (μ := μ) site (Setup.addPin site (some label) r.object.pinName
          r.object.format.pinKind (if r.object.transfer == .input then .output else .input))
          [r.object.pin.under site label] := by
        have h : Exposes (μ := μ) site _ _ := Setup.exposes_addPin label r.object.pin
        simpa only [DriveObject.pin, beq_iff_eq] using h
      refine hpin.bind fun pin => ih.before fun x => ?_
      split
      · exact Setup.exposes_pure _
      · exact Setup.exposes_pure _

/-- The registered objects of an axis get the pins of its mapped objects. -/
theorem exposes_objects (label : String) (packed : FeatureSet) {enabled : FeatureSet}
    {xs : List Registered} (h : xs.map (fun r => (r.feature, r.object)) = mappedObjects enabled) :
    Exposes site (addObjectPins (μ := μ) site label packed xs)
      ((mappedPins packed enabled).map (Pin.Shape.under site label)) := by
  have hpins : mappedPins packed enabled =
      (xs.filter fun r => r.feature ∉ packed).map (·.object.pin) := by
    rw [mappedPins, ← h, List.filter_map, List.map_map]
    rfl
  rw [hpins]
  exact exposes_addObjectPins label packed xs

theorem exposes_addService (base : UInt16) (c : ChannelOptions) {o : DriveObject}
    (ho : o.transfer = .service) :
    Exposes site (addService (μ := μ) site base c o) [o.pin.under site c.label] := by
  have hpin : Exposes (μ := μ) site (Setup.addPin site (some c.label) o.pinName
      o.format.pinKind .input) [o.pin.under site c.label] := by
    have h : Exposes (μ := μ) site _ _ := Setup.exposes_addPin c.label o.pin
    have hdirection : o.pin.direction = .input := by
      rw [DriveObject.pin, ho]
      rfl
    rwa [hdirection] at h
  have hend (pin : PinRef) (request : RequestRef) : Exposes site (do
      let current := (← (get : Setup μ (Workspace μ))).pins.raw pin
      let name := Pin.fullName site.master site.slave (some c.label) o.pinName
      pure (⟨.start name request o.format.width current, pin⟩ : Served)) [] :=
    Setup.exposes_get.after fun _ => Setup.exposes_pure _
  have hcreate (a : ObjectAddress) (length : Nat) (note : Fault → Logged Unit) : Exposes site
      ((Setup.onMaster (Master.createRequest (μ := μ) site.position a length)).noting note) [] := by
    refine Setup.exposes_of_made ((Setup.keeps_onMaster _).noting note) (FailsWith.noting note ?_)
    exact (Setup.failsWith_onMaster (.createRequest site.position a length) .request rfl
      (fun _ => rfl) fun _ => rfl).imp fun _ he _ => he
  refine (hcreate _ _ _).after fun request => hpin.before fun pin => ?_
  split
  · exact (Setup.exposes_onPins_modify fun t => t.shapes_putRaw pin _).after
      fun _ => hend pin request
  · exact hend pin request

theorem exposes_services (base : UInt16) (c : ChannelOptions) (enabled : FeatureSet) :
    Exposes site ((enabled.objects .service).mapM fun (_, d) => addService (μ := μ) site base c d)
      ((servicePins enabled).map (Pin.Shape.under site c.label)) := by
  rw [servicePins, List.map_map, List.map_eq_flatMap]
  exact Setup.exposes_mapM fun x hx => exposes_addService base c (FeatureSet.mem_objects.1 hx).2.2

/-- A channel exposes the pins of its axis under its label. -/
theorem exposes_register (n : Nat) (o : ChannelOptions) :
    Exposes site (register (μ := μ) site n o)
      ((pins o.packed o.requested.resolve).map (Pin.Shape.under site o.label)) := by
  have hpins : (pins o.packed o.requested.resolve).map (Pin.Shape.under site o.label) =
      [Pin.Shape.under site o.label ⟨"cia-controlword", .input, .u32⟩] ++
        ([Pin.Shape.under site o.label ⟨"cia-statusword", .output, .u32⟩] ++
          ([Pin.Shape.under site o.label ⟨"supported-modes", .output, .u32⟩] ++
            ((modeBits.map fun mode => ⟨s!"supports-mode-{mode.1}", .output, .bit⟩).map
                (Pin.Shape.under site o.label) ++
              ((mappedPins o.packed o.requested.resolve).map (Pin.Shape.under site o.label) ++
                (servicePins o.requested.resolve).map (Pin.Shape.under site o.label))))) := by
    rw [pins, basicPins, List.map_append, List.map_append, List.map_append]
    rfl
  rw [hpins, register]
  refine (Setup.exposes_of_keeps (Action.moves_within _ _) ?_).after_of_result ?_
  · exact ((failsWith_registerEntries _).within _).imp fun _ he => he.notDuplicate
  rintro w ⟨⟨control, status, xs⟩, own⟩ w' hown
  obtain ⟨hown, -⟩ := Action.result_within_eq_ok_iff.1 hown
  refine Exposes.after ?_ fun start => ?_
  · refine Setup.exposes_of_keeps (Action.keeps_zoom _ fun _ _ => rfl) ?_
    exact ((failsWith_append own).zoom _ _).imp fun _ he => he.notDuplicate
  refine (Setup.exposes_addPin o.label ⟨"cia-controlword", .input, .u32⟩).bind fun _ => ?_
  refine (Setup.exposes_addPin o.label ⟨"cia-statusword", .output, .u32⟩).bind fun _ => ?_
  refine (exposes_readModes _ _).after fun modes => ?_
  refine (Setup.exposes_addPin o.label ⟨"supported-modes", .output, .u32⟩).bind fun modesPin => ?_
  refine (exposes_putPin modesPin _).after fun _ => ?_
  refine (exposes_addModePins o.label modes modeBits).bind fun _ => ?_
  have hobjects := (of_result_registerEntries hown).2.2.2.1
  refine (exposes_objects o.label o.packed ?_).bind fun exchange => ?_
  · rw [List.map_map]
    exact hobjects
  refine (exposes_services _ o _).before fun services => ?_
  exact (Setup.exposes_lift _).after fun _ => Setup.exposes_pure _

end Channel

omit [Master μ] in
theorem flatMap_zipIdx {α β : Type} (l : List α) (g : α → List β) :
    l.zipIdx.flatMap (fun x => g x.1) = l.flatMap g := by
  rw [← List.flatMap_map, List.zipIdx_map_fst]

/-- A drive exposes the pins of its axes in their order. -/
theorem exposes_configure (o : Options) :
    Exposes site (configure (μ := μ) site o)
      (o.active.flatMap fun c =>
        (pins c.packed c.requested.resolve).map (Pin.Shape.under site c.label)) := by
  refine Exposes.after ?_ fun _ => Exposes.after ?_ fun _ => ?_
  · refine Setup.exposes_of_made (Action.moves_ofChecked _) ?_
    exact Action.failsWith_ofChecked fun e he => (ofLayout_of_validate he).notDuplicate
  · refine Setup.exposes_of_keeps (Action.keeps_zoom _ fun _ _ => rfl) ?_
    exact (Layout.maps_build.fault.zoom _ _).imp fun e he => he.notDuplicate
  rw [← flatMap_zipIdx]
  exact Setup.exposes_mapM fun x _ => Channel.exposes_register (μ := μ) x.2 x.1

section Labels

variable {α : Type} {view : ChannelOptions → α} {o : Options}

/-- Labels tell channels apart, and change nothing else of them. -/
theorem Options.map_active_numberLabels
    (hview : ∀ (c : ChannelOptions) label, view { c with label } = view c) :
    o.numberLabels.active.map view = o.active.map view := by
  unfold Options.numberLabels
  split
  · refine List.ext_getElem ?_ fun n h h' => ?_
    · simp [Options.active]
    simp only [Options.active, List.getElem_map, List.getElem_take, Vector.getElem_toList,
      Vector.getElem_mapIdx]
    split
    · exact hview _ _
    · rfl
  · rfl

/-- The pins of a drive whose only channel needs no label, and whose channels are numbered if there
are more. -/
theorem lay_active (ho : o.Uniform (·.label) "srv") (shapes : FeatureSet → List Pin.Shape) :
    lay site shapes (o.active.map (·.requested.resolve)) =
      o.numberLabels.active.flatMap fun c =>
        (shapes c.requested.resolve).map (Pin.Shape.under site c.label) := by
  have hmap : o.numberLabels.active.map (·.requested.resolve) =
      o.active.map (·.requested.resolve) := Options.map_active_numberLabels fun _ _ => rfl
  rw [← hmap, lay, List.length_map, List.zipIdx_map, List.flatMap_map]
  refine Eq.trans (List.flatMap_congr fun x hx => ?_) (flatMap_zipIdx _ _)
  rw [ho.label_of_active (List.mem_zipIdx_iff_getElem?.1 hx)]
  rfl

end Labels

end Axis

end ServoBus
