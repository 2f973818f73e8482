import ServoBus.Proofs.Device.PinNames

/-!
# Names of pins tell slaves apart

The name of a pin begins with the names of its master and of its slave, whatever these are. What
comes behind them has no dot, so the last dot of a name ends the name of the slave: pins of slaves
of one master have one name only if the names of the slaves are equal.
-/

namespace ServoBus

/-- No dot is in the text, so that a dot can stand before it. -/
def Dotless (text : String) : Prop := '.' ∉ text.toList

instance (text : String) : Decidable (Dotless text) := inferInstanceAs (Decidable (¬ _))

theorem Dotless.append {text text' : String} (h : Dotless text) (h' : Dotless text') :
    Dotless (text ++ text') := by
  rw [Dotless, String.toList_append, List.mem_append]
  exact not_or_intro h h'

theorem dotless_toString (n : Nat) : Dotless (toString n) := by
  intro hdot
  rw [Nat.toString_eq_repr, Nat.toList_repr] at hdot
  exact absurd (Nat.isDigit_of_mem_toDigits (by decide) (by decide) hdot) (by decide)

/-- The name begins with those of the master and of the slave, and goes on without a dot. -/
def Site.Qualifies (site : Site) (name : String) : Prop :=
  ∃ own, Dotless own ∧ name = s!"{site.master}.{site.slave}.{own}"

theorem Site.qualifies_fullName (site : Site) {label name : String} (hlabel : Dotless label)
    (hname : Dotless name) :
    site.Qualifies (Pin.fullName site.master site.slave (some label) name) := by
  refine ⟨label ++ "-" ++ name, (hlabel.append (by decide)).append hname, ?_⟩
  simp only [Pin.fullName, String.append_assoc]
  rfl

/-- Behind the last dot of a list comes what has no dot. -/
theorem eq_of_append_cons_eq {α : Type} {dot : α} {l l' r r' : List α} (hr : dot ∉ r)
    (hr' : dot ∉ r') (h : l ++ dot :: r = l' ++ dot :: r') : l = l' := by
  have hbehind {m s s' : List α} (hs : dot ∉ s) (hm : dot :: s = m ++ dot :: s') : m = [] := by
    cases m with
    | nil => rfl
    | cons c m =>
      refine absurd ?_ hs
      rw [(List.cons_eq_cons.1 hm).2]
      exact List.mem_append_right m List.mem_cons_self
  rcases List.append_eq_append_iff.1 h with ⟨m, hl, hm⟩ | ⟨m, hl, hm⟩
  · rw [hl, hbehind hr hm, List.append_nil]
  · rw [hl, hbehind hr' hm, List.append_nil]

/-- Slaves of one master that qualify one name are of one name. -/
theorem Site.slave_eq_of_qualifies {site site' : Site} (hmaster : site'.master = site.master)
    {name : String} (h : site.Qualifies name) (h' : site'.Qualifies name) :
    site'.slave = site.slave := by
  obtain ⟨own, hown, rfl⟩ := h
  obtain ⟨own', hown', heq⟩ := h'
  have hlist := congrArg String.toList heq
  rw [hmaster] at hlist
  simp only [String.toList_append, List.append_assoc, List.append_cancel_left_eq] at hlist
  exact (String.toList_injective (eq_of_append_cons_eq hown hown' hlist)).symm

namespace Axis

theorem dotless_channelLabel (channels n : Nat) : Dotless (channelLabel channels n) := by
  unfold channelLabel
  split
  · have hstart : Dotless "srv-" := by decide
    exact hstart.append (dotless_toString (n + 1))
  · decide

theorem dotless_pins {packed enabled : FeatureSet} {s : Pin.Shape} (h : s ∈ pins packed enabled) :
    Dotless s.name := by
  have hall : ∀ s ∈ pins ∅ .full, Dotless s.name := by decide +kernel
  exact hall s ((pins_sublist packed enabled).subset h)

end Axis

theorem Stepper.dotless_linePins {digitalInputs digitalOutputs : Nat} {enabled : FeatureSet}
    {s : Pin.Shape} (h : s ∈ linePins digitalInputs digitalOutputs enabled) :
    Dotless s.name := by
  have hnumbered (start : String) (hstart : Dotless start) {count : Nat} {bit : Nat → Nat}
      {line : String × Nat}
      (hline : line ∈ (List.range count).map fun n => (start ++ toString (n + 1), bit n)) :
      Dotless line.1 := by
    obtain ⟨n, -, rfl⟩ := List.mem_map.1 hline
    exact hstart.append (dotless_toString (n + 1))
  rcases List.mem_append.1 h with h | h
  · split at h
    · obtain ⟨line, hline, rfl⟩ := List.mem_map.1 h
      rcases List.mem_append.1 hline with hline | hline
      · have hnamed : ∀ line ∈ namedInputs, Dotless line.1 := by decide
        exact hnamed line hline
      · exact hnumbered "din-" (by decide) hline
    · cases h
  · split at h
    · obtain ⟨line, hline, rfl⟩ := List.mem_map.1 h
      exact hnumbered "dout-" (by decide) hline
    · cases h

namespace DeviceType

theorem dotless_linePins {t : DeviceType} {enabled : FeatureSet} {s : Pin.Shape}
    (h : s ∈ t.linePins enabled) : Dotless s.name := by
  unfold linePins at h
  split at h
  · cases h
  · exact Stepper.dotless_linePins h

/-- All pins of a device are named after its slave. -/
theorem qualifies_of_mem_surface {t : DeviceType} {site : Site} {enabled : List FeatureSet}
    {s : Pin.Shape} (h : s ∈ t.surface site enabled) : site.Qualifies s.name := by
  have hlay {shapes : FeatureSet → List Pin.Shape}
      (hshapes : ∀ e, ∀ s ∈ shapes e, Dotless s.name) (hs : s ∈ Axis.lay site shapes enabled) :
      site.Qualifies s.name := by
    obtain ⟨x, -, hx⟩ := List.mem_flatMap.1 hs
    obtain ⟨p, hp, rfl⟩ := List.mem_map.1 hx
    exact site.qualifies_fullName (Axis.dotless_channelLabel _ _) (hshapes x.1 p hp)
  rcases List.mem_append.1 h with h | h
  · exact hlay (fun _ _ => Axis.dotless_pins) h
  · exact hlay (fun _ _ => dotless_linePins) h

end DeviceType

end ServoBus
