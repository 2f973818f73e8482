import ServoBus.Axis.Layout
import ServoBus.Proofs.Feature.Objects

/-!
# Addresses of the objects of a channel

The objects of a drive stand in blocks of 0x800 indices, one for each channel. In a block
an object has a place, which is its offset and its subindex. No two features have the
same place, and neither has a feature the place of the control word or the status word.
So an address tells the channel and the object.
-/

namespace ServoBus

namespace Feature

/-- Where the object of a feature stands in the block of its channel. -/
def place? (f : Feature) : Option (UInt16 × UInt8) := f.object?.map fun d => (d.offset, d.subindex)

theorem place?_table :
    ∀ f ∈ all, ∀ g ∈ all, f.place? = g.place? → f.place?.isSome → f = g := by
  decide +kernel

theorem object?_table :
    ∀ f ∈ all, ∀ d ∈ f.object?, d.offset.toNat < 0x800 ∧ d.offset ≠ 0x40 ∧ d.offset ≠ 0x41 ∧
      d.format.width ∈ [8, 16, 32] := by
  decide +kernel

variable {f g : Feature} {d e : DriveObject}

theorem eq_of_place (hf : f.object? = some d) (hg : g.object? = some e)
    (ho : d.offset = e.offset) (hs : d.subindex = e.subindex) : f = g := by
  have hp : f.place? = some (d.offset, d.subindex) := by simp [place?, hf]
  have hq : g.place? = some (e.offset, e.subindex) := by simp [place?, hg]
  apply place?_table f (mem_all f) g (mem_all g)
  · rw [hp, hq, ho, hs]
  · simp [hp]

theorem offset_lt (hf : f.object? = some d) : d.offset.toNat < 0x800 :=
  (object?_table f (mem_all f) d hf).1

theorem offset_ne_output_word (hf : f.object? = some d) : d.offset ≠ 0x40 :=
  (object?_table f (mem_all f) d hf).2.1

theorem offset_ne_input_word (hf : f.object? = some d) : d.offset ≠ 0x41 :=
  (object?_table f (mem_all f) d hf).2.2.1

theorem width_mem (hf : f.object? = some d) : d.format.width ∈ [8, 16, 32] :=
  (object?_table f (mem_all f) d hf).2.2.2

/-- The object of the output lines is sent as a whole, with its spare bits. -/
theorem object?_digitalOutput (h : digitalOutput.object? = some d) :
    d.transfer = .output ∧ d.format.width = 32 := by
  cases h
  exact ⟨rfl, rfl⟩

end Feature

namespace Axis

theorem toNat_base {c : Nat} (hc : c < Param.maxChannels) :
    (base c).toNat = 0x6000 + 0x800 * c := by
  have hc : c < 8 := hc
  rw [base, UInt16.toNat_add, UInt16.toNat_mul, UInt16.toNat_ofNat']
  simp only [UInt16.reduceToNat]
  omega

/-- The index of an object tells the channel, and the place of the object in it. -/
theorem base_add_inj {c c' : Nat} {i j : UInt16} (hc : c < Param.maxChannels)
    (hc' : c' < Param.maxChannels) (hi : i.toNat < 0x800) (hj : j.toNat < 0x800)
    (h : base c + i = base c' + j) : c = c' ∧ i = j := by
  have hn := congrArg UInt16.toNat h
  have hb := toNat_base hc
  have hb' := toNat_base hc'
  have hc : c < 8 := hc
  have hc' : c' < 8 := hc'
  rw [UInt16.toNat_add, UInt16.toNat_add, hb, hb'] at hn
  have hcc : c = c' := by omega
  refine ⟨hcc, ?_⟩
  apply UInt16.toNat_inj.1
  omega

/-- The index of an object of a channel, and that of another object or a word. -/
theorem index_inj {c c' : Nat} {f g : Feature} {d e : DriveObject}
    (hc : c < Param.maxChannels) (hc' : c' < Param.maxChannels) (hf : f.object? = some d)
    (hg : g.object? = some e) (hi : d.index (base c) = e.index (base c'))
    (hs : d.subindex = e.subindex) : c = c' ∧ f = g := by
  obtain ⟨rfl, ho⟩ := base_add_inj hc hc' (Feature.offset_lt hf) (Feature.offset_lt hg) hi
  exact ⟨rfl, Feature.eq_of_place hf hg ho hs⟩

theorem index_ne_word {c c' : Nat} {f : Feature} {d : DriveObject} {s : Side}
    (hc : c < Param.maxChannels) (hc' : c' < Param.maxChannels) (hf : f.object? = some d)
    (hs : s = .output ∨ s = .input) : d.index (base c) ≠ base c' + s.word := by
  intro h
  rcases hs with rfl | rfl
  · obtain ⟨-, ho⟩ := base_add_inj hc hc' (Feature.offset_lt hf) (by decide) h
    exact Feature.offset_ne_output_word hf ho
  · obtain ⟨-, ho⟩ := base_add_inj hc hc' (Feature.offset_lt hf) (by decide) h
    exact Feature.offset_ne_input_word hf ho

theorem Side.mem_entries {s : Side} {c : Nat} {enabled : FeatureSet} {e : Sync.Entry} :
    e ∈ s.entries c enabled ↔
      e = ⟨⟨base c + s.word, 0⟩, 16⟩ ∨
        ∃ f ∈ enabled, ∃ d, f.object? = some d ∧ d.transfer = s.transfer ∧
          e = ⟨⟨d.index (base c), d.subindex⟩, d.format.width⟩ := by
  rw [entries, List.mem_cons, List.mem_map]
  constructor
  · rintro (h | ⟨⟨f, d⟩, hm, rfl⟩)
    · exact .inl h
    · obtain ⟨hf, hd, ht⟩ := FeatureSet.mem_objects.1 hm
      exact .inr ⟨f, hf, d, hd, ht, rfl⟩
  · rintro (h | ⟨f, hf, d, hd, ht, rfl⟩)
    · exact .inl h
    · exact .inr ⟨(f, d), FeatureSet.mem_objects.2 ⟨hf, hd, ht⟩, rfl⟩

/-- What a block has at an address. -/
inductive Item where
  | control
  | status
  | object (f : Feature)
deriving DecidableEq, Repr

namespace Item

/-- Where the item stands in the block. -/
def place? : Item → Option (UInt16 × UInt8)
  | control => some (0x40, 0)
  | status => some (0x41, 0)
  | object f => f.place?

def address? (base : UInt16) (x : Item) : Option ObjectAddress :=
  x.place?.map fun p => ⟨base + p.1, p.2⟩

theorem address?_object (base : UInt16) {f : Feature} {d : DriveObject} (hd : f.object? = some d) :
    (object f).address? base = some ⟨d.index base, d.subindex⟩ := by
  rw [address?, place?, Feature.place?, hd]
  rfl

theorem place?_eq_some_of_object {f : Feature} {p : UInt16 × UInt8}
    (h : (object f).place? = some p) :
    ∃ d, f.object? = some d ∧ d.offset = p.1 ∧ d.subindex = p.2 := by
  obtain ⟨d, hd, rfl⟩ := Option.map_eq_some_iff.1 h
  exact ⟨d, hd, rfl, rfl⟩

theorem place?_lt {x : Item} {p : UInt16 × UInt8} (h : x.place? = some p) :
    p.1.toNat < 0x800 := by
  cases x with
  | control =>
    cases h
    decide
  | status =>
    cases h
    decide
  | object f =>
    obtain ⟨d, hd, ho, -⟩ := place?_eq_some_of_object h
    rw [← ho]
    exact Feature.offset_lt hd

theorem place?_inj {x y : Item} {p : UInt16 × UInt8} (hx : x.place? = some p)
    (hy : y.place? = some p) : x = y := by
  cases x with
  | control =>
    cases hx
    cases y with
    | control => rfl
    | status => exact absurd hy (by decide)
    | object g =>
      obtain ⟨e, he, ho, -⟩ := place?_eq_some_of_object hy
      exact absurd ho (Feature.offset_ne_output_word he)
  | status =>
    cases hx
    cases y with
    | control => exact absurd hy (by decide)
    | status => rfl
    | object g =>
      obtain ⟨e, he, ho, -⟩ := place?_eq_some_of_object hy
      exact absurd ho (Feature.offset_ne_input_word he)
  | object f =>
    obtain ⟨d, hd, ho, hs⟩ := place?_eq_some_of_object hx
    cases y with
    | control =>
      cases hy
      exact absurd ho (Feature.offset_ne_output_word hd)
    | status =>
      cases hy
      exact absurd ho (Feature.offset_ne_input_word hd)
    | object g =>
      obtain ⟨e, he, ho', hs'⟩ := place?_eq_some_of_object hy
      rw [Feature.eq_of_place hd he (ho.trans ho'.symm) (hs.trans hs'.symm)]

/-- An address tells the channel and the item. -/
theorem address?_inj {n n' : Nat} (hn : n < Param.maxChannels) (hn' : n' < Param.maxChannels)
    {x y : Item} {a : ObjectAddress} (hx : x.address? (base n) = some a)
    (hy : y.address? (base n') = some a) : n = n' ∧ x = y := by
  obtain ⟨p, hp, rfl⟩ := Option.map_eq_some_iff.1 hx
  obtain ⟨q, hq, heq⟩ := Option.map_eq_some_iff.1 hy
  obtain ⟨hindex, hsub⟩ := ObjectAddress.mk.inj heq
  obtain ⟨rfl, hoffset⟩ := base_add_inj hn' hn (place?_lt hq) (place?_lt hp) hindex
  have hpq : p = q := Prod.ext hoffset.symm hsub.symm
  subst hpq
  exact ⟨rfl, place?_inj hp hq⟩

end Item

end Axis

end ServoBus
