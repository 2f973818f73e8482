import Mathlib.Data.List.Forall2
import ServoBus.Proofs.Axis.Register

/-!
# Channels that are wired

A registered channel is wired: each of its mapped objects refers to the entry that was
registered for the object and to the pin that was added for it, and every enabled object
of the process image is one of them. Only the registered entries and the shapes of the pins
matter for this, not the places of entries and not the values of pins, so a channel stays
wired when others are registered and in every cycle.
-/

namespace ServoBus.Axis

open ServoBus.Action (Moves)

/-- The pin of a channel for an object of this format. -/
def pinShape (site : Site) (label name : String) (direction : Pin.Direction) (format : Format) :
    Pin.Shape :=
  ⟨Pin.fullName site.master site.slave (some label) name, direction, format.pinKind⟩

/-- A mapped object has an entry and a pin, and its format is that of the entry. -/
structure Mapped.Wired (regs : Registrations) (pins : PinTable) (m : Mapped) (e : Registration)
    (s : Pin.Shape) : Prop where
  entry : regs.Lists m.entry e
  width : m.format.width = e.width
  pin : pins.Has m.pin s

theorem Mapped.Wired.mono {regs regs' : Registrations}
    {pins pins' : PinTable} {m : Mapped} {e : Registration} {s : Pin.Shape}
    (h : m.Wired regs pins e s) (hr : regs.wanted <+: regs'.wanted) (hp : pins.Grows pins') :
    m.Wired regs' pins' e s :=
  ⟨h.entry.mono hr, h.width, hp.has h.pin⟩

namespace Channel

variable {μ : Type} {site : Site} {label : String} {packed : FeatureSet}

section Moves

variable {R : Workspace μ → Workspace μ → Prop} [IsPreorder (Workspace μ) R]

theorem moves_readModes [Master μ] [Setup.AdmitsAsking R] (base : UInt16) :
    Moves R (readModes site base label) := by
  refine (Setup.moves_readWord32 site _).tryCatch ?_
  intro _
  exact (Action.moves_lift _).bind fun _ => Action.moves_pure _

variable [Setup.AdmitsPins R]

theorem moves_addModePins (modes : UInt32) (bits : List (String × Nat)) :
    Moves R (addModePins site label modes bits) := by
  induction bits with
  | nil => exact Action.moves_pure _
  | cons p rest ih =>
    exact (Setup.moves_addPin _ _ _ _ _).bind fun _ => (Setup.moves_putPin _ _).bind fun _ => ih

theorem moves_addObjectPins (xs : List Registered) :
    Moves R (addObjectPins site label packed xs) := by
  induction xs with
  | nil => exact Action.moves_pure _
  | cons r rest ih =>
    rw [addObjectPins]
    split
    · exact ih.bind fun _ => Action.moves_pure _
    · refine (Setup.moves_addPin _ _ _ _ _).bind fun pin => ih.bind fun x => ?_
      split
      · exact Action.moves_pure _
      · exact Action.moves_pure _

theorem moves_addService [Master μ] [Setup.AdmitsAsking R] (base : UInt16) (c : ChannelOptions)
    (o : DriveObject) : Moves R (addService site base c o) := by
  have hend (pin : PinRef) (request : RequestRef) :
      Moves R (do
        let current := (← (get : Setup μ (Workspace μ))).pins.raw pin
        let name := Pin.fullName site.master site.slave (some c.label) o.pinName
        pure (⟨.start name request o.format.width current, pin⟩ : Served)) :=
    Action.moves_get.bind fun _ => Action.moves_pure _
  refine ((Setup.moves_createRequest _ _ _).noting _).bind fun request => ?_
  refine (Setup.moves_addPin _ _ _ _ _).bind fun pin => ?_
  split
  · refine (Setup.moves_onPins ?_).bind fun _ => hend pin request
    exact fun t => .of_shapes_eq (t.shapes_putRaw pin _)
  · exact hend pin request

end Moves

/-- A registered object is shown by a pin, and it is not packed. -/
def Registered.Pinned (site : Site) (label : String) (packed : FeatureSet) (pins : PinTable)
    (direction : Pin.Direction) (r : Registered) (p : Feature × Mapped) : Prop :=
  p.1 = r.feature ∧ r.feature ∉ packed ∧ p.2.entry = r.entry ∧ p.2.format = r.object.format ∧
    pins.Has p.2.pin (pinShape site label r.object.pinName direction r.object.format)

/-- What becomes of registered objects: packed ones keep their entry, and the others get a
pin in the direction of the exchange. -/
structure Exchange.Shows (site : Site) (label : String) (packed : FeatureSet)
    (xs : List Registered) (pins : PinTable) (x : Exchange) : Prop where
  inputs : ∀ p ∈ x.inputs, ∃ r ∈ xs,
    r.Pinned site label packed pins .output p ∧ r.object.transfer = .input
  outputs : ∀ p ∈ x.outputs, ∃ r ∈ xs,
    r.Pinned site label packed pins .input p ∧ r.object.transfer ≠ .input
  hidden : ∀ p ∈ x.packed, ∃ r ∈ xs, r.feature ∈ packed ∧ p = (r.feature, r.entry)
  all : ∀ r ∈ xs, (∃ p ∈ x.packed, p.1 = r.feature) ∨ (∃ p ∈ x.inputs, p.1 = r.feature) ∨
    ∃ p ∈ x.outputs, p.1 = r.feature

section Shows

variable {r : Registered} {xs : List Registered} {pins : PinTable} {x : Exchange}

theorem Exchange.Shows.cons_packed (h : x.Shows site label packed xs pins)
    (hp : r.feature ∈ packed) :
    Exchange.Shows site label packed (r :: xs) pins
      { x with packed := (r.feature, r.entry) :: x.packed } where
  inputs p hm := List.exists_mem_cons_of_exists (h.inputs p hm)
  outputs p hm := List.exists_mem_cons_of_exists (h.outputs p hm)
  hidden p hm := by
    rcases List.mem_cons.1 hm with rfl | hm
    · exact ⟨r, List.mem_cons_self, hp, rfl⟩
    · exact List.exists_mem_cons_of_exists (h.hidden p hm)
  all q hq := by
    rcases List.mem_cons.1 hq with rfl | hq
    · exact .inl ⟨_, List.mem_cons_self, rfl⟩
    · exact (h.all q hq).imp_left List.exists_mem_cons_of_exists

theorem Exchange.Shows.cons_input {m : Mapped} (h : x.Shows site label packed xs pins)
    (hr : r.Pinned site label packed pins .output (r.feature, m))
    (ht : r.object.transfer = .input) :
    Exchange.Shows site label packed (r :: xs) pins
      { x with inputs := (r.feature, m) :: x.inputs } where
  inputs p hm := by
    rcases List.mem_cons.1 hm with rfl | hm
    · exact ⟨r, List.mem_cons_self, hr, ht⟩
    · exact List.exists_mem_cons_of_exists (h.inputs p hm)
  outputs p hm := List.exists_mem_cons_of_exists (h.outputs p hm)
  hidden p hm := List.exists_mem_cons_of_exists (h.hidden p hm)
  all q hq := by
    rcases List.mem_cons.1 hq with rfl | hq
    · exact .inr (.inl ⟨_, List.mem_cons_self, rfl⟩)
    · exact (h.all q hq).imp_right (.imp_left List.exists_mem_cons_of_exists)

theorem Exchange.Shows.cons_output {m : Mapped} (h : x.Shows site label packed xs pins)
    (hr : r.Pinned site label packed pins .input (r.feature, m))
    (ht : r.object.transfer ≠ .input) :
    Exchange.Shows site label packed (r :: xs) pins
      { x with outputs := (r.feature, m) :: x.outputs } where
  inputs p hm := List.exists_mem_cons_of_exists (h.inputs p hm)
  outputs p hm := by
    rcases List.mem_cons.1 hm with rfl | hm
    · exact ⟨r, List.mem_cons_self, hr, ht⟩
    · exact List.exists_mem_cons_of_exists (h.outputs p hm)
  hidden p hm := List.exists_mem_cons_of_exists (h.hidden p hm)
  all q hq := by
    rcases List.mem_cons.1 hq with rfl | hq
    · exact .inr (.inr ⟨_, List.mem_cons_self, rfl⟩)
    · exact (h.all q hq).imp_right (.imp_right List.exists_mem_cons_of_exists)

end Shows

theorem of_result_addObjectPins {xs : List Registered} {x : Exchange} {w w' : Workspace μ}
    (h : (addObjectPins site label packed xs).result w = (.ok x, w')) :
    x.Shows site label packed xs w'.pins := by
  induction xs generalizing w w' x with
  | nil =>
    rw [addObjectPins, Action.result_pure_eq_ok_iff] at h
    obtain ⟨rfl, rfl⟩ := h
    constructor <;> intro a ha <;> cases ha
  | cons r rest ih =>
    rw [addObjectPins] at h
    split at h
    · next hp =>
      simp only [Action.result_bind_eq_ok_iff, Action.result_pure_eq_ok_iff] at h
      obtain ⟨y, w₁, hy, rfl, rfl⟩ := h
      exact (ih hy).cons_packed hp
    · next hp =>
      simp only [Action.result_bind_eq_ok_iff] at h
      obtain ⟨pin, w₁, hpin, y, w₂, hy, hx⟩ := h
      have hgrow : Setup.Decorates w₁ w₂ := (moves_addObjectPins rest).of_result hy
      have hhas := hgrow.2.has (Setup.of_result_addPin hpin)
      by_cases ht : r.object.transfer = .input
      · have hb : (r.object.transfer == .input) = true := beq_iff_eq.2 ht
        rw [hb, if_pos rfl, Action.result_pure_eq_ok_iff] at hx
        obtain ⟨rfl, rfl⟩ := hx
        rw [hb] at hhas
        exact (ih hy).cons_input ⟨rfl, hp, rfl, rfl, hhas⟩ ht
      · have hb : (r.object.transfer == .input) = false := beq_eq_false_iff_ne.2 ht
        rw [hb, if_neg Bool.false_ne_true, Action.result_pure_eq_ok_iff] at hx
        obtain ⟨rfl, rfl⟩ := hx
        rw [hb] at hhas
        exact (ih hy).cons_output ⟨rfl, hp, rfl, rfl, hhas⟩ ht

section Setup

variable [Master μ]

/-- The steps of adding a service that succeeded: a request, a pin, and in the pin what the
object was sent. The writer starts with what is in the pin then. -/
theorem exists_of_result_addService {base : UInt16} {c : ChannelOptions} {o : DriveObject}
    {s : Served} {w w' : Workspace μ} (h : (addService site base c o).result w = (.ok s, w')) :
    ∃ request w₁, (Setup.onMaster (Master.createRequest site.position
        ⟨o.index base, o.subindex⟩ (o.format.width / 8))).result w = (.ok request, w₁) ∧
      ∃ w₂, (Setup.addPin site (some c.label) o.pinName o.format.pinKind .input).result w₁ =
          (.ok s.pin, w₂) ∧
        w' = { w₂ with
          pins := (c.sent? o.offset o.subindex).elim w₂.pins (w₂.pins.putRaw s.pin) } ∧
        s.writer = .start (Pin.fullName site.master site.slave (some c.label) o.pinName) request
          o.format.width (w'.pins.raw s.pin) := by
  rw [addService] at h
  obtain ⟨request, w₁, hrequest, h⟩ := Action.result_bind_eq_ok_iff.1 h
  obtain ⟨pin, w₂, hpin, h⟩ := Action.result_bind_eq_ok_iff.1 h
  rw [Action.result_noting] at hrequest
  split at h
  · next v hv =>
    obtain ⟨_, w₃, hput, h⟩ := Action.result_bind_eq_ok_iff.1 h
    obtain ⟨pins, hpins, rfl⟩ := Action.result_zoom_eq_ok_iff.1 hput
    cases hpins
    cases h
    rw [hv]
    exact ⟨request, w₁, hrequest, w₂, hpin, rfl, rfl⟩
  · next hv =>
    cases h
    rw [Option.eq_none_iff_forall_not_mem.2 hv]
    exact ⟨request, w₁, hrequest, w', hpin, rfl, rfl⟩

theorem of_result_addService {base : UInt16} {c : ChannelOptions} {o : DriveObject} {s : Served}
    {w w' : Workspace μ} (h : (addService site base c o).result w = (.ok s, w')) :
    w'.pins.Has s.pin (pinShape site c.label o.pinName .input o.format) := by
  obtain ⟨request, w₁, -, w₂, hpin, rfl, -⟩ := exists_of_result_addService h
  have hhas := Setup.of_result_addPin hpin
  cases c.sent? o.offset o.subindex with
  | none => exact hhas
  | some v => exact (PinTable.Grows.of_shapes_eq (PinTable.shapes_putRaw ..)).has hhas

/-- Each object that is written on change gets a pin of its own. -/
theorem of_result_addServices {base : UInt16} {c : ChannelOptions}
    {l : List (Feature × DriveObject)} {ss : List Served} {w w' : Workspace μ}
    (h : Action.result (l.mapM fun (_, o) => addService site base c o) w = (.ok ss, w')) :
    List.Forall₂ (fun x pin => w'.pins.Has pin
      (pinShape site c.label x.2.pinName .input x.2.format)) l (ss.map (·.pin)) := by
  induction l generalizing w ss with
  | nil =>
    rw [Action.result_mapM_nil] at h
    cases h
    exact .nil
  | cons x l ih =>
    obtain ⟨s, w₁, ss, hs, hss, rfl⟩ := Action.result_mapM_cons_eq_ok_iff.1 h
    have hgrow : Setup.Decorates w₁ w' :=
      (Action.Moves.mapM (fun _ => moves_addService _ _ _) l).of_result hss
    exact .cons (hgrow.2.has (of_result_addService hs)) (ih hss)

end Setup

/-- A channel with number `n` whose parts refer to its own entries and pins, and in which
no enabled object of the process image is missing. -/
structure Wired (site : Site) (n : Nat) (o : ChannelOptions) (regs : Registrations)
    (pins : PinTable) (c : Channel) : Prop where
  label : c.label = o.label
  base : c.base = Axis.base n
  enabled : c.enabled = o.requested.resolve
  control : c.control.Wired regs pins (wordEntry site c.base .output)
    (pinShape site c.label "cia-controlword" .input wordFormat)
  status : c.status.Wired regs pins (wordEntry site c.base .input)
    (pinShape site c.label "cia-statusword" .output wordFormat)
  inputs : ∀ f m, (f, m) ∈ c.inputs → f ∉ o.packed ∧ ∃ d, (f, d) ∈ c.enabled.objects .input ∧
    m.Wired regs pins (objectEntry site c.base d)
      (pinShape site c.label d.pinName .output d.format)
  outputs : ∀ f m, (f, m) ∈ c.outputs → f ∉ o.packed ∧ ∃ d, (f, d) ∈ c.enabled.objects .output ∧
    m.Wired regs pins (objectEntry site c.base d)
      (pinShape site c.label d.pinName .input d.format)
  packed : ∀ f ref, (f, ref) ∈ c.packed → f ∈ o.packed ∧ ∃ d, (f, d) ∈ mappedObjects c.enabled ∧
    regs.Lists ref (objectEntry site c.base d)
  all : ∀ f d, (f, d) ∈ mappedObjects c.enabled →
    (f ∈ o.packed ∧ ∃ ref, (f, ref) ∈ c.packed) ∨
      (f ∉ o.packed ∧ d.transfer = .input ∧ ∃ m, (f, m) ∈ c.inputs) ∨
      f ∉ o.packed ∧ d.transfer = .output ∧ ∃ m, (f, m) ∈ c.outputs

/-- A channel stays wired when entries and pins are added. -/
theorem Wired.mono {n : Nat} {o : ChannelOptions} {regs regs' : Registrations}
    {pins pins' : PinTable} {c : Channel} (h : c.Wired site n o regs pins)
    (hr : regs.wanted <+: regs'.wanted) (hp : pins.Grows pins') :
    c.Wired site n o regs' pins' where
  label := h.label
  base := h.base
  enabled := h.enabled
  control := h.control.mono hr hp
  status := h.status.mono hr hp
  inputs f m hm := by
    obtain ⟨hf, d, hd, hw⟩ := h.inputs f m hm
    exact ⟨hf, d, hd, hw.mono hr hp⟩
  outputs f m hm := by
    obtain ⟨hf, d, hd, hw⟩ := h.outputs f m hm
    exact ⟨hf, d, hd, hw.mono hr hp⟩
  packed f ref hm := by
    obtain ⟨hf, d, hd, hl⟩ := h.packed f ref hm
    exact ⟨hf, d, hd, hl.mono hr⟩
  all := h.all

/-- Each service of a channel takes the value of the pin that was added for its object. -/
def Serves (site : Site) (pins : PinTable) (c : Channel) : Prop :=
  List.Forall₂ (fun x pin => pins.Has pin
    (pinShape site c.label x.2.pinName .input x.2.format))
    (c.enabled.objects .service) (c.services.map (·.pin))

theorem Serves.mono {pins pins' : PinTable} {c : Channel} (h : c.Serves site pins)
    (hp : pins.Grows pins') : c.Serves site pins' :=
  h.imp fun _ _ hhas => hp.has hhas

section Exchange

variable {base : UInt16} {enabled : FeatureSet} {regs : Registrations} {pins : PinTable}
  {xs : List Registered} {x : Exchange}

/-- Registered objects that are the enabled ones and refer to their entries. -/
structure Covers (site : Site) (base : UInt16) (enabled : FeatureSet) (regs : Registrations)
    (xs : List Registered) : Prop where
  objects : xs.map (fun r => (r.feature, r.object)) = mappedObjects enabled
  entries : ∀ r ∈ xs, regs.Lists r.entry (objectEntry site base r.object)

theorem Covers.mem (h : Covers site base enabled regs xs) {r : Registered} (hr : r ∈ xs) :
    (r.feature, r.object) ∈ mappedObjects enabled := by
  rw [← h.objects]
  exact List.mem_map_of_mem hr

theorem Covers.exists (h : Covers site base enabled regs xs) {f : Feature} {d : DriveObject}
    (hd : (f, d) ∈ mappedObjects enabled) : ∃ r ∈ xs, r.feature = f ∧ r.object = d := by
  rw [← h.objects] at hd
  obtain ⟨r, hr, heq⟩ := List.mem_map.1 hd
  cases heq
  exact ⟨r, hr, rfl, rfl⟩

theorem Exchange.Shows.wired_inputs (h : x.Shows site label packed xs pins)
    (hc : Covers site base enabled regs xs) {f : Feature} {m : Mapped}
    (hm : (f, m) ∈ x.inputs) :
    f ∉ packed ∧ ∃ d, (f, d) ∈ enabled.objects .input ∧
      m.Wired regs pins (objectEntry site base d)
        (pinShape site label d.pinName .output d.format) := by
  obtain ⟨r, hr, ⟨hf, hp, hentry, hformat, hpin⟩, ht⟩ := h.inputs _ hm
  simp only at hf hentry hformat hpin
  obtain ⟨hfe, hd, -⟩ := mem_mappedObjects.1 (hc.mem hr)
  rw [hf]
  refine ⟨hp, r.object, FeatureSet.mem_objects.2 ⟨hfe, hd, ht⟩, ?_, ?_, hpin⟩
  · rw [hentry]
    exact hc.entries r hr
  · rw [hformat]
    rfl

theorem Exchange.Shows.wired_outputs (h : x.Shows site label packed xs pins)
    (hc : Covers site base enabled regs xs) {f : Feature} {m : Mapped}
    (hm : (f, m) ∈ x.outputs) :
    f ∉ packed ∧ ∃ d, (f, d) ∈ enabled.objects .output ∧
      m.Wired regs pins (objectEntry site base d)
        (pinShape site label d.pinName .input d.format) := by
  obtain ⟨r, hr, ⟨hf, hp, hentry, hformat, hpin⟩, ht⟩ := h.outputs _ hm
  simp only at hf hentry hformat hpin
  obtain ⟨hfe, hd, hs⟩ := mem_mappedObjects.1 (hc.mem hr)
  have ho : r.object.transfer = .output := by
    cases ht' : r.object.transfer with
    | input => exact absurd ht' ht
    | output => rfl
    | service => exact absurd ht' hs
  rw [hf]
  refine ⟨hp, r.object, FeatureSet.mem_objects.2 ⟨hfe, hd, ho⟩, ?_, ?_, hpin⟩
  · rw [hentry]
    exact hc.entries r hr
  · rw [hformat]
    rfl

theorem Exchange.Shows.lists_packed (h : x.Shows site label packed xs pins)
    (hc : Covers site base enabled regs xs) {f : Feature} {ref : RegRef}
    (hm : (f, ref) ∈ x.packed) :
    f ∈ packed ∧ ∃ d, (f, d) ∈ mappedObjects enabled ∧
      regs.Lists ref (objectEntry site base d) := by
  obtain ⟨r, hr, hp, heq⟩ := h.hidden _ hm
  cases heq
  exact ⟨hp, r.object, hc.mem hr, hc.entries r hr⟩

/-- Where an enabled object has got to: it is packed, or it has a pin. -/
theorem Exchange.Shows.cases (h : x.Shows site label packed xs pins)
    (hc : Covers site base enabled regs xs) {f : Feature} {d : DriveObject}
    (hd : (f, d) ∈ mappedObjects enabled) :
    (f ∈ packed ∧ ∃ ref, (f, ref) ∈ x.packed) ∨
      (f ∉ packed ∧ d.transfer = .input ∧ ∃ m, (f, m) ∈ x.inputs) ∨
      f ∉ packed ∧ d.transfer = .output ∧ ∃ m, (f, m) ∈ x.outputs := by
  have hobj := (mem_mappedObjects.1 hd).2.1
  obtain ⟨r, hr, rfl, -⟩ := hc.exists hd
  rcases h.all r hr with ⟨⟨g, ref⟩, hm, rfl⟩ | ⟨⟨g, m⟩, hm, rfl⟩ | ⟨⟨g, m⟩, hm, rfl⟩
  · exact .inl ⟨(h.lists_packed hc hm).1, ref, hm⟩
  · obtain ⟨hp, e, he, -⟩ := h.wired_inputs hc hm
    obtain ⟨-, he, ht⟩ := FeatureSet.mem_objects.1 he
    cases hobj.symm.trans he
    exact .inr (.inl ⟨hp, ht, m, hm⟩)
  · obtain ⟨hp, e, he, -⟩ := h.wired_outputs hc hm
    obtain ⟨-, he, ht⟩ := FeatureSet.mem_objects.1 he
    cases hobj.symm.trans he
    exact .inr (.inr ⟨hp, ht, m, hm⟩)

end Exchange

/-- The steps of a registration that succeeded. The entries of the channel come behind those of
the slave, and from then on the master is asked and pins are added. -/
theorem exists_of_result_register [Master μ] {n : Nat} {o : ChannelOptions} {c : Channel}
    {w w' : Workspace μ} (h : (register site n o).result w = (.ok c, w')) :
    ∃ control status xs own,
      (registerEntries site (Axis.base n) o.requested.resolve).result
          ⟨site.device, Sync.entryLimit, []⟩ = (.ok (control, status, xs), own) ∧
      ∃ controlPin w₁, (Setup.addPin site (some o.label) "cia-controlword" .u32 .input).result
          { w with regs := w.regs.extend own.entries } = (.ok controlPin, w₁) ∧
      ∃ statusPin w₂, (Setup.addPin site (some o.label) "cia-statusword" .u32 .output).result w₁ =
          (.ok statusPin, w₂) ∧
      ∃ modes w₃, (readModes site (Axis.base n) o.label).result w₂ = (.ok modes, w₃) ∧
      ∃ modesPin w₄, (Setup.addPin site (some o.label) "supported-modes" .u32 .output).result w₃ =
          (.ok modesPin, w₄) ∧
      ∃ w₅, (Setup.putPin modesPin (.u32 modes)).result w₄ = (.ok (), w₅) ∧
      ∃ w₆, (addModePins site o.label modes modeBits).result w₅ = (.ok (), w₆) ∧
      ∃ x w₇, (addObjectPins site o.label o.packed
          (xs.map fun r => { r with entry := r.entry.rebase ⟨w.regs.size⟩ })).result w₆ =
            (.ok x, w₇) ∧
      ∃ services, Action.result ((o.requested.resolve.objects .service).mapM fun (_, d) =>
          addService site (Axis.base n) o d) w₇ = (.ok services, w') ∧
        c =
          { label := o.label
            base := Axis.base n
            enabled := o.requested.resolve
            supportedModes := modes
            control := ⟨control.rebase ⟨w.regs.size⟩, controlPin, wordFormat⟩
            status := ⟨status.rebase ⟨w.regs.size⟩, statusPin, wordFormat⟩
            inputs := x.inputs
            outputs := x.outputs
            packed := x.packed
            services } := by
  rw [register] at h
  simp only [Action.result_bind_eq_ok_iff, Action.result_within_eq_ok_iff,
    Action.result_pure_eq_ok_iff] at h
  obtain ⟨⟨⟨control, status, xs⟩, own⟩, w₀, ⟨hown, rfl⟩, start, w₁, hstart, cpin, w₂, hcpin,
    spin, w₃, hspin, modes, w₄, hmodes, mpin, w₅, hmpin, _, w₆, hput, _, w₇, hbits, x, w₈, hx,
    services, w₉, hserv, _, w₁₀, hlog, rfl, rfl⟩ := h
  cases hlog
  obtain ⟨r, happend, rfl⟩ := Action.result_zoom_eq_ok_iff.1 hstart
  obtain ⟨-, rfl, rfl⟩ := Registrations.result_append_eq_ok_iff.1 happend
  exact ⟨control, status, xs, own, hown, cpin, w₂, hcpin, spin, w₃, hspin, modes, w₄, hmodes,
    mpin, w₅, hmpin, w₆, hput, w₇, hbits, x, w₈, hx, services, hserv, rfl⟩

/-- Registering a channel adds its entries to those of the slave. It is wired then, and its
services have their pins. -/
theorem of_result_register [Master μ] {n : Nat} {o : ChannelOptions} {c : Channel}
    {w w' : Workspace μ} (h : (register site n o).result w = (.ok c, w')) :
    w'.regs = w.regs.extend (channelEntries site (Axis.base n) o.requested.resolve) ∧
      w.pins.Grows w'.pins ∧ c.Wired site n o w'.regs w'.pins ∧ c.Serves site w'.pins := by
  obtain ⟨control, status, xs, own, hown, cpin, w₁, hcpin, spin, w₂, hspin, modes, w₃, hmodes,
    mpin, w₄, hmpin, w₅, hput, w₆, hbits, x, w₇, hx, services, hserv, rfl⟩ :=
      exists_of_result_register h
  obtain ⟨hentries, hcontrol, hstatus, hobjects, hget⟩ := of_result_registerEntries hown
  -- what is added behind the entries leaves them alone
  have d₇ : Setup.Decorates w₇ w' :=
    (Action.Moves.mapM (fun _ => moves_addService _ _ _) _).of_result hserv
  have d₆ := trans_of Setup.Decorates ((moves_addObjectPins _).of_result hx) d₇
  have d₅ := trans_of Setup.Decorates ((moves_addModePins _ _).of_result hbits) d₆
  have d₄ := trans_of Setup.Decorates ((Setup.moves_putPin _ _).of_result hput) d₅
  have d₃ := trans_of Setup.Decorates ((Setup.moves_addPin _ _ _ _ _).of_result hmpin) d₄
  have d₂ := trans_of Setup.Decorates ((moves_readModes _).of_result hmodes) d₃
  have d₁ := trans_of Setup.Decorates ((Setup.moves_addPin _ _ _ _ _).of_result hspin) d₂
  have d₀ := trans_of Setup.Decorates ((Setup.moves_addPin _ _ _ _ _).of_result hcpin) d₁
  have hregs : w'.regs = w.regs.extend own.entries := d₀.1
  have hlists {ref : RegRef} {e : Registration} (he : own.get? ref = some e) :
      w'.regs.Lists (ref.rebase ⟨w.regs.size⟩) e.unplaced := by
    rw [hregs]
    exact Registrations.lists_of_get? ((w.regs.get?_rebase own ref).trans he)
  have hcovers : Covers site (Axis.base n) o.requested.resolve w'.regs
      (xs.map fun r => { r with entry := r.entry.rebase ⟨w.regs.size⟩ }) := by
    constructor
    · rw [List.map_map]
      exact hobjects
    · intro r hr
      obtain ⟨q, hq, rfl⟩ := List.mem_map.1 hr
      exact hlists (hget q hq)
  have hshows := of_result_addObjectPins hx
  have hwired (p : Feature × Mapped) {e : Registration} {s : Pin.Shape}
      (h : p.2.Wired w'.regs w₇.pins e s) : p.2.Wired w'.regs w'.pins e s :=
    h.mono List.prefix_rfl d₇.2
  refine ⟨by rw [hregs, hentries], d₀.2, ⟨rfl, rfl, rfl, ?_, ?_, ?_, ?_, ?_, ?_⟩,
    of_result_addServices hserv⟩
  · exact ⟨hlists hcontrol, rfl, d₁.2.has (Setup.of_result_addPin hcpin)⟩
  · exact ⟨hlists hstatus, rfl, d₂.2.has (Setup.of_result_addPin hspin)⟩
  · intro f m hm
    obtain ⟨hf, d, hd, hw⟩ := hshows.wired_inputs hcovers hm
    exact ⟨hf, d, hd, hwired (f, m) hw⟩
  · intro f m hm
    obtain ⟨hf, d, hd, hw⟩ := hshows.wired_outputs hcovers hm
    exact ⟨hf, d, hd, hwired (f, m) hw⟩
  · intro f ref hm
    exact hshows.lists_packed hcovers hm
  · intro f d hd
    exact hshows.cases hcovers hd

end Channel

end ServoBus.Axis
