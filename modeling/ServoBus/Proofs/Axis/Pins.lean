import ServoBus.Proofs.Axis.Configure
import ServoBus.Proofs.Pin.Adds

/-!
# The pins of channels

Registering a channel adds the pins of its control word and its status word, of its mapped
objects and of its services. They are all different, and so are the pins of two channels. The
pins that say which modes are supported come on top of that; no channel refers to them. What is
read into a pin has the format of its object.
-/

namespace ServoBus.Axis

variable {μ : Type} {site : Site} {label : String} {w w' : Workspace μ}

namespace Channel

/-- The references to pins that a channel holds. -/
def pinRefs (c : Channel) : List PinRef :=
  c.control.pin :: c.status.pin ::
    ((c.inputs ++ c.outputs).map (·.2.pin) ++ c.services.map (·.pin))

/-- The references to pins of mapped objects. -/
def Exchange.pinRefs (x : Exchange) : List PinRef := (x.inputs ++ x.outputs).map (·.2.pin)

theorem Exchange.perm_pinRefs (x : Exchange) (p : Feature × Mapped) :
    ([p.2.pin] ++ x.pinRefs).Perm (pinRefs { x with outputs := p :: x.outputs }) := by
  simp only [pinRefs, List.map_append, List.map_cons, List.singleton_append]
  exact List.perm_middle.symm

theorem adds_of_result_addModePins {modes : UInt32} {bits : List (String × Nat)}
    (h : (addModePins site label modes bits).result w = (.ok (), w')) :
    w.pins.Adds w'.pins [] := by
  induction bits generalizing w with
  | nil =>
    cases h
    exact .refl _
  | cons p rest ih =>
    rw [addModePins] at h
    simp only [Action.result_bind_eq_ok_iff] at h
    obtain ⟨pin, w₁, hpin, _, w₂, hput, hrest⟩ := h
    have hnew := Setup.adds_of_result_putPin (Setup.adds_of_result_addPin hpin)
      (List.mem_singleton_self pin) hput
    exact hnew.nil.append (ih hrest)

theorem adds_of_result_addObjectPins {packed : FeatureSet} {xs : List Registered} {x : Exchange}
    (h : (addObjectPins site label packed xs).result w = (.ok x, w')) :
    w.pins.Adds w'.pins x.pinRefs := by
  induction xs generalizing w w' x with
  | nil =>
    cases h
    exact .refl _
  | cons r rest ih =>
    rw [addObjectPins] at h
    split at h
    · simp only [Action.result_bind_eq_ok_iff, Action.result_pure_eq_ok_iff] at h
      obtain ⟨y, w₁, hy, rfl, rfl⟩ := h
      have hadds := ih hy
      exact hadds
    · simp only [Action.result_bind_eq_ok_iff] at h
      obtain ⟨pin, w₁, hpin, y, w₂, hy, hx⟩ := h
      have hadds := (Setup.adds_of_result_addPin hpin).append (ih hy)
      split at hx
      · cases hx
        exact hadds
      · cases hx
        exact hadds.perm (y.perm_pinRefs (r.feature, ⟨r.entry, pin, r.object.format⟩))

section Setup

variable [Master μ]

theorem adds_of_result_addService {base : UInt16} {c : ChannelOptions} {o : DriveObject}
    {s : Served} (h : (addService site base c o).result w = (.ok s, w')) :
    w.pins.Adds w'.pins [s.pin] := by
  obtain ⟨request, w₁, hrequest, w₂, hpin, rfl, -⟩ := exists_of_result_addService h
  have hmade := (Setup.keeps_onMaster _).of_result hrequest
  have hadds := (Setup.adds_of_made_eq hmade).append (Setup.adds_of_result_addPin hpin)
  cases c.sent? o.offset o.subindex with
  | none => exact hadds
  | some v => exact hadds.modify (hadds.bounds s.pin (List.mem_singleton_self s.pin)).1 _

theorem adds_of_result_addServices {base : UInt16} {c : ChannelOptions}
    {l : List (Feature × DriveObject)} {ss : List Served}
    (h : Action.result (l.mapM fun (_, o) => addService site base c o) w = (.ok ss, w')) :
    w.pins.Adds w'.pins (ss.map (·.pin)) := by
  rw [List.map_eq_flatMap]
  exact Setup.adds_of_result_mapM (fun _ _ _ _ => adds_of_result_addService) h

theorem adds_of_result_register {n : Nat} {o : ChannelOptions} {c : Channel}
    (h : (register site n o).result w = (.ok c, w')) : w.pins.Adds w'.pins c.pinRefs := by
  obtain ⟨control, status, xs, own, -, cpin, w₁, hcpin, spin, w₂, hspin, modes, w₃, hmodes,
    mpin, w₄, hmpin, w₅, hput, w₆, hbits, x, w₇, hx, services, hserv, rfl⟩ :=
      exists_of_result_register h
  have hwords := (Setup.adds_of_result_addPin hcpin).append (Setup.adds_of_result_addPin hspin)
  have hmade : Action.Same Setup.made w₂ w₃ := (moves_readModes _).of_result hmodes
  have hmodePins := Setup.adds_of_result_putPin (Setup.adds_of_result_addPin hmpin)
    (List.mem_singleton_self mpin) hput
  have hbitPins := adds_of_result_addModePins hbits
  exact hwords.append ((Setup.adds_of_made_eq hmade).append (hmodePins.nil.append (hbitPins.append
    ((adds_of_result_addObjectPins hx).append (adds_of_result_addServices hserv)))))

/-- The words and the objects that are read have the formats that they should have. -/
structure Formatted (c : Channel) : Prop where
  status : c.status.format = wordFormat
  inputs : ∀ f m, (f, m) ∈ c.inputs → ∀ d, f.object? = some d → m.format = d.format

theorem formatted_of_result_register {n : Nat} {o : ChannelOptions} {c : Channel}
    (h : (register site n o).result w = (.ok c, w')) : c.Formatted := by
  obtain ⟨_, _, xs, own, hown, _, _, -, _, _, -, _, _, -, _, _, -, _, -, _, -, x, _, hx, _, -,
    rfl⟩ := exists_of_result_register h
  have hobjects := (of_result_registerEntries hown).2.2.2.1
  refine ⟨rfl, fun f m hm d hd => ?_⟩
  obtain ⟨r, hr, ⟨hf, -, -, hformat, -⟩, -⟩ := (of_result_addObjectPins hx).inputs _ hm
  obtain ⟨q, hq, rfl⟩ := List.mem_map.1 hr
  have hmem : (q.feature, q.object) ∈ mappedObjects o.requested.resolve := by
    rw [← hobjects]
    exact List.mem_map_of_mem hq
  have hobject := (mem_mappedObjects.1 hmem).2.1
  simp only at hf hformat
  rw [← hf, hd, Option.some_inj] at hobject
  rw [hformat, ← hobject]

end Setup

end Channel

theorem formatted_of_result_configure [Master μ] {o : Options} {cs : List Channel}
    (h : (configure site o).result w = (.ok cs, w')) : ∀ c ∈ cs, c.Formatted := by
  obtain ⟨b, -, hcs⟩ := exists_of_result_configure h
  exact Action.forall_of_result_mapM (fun _ _ _ _ => Channel.formatted_of_result_register) hcs

theorem adds_of_result_configure [Master μ] {o : Options} {cs : List Channel}
    (h : (configure site o).result w = (.ok cs, w')) :
    w.pins.Adds w'.pins (cs.flatMap (·.pinRefs)) := by
  obtain ⟨b, -, hcs⟩ := exists_of_result_configure h
  have hadds := Setup.adds_of_result_mapM (fun _ _ _ _ => Channel.adds_of_result_register) hcs
  -- the pins are those from before the sync managers were built
  exact hadds

end ServoBus.Axis
