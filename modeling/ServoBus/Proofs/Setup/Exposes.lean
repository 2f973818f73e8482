import ServoBus.Proofs.Action.Failure
import ServoBus.Proofs.Setup
import ServoBus.Proofs.Trace.Answers

/-!
# Pins that a step exposes

`Setup.Exposes` says which pins a step of the setup adds if it succeeds. As long as the names of
these and of the pins before them all differ, the step does not fail because of a name that is
taken. So steps that follow each other expose their pins in a row, and whether the names of all of
them differ can be looked at apart from the setup.
-/

namespace ServoBus

open ServoBus.Action (FailsWith Keeps)

/-- A pin has this name already. -/
def Fault.IsDuplicatePin (e : Fault) : Prop := ∃ name, e = .duplicatePin name

/-- If a pin has this name already, the master says so. -/
def Fault.NotDuplicate (μ : Type) [Master μ] (slave : Position) (e : Fault) : Prop :=
  e.IsDuplicatePin → Master.Gives μ slave e

/-- The pin of a channel that goes by this name within the channel. -/
def Pin.Shape.under (site : Site) (label : String) (s : Pin.Shape) : Pin.Shape :=
  { s with name := Pin.fullName site.master site.slave (some label) s.name }

theorem PinTable.mem_names_of_result_add {name : String} {kind : Pin.Kind}
    {direction : Pin.Direction} {t t' : PinTable} {e : Fault}
    (h : (add name kind direction).result t = (.error e, t')) : name ∈ t.names := by
  rw [result_add] at h
  split at h
  · next hfind => exact find?_isSome_iff.1 hfind
  · cases h

namespace Setup

variable {μ : Type} [Master μ] {site : Site} {α β : Type}

/-- A step that succeeds adds pins of these shapes behind all others. If all names differ, it does
not fail because of one of them. -/
structure Exposes (site : Site) (x : Setup μ α) (ss : List Pin.Shape) : Prop where
  shapes : ∀ {w a w'}, x.result w = (.ok a, w') → w'.pins.shapes = w.pins.shapes ++ ss
  fault : ∀ {w e w'}, x.result w = (.error e, w') →
    (w.pins.names ++ ss.map (·.name)).Nodup → e.NotDuplicate μ site.position

variable {ss ss' : List Pin.Shape}

/-- A step that has nothing to do with pins. -/
theorem exposes_of_keeps {x : Setup μ α} (hx : Keeps (·.pins.shapes) x)
    (hf : FailsWith (Fault.NotDuplicate μ site.position) x) : Exposes site x [] where
  shapes h := (hx.of_result h).trans (List.append_nil _).symm
  fault h _ := hf _ _ _ h

/-- A step that makes nothing. -/
theorem exposes_of_made {x : Setup μ α} (hx : Keeps made x)
    (hf : FailsWith (Fault.NotDuplicate μ site.position) x) : Exposes site x [] := by
  refine exposes_of_keeps (fun w => ?_) hf
  have hmade : made (x.result w).2 = made w := hx w
  simp only [made, Prod.mk.injEq] at hmade
  exact congrArg PinTable.shapes hmade.2.2

theorem exposes_pure (a : α) : Exposes site (pure a : Setup μ α) [] :=
  exposes_of_keeps (Action.moves_pure a) (Action.failsWith_pure a)

theorem exposes_lift (x : Logged α) : Exposes site (liftM x : Setup μ α) [] :=
  exposes_of_keeps (Action.moves_lift x) (Action.failsWith_lift x)

theorem exposes_get : Exposes site (get : Setup μ (Workspace μ)) [] :=
  exposes_of_keeps Action.moves_get Action.failsWith_get

/-- The second step need only be looked at where the first one can lead to. -/
theorem Exposes.bind_of_result {x : Setup μ α} {f : α → Setup μ β} (hx : Exposes site x ss)
    (hf : ∀ w a w', x.result w = (.ok a, w') → Exposes site (f a) ss') :
    Exposes site (x >>= f) (ss ++ ss') where
  shapes h := by
    obtain ⟨a, t, hxr, hfr⟩ := Action.result_bind_eq_ok_iff.1 h
    rw [(hf _ _ _ hxr).shapes hfr, hx.shapes hxr, List.append_assoc]
  fault {w e w'} h hnames := by
    rw [List.map_append, ← List.append_assoc] at hnames
    rcases Action.result_bind_eq_error_iff.1 h with h | ⟨a, t, hxr, hfr⟩
    · exact hx.fault h (List.nodup_append.1 hnames).1
    · refine (hf _ _ _ hxr).fault hfr ?_
      rw [PinTable.names, hx.shapes hxr, List.map_append]
      exact hnames

theorem Exposes.bind {x : Setup μ α} {f : α → Setup μ β} (hx : Exposes site x ss)
    (hf : ∀ a, Exposes site (f a) ss') : Exposes site (x >>= f) (ss ++ ss') :=
  hx.bind_of_result fun _ a _ _ => hf a

theorem Exposes.after_of_result {x : Setup μ α} {f : α → Setup μ β} (hx : Exposes site x [])
    (hf : ∀ w a w', x.result w = (.ok a, w') → Exposes site (f a) ss) :
    Exposes site (x >>= f) ss :=
  hx.bind_of_result hf

/-- A step in front that has nothing to do with pins. -/
theorem Exposes.after {x : Setup μ α} {f : α → Setup μ β} (hx : Exposes site x [])
    (hf : ∀ a, Exposes site (f a) ss) : Exposes site (x >>= f) ss :=
  hx.bind hf

/-- A step at the end that has nothing to do with pins. -/
theorem Exposes.before {x : Setup μ α} {f : α → Setup μ β} (hx : Exposes site x ss)
    (hf : ∀ a, Exposes site (f a) []) : Exposes site (x >>= f) ss := by
  have h := hx.bind hf
  rwa [List.append_nil] at h

theorem exposes_mapM {f : α → Setup μ β} {g : α → List Pin.Shape} {as : List α}
    (hf : ∀ a ∈ as, Exposes site (f a) (g a)) : Exposes site (as.mapM f) (as.flatMap g) := by
  induction as with
  | nil => exact exposes_pure []
  | cons a as ih =>
    rw [List.mapM_cons]
    have hrest := ih fun a' ha' => hf a' (List.mem_cons_of_mem a ha')
    exact (hf a List.mem_cons_self).bind fun b => hrest.before fun bs => exposes_pure (b :: bs)

theorem exposes_addPin (label : String) (s : Pin.Shape) :
    Exposes site (addPin (μ := μ) site (some label) s.name s.kind s.direction)
      [s.under site label] where
  shapes h := by
    obtain ⟨t, ht, rfl⟩ := Action.result_zoom_eq_ok_iff.1 h
    obtain ⟨-, -, rfl⟩ := PinTable.result_add_eq_ok_iff.1 ht
    exact PinTable.shapes_push ..
  fault {w e w'} h hnames := by
    rw [addPin, onPins, Action.result_zoom, Prod.mk.injEq] at h
    have hmem := PinTable.mem_names_of_result_add (Prod.ext h.1 rfl)
    exact absurd rfl ((List.nodup_append.1 hnames).2.2 _ hmem _ (List.mem_singleton_self _))

theorem exposes_onPins_modify {f : PinTable → PinTable} (hf : ∀ t, (f t).shapes = t.shapes) :
    Exposes site (onPins (μ := μ) (modify f)) [] :=
  exposes_of_keeps (fun w => hf w.pins) ((Action.failsWith_modify f).zoom _ _)

end Setup

end ServoBus
