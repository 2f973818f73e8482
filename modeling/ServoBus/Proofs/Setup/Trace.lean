import ServoBus.Proofs.Setup
import ServoBus.Proofs.Trace

/-!
# The calls of a setup

In a setup with a traced master, what counts is what was sent to the objects of slaves, and of
that what was sent last. A parameter sends, and all other steps of the setup do not (`Asks`).
-/

namespace ServoBus

open ServoBus.Action (Moves)

variable {μ α : Type}

/-- What a call sends to an object of a slave. -/
def MasterCall.content? (slave : Position) (a : ObjectAddress) : MasterCall → Option Bytes
  | download slave' a' content => if slave' = slave ∧ a' = a then some content else none
  | _ => none

/-- A call that sends nothing to an object. -/
def MasterCall.Idle (call : MasterCall) : Prop := ∀ slave a, call.content? slave a = none

/-- What was sent to an object of a slave last, by calls of which the latest is the first. -/
def lastSent? (slave : Position) (a : ObjectAddress) (calls : List MasterCall) : Option Bytes :=
  calls.findSome? (·.content? slave a)

section LastSent

variable {slave : Position} {a b : ObjectAddress} {content : Bytes} {new calls : List MasterCall}

theorem lastSent?_append_of_idle (h : ∀ call ∈ new, call.Idle) :
    lastSent? slave a (new ++ calls) = lastSent? slave a calls := by
  rw [lastSent?, List.findSome?_append]
  have hnone : new.findSome? (·.content? slave a) = none :=
    List.findSome?_eq_none_iff.2 fun call hcall => h call hcall slave a
  rw [hnone]
  rfl

theorem lastSent?_cons_self :
    lastSent? slave a (.download slave a content :: calls) = some content := by
  simp [lastSent?, MasterCall.content?]

theorem lastSent?_cons_of_ne (h : b ≠ a) :
    lastSent? slave a (.download slave b content :: calls) = lastSent? slave a calls := by
  simp [lastSent?, MasterCall.content?, h]

theorem lastSent?_cons_of_idle {call : MasterCall} (h : call.Idle) :
    lastSent? slave a (call :: calls) = lastSent? slave a calls := by
  rw [lastSent?, List.findSome?_cons, h slave a]
  rfl

end LastSent

namespace Setup

/-- All calls in between send nothing. -/
def Asks (w w' : Workspace (Traced μ)) : Prop := w.master.Adds MasterCall.Idle w'.master

instance : IsPreorder (Workspace (Traced μ)) Asks where
  refl w := .refl w.master
  trans _ _ _ h h' := h.trans h'

theorem asks_onMaster {step : Traced μ → Except Fault α × Traced μ}
    (h : ∀ t : Traced μ, t.Adds MasterCall.Idle (step t).2) : Moves Asks (onMaster step) :=
  fun w => h w.master

theorem asks_onSyncs (x : Action Sync.Builder α) : Moves (Asks (μ := μ)) (onSyncs x) :=
  fun w => .refl w.master

theorem asks_onRegs (x : Action Registrations α) : Moves (Asks (μ := μ)) (onRegs x) :=
  fun w => .refl w.master

instance : AdmitsPins (Asks (μ := μ)) where
  pins w _ _ := .refl w.master

variable [Master μ] {site : Site}

instance : AdmitsAsking (Asks (μ := μ)) where
  upload _ _ _ _ := .single (fun _ _ => rfl) _
  createRequest _ _ _ _ := .single (fun _ _ => rfl) _

theorem adds_locateFrom (device : String) (rs : List Registration) (t : Traced μ) :
    t.Adds MasterCall.Idle (Registrations.locateFrom device rs t).value.2.2 := by
  induction rs generalizing t with
  | nil => exact .refl t
  | cons r rs ih =>
    have hlocate : t.Adds MasterCall.Idle (Master.locateEntry r.slave r.address t).2 :=
      .single (fun _ _ => rfl) _
    rw [Registrations.locateFrom]
    rcases hl : Master.locateEntry r.slave r.address t with ⟨e | o, t'⟩
    · rw [hl] at hlocate
      exact hlocate
    · rw [hl] at hlocate
      simp only [Logged.value_bind, Logged.value_pure]
      exact hlocate.trans (ih t')

theorem asks_locate : Moves (Asks (μ := μ)) locate := by
  intro w
  have hfrom := adds_locateFrom w.regs.device w.regs.entries w.master
  rw [locate, Action.result_zoom]
  simp only [Registrations.locate, Action.result_bind, Action.result_get, Action.result_lift,
    Action.result_set]
  generalize (Registrations.locateFrom w.regs.device w.regs.entries w.master).value = found
    at hfrom ⊢
  rcases found with ⟨rs, e | ⟨⟩, t⟩
  · exact hfrom
  · exact hfrom

/-- What a parameter is sent for is kept by the master, too. -/
theorem calls_of_result_writeParam {a : ObjectAddress} {content : Bytes} {param : String}
    {w w' : Workspace (Traced μ)}
    (h : (writeParam site a content param).result w = (.ok (), w')) :
    w'.master.calls =
      .addConfig site.position a content :: .download site.position a content ::
        w.master.calls := by
  rw [writeParam, Action.result_noting, writeObject, Action.result_noting] at h
  obtain ⟨w₁, hdown, hconfig⟩ := Action.result_seq_eq_ok_iff.1 h
  obtain ⟨t, ht, rfl⟩ := Action.result_zoom_eq_ok_iff.1 hdown
  obtain ⟨t', ht', rfl⟩ := Action.result_zoom_eq_ok_iff.1 hconfig
  have hcalls : t.calls = .download site.position a content :: w.master.calls :=
    (congrArg (·.2.calls) ht).symm
  have hcalls' : t'.calls = .addConfig site.position a content :: t.calls :=
    (congrArg (·.2.calls) ht').symm
  rw [← hcalls]
  exact hcalls'

end Setup

end ServoBus
