import ServoBus.Master

/-!
# The calls of a master

Every master can be traced: `Traced` hands all calls on to a master and keeps those that can
change it, with what they were given. Whatever is proved of all masters holds of traced ones,
and then speaks of the calls that were made.

A map between masters that respects what a cycle asks of them cannot be told apart by a cycle
(`Master.Carries`). Forgetting the trace is one.
-/

namespace ServoBus

inductive MasterCall where
  | upload (slave : Position) (a : ObjectAddress) (length : Nat)
  | download (slave : Position) (a : ObjectAddress) (content : Bytes)
  | addConfig (slave : Position) (a : ObjectAddress) (content : Bytes)
  | configureSlave (slave : Position) (identity : Identity) (managers : List Sync.Manager)
  | locateEntry (slave : Position) (a : ObjectAddress)
  | createRequest (slave : Position) (a : ObjectAddress) (length : Nat)
  | requestState (r : RequestRef)
  | startWrite (r : RequestRef) (content : Bytes)
  | slaveState (slave : Position)
  | setImage (image : Bytes)
deriving DecidableEq, Repr

/-- The request that is polled or written. -/
def MasterCall.request? : MasterCall → Option RequestRef
  | requestState r => some r
  | startWrite r _ => some r
  | _ => none

/-- A master with the calls that it got, the latest first. -/
structure Traced (μ : Type) where
  master : μ
  calls : List MasterCall := []

namespace Traced

variable {μ α : Type}

/-- Hands a call on to the master. -/
def pass (call : MasterCall) (step : μ → α × μ) (t : Traced μ) : α × Traced μ :=
  ((step t.master).1, ⟨(step t.master).2, call :: t.calls⟩)

instance [Master μ] : Master (Traced μ) where
  upload slave a length := pass (.upload slave a length) (Master.upload slave a length)
  download slave a content := pass (.download slave a content) (Master.download slave a content)
  addConfig slave a content :=
    pass (.addConfig slave a content) (Master.addConfig slave a content)
  configureSlave slave identity managers :=
    pass (.configureSlave slave identity managers)
      (Master.configureSlave slave identity managers)
  locateEntry slave a := pass (.locateEntry slave a) (Master.locateEntry slave a)
  createRequest slave a length :=
    pass (.createRequest slave a length) (Master.createRequest slave a length)
  requestState r := pass (.requestState r) (Master.requestState r)
  startWrite r content t :=
    ⟨Master.startWrite r content t.master, .startWrite r content :: t.calls⟩
  slaveState slave := pass (.slaveState slave) (Master.slaveState slave)
  image t := Master.image t.master
  setImage image t := ⟨Master.setImage image t.master, .setImage image :: t.calls⟩

/-- Further calls were made, all of them such as a test says. -/
def Adds (P : MasterCall → Prop) (t t' : Traced μ) : Prop :=
  ∃ new, t'.calls = new ++ t.calls ∧ ∀ call ∈ new, P call

namespace Adds

variable {P Q : MasterCall → Prop} {t t' t'' : Traced μ}

theorem refl (t : Traced μ) : Adds P t t := ⟨[], rfl, nofun⟩

theorem single {call : MasterCall} (h : P call) (m : μ) : Adds P t ⟨m, call :: t.calls⟩ :=
  ⟨[call], rfl, by simpa using h⟩

theorem trans (h : Adds P t t') (h' : Adds P t' t'') : Adds P t t'' := by
  obtain ⟨new, ht, hnew⟩ := h
  obtain ⟨new', ht', hnew'⟩ := h'
  refine ⟨new' ++ new, by rw [ht', ht, List.append_assoc], fun call hcall => ?_⟩
  rcases List.mem_append.1 hcall with hcall | hcall
  · exact hnew' call hcall
  · exact hnew call hcall

theorem imp (h : Adds P t t') (hPQ : ∀ call, P call → Q call) : Adds Q t t' := by
  obtain ⟨new, ht, hnew⟩ := h
  exact ⟨new, ht, fun call hcall => hPQ call (hnew call hcall)⟩

end Adds

end Traced

/-- A map between masters that respects all that a cycle asks of them. -/
structure Master.Carries {μ ν : Type} [Master μ] [Master ν] (f : μ → ν) : Prop where
  requestState : ∀ (r : RequestRef) (m : μ),
    Master.requestState r (f m) = Prod.map id f (Master.requestState r m)
  startWrite : ∀ (r : RequestRef) (content : Bytes) (m : μ),
    Master.startWrite r content (f m) = f (Master.startWrite r content m)
  slaveState : ∀ (slave : Position) (m : μ),
    Master.slaveState slave (f m) = Prod.map id f (Master.slaveState slave m)
  image : ∀ m : μ, Master.image (f m) = Master.image m
  setImage : ∀ (bytes : Bytes) (m : μ), Master.setImage bytes (f m) = f (Master.setImage bytes m)

theorem Traced.carries_master {μ : Type} [Master μ] :
    Master.Carries (Traced.master : Traced μ → μ) where
  requestState _ _ := rfl
  startWrite _ _ _ := rfl
  slaveState _ _ := rfl
  image _ := rfl
  setImage _ _ := rfl

end ServoBus
