import ServoBus.Proofs.Trace

/-!
# Answers of a master

Every call of a master comes back with an answer. The calls that were made say where a master has
got to (`Master.behind`), and its answers to them (`Master.answers`) are all that anybody learns of
it.

A master is free to number its requests and to place entries as it likes. Two masters answer
alike if no difference is seen, and a `Focus` says whether numbers and places are looked at.
-/

namespace ServoBus

instance decidableEqExcept {ε α : Type} [DecidableEq ε] [DecidableEq α] :
    DecidableEq (Except ε α)
  | .error e, .error e' => decidable_of_iff (e = e') (by rw [Except.error.injEq])
  | .ok a, .ok a' => decidable_of_iff (a = a') (by rw [Except.ok.injEq])
  | .error _, .ok _ => isFalse fun h => by cases h
  | .ok _, .error _ => isFalse fun h => by cases h

inductive Answer where
  | done (r : Except Fault Unit)
  | content (r : Except Fault Bytes)
  | place (r : Except Fault Offset)
  | request (r : Except Fault RequestRef)
  | progress (s : RequestState)
  | state (r : Except Fault SlaveState)
  /-- The call has no answer. -/
  | nothing
deriving DecidableEq

/-- The fault that is answered, if it is one. -/
def Answer.fault? : Answer → Option Fault
  | done (.error e) | content (.error e) | place (.error e) | request (.error e)
  | state (.error e) => some e
  | _ => none

namespace MasterCall

/-- The slave that a call is about. Some calls are about none. -/
def slave? : MasterCall → Option Position
  | upload slave _ _ | download slave _ _ | addConfig slave _ _ | configureSlave slave _ _
  | locateEntry slave _ | createRequest slave _ _ | slaveState slave => some slave
  | requestState _ | startWrite _ _ | setImage _ => none

/-- A call that is not about another slave. -/
def concerns (slave : Position) (call : MasterCall) : Bool := call.slave?.all (· == slave)

/-- A call that prepares a slave: contents of objects are exchanged, and requests are made. -/
def Prepares (slave : Position) : MasterCall → Prop
  | upload slave' _ _ | download slave' _ _ | addConfig slave' _ _
  | createRequest slave' _ _ => slave' = slave
  | _ => False

variable {μ : Type} [Master μ]

/-- Makes the call. -/
def perform : MasterCall → μ → Answer × μ
  | upload slave a length, m => Prod.map .content id (Master.upload slave a length m)
  | download slave a content, m => Prod.map .done id (Master.download slave a content m)
  | addConfig slave a content, m => Prod.map .done id (Master.addConfig slave a content m)
  | configureSlave slave identity managers, m =>
    Prod.map .done id (Master.configureSlave slave identity managers m)
  | locateEntry slave a, m => Prod.map .place id (Master.locateEntry slave a m)
  | createRequest slave a length, m =>
    Prod.map .request id (Master.createRequest slave a length m)
  | requestState r, m => Prod.map .progress id (Master.requestState r m)
  | startWrite r content, m => (.nothing, Master.startWrite r content m)
  | slaveState slave, m => Prod.map .state id (Master.slaveState slave m)
  | setImage image, m => (.nothing, Master.setImage image m)

theorem perform_traced (call : MasterCall) (t : Traced μ) :
    call.perform t =
      ((call.perform t.master).1, ⟨(call.perform t.master).2, call :: t.calls⟩) := by
  cases call <;> rfl

end MasterCall

namespace Master

variable {μ : Type} [Master μ]

/-- Where a master has got to by calls, of which the first one is the earliest. -/
def behind (calls : List MasterCall) (m : μ) : μ :=
  calls.foldl (fun m call => (call.perform m).2) m

/-- The master answers a call about the slave with this fault. -/
def Gives (μ : Type) [Master μ] (slave : Position) (e : Fault) : Prop :=
  ∃ (call : MasterCall) (m : μ), call.slave? = some slave ∧ (call.perform m).1.fault? = some e

/-- What a master answers to calls that are made one after the other. -/
def answers : List MasterCall → μ → List Answer
  | [], _ => []
  | call :: calls, m => (call.perform m).1 :: answers calls (call.perform m).2

variable {calls calls' : List MasterCall}

theorem behind_cons (call : MasterCall) (calls : List MasterCall) (m : μ) :
    behind (call :: calls) m = behind calls (call.perform m).2 := rfl

theorem behind_append (calls calls' : List MasterCall) (m : μ) :
    behind (calls ++ calls') m = behind calls' (behind calls m) := List.foldl_append

theorem answers_append (calls calls' : List MasterCall) (m : μ) :
    answers (calls ++ calls') m = answers calls m ++ answers calls' (behind calls m) := by
  induction calls generalizing m with
  | nil => rfl
  | cons call calls ih =>
    rw [List.cons_append, answers, ih]
    rfl

theorem length_answers (calls : List MasterCall) (m : μ) :
    (answers calls m).length = calls.length := by
  induction calls generalizing m with
  | nil => rfl
  | cons call calls ih => rw [answers, List.length_cons, ih, List.length_cons]

/-- A trace holds the calls, the latest first. -/
theorem behind_traced (calls : List MasterCall) (t : Traced μ) :
    behind calls t = ⟨behind calls t.master, calls.reverse ++ t.calls⟩ := by
  induction calls generalizing t with
  | nil => rfl
  | cons call calls ih =>
    rw [behind_cons, ih, call.perform_traced]
    simp [behind]

theorem answers_traced (calls : List MasterCall) (t : Traced μ) :
    answers calls t = answers calls t.master := by
  induction calls generalizing t with
  | nil => rfl
  | cons call calls ih => rw [answers, answers, ih, call.perform_traced]

/-- A traced master tells by which calls it has got to where it is. -/
theorem eq_of_behind_eq {t : Traced μ} (h : behind calls t = behind calls' t) :
    calls = calls' := by
  rw [behind_traced, behind_traced, Traced.mk.injEq] at h
  exact List.reverse_inj.1 (List.append_cancel_right h.2)

end Master

/-- How closely answers are looked at: what is seen of the number of a request and of the place of
an entry. -/
structure Focus where
  request : RequestRef → RequestRef
  place : Offset → Offset

namespace Focus

/-- All of an answer is seen. -/
def sharp : Focus := ⟨id, id⟩

/-- Neither numbers of requests nor places of entries are seen. -/
def coarse : Focus := ⟨fun _ => ⟨0⟩, fun _ => ⟨0, 0⟩⟩

end Focus

namespace Answer

/-- What is seen of an answer. -/
def seen (F : Focus) : Answer → Answer
  | place r => .place (F.place <$> r)
  | request r => .request (F.request <$> r)
  | a => a

theorem seen_sharp (a : Answer) : a.seen .sharp = a := by
  cases a with
  | place r => rw [seen, Focus.sharp, id_map]
  | request r => rw [seen, Focus.sharp, id_map]
  | _ => rfl

end Answer

/-- Two masters answer these calls alike, as far as can be seen. -/
def Master.Alike {μ ν : Type} [Master μ] [Master ν] (F : Focus) (calls : List MasterCall) (m : μ)
    (n : ν) : Prop :=
  (answers calls n).map (·.seen F) = (answers calls m).map (·.seen F)

theorem Master.alike_sharp_iff {μ ν : Type} [Master μ] [Master ν] {calls : List MasterCall}
    {m : μ} {n : ν} : Alike .sharp calls m n ↔ answers calls n = answers calls m := by
  have hid : (fun a : Answer => a.seen .sharp) = id := funext Answer.seen_sharp
  rw [Alike, hid, List.map_id, List.map_id]

theorem Master.alike_refl {μ : Type} [Master μ] {F : Focus} (calls : List MasterCall) (m : μ) :
    Alike F calls m m := rfl

theorem Master.alike_traced_iff {μ ν : Type} [Master μ] [Master ν] {F : Focus}
    {calls : List MasterCall} {t : Traced μ} {n : ν} :
    Alike F calls t n ↔ Alike F calls t.master n := by
  rw [Alike, Alike, answers_traced]

theorem Master.alike_iff_traced {μ ν : Type} [Master μ] [Master ν] {F : Focus}
    {calls : List MasterCall} {m : μ} {t : Traced ν} :
    Alike F calls m t ↔ Alike F calls m t.master := by
  rw [Alike, Alike, answers_traced]

theorem Master.alike_cons_iff {μ ν : Type} [Master μ] [Master ν] {F : Focus} {call : MasterCall}
    {calls : List MasterCall} {m : μ} {n : ν} :
    Alike F (call :: calls) m n ↔
      (call.perform n).1.seen F = (call.perform m).1.seen F ∧
        Alike F calls (call.perform m).2 (call.perform n).2 := List.cons_eq_cons

/-- The answers to calls in a row are those to the first ones and then those to the others. -/
theorem Master.alike_append_iff {μ ν : Type} [Master μ] [Master ν] {F : Focus}
    {calls calls' : List MasterCall} {m : μ} {n : ν} :
    Alike F (calls ++ calls') m n ↔
      Alike F calls m n ∧ Alike F calls' (behind calls m) (behind calls n) := by
  rw [Alike, answers_append, answers_append, List.map_append, List.map_append]
  constructor
  · intro h
    refine List.append_inj h ?_
    rw [List.length_map, List.length_map, length_answers, length_answers]
  · rintro ⟨h, h'⟩
    rw [h, h']

/-- What a master answers about a slave depends neither on what it was asked about other slaves
nor on what it was told to do with them, apart from the numbers of requests and the places of
entries. -/
def Master.Separate {μ : Type} [Master μ] (m : μ) : Prop :=
  ∀ (slave : Position) (calls calls' : List MasterCall) (call : MasterCall),
    call.slave? = some slave →
      calls.filter (·.concerns slave) = calls'.filter (·.concerns slave) →
        (call.perform (behind calls m)).1.seen .coarse =
          (call.perform (behind calls' m)).1.seen .coarse

/-- Calls about one slave are answered alike after what was asked about others. -/
theorem Master.Separate.alike {μ : Type} [Master μ] {m : μ} (h : Separate m) {slave : Position}
    {calls calls' new : List MasterCall}
    (heq : calls.filter (·.concerns slave) = calls'.filter (·.concerns slave))
    (hnew : ∀ call ∈ new, call.slave? = some slave) :
    Alike .coarse new (behind calls m) (behind calls' m) := by
  induction new generalizing calls calls' with
  | nil => rfl
  | cons call new ih =>
    have hcall := hnew call List.mem_cons_self
    have hbehind (calls : List MasterCall) :
        (call.perform (behind calls m)).2 = behind (calls ++ [call]) m :=
      (behind_append calls [call] m).symm
    rw [alike_cons_iff, hbehind, hbehind]
    refine ⟨h slave calls' calls call hcall heq.symm, ih ?_ fun c hc => hnew c ?_⟩
    · rw [List.filter_append, List.filter_append, heq]
    · exact List.mem_cons_of_mem _ hc

end ServoBus
