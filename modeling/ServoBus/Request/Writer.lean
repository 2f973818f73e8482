import ServoBus.Log
import ServoBus.Master

/-!
# Writers

A writer keeps an object that is not part of the process image equal to a value. Once
in a cycle it is given the value, and it never waits: there is at most one request on
its way, a value is sent only if it differs from what the object is known to hold,
and a value that comes while a request is on its way is sent after it.

Only a request that succeeded changes what the object is known to hold. After one
that failed a cycle passes before the value is sent again.
-/

namespace ServoBus

inductive Writer.Phase where
  | idle
  | busy
  | done
deriving DecidableEq, Repr

structure Writer where
  /-- The name of the object in messages. -/
  name : String
  request : RequestRef
  width : Nat
  phase : Writer.Phase
  /-- What the object is known to hold. -/
  last : Int
  /-- What was sent in the latest request. -/
  pending : Int
deriving DecidableEq, Repr

def RequestState.text : RequestState → String
  | unused => "Unused"
  | busy => "Busy"
  | success => "Success"
  | error => "Error"

namespace Writer

/-- A writer for an object that holds a value already. -/
def start (name : String) (request : RequestRef) (width : Nat) (current : Int) : Writer :=
  ⟨name, request, width, .idle, current, current⟩

/-- Takes a value as what the object holds. -/
def reset (w : Writer) (current : Int) : Writer :=
  { w with last := current, phase := if w.phase = .done then .idle else w.phase }

section Cycle

variable {μ : Type} [Master μ]

/-- Sends a value unless the object holds it. -/
def send (w : Writer) (value : Int) (m : μ) : Writer × μ :=
  if w.last = value then (w, m)
  else ({ w with pending := value, phase := .busy },
    Master.startWrite w.request (payload w.width value) m)

/-- What the object holds already is not sent. -/
theorem send_last (w : Writer) (m : μ) : w.send w.last m = (w, m) := if_pos rfl

/-- Sending leaves alone what the object is known to hold. -/
@[simp] theorem last_send (w : Writer) (value : Int) (m : μ) :
    (w.send value m).1.last = w.last := by
  unfold send
  split <;> rfl

/-- One cycle: asks for a request on its way, and sends the value if none is left. -/
def write (w : Writer) (value : Int) (m : μ) : Logged (Writer × μ) :=
  if w.phase = .busy then
    match Master.requestState w.request m with
    | (.busy, m) => pure (w, m)
    | (.success, m) => pure ({ w with last := w.pending, phase := .done }.send value m)
    | (state, m) => do
      Logged.warn s!"SDO write of {w.pending} to {w.name} failed ({state.text}), retrying"
      pure ({ w with phase := .idle }, m)
  else pure (w.send value m)

end Cycle

end Writer

end ServoBus
