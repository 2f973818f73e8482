import ServoBus.Fault
import ServoBus.Image.Bytes
import ServoBus.Sync.Basic

/-!
# Masters

A master carries out the exchange on the wire. What it needs to know is its state; a
request may fail and may change the state in either case. Requests during setup wait
for the slave, those during a cycle answer at once.

The process image is a part of the state. It is only ever replaced by one of the same
length.
-/

namespace ServoBus

/-- A request that the master carries out on its own between cycles. -/
structure RequestRef where
  number : Nat
deriving DecidableEq, Repr

inductive RequestState where
  | unused
  | busy
  | success
  | error
deriving DecidableEq, Repr

class Master (μ : Type) where
  /-- The content of an object of a slave, from which this many bytes are wanted. -/
  upload : Position → ObjectAddress → Nat → μ → Except Fault Bytes × μ
  /-- Sends bytes to an object of a slave. -/
  download : Position → ObjectAddress → Bytes → μ → Except Fault Unit × μ
  /-- Keeps bytes that are sent again whenever the slave is configured. -/
  addConfig : Position → ObjectAddress → Bytes → μ → Except Fault Unit × μ
  configureSlave : Position → Identity → List Sync.Manager → μ → Except Fault Unit × μ
  /-- The place of a mapped entry in the process image. -/
  locateEntry : Position → ObjectAddress → μ → Except Fault Offset × μ
  /-- A request for an object of this many bytes. -/
  createRequest : Position → ObjectAddress → Nat → μ → Except Fault RequestRef × μ
  requestState : RequestRef → μ → RequestState × μ
  startWrite : RequestRef → Bytes → μ → μ
  slaveState : Position → μ → Except Fault SlaveState × μ
  image : μ → Bytes
  setImage : Bytes → μ → μ

/-- Changes the process image. -/
def Master.mapImage {μ : Type} [Master μ] (f : Bytes → Bytes) (m : μ) : μ :=
  setImage (f (image m)) m

end ServoBus
