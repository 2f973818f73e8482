import ServoBus.Text.Numeral

/-!
# Objects on the bus

An object of a slave is addressed by an index of 16 bits and a subindex of 8 bits.
Once a slave is configured, an object that is exchanged in every cycle also has an
offset in the process image.
-/

namespace ServoBus

structure ObjectAddress where
  index : UInt16
  subindex : UInt8
deriving DecidableEq, Repr

def ObjectAddress.text (a : ObjectAddress) : String :=
  "0x" ++ Text.hex 4 a.index.toNat ++ ":" ++ Text.hex 2 a.subindex.toNat

instance : ToString ObjectAddress := ⟨ObjectAddress.text⟩

/-- A place in the process image. Its numbers are exact here; what a machine makes of them is in
`ServoBus.Image.Words`. -/
structure Offset where
  byte : Nat
  bit : Nat
deriving DecidableEq, Repr

namespace Offset

/-- The number of bits before the offset. -/
def position (o : Offset) : Nat := 8 * o.byte + o.bit

/-- The offset of the bit that stands `n` bits further. -/
def shift (o : Offset) (n : Nat) : Offset :=
  ⟨(o.position + n) / 8, (o.position + n) % 8⟩

@[simp] theorem position_shift (o : Offset) (n : Nat) :
    (o.shift n).position = o.position + n := by
  simp only [position, shift]
  omega

theorem bit_shift_lt (o : Offset) (n : Nat) : (o.shift n).bit < 8 := by
  simp only [shift]
  omega

end Offset

/-- The place of a slave in the ring. -/
abbrev Position := UInt16

structure Identity where
  vendor : UInt32
  product : UInt32
deriving DecidableEq, Repr

/-- The states of the application layer of a slave. -/
inductive AlState where
  | init
  | preop
  | boot
  | safeop
  | op
deriving DecidableEq, Repr

structure SlaveState where
  online : Bool
  operational : Bool
  al : AlState
deriving DecidableEq, Repr

/-- The state of a slave that nothing is known of. -/
def SlaveState.unknown : SlaveState := ⟨false, false, .init⟩

end ServoBus
