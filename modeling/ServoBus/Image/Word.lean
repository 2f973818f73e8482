import ServoBus.Image.Field

/-!
# Fields in a machine word

A field touches five bytes of the image at most. It is read and written without looking at any
other byte: the bytes that it touches are put together in a word of 64 bits, where shifts and masks
cut the field out or put new bits in, and a word that was changed is taken apart into bytes again.
-/

namespace ServoBus

abbrev Word := BitVec 64

namespace Bytes

/-- The bytes in a word, the first one in its low bits. -/
def word (bs : Bytes) : Word := bs.reverse.foldl (fun w b => w <<< 8 ||| b.toBitVec.setWidth 64) 0

/-- The low bytes of a word, as many as are asked for. -/
def ofWord : Nat → Word → Bytes
  | 0, _ => []
  | length + 1, w => UInt8.ofBitVec (w.setWidth 8) :: ofWord length (w >>> 8)

@[simp] theorem word_nil : word [] = 0 := rfl

theorem word_cons (b : UInt8) (bs : Bytes) :
    word (b :: bs) = word bs <<< 8 ||| b.toBitVec.setWidth 64 := by
  simp [word]

@[simp] theorem length_ofWord (length : Nat) (w : Word) : (ofWord length w).length = length := by
  induction length generalizing w with
  | zero => rfl
  | succ length ih => rw [ofWord, List.length_cons, ih]

end Bytes

/-- Ones in as many low bits as are asked for. -/
def Word.mask (width : Nat) : Word := ((1 : Word) <<< width) - 1

namespace Field

/-- The bytes before the field, those that it touches, and those behind it. -/
def cut? (f : Field) (image : Bytes) : Option (Bytes × Bytes × Bytes) :=
  if f.width = 0 ∨ 32 < f.width ∨ 7 < f.offset.bit ∨ image.length < f.stop then none
  else
    let rest := image.drop f.offset.byte
    let touched := f.stop - f.offset.byte
    some (image.take f.offset.byte, rest.take touched, rest.drop touched)

/-- The value of the field. The sign is spread by shifting it to the top of the word and back. -/
def readWord (f : Field) (signed : Bool) (image : Bytes) : Int :=
  match f.cut? image with
  | none => 0
  | some (_, touched, _) =>
    let raw := (touched.word >>> f.offset.bit) &&& Word.mask f.width
    let spare := 64 - f.width
    (if signed then (raw <<< spare).sshiftRight spare else raw).toInt

/-- Puts the low bits of a value into the field. -/
def writeWord (f : Field) (v : Int) (image : Bytes) : Bytes :=
  match f.cut? image with
  | none => image
  | some (before, touched, behind) =>
    let mask := Word.mask f.width <<< f.offset.bit
    let bits := (BitVec.ofInt 64 v <<< f.offset.bit) &&& mask
    before ++ (Bytes.ofWord touched.length ((touched.word &&& ~~~mask) ||| bits) ++ behind)

end Field

end ServoBus
