import ServoBus.Param.Value
import ServoBus.Proofs.Text.Caseless
import ServoBus.Proofs.Text.Numeral

/-!
# How values are spelled

The texts of a value are told by a grammar of their own. A bit has words in any case, a whole number
is a numeral in one of two bases that fits into its word, and every text is a string. A text is read
as a value exactly if it spells the value without the blanks around it. The text that is printed for
a value spells it, so the value is read back.
-/

namespace ServoBus.Param

/-- The mark of a base, if there is one, and what stands behind it. -/
inductive Marked : List Char → Nat → List Char → Prop
  | unmarked {cs} : Marked cs 10 cs
  | small {cs} : Marked ('0' :: 'x' :: cs) 16 cs
  | capital {cs} : Marked ('0' :: 'X' :: cs) 16 cs

/-- The texts of each value, without blanks around them. A double is read by rules of its own. -/
inductive Spells : List Char → Value → Prop
  | on {word cs} : word ∈ ["1", "true", "on", "yes"] → Text.InAnyCase word.toList cs →
      Spells cs (.bit true)
  | off {word cs} : word ∈ ["0", "false", "off", "no"] → Text.InAnyCase word.toList cs →
      Spells cs (.bit false)
  | u32 {cs base ds n} : Marked cs base ds → Text.UnsignedIn base ds n → n < 2 ^ 32 →
      Spells cs (.u32 (.ofNat n))
  | s32 {cs base ds z} : Marked cs base ds → Text.SignedIn base ds z → -2 ^ 31 ≤ z ∧ z < 2 ^ 31 →
      Spells cs (.s32 (.ofInt z))
  | string {cs} : Spells cs (.string (String.ofList cs))

section

variable {cs ds : List Char} {base : Nat} (hmarked : Marked cs base ds)

include hmarked

theorem Spells.of_word {w : UInt32} (h : Text.UnsignedIn base ds w.toNat) : Spells cs (.u32 w) := by
  have hspells := Spells.u32 hmarked h w.toNat_lt
  rwa [UInt32.ofNat_toNat] at hspells

theorem Spells.of_signedWord {w : Int32} (h : Text.SignedIn base ds w.toInt) :
    Spells cs (.s32 w) := by
  have hspells := Spells.s32 hmarked h ⟨w.le_toInt, w.toInt_lt⟩
  rwa [Int32.ofInt_toInt] at hspells

end

theorem Spells.of_string (s : String) : Spells s.toList (.string s) := by
  have hspells : Spells s.toList (.string (String.ofList s.toList)) := .string
  rwa [String.ofList_toList] at hspells

/-! ### Words for bits -/

def wordsFor (b : Bool) : List String := if b then onWords else offWords

theorem fold_of_mem_wordsFor {b : Bool} : ∀ word ∈ wordsFor b, Text.fold word = word.toList := by
  cases b <;> decide +kernel

/-- No word stands for both values. -/
theorem fold_ne : ∀ on ∈ onWords, ∀ off ∈ offWords, Text.fold on ≠ Text.fold off := by
  decide +kernel

theorem spells_bit_iff {cs : List Char} {b : Bool} :
    Spells cs (.bit b) ↔ ∃ word ∈ wordsFor b, Text.InAnyCase word.toList cs := by
  constructor
  · rintro (⟨hmem, hword⟩ | ⟨hmem, hword⟩)
    · exact ⟨_, hmem, hword⟩
    · exact ⟨_, hmem, hword⟩
  · rintro ⟨word, hmem, hword⟩
    cases b with
    | true => exact .on hmem hword
    | false => exact .off hmem hword

theorem bit?_eq_some_iff {s : String} {b : Bool} : bit? s = some b ↔ Spells s.toList (.bit b) := by
  have hany : Spells s.toList (.bit b) ↔ (wordsFor b).any (Text.sameCaseless · s) = true := by
    rw [spells_bit_iff, List.any_eq_true]
    refine exists_congr fun word => and_congr_right fun hword => ?_
    exact (Text.sameCaseless_iff_inAnyCase (fold_of_mem_wordsFor word hword)).symm
  have hone : onWords.any (Text.sameCaseless · s) = true →
      ¬ offWords.any (Text.sameCaseless · s) = true := by
    simp only [List.any_eq_true, Text.sameCaseless_iff]
    rintro ⟨on, hon, heq⟩ ⟨off, hoff, heq'⟩
    exact fold_ne on hon off hoff (heq.trans heq'.symm)
  rw [hany, bit?]
  cases b with
  | true =>
    change _ ↔ onWords.any (Text.sameCaseless · s) = true
    split <;> simp_all
  | false =>
    change _ ↔ offWords.any (Text.sameCaseless · s) = true
    split <;> simp_all

/-! ### Whole numbers -/

theorem marked_splitBase (cs : List Char) : Marked cs (splitBase cs).1 (splitBase cs).2 := by
  rw [splitBase.eq_def]
  split
  · exact .small
  · exact .capital
  · exact .unmarked

theorem Marked.base_le {cs ds : List Char} {base : Nat} (h : Marked cs base ds) : base ≤ 16 := by
  cases h <;> decide

/-- No decimal numeral begins like a mark. -/
theorem Marked.splitBase_eq {cs ds : List Char} {base : Nat} {z : Int} (h : Marked cs base ds)
    (hz : Text.SignedIn base ds z) : splitBase cs = (base, ds) := by
  cases h with
  | small => rfl
  | capital => rfl
  | unmarked =>
    have hchars : ∀ c ∈ cs, c ≠ 'x' ∧ c ≠ 'X' := by
      refine (Text.signedNumeral_iff.2 hz).forall_mem (fun c hc => ⟨?_, ?_⟩) (by decide) (by decide)
      · rintro rfl
        cases hc
      · rintro rfl
        cases hc
    rw [splitBase.eq_def]
    split
    · exact absurd rfl (hchars 'x' (by simp)).1
    · exact absurd rfl (hchars 'X' (by simp)).2
    · rfl

theorem u32?_eq_some_iff {cs : List Char} {w : UInt32} :
    u32? cs = some w ↔ Spells cs (.u32 w) := by
  have hmarked := marked_splitBase cs
  rw [u32?, Text.word32?_iff hmarked.base_le]
  refine ⟨.of_word hmarked, fun h => ?_⟩
  cases h with
  | u32 hmark hn hlt =>
    rw [hmark.splitBase_eq (.positive hn), UInt32.toNat_ofNat_of_lt' hlt]
    exact hn

theorem s32?_eq_some_iff {cs : List Char} {w : Int32} :
    s32? cs = some w ↔ Spells cs (.s32 w) := by
  have hmarked := marked_splitBase cs
  rw [s32?, Text.signedWord32?_iff hmarked.base_le]
  refine ⟨.of_signedWord hmarked, fun h => ?_⟩
  cases h with
  | s32 hmark hz hfits =>
    rw [hmark.splitBase_eq hz, Int32.toInt_ofInt_of_le hfits.1 hfits.2]
    exact hz

namespace Value

theorem ofTrimmed?_eq_some_iff {k : Kind} (hk : k ≠ .float) {s : String} {v : Value} :
    ofTrimmed? k s = some v ↔ v.kind = k ∧ Spells s.toList v := by
  cases k with
  | float => exact absurd rfl hk
  | bit =>
    simp only [ofTrimmed?, Option.map_eq_some_iff, bit?_eq_some_iff]
    cases v <;> simp [kind]
  | u32 =>
    simp only [ofTrimmed?, Option.map_eq_some_iff, u32?_eq_some_iff]
    cases v <;> simp [kind]
  | s32 =>
    simp only [ofTrimmed?, Option.map_eq_some_iff, s32?_eq_some_iff]
    cases v <;> simp [kind]
  | string =>
    simp only [ofTrimmed?, Option.some.injEq]
    constructor
    · rintro rfl
      exact ⟨rfl, .of_string s⟩
    · rintro ⟨hkind, h⟩
      cases h with
      | string => rw [String.ofList_toList]
      | _ => cases hkind

/-! ### Printed values -/

theorem spells_text {v : Value} (h : v.kind ≠ .float) : Spells v.text.toList v := by
  cases v with
  | bit b =>
    cases b with
    | true =>
      have hword : "1" ∈ ["1", "true", "on", "yes"] := List.mem_cons_self
      exact .on hword (Text.inAnyCase_self _)
    | false =>
      have hword : "0" ∈ ["0", "false", "off", "no"] := List.mem_cons_self
      exact .off hword (Text.inAnyCase_self _)
  | u32 w => exact .of_word .unmarked (Text.unsignedNumeral_iff.1 (Text.unsignedNumeral_toString w))
  | s32 w =>
    exact .of_signedWord .unmarked (Text.signedNumeral_iff.1 (Text.signedNumeral_toString w))
  | float x => exact absurd rfl h
  | string s => exact .of_string s

/-- No blanks are printed around a value, but for those of a string. -/
theorem unpadded_text {v : Value} (h : v.kind ≠ .float)
    (hstring : ∀ s, v = .string s → Text.Unpadded s.toList) : Text.Unpadded v.text.toList := by
  cases v with
  | bit b => cases b <;> decide +kernel
  | u32 w => exact (Text.unsignedNumeral_toString w).signed.unpadded
  | s32 w => exact (Text.signedNumeral_toString w).unpadded
  | float x => exact absurd rfl h
  | string s => exact hstring s rfl

/-- A text is read as a value, other than a double, exactly if it spells the value without the
blanks around it, and the value that a text was printed for is read from it. -/
theorem ofText?_spells :
    (∀ k text v, k ≠ .float → (ofText? k text = some v ↔
      v.kind = k ∧ ∃ cs, Text.Trims text.toList cs ∧ Spells cs v)) ∧
    ∀ v : Value, v.kind ≠ .float → (∀ s, v = .string s → Text.Unpadded s.toList) →
      ofText? v.kind v.text = some v := by
  have hread (k : Kind) (text : String) (v : Value) (hk : k ≠ .float) : ofText? k text = some v ↔
      v.kind = k ∧ ∃ cs, Text.Trims text.toList cs ∧ Spells cs v := by
    rw [ofText?, ofTrimmed?_eq_some_iff hk, Text.toList_trim]
    refine and_congr_right fun _ => ⟨fun h => ⟨_, Text.trims_trimBlanks _, h⟩, ?_⟩
    rintro ⟨cs, htrims, h⟩
    rwa [htrims.trimBlanks_eq]
  refine ⟨hread, fun v hv hstring => (hread _ _ _ hv).2 ⟨rfl, _, ?_, spells_text hv⟩⟩
  exact (unpadded_text hv hstring).trims_self

theorem ofText?_spells_lowest :
    Kind.s32 ≠ .float ∧ (string "a b").kind ≠ .float ∧
      (∀ s, string "a b" = .string s → Text.Unpadded s.toList) ∧
      ofText? .s32 " 0X-80000000\t" = some (.s32 (-0x80000000)) ∧
      ofText? .string "a b" = some (.string "a b") := by
  have hstring : ∀ s, string "a b" = .string s → Text.Unpadded s.toList := by
    rintro s ⟨⟩
    decide +kernel
  have htext : " 0X-80000000\t".toList =
      [' '] ++ ['0', 'X', '-', '8', '0', '0', '0', '0', '0', '0', '0'] ++ ['\t'] := by
    decide +kernel
  have htrims : Text.Trims " 0X-80000000\t".toList
      ['0', 'X', '-', '8', '0', '0', '0', '0', '0', '0', '0'] := by
    have hunpadded : Text.Unpadded ['0', 'X', '-', '8', '0', '0', '0', '0', '0', '0', '0'] := by
      decide
    rw [htext]
    exact hunpadded.trims (List.forall_mem_singleton.2 (by decide))
      (List.forall_mem_singleton.2 (by decide))
  have hdigits : Text.NumeralIn 16 ['8', '0', '0', '0', '0', '0', '0', '0'] 0x80000000 := by
    refine ⟨nofun, [8, 0, 0, 0, 0, 0, 0, 0], ?_, by decide⟩
    simp [Text.DigitIn, Text.smallDigits]
  have hspells : Spells ['0', 'X', '-', '8', '0', '0', '0', '0', '0', '0', '0']
      (.s32 (-0x80000000)) := .s32 .capital (.negative hdigits) (by decide)
  have hkind : Kind.s32 ≠ .float := by decide
  have hkind' : (string "a b").kind ≠ .float := by decide
  exact ⟨hkind, hkind', hstring, (ofText?_spells.1 _ _ _ hkind).2 ⟨rfl, _, htrims, hspells⟩,
    ofText?_spells.2 _ hkind' hstring⟩

end Value

end ServoBus.Param
