import EightBit.Image.Literal
import EightBit.Text.Numeral

/-!
The grammar of binary literals and what they denote: a row of digits, before which `0b` may stand,
denotes its value in base 2 modulo 256. So digits before the last eight do not matter, nor do zeros
before a shorter row.
-/

namespace EightBit.Image

structure IsBinary (digits : List Char) : Prop where
  ne_nil : digits ≠ []
  binary : ∀ c ∈ digits, c = '0' ∨ c = '1'

/-- `text` is the row `digits`, with or without `0b` before it. -/
def Spells (text digits : List Char) : Prop :=
  IsBinary digits ∧ (text = digits ∨ text = '0' :: 'b' :: digits)

theorem all_isBinaryDigit_iff {digits : List Char} :
    digits.all isBinaryDigit = true ↔ ∀ c ∈ digits, c = '0' ∨ c = '1' := by
  simp [isBinaryDigit]

theorem IsBinary.dropRadix_eq {digits : List Char} (row : IsBinary digits) :
    dropRadix digits = digits := by
  unfold dropRadix
  split
  next rest =>
      rcases row.binary 'b' (by simp) with impossible | impossible <;> cases impossible
  next => rfl

theorem literal?_of_spells {text digits : List Char} (spells : Spells text digits) :
    literal? text = some (binaryValue digits) := by
  obtain ⟨row, plain | marked⟩ := spells
  · have filled : digits.isEmpty = false := by simpa using row.ne_nil
    simp [literal?, plain, row.dropRadix_eq, filled, all_isBinaryDigit_iff.mpr row.binary]
  · have filled : digits.isEmpty = false := by simpa using row.ne_nil
    simp [literal?, marked, dropRadix, filled, all_isBinaryDigit_iff.mpr row.binary]

theorem exists_spells_of_literal? {text : List Char} {value : UInt8}
    (found : literal? text = some value) :
    ∃ digits, Spells text digits ∧ value = binaryValue digits := by
  have dropped : text = dropRadix text ∨ text = '0' :: 'b' :: dropRadix text := by
    unfold dropRadix
    split
    · exact .inr rfl
    · exact .inl rfl
  by_cases accepted : (!(dropRadix text).isEmpty && (dropRadix text).all isBinaryDigit) = true
  · obtain ⟨filled, binary⟩ := Bool.and_eq_true_iff.mp accepted
    have row : IsBinary (dropRadix text) :=
      ⟨by simpa using filled, all_isBinaryDigit_iff.mp binary⟩
    rw [literal?, if_pos accepted] at found
    exact ⟨dropRadix text, ⟨row, dropped⟩, (Option.some.inj found).symm⟩
  · rw [literal?, if_neg accepted] at found
    cases found

theorem isSome_literal?_iff {text : List Char} :
    (literal? text).isSome ↔ ∃ digits, Spells text digits := by
  constructor
  · intro found
    obtain ⟨value, read⟩ := Option.isSome_iff_exists.mp found
    obtain ⟨digits, spells, -⟩ := exists_spells_of_literal? read
    exact ⟨digits, spells⟩
  · rintro ⟨digits, spells⟩
    rw [literal?_of_spells spells]
    rfl

theorem literal?_eq_none_iff {text : List Char} :
    literal? text = none ↔ ∀ digits, ¬ Spells text digits := by
  rw [← Option.not_isSome_iff_eq_none, isSome_literal?_iff, not_exists]

theorem binaryValue_eq_ofDigitChars {digits : List Char}
    (binary : ∀ c ∈ digits, c = '0' ∨ c = '1') :
    binaryValue digits = UInt8.ofNat (Nat.ofDigitChars 2 digits 0) := by
  suffices fromAny : ∀ n : Nat,
      digits.foldl (fun value digit => 2 * value + if digit = '1' then 1 else 0) (UInt8.ofNat n) =
        UInt8.ofNat (Nat.ofDigitChars 2 digits n) from fromAny 0
  induction digits with
  | nil => exact fun n => rfl
  | cons c rest inductionHypothesis =>
      intro n
      rw [List.foldl_cons, Nat.ofDigitChars_cons,
        ← inductionHypothesis fun other among => binary other (List.mem_cons_of_mem c among)]
      congr 1
      rcases binary c List.mem_cons_self with rfl | rfl
      · simp [UInt8.ofNat_mul]
      · simp [UInt8.ofNat_add, UInt8.ofNat_mul]

theorem toNat_binaryValue {digits : List Char} (binary : ∀ c ∈ digits, c = '0' ∨ c = '1') :
    (binaryValue digits).toNat = Nat.ofDigitChars 2 digits 0 % 256 := by
  rw [binaryValue_eq_ofDigitChars binary, UInt8.toNat_ofNat']

theorem ofDigitChars_eq_shiftLeft_add (n : Nat) (digits : List Char) :
    Nat.ofDigitChars 2 digits n = n <<< digits.length + Nat.ofDigitChars 2 digits 0 := by
  induction digits generalizing n with
  | nil => simp [Nat.ofDigitChars]
  | cons c rest inductionHypothesis =>
      rw [Nat.ofDigitChars_cons, Nat.ofDigitChars_cons, inductionHypothesis,
        inductionHypothesis (2 * 0 + _), List.length_cons]
      simp only [Nat.shiftLeft_eq, Nat.pow_succ]
      grind

theorem ofDigitChars_lt {digits : List Char} (binary : ∀ c ∈ digits, c = '0' ∨ c = '1') :
    Nat.ofDigitChars 2 digits 0 < 1 <<< digits.length := by
  induction digits with
  | nil => decide
  | cons c rest inductionHypothesis =>
      have bit : c.toNat - '0'.toNat ≤ 1 := by
        rcases binary c List.mem_cons_self with rfl | rfl <;> decide
      have others := inductionHypothesis fun other among =>
        binary other (List.mem_cons_of_mem c among)
      have moved := Nat.mul_le_mul_right (1 <<< rest.length) bit
      rw [Nat.ofDigitChars_cons, ofDigitChars_eq_shiftLeft_add, List.length_cons]
      simp only [Nat.shiftLeft_eq, Nat.pow_succ, Nat.mul_zero, Nat.zero_add, Nat.one_mul] at *
      omega

theorem ofNat_shiftLeft_of_wide (n : Nat) {places : Nat} (wide : 8 ≤ places) :
    UInt8.ofNat (n <<< places) = 0 := by
  obtain ⟨more, rfl⟩ := Nat.exists_eq_add_of_le wide
  rw [Nat.add_comm, Nat.shiftLeft_add, Nat.shiftLeft_eq _ 8, UInt8.ofNat_mul]
  exact UInt8.mul_zero

/-- From the ninth digit from the end on, digits do not count. -/
theorem binaryValue_append_of_wide {extra digits : List Char}
    (binary : ∀ c ∈ extra ++ digits, c = '0' ∨ c = '1') (wide : 8 ≤ digits.length) :
    binaryValue (extra ++ digits) = binaryValue digits := by
  have ownBinary : ∀ c ∈ digits, c = '0' ∨ c = '1' :=
    fun c among => binary c (List.mem_append_right extra among)
  rw [binaryValue_eq_ofDigitChars binary, binaryValue_eq_ofDigitChars ownBinary,
    Nat.ofDigitChars_append, ofDigitChars_eq_shiftLeft_add, UInt8.ofNat_add,
    ofNat_shiftLeft_of_wide _ wide, UInt8.zero_add]

theorem binaryValue_append_of_zeros {zeros : List Char} (zero : ∀ c ∈ zeros, c = '0')
    (digits : List Char) : binaryValue (zeros ++ digits) = binaryValue digits := by
  induction zeros with
  | nil => rfl
  | cons c rest inductionHypothesis =>
      cases zero c List.mem_cons_self
      exact inductionHypothesis fun other among => zero other (List.mem_cons_of_mem '0' among)

theorem IsBinary.append {extra digits : List Char} (row : IsBinary digits)
    (binary : ∀ c ∈ extra, c = '0' ∨ c = '1') : IsBinary (extra ++ digits) := by
  constructor
  · simp [row.ne_nil]
  · exact List.forall_mem_append.mpr ⟨binary, row.binary⟩

theorem binaryValue_append {extra digits : List Char} (row : IsBinary digits)
    (binary : ∀ c ∈ extra, c = '0' ∨ c = '1')
    (idle : 8 ≤ digits.length ∨ ∀ c ∈ extra, c = '0') :
    binaryValue (extra ++ digits) = binaryValue digits := by
  rcases idle with wide | zeros
  · exact binaryValue_append_of_wide (row.append binary).binary wide
  · exact binaryValue_append_of_zeros zeros digits

/-- The last eight digits, or the whole row if it is shorter. -/
def lastEight (digits : List Char) : List Char :=
  digits.drop (digits.length - 8)

theorem binaryValue_lastEight {digits : List Char} (binary : ∀ c ∈ digits, c = '0' ∨ c = '1') :
    binaryValue (lastEight digits) = binaryValue digits := by
  unfold lastEight
  rcases Nat.le_total digits.length 8 with short | wide
  · rw [Nat.sub_eq_zero_of_le short, List.drop_zero]
  · obtain ⟨extra, low, rfl, eight⟩ : ∃ extra low, digits = extra ++ low ∧ low.length = 8 :=
      ⟨digits.take (digits.length - 8), digits.drop (digits.length - 8),
        (List.take_append_drop _ digits).symm, by rw [List.length_drop]; omega⟩
    rw [List.length_append, eight, Nat.add_sub_cancel, List.drop_left,
      binaryValue_append_of_wide binary (Nat.le_of_eq eight.symm)]

theorem ofDigitChars_lastEight_lt {digits : List Char}
    (binary : ∀ c ∈ digits, c = '0' ∨ c = '1') :
    Nat.ofDigitChars 2 (lastEight digits) 0 < 256 := by
  have ownBinary : ∀ c ∈ lastEight digits, c = '0' ∨ c = '1' :=
    fun c among => binary c (List.mem_of_mem_drop among)
  have short : (lastEight digits).length ≤ 8 := by
    rw [lastEight, List.length_drop]
    omega
  have places : 1 <<< (lastEight digits).length ≤ 256 := by
    rw [Nat.shiftLeft_eq, Nat.one_mul]
    exact Nat.pow_le_pow_right (by decide) short
  exact Nat.lt_of_lt_of_le (ofDigitChars_lt ownBinary) places

theorem toNat_binaryValue_eq_lastEight {digits : List Char}
    (binary : ∀ c ∈ digits, c = '0' ∨ c = '1') :
    (binaryValue digits).toNat = Nat.ofDigitChars 2 (lastEight digits) 0 := by
  have ownBinary : ∀ c ∈ lastEight digits, c = '0' ∨ c = '1' :=
    fun c among => binary c (List.mem_of_mem_drop among)
  rw [← binaryValue_lastEight binary, toNat_binaryValue ownBinary,
    Nat.mod_eq_of_lt (ofDigitChars_lastEight_lt binary)]

def octet (value : UInt8) : List Char :=
  Text.digits 2 8 value.toNat

theorem length_octet (value : UInt8) : (octet value).length = 8 := by
  have short : (Nat.toDigits 2 value.toNat).length ≤ 8 :=
    (Nat.length_toDigits_le_iff (by decide) (by decide)).mpr value.toNat_lt
  rw [octet, Text.digits, List.length_leftpad, Nat.max_eq_left short]

theorem binary_toDigits (n : Nat) : ∀ c ∈ Nat.toDigits 2 n, c = '0' ∨ c = '1' := by
  have binary_digitChar : ∀ digit < 2, digit.digitChar = '0' ∨ digit.digitChar = '1' := by
    decide
  intro c among
  obtain ⟨digit, small, rfl⟩ := Text.exists_digit_of_mem_toDigits (by decide) among
  exact binary_digitChar digit small

theorem binary_octet (value : UInt8) : ∀ c ∈ octet value, c = '0' ∨ c = '1' := by
  intro c among
  rcases List.mem_append.mp among with padding | digit
  · exact .inl (List.eq_of_mem_replicate padding)
  · exact binary_toDigits value.toNat c digit

theorem binaryValue_octet (value : UInt8) : binaryValue (octet value) = value := by
  have unpadded : binaryValue (octet value) = binaryValue (Nat.toDigits 2 value.toNat) :=
    binaryValue_append_of_zeros (fun c among => List.eq_of_mem_replicate among) _
  rw [unpadded, binaryValue_eq_ofDigitChars (binary_toDigits value.toNat),
    Nat.ofDigitChars_toDigits (by decide) (by decide), UInt8.ofNat_toNat]

/-- A text is a literal exactly if it is a row of binary digits, before which `0b` may stand once.
It denotes the value of the whole row in base 2, modulo 256, and that is the value of its last eight
digits. So a row that fills a byte may have any digits put before it, and a shorter one zeros. -/
theorem literal?_reads_rows_modulo_256 :
    (∀ text, (literal? text).isSome ↔ ∃ digits, Spells text digits) ∧
    (∀ text digits, Spells text digits →
      ∃ value, literal? text = some value ∧
        value.toNat = Nat.ofDigitChars 2 digits 0 % 256 ∧
        value.toNat = Nat.ofDigitChars 2 (lastEight digits) 0) ∧
    ∀ radix extra digits, (radix = [] ∨ radix = ['0', 'b']) → IsBinary digits →
      (∀ c ∈ extra, c = '0' ∨ c = '1') → (8 ≤ digits.length ∨ ∀ c ∈ extra, c = '0') →
      ∃ value, literal? (radix ++ digits) = some value ∧
        literal? (radix ++ extra ++ digits) = some value := by
  refine ⟨fun text => isSome_literal?_iff, ?_, ?_⟩
  · intro text digits spells
    exact ⟨binaryValue digits, literal?_of_spells spells, toNat_binaryValue spells.1.binary,
      toNat_binaryValue_eq_lastEight spells.1.binary⟩
  · intro radix extra digits marked row binary idle
    have spells {digits : List Char} (row : IsBinary digits) : Spells (radix ++ digits) digits := by
      refine ⟨row, ?_⟩
      rcases marked with rfl | rfl
      · exact .inl rfl
      · exact .inr rfl
    refine ⟨binaryValue digits, literal?_of_spells (spells row), ?_⟩
    rw [List.append_assoc, literal?_of_spells (spells (row.append binary)),
      binaryValue_append row binary idle]

example : (["", "0b", "0b0b1", "+1", "1 0", "12", "0B1"].map fun text => literal? text.toList) =
    List.replicate 7 none := by
  decide

end EightBit.Image
