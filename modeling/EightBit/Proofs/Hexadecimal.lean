import EightBit.Text.Numeral

/-!
Hexadecimal read back. A number is told from its digits, however many zeros stand before them, and
digits are all that it is written in.
-/

namespace EightBit.Text

def hexDigitValue (c : Char) : Nat :=
  if c.isDigit then c.toNat - '0'.toNat else c.toNat - 'A'.toNat + 10

/-- The number that a row of digits of upper-case hexadecimal stands for. -/
def readHex (digits : List Char) : Nat :=
  digits.foldl (fun value digit => 16 * value + hexDigitValue digit) 0

theorem hexDigitValue_toUpper_digitChar :
    ∀ digit < 16, hexDigitValue digit.digitChar.toUpper = digit := by
  decide

theorem readHex_append_singleton (digits : List Char) (digit : Char) :
    readHex (digits ++ [digit]) = 16 * readHex digits + hexDigitValue digit := by
  simp [readHex]

theorem readHex_toDigits (n : Nat) : readHex ((Nat.toDigits 16 n).map Char.toUpper) = n := by
  induction n using Nat.strongRecOn with
  | ind n inductionHypothesis =>
      rcases Nat.lt_or_ge n 16 with small | further
      · have value := hexDigitValue_toUpper_digitChar n small
        rw [Nat.toDigits_of_lt_base small]
        simpa [readHex] using value
      · -- The last digit is the remainder, and those before it write the quotient.
        have value := hexDigitValue_toUpper_digitChar (n % 16) (Nat.mod_lt n (by decide))
        rw [Nat.toDigits_of_base_le (by decide) further, List.map_append, List.map_singleton,
          readHex_append_singleton, inductionHypothesis (n / 16) (by omega), value]
        exact Nat.div_add_mod n 16

theorem readHex_zeros_append (count : Nat) (digits : List Char) :
    readHex (List.replicate count '0' ++ digits) = readHex digits := by
  induction count with
  | zero => rfl
  | succ count inductionHypothesis => exact inductionHypothesis

theorem toList_hex (n : Nat) : (hex n).toList =
    List.replicate (2 - (Nat.toDigits 16 n).length) '0' ++
      (Nat.toDigits 16 n).map Char.toUpper := by
  rw [hex, String.toList_ofList, digits, List.leftpad, List.map_append, List.map_replicate]
  rfl

theorem readHex_hex (n : Nat) : readHex (hex n).toList = n := by
  rw [toList_hex, readHex_zeros_append, readHex_toDigits]

theorem exists_digit_of_mem_hex {n : Nat} {c : Char} (among : c ∈ (hex n).toList) :
    ∃ digit < 16, c = digit.digitChar.toUpper := by
  rw [toList_hex] at among
  rcases List.mem_append.mp among with zero | digit
  · exact ⟨0, by decide, List.eq_of_mem_replicate zero⟩
  · obtain ⟨lower, written, rfl⟩ := List.mem_map.mp digit
    obtain ⟨value, small, rfl⟩ := exists_digit_of_mem_toDigits (by decide) written
    exact ⟨value, small, rfl⟩

theorem not_mem_hex {c : Char} (noDigit : ∀ digit < 16, c ≠ digit.digitChar.toUpper) (n : Nat) :
    c ∉ (hex n).toList := by
  intro among
  obtain ⟨digit, small, rfl⟩ := exists_digit_of_mem_hex among
  exact noDigit digit small rfl

theorem blank_not_mem_hex (n : Nat) : ' ' ∉ (hex n).toList :=
  not_mem_hex (by decide) n

theorem dash_not_mem_hex (n : Nat) : '-' ∉ (hex n).toList :=
  not_mem_hex (by decide) n

end EightBit.Text
