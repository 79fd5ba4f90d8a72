/-!
Written numbers other than plain decimal: hexadecimal bytes and addresses, and binary bytes.
-/

namespace EightBit.Text

/-- The digits of `n` in a base up to sixteen, with zeros before them up to `width` digits. -/
def digits (base width n : Nat) : List Char :=
  (Nat.toDigits base n).leftpad width '0'

def hex (n : Nat) : String :=
  String.ofList ((digits 16 2 n).map Char.toUpper)

def lowerHex (n : Nat) : String :=
  String.ofList (digits 16 1 n)

def binary (n : Nat) : String :=
  String.ofList (digits 2 8 n)

theorem exists_digit_of_mem_toDigits {base n : Nat} (large : 1 < base) {c : Char}
    (among : c ∈ Nat.toDigits base n) : ∃ digit < base, c = digit.digitChar := by
  induction n using Nat.strongRecOn with
  | ind n inductionHypothesis =>
      rcases Nat.lt_or_ge n base with small | further
      · rw [Nat.toDigits_of_lt_base small] at among
        exact ⟨n, small, List.mem_singleton.mp among⟩
      · rw [Nat.toDigits_of_base_le large further] at among
        rcases List.mem_append.mp among with before | atEnd
        · exact inductionHypothesis (n / base) (Nat.div_lt_self (by omega) large) before
        · exact ⟨n % base, Nat.mod_lt n (by omega), List.mem_singleton.mp atEnd⟩

theorem isDigit_of_mem_toString {n : Nat} {c : Char} (among : c ∈ (toString n).toList) :
    c.isDigit = true := by
  have inDigits : c ∈ Nat.toDigits 10 n := by
    rw [← Nat.toList_repr]
    exact among
  exact Nat.isDigit_of_mem_toDigits (by decide) (by decide) inDigits

theorem toString_inj {m n : Nat} (same : toString m = toString n) : m = n := by
  have digits : Nat.toDigits 10 m = Nat.toDigits 10 n := by
    rw [← Nat.toList_repr, ← Nat.toList_repr]
    exact congrArg String.toList same
  calc
    m = Nat.ofDigitChars 10 (Nat.toDigits 10 m) 0 :=
      (Nat.ofDigitChars_toDigits (by decide) (by decide)).symm
    _ = Nat.ofDigitChars 10 (Nat.toDigits 10 n) 0 := by rw [digits]
    _ = n := Nat.ofDigitChars_toDigits (by decide) (by decide)

end EightBit.Text
