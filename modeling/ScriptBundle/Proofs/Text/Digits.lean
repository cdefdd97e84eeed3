import Mathlib.Data.List.Basic

/-!
# Numbers in digits

A number is written in its decimal digits, with no zero in front of them, and a minus
sign if it is negative.
-/

namespace ScriptBundle.Text.Digits

theorem isDigit_of_mem {value : Nat} {char : Char} (hchar : char ∈ Nat.toDigits 10 value) :
    char.isDigit = true :=
  Nat.isDigit_of_mem_toDigits (by decide) (by decide) hchar

/-- A number that is not zero is written without a zero in front. -/
theorem toDigits_head_ne_zero {value : Nat} (hvalue : 0 < value) :
    ∀ rest, Nat.toDigits 10 value ≠ '0' :: rest := by
  induction value using Nat.strongRecOn with
  | ind value ih =>
      intro rest hrest
      by_cases hsmall : value < 10
      · rw [Nat.toDigits_of_lt_base hsmall] at hrest
        have hdigit : ∀ value < 10, 0 < value → value.digitChar ≠ '0' := by decide
        exact hdigit value hsmall hvalue (List.cons.inj hrest).1
      · have hlarge : 10 ≤ value := Nat.le_of_not_lt hsmall
        rw [Nat.toDigits_of_base_le (by decide) hlarge] at hrest
        cases hfront : Nat.toDigits 10 (value / 10) with
        | nil => exact Nat.toDigits_ne_nil hfront
        | cons char chars =>
            rw [hfront, List.cons_append] at hrest
            rw [(List.cons.inj hrest).1] at hfront
            exact ih (value / 10) (by omega) (by omega) chars hfront

/-- The digits of a number come to the number. -/
theorem foldl_toDigits (value : Nat) :
    (Nat.toDigits 10 value).foldl (fun value digit => 10 * value + (digit.toNat - 48)) 0 = value :=
  Nat.ofDigitChars_ten_toDigits

theorem toList_toString_ofNat (value : Nat) :
    (toString (Int.ofNat value)).toList = Nat.toDigits 10 value :=
  Nat.toList_repr

theorem toList_toString_negSucc (value : Nat) :
    (toString (Int.negSucc value)).toList = '-' :: Nat.toDigits 10 (value + 1) := by
  change ("-" ++ Nat.repr (value + 1)).toList = _
  rw [String.toList_append, Nat.toList_repr]
  rfl

end ScriptBundle.Text.Digits
