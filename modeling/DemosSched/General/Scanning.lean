import Mathlib.Algebra.Group.Int.Defs
import Mathlib.Data.Int.Basic

/-! The integer at the front of a text, as the conversions of the C library find
it: after white space, with a sign, in decimal and without a bound. -/

namespace DemosSched

namespace Scanning

def isSpace (d : Char) : Bool := d == ' ' || ('\t' ≤ d && d ≤ '\r')

def integer (str : List Char) : Option (Int × List Char) :=
  let str := str.dropWhile isSpace
  let negative := str.head? = some '-'
  let digits := if negative ∨ str.head? = some '+' then str.tail else str
  if digits.takeWhile Char.isDigit = [] then none
  else
    let magnitude := Nat.ofDigitChars 10 (digits.takeWhile Char.isDigit) 0
    some (if negative then -magnitude else magnitude, digits.dropWhile Char.isDigit)

/-- The value as a signed integer of `bits` bits, if it is one. -/
def inRange (bits : Nat) (n : Int) : Bool := -2 ^ (bits - 1) ≤ n && n < 2 ^ (bits - 1)

/-- The integer as the C library prints it. -/
def decimal : Int → List Char
  | .ofNat n => Nat.toDigits 10 n
  | .negSucc n => '-' :: Nat.toDigits 10 (n + 1)

theorem isDigit_toDigits (n : Nat) : ∀ d ∈ Nat.toDigits 10 n, d.isDigit = true :=
  fun _ h => Nat.isDigit_of_mem_toDigits (by decide) (by decide) h

theorem takeWhile_digits {n : Nat} {rest : List Char}
    (stop : ∀ d ∈ rest.head?, d.isDigit = false) :
    (Nat.toDigits 10 n ++ rest).takeWhile Char.isDigit = Nat.toDigits 10 n ∧
      (Nat.toDigits 10 n ++ rest).dropWhile Char.isDigit = rest := by
  rw [List.takeWhile_append_of_pos (isDigit_toDigits n),
    List.dropWhile_append_of_pos (isDigit_toDigits n)]
  cases rest with
  | nil => exact ⟨List.append_nil _, rfl⟩
  | cons d rest =>
    have hd : ¬ d.isDigit = true := by simp [stop d rfl]
    rw [List.takeWhile_cons_of_neg hd, List.dropWhile_cons_of_neg hd]
    exact ⟨List.append_nil _, rfl⟩

theorem digit_front {d : Char} (digit : d.isDigit = true) :
    isSpace d = false ∧ d ≠ '-' ∧ d ≠ '+' := by
  refine ⟨?_, ?_, ?_⟩
  · rw [Char.isDigit, Bool.and_eq_true] at digit
    simp only [isSpace, Bool.or_eq_false_iff, beq_eq_false_iff_ne, Bool.and_eq_false_iff]
    refine ⟨fun h => ?_, .inr ?_⟩
    · subst h
      exact absurd digit.1 (by decide)
    · refine decide_eq_false fun h => ?_
      have hbound : d.val.toNat ≤ 13 := h
      have hzero : 48 ≤ d.val.toNat := of_decide_eq_true digit.1
      omega
  · rintro rfl
    exact absurd digit (by decide)
  · rintro rfl
    exact absurd digit (by decide)

theorem integer_decimal (n : Int) {rest : List Char}
    (stop : ∀ d ∈ rest.head?, d.isDigit = false) :
    integer (decimal n ++ rest) = some (n, rest) := by
  cases n with
  | ofNat n =>
    obtain ⟨htake, hdrop⟩ := takeWhile_digits (n := n) stop
    cases hdigits : Nat.toDigits 10 n with
    | nil => exact absurd hdigits Nat.toDigits_ne_nil
    | cons d digits =>
      obtain ⟨hspace, hminus, hplus⟩ :=
        digit_front (isDigit_toDigits n d (by simp [hdigits]))
      have hvalue : Nat.ofDigitChars 10 (d :: digits) 0 = n := by
        rw [← hdigits, Nat.ofDigitChars_ten_toDigits]
      rw [hdigits, List.cons_append] at htake hdrop
      simp [integer, decimal, hdigits, hspace, hminus, hplus, htake, hdrop, hvalue]
  | negSucc n =>
    obtain ⟨htake, hdrop⟩ := takeWhile_digits (n := n + 1) stop
    have hfront : isSpace '-' = false := by decide
    simp [integer, decimal, hfront, htake, hdrop, Nat.toDigits_ne_nil,
      Nat.ofDigitChars_ten_toDigits, Int.negSucc_eq]

end Scanning

end DemosSched
