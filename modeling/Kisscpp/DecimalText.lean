import Mathlib.Algebra.Group.Nat.Defs
import Mathlib.Data.List.Lex
import Mathlib.Data.Char
import Kisscpp.TextLines

namespace DecimalText
open TextLines

-- The text an output stream gives a number, and the number a digit text reads as.
abbrev decimal (n : Nat) : Text := Nat.toDigits 10 n
def value (text : Text) : Nat := Nat.ofDigitChars 10 text 0

def Digits (text : Text) : Prop := ∀ c ∈ text, c.isDigit = true

theorem Digits.tail {c : Char} {rest : Text} (digits : Digits (c :: rest)) : Digits rest :=
  fun other member => digits other (List.mem_cons_of_mem _ member)

theorem Digits.append {first second : Text} (left : Digits first) (right : Digits second) :
    Digits (first ++ second) := by
  intro c member
  rcases List.mem_append.mp member with inFirst | inSecond
  · exact left c inFirst
  · exact right c inSecond

theorem digits_decimal (n : Nat) : Digits (decimal n) :=
  fun _ member => Nat.isDigit_of_mem_toDigits (by decide) (by decide) member

theorem digits_zero : Digits ['0'] := by simp [Digits]

theorem digits_zeros (n : Nat) : Digits (List.replicate n '0') := by
  intro c member
  rw [List.eq_of_mem_replicate member]; rfl

@[simp] theorem value_nil : value [] = 0 := by simp [value]
@[simp] theorem value_decimal (n : Nat) : value (decimal n) = n := Nat.ofDigitChars_ten_toDigits

theorem value_append (first second : Text) :
    value (first ++ second) = 10 ^ second.length * value first + value second := by
  simp only [value,Nat.ofDigitChars_append]
  exact Nat.ofDigitChars_eq_ofDigitChars_zero

theorem value_zeros (n : Nat) (text : Text) : value (List.replicate n '0' ++ text) = value text := by
  have zero : value (List.replicate n '0') = 0 := by simp [value]
  rw [value_append,zero,Nat.mul_zero,Nat.zero_add]

theorem value_cons (c : Char) (rest : Text) :
    value (c :: rest) = 10 ^ rest.length * (c.toNat - '0'.toNat) + value rest := by
  rw [value,Nat.ofDigitChars_cons,Nat.ofDigitChars_eq_ofDigitChars_zero,Nat.mul_zero,Nat.zero_add]
  rfl

theorem digit_bounds {c : Char} (digit : c.isDigit = true) : '0'.toNat ≤ c.toNat ∧ c.toNat ≤ '9'.toNat := by
  simp only [Char.isDigit,Bool.and_eq_true,decide_eq_true_eq] at digit
  exact ⟨digit.1,digit.2⟩

theorem value_lt {text : Text} (digits : Digits text) : value text < 10 ^ text.length := by
  induction text with
  | nil => simp
  | cons c rest ih =>
    have small := ih digits.tail
    have bounds := digit_bounds (digits c (by simp))
    have nine : c.toNat - '0'.toNat ≤ 9 := by
      have top : '9'.toNat = '0'.toNat + 9 := rfl
      omega
    rw [value_cons,List.length_cons,Nat.pow_succ]
    calc 10 ^ rest.length * (c.toNat - '0'.toNat) + value rest
        < 10 ^ rest.length * (c.toNat - '0'.toNat) + 10 ^ rest.length := by omega
      _ = 10 ^ rest.length * (c.toNat - '0'.toNat + 1) := by rw [Nat.mul_add,Nat.mul_one]
      _ ≤ 10 ^ rest.length * 10 := Nat.mul_le_mul_left _ (by omega)

theorem char_lt_iff (c d : Char) : c < d ↔ c.toNat < d.toNat := Iff.rfl

-- Equal lengths make lexicographic order the order of the numbers: the first
-- different digit outweighs everything behind it.
theorem lt_of_value_lt {first second : Text} (left : Digits first) (right : Digits second)
    (same : first.length = second.length) (less : value first < value second) : first < second := by
  induction first generalizing second with
  | nil =>
    cases second with
    | nil => simp at less
    | cons => simp at same
  | cons c rest ih =>
    cases second with
    | nil => simp at same
    | cons d others =>
      have length : rest.length = others.length := by simpa using same
      have low := digit_bounds (left c (by simp))
      have high := digit_bounds (right d (by simp))
      have small := value_lt left.tail
      have small' := value_lt right.tail
      rw [value_cons,value_cons,length] at less
      rw [length] at small
      rw [List.cons_lt_cons_iff,char_lt_iff]
      rcases Nat.lt_trichotomy c.toNat d.toNat with below | equal | above
      · exact .inl below
      · have headEq : c = d := Char.toNat_inj.mp equal
        refine .inr ⟨headEq,ih left.tail right.tail length ?_⟩
        rw [equal] at less
        omega
      · exfalso
        have step : d.toNat - '0'.toNat + 1 ≤ c.toNat - '0'.toNat := by omega
        have weight := Nat.mul_le_mul_left (10 ^ others.length) step
        rw [Nat.mul_add,Nat.mul_one] at weight
        omega

theorem length_decimal {n k : Nat} (low : 10 ^ k ≤ n) (high : n < 10 ^ (k + 1)) : (decimal n).length = k + 1 := by
  have upper := (Nat.length_toDigits_le_iff (n := n) (b := 10) (by decide) (Nat.succ_pos k)).mpr high
  rcases Nat.eq_zero_or_pos k with rfl | positive
  · have lower := Nat.length_toDigits_pos (b := 10) (n := n)
    simp only [decimal] at *
    omega
  · have lower : ¬ (decimal n).length ≤ k := by
      rw [Nat.length_toDigits_le_iff (by decide) positive]
      omega
    simp only [decimal] at *
    omega

end DecimalText
