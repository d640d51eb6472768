/-
  `Integer.parseInt` of Java, for radix 10.

  A text is read when it is an optional sign and at least one digit, and the value is an `int`. The
  digits are the decimal digits of Unicode among the characters of 16 bits, not only those of ASCII.
  `parseInt_toString` is the round trip with what Java (and Lean) prints for an integer.
-/
import Mathlib.Algebra.Group.Int.Defs
import Mathlib.Algebra.Group.Nat.Defs
import Mathlib.Data.List.Basic
import Mathlib.Data.Nat.Digits.Defs
import Mathlib.Tactic.Common

namespace Integer

/-- The characters that are zeros; each is followed by the other nine digits of its script. -/
def zeros : List Nat :=
  [0x30, 0x660, 0x6f0, 0x7c0, 0x966, 0x9e6, 0xa66, 0xae6, 0xb66, 0xbe6, 0xc66, 0xce6, 0xd66, 0xde6,
    0xe50, 0xed0, 0xf20, 0x1040, 0x1090, 0x17e0, 0x1810, 0x1946, 0x19d0, 0x1a80, 0x1a90, 0x1b50,
    0x1bb0, 0x1c40, 0x1c50, 0xa620, 0xa8d0, 0xa900, 0xa9d0, 0xa9f0, 0xaa50, 0xabf0, 0xff10]

/-- `Character.digit(c, 10)` -/
def digit (c : Char) : Option Nat :=
  (zeros.find? fun z => z ≤ c.toNat ∧ c.toNat < z + 10).map fun z => c.toNat - z

/-- The number that digits spell, continuing from `acc`. -/
def digitsVal (acc : Nat) : List Char → Option Nat
  | [] => some acc
  | c :: cs => do
      let d ← digit c
      digitsVal (acc * 10 + d) cs

/-- At least one digit. -/
def magnitude (cs : List Char) : Option Nat := if cs = [] then none else digitsVal 0 cs

/-- A value that is an `int`. -/
def inRange (n : Int) : Option Int := if -2 ^ 31 ≤ n ∧ n < 2 ^ 31 then some n else none

def parseInt (s : String) : Option Int :=
  match s.toList with
  | '-' :: cs => (magnitude cs).bind fun n => inRange (-n)
  | '+' :: cs => (magnitude cs).bind fun n => inRange n
  | cs => (magnitude cs).bind fun n => inRange n

/-! ## Reading a printed number back -/

theorem digit_digitChar {n : Nat} (h : n < 10) : digit (Nat.digitChar n) = some n := by
  have hall : ∀ n < 10, digit (Nat.digitChar n) = some n := by decide
  exact hall n h

theorem digitsVal_append (acc : Nat) (cs ds : List Char) :
    digitsVal acc (cs ++ ds) = (digitsVal acc cs).bind fun n => digitsVal n ds := by
  induction cs generalizing acc with
  | nil => rfl
  | cons c cs ih =>
    rw [List.cons_append, digitsVal, digitsVal]
    cases digit c with
    | none => rfl
    | some d => exact ih _

theorem digitsVal_toDigits (n : Nat) : digitsVal 0 (Nat.toDigits 10 n) = some n := by
  induction n using Nat.base_induction 10 (by decide) with
  | single m hm =>
    rw [Nat.toDigits_of_lt_base hm, digitsVal, digit_digitChar hm]
    show some (0 * 10 + m) = _
    rw [Nat.zero_mul, Nat.zero_add]
  | digit m k hk hm ih =>
    rw [← Nat.toDigits_append_toDigits (by decide) hm hk, digitsVal_append, ih, Option.bind_some,
      Nat.toDigits_of_lt_base hk, digitsVal, digit_digitChar hk]
    show some (m * 10 + k) = _
    rw [Nat.mul_comm]

theorem magnitude_toDigits (n : Nat) : magnitude (Nat.toDigits 10 n) = some n := by
  rw [magnitude, if_neg Nat.toDigits_ne_nil, digitsVal_toDigits]

/-- A printed number begins with a digit. -/
theorem toDigits_head {n : Nat} {c : Char} {cs : List Char} (h : Nat.toDigits 10 n = c :: cs) :
    c ≠ '-' ∧ c ≠ '+' := by
  have hval := digitsVal_toDigits n
  rw [h, digitsVal] at hval
  have hdigit : digit c ≠ none := by
    intro hnone
    rw [hnone] at hval
    cases hval
  constructor
  · intro hc
    exact hdigit (hc ▸ by decide)
  · intro hc
    exact hdigit (hc ▸ by decide)

theorem parseInt_minus {s : String} {cs : List Char} (h : s.toList = '-' :: cs) :
    parseInt s = (magnitude cs).bind fun n => inRange (-n) := by
  unfold parseInt
  rw [h]
  rfl

theorem parseInt_digits {s : String} {n : Nat} (h : s.toList = Nat.toDigits 10 n) :
    parseInt s = inRange n := by
  have hmag := magnitude_toDigits n
  unfold parseInt
  rw [h]
  cases hcs : Nat.toDigits 10 n with
  | nil => exact absurd hcs Nat.toDigits_ne_nil
  | cons c cs =>
    obtain ⟨hminus, hplus⟩ := toDigits_head hcs
    rw [hcs] at hmag
    split
    · exact absurd (List.cons.inj ‹_›).1 hminus
    · exact absurd (List.cons.inj ‹_›).1 hplus
    · rw [hmag, Option.bind_some]

/-- Every `int` is read back from what is printed for it. -/
theorem parseInt_toString {n : Int} (h : -2 ^ 31 ≤ n ∧ n < 2 ^ 31) :
    parseInt (toString n) = some n := by
  rw [Int.toString_eq_repr, Int.repr_eq_if]
  by_cases h0 : 0 ≤ n
  · obtain ⟨m, rfl⟩ := Int.eq_ofNat_of_zero_le h0
    rw [if_pos h0, parseInt_digits Nat.toList_repr, Int.toNat_natCast]
    exact if_pos h
  · have hminus : ("-" ++ (-n).toNat.repr).toList = '-' :: Nat.toDigits 10 (-n).toNat := by
      rw [String.toList_append, Nat.toList_repr]
      rfl
    rw [if_neg h0, parseInt_minus hminus, magnitude_toDigits, Option.bind_some,
      show -((-n).toNat : Int) = n by omega]
    exact if_pos h

end Integer
