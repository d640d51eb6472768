/-
  Decimal numbers as C prints and reads them.

  `dec n` is what `%d` prints for a natural number, `strtol` is what `strtol(s, NULL, 10)` (and so
  `atol`) returns: white space and one sign are skipped, digits are read up to the first other
  byte, and a value outside a 64-bit `long` is clamped. `strtol_dec` is the round trip;
  `dec_inj`, `dec_ne_nil`, `dec_digit` and `dec_head_ne_zero` describe the printed text. `strtolEnd`
  is the end pointer of `strtol`, and `intOfLong` the conversion of its result to `int`.
-/
import Grnvs.Lib.Bytes
import Mathlib.Algebra.Group.Int.Defs
import Mathlib.Algebra.Group.Nat.Defs
import Mathlib.Data.List.TakeWhile
import Mathlib.Tactic.Common

namespace Decimal

open Bytes

/-- The decimal digits of `n`, most significant first. -/
def dec (n : Nat) : List Byte := (Nat.toDigits 10 n).map fun c => UInt8.ofNat c.toNat

/-- An ASCII digit. -/
def IsDigit (b : Byte) : Prop := 48 ≤ b.toNat ∧ b.toNat ≤ 57

instance : DecidablePred IsDigit := fun _ => inferInstanceAs (Decidable (_ ∧ _))

/-- `isspace` in the C locale. -/
def isSpace (b : Byte) : Bool := b == 32 || (9 ≤ b && b ≤ 13)

/-- The number the leading digits of a text spell, continuing from `acc`. -/
def digitsVal (acc : Nat) : List Byte → Nat
  | [] => acc
  | b :: bs => if IsDigit b then digitsVal (acc * 10 + (b.toNat - 48)) bs else acc

/-- `LONG_MAX` of a 64-bit `long`. -/
def longMax : Nat := 2 ^ 63 - 1

/-- `strtol(s, NULL, 10)` with a 64-bit `long`. -/
def strtol (s : List Byte) : Int :=
  match s.dropWhile isSpace with
  | [] => 0
  | b :: bs =>
      if b = 45 then - Int.ofNat (min (digitsVal 0 bs) (longMax + 1))
      else if b = 43 then Int.ofNat (min (digitsVal 0 bs) longMax)
      else Int.ofNat (min (digitsVal 0 (b :: bs)) longMax)

/-- Where `strtol` leaves off: behind the digits, or at the start of a text without any. -/
def strtolEnd (s : List Byte) : List Byte :=
  let number := s.dropWhile isSpace
  let digits := if number.head? = some 45 ∨ number.head? = some 43 then number.tail else number
  let rest := digits.dropWhile fun b => decide (IsDigit b)
  if rest.length = digits.length then s else rest

/-- The conversion to `int`. -/
def intOfLong (i : Int) : Int := Int.bmod i 4294967296

/-- The conversion wraps into the range of an `int`. -/
theorem intOfLong_range (i : Int) : -2 ^ 31 ≤ intOfLong i ∧ intOfLong i < 2 ^ 31 := by
  have h1 := Int.le_bmod (x := i) (m := 4294967296) (by decide)
  have h2 := Int.bmod_lt (x := i) (m := 4294967296) (by decide)
  unfold intOfLong
  constructor
  · omega
  · omega

/-- What `strtol` returns is a `long`. -/
theorem strtol_range (s : List Byte) : -2 ^ 63 ≤ strtol s ∧ strtol s < 2 ^ 63 := by
  have hmax : longMax = 2 ^ 63 - 1 := rfl
  have hlow : ∀ n, -2 ^ 63 ≤ - Int.ofNat (min n (longMax + 1)) ∧
      - Int.ofNat (min n (longMax + 1)) < 2 ^ 63 := by
    intro n
    have := Nat.min_le_right n (longMax + 1)
    rw [Int.ofNat_eq_natCast]
    omega
  have hhigh : ∀ n, -2 ^ 63 ≤ Int.ofNat (min n longMax) ∧ Int.ofNat (min n longMax) < 2 ^ 63 := by
    intro n
    have := Nat.min_le_right n longMax
    rw [Int.ofNat_eq_natCast]
    omega
  unfold strtol
  split
  · decide
  · split
    · exact hlow _
    · split
      · exact hhigh _
      · exact hhigh _

/-! ## The printed text -/

theorem dec_of_lt {n : Nat} (h : n < 10) : dec n = [UInt8.ofNat (48 + n)] := by
  rw [dec, Nat.toDigits_of_lt_base h, List.map_singleton, Nat.toNat_digitChar_of_lt_ten h]

theorem dec_append {m k : Nat} (hm : 0 < m) (hk : k < 10) : dec (10 * m + k) = dec m ++ dec k := by
  rw [dec, ← Nat.toDigits_append_toDigits (by decide) hm hk, List.map_append]
  rfl

theorem digit_toNat {n : Nat} (h : n < 10) : (UInt8.ofNat (48 + n)).toNat = 48 + n := by
  rw [UInt8.toNat_ofNat']
  omega

/-- Every printed byte is a digit. -/
theorem dec_digit (n : Nat) : ∀ b ∈ dec n, IsDigit b := by
  induction n using Nat.base_induction 10 (by decide) with
  | single m hm =>
      intro b hb
      rw [dec_of_lt hm, List.mem_singleton] at hb
      subst hb
      unfold IsDigit
      rw [digit_toNat hm]
      omega
  | digit m k hk hm ih =>
      intro b hb
      rw [dec_append hm hk, List.mem_append, dec_of_lt hk, List.mem_singleton] at hb
      rcases hb with hb | rfl
      · exact ih b hb
      · unfold IsDigit
        rw [digit_toNat hk]
        omega

theorem dec_not_mem {c : Byte} (hc : ¬ IsDigit c) (n : Nat) : c ∉ dec n :=
  fun h => hc (dec_digit n c h)

theorem dec_nulFree (n : Nat) : NulFree (dec n) := dec_not_mem (by decide) n

theorem dec_ne_nil (n : Nat) : dec n ≠ [] := by
  unfold dec
  intro h
  exact Nat.toDigits_ne_nil (List.map_eq_nil_iff.mp h)

/-- The text of a positive number does not begin with `'0'`. -/
theorem dec_head_ne_zero {n : Nat} (h : 0 < n) : (dec n).head? ≠ some 48 := by
  induction n using Nat.base_induction 10 (by decide) with
  | single m hm =>
      rw [dec_of_lt hm, List.head?_cons, ne_eq, Option.some.injEq, UInt8.ext_iff]
      intro he
      have := congrArg UInt8.toNat (UInt8.ext_iff.mpr he)
      rw [digit_toNat hm] at this
      change 48 + m = 48 at this
      omega
  | digit m k hk hm ih =>
      rw [dec_append hm hk, List.head?_append_of_ne_nil _ (dec_ne_nil m)]
      exact ih hm

/-! The first byte of a text that begins with a number. -/

theorem isDigit_headD_dec (n : Nat) (r : List Byte) : IsDigit ((dec n ++ r).headD 0) := by
  rcases hd : dec n with _ | ⟨b, bs⟩
  · exact absurd hd (dec_ne_nil n)
  · exact dec_digit n b (by rw [hd]; exact List.mem_cons_self ..)

theorem headD_dec_ne_zero {n : Nat} (h : 0 < n) (r : List Byte) : (dec n ++ r).headD 0 ≠ 48 := by
  have h0 := dec_head_ne_zero h
  rcases hd : dec n with _ | ⟨b, bs⟩
  · exact absurd hd (dec_ne_nil n)
  · rw [hd] at h0
    simpa using h0

/-! ## Reading a number back -/

theorem digitsVal_append {ds : List Byte} (hd : ∀ b ∈ ds, IsDigit b) (acc : Nat)
    (rest : List Byte) : digitsVal acc (ds ++ rest) = digitsVal (digitsVal acc ds) rest := by
  induction ds generalizing acc with
  | nil => rfl
  | cons d ds ih =>
      have h0 : IsDigit d := hd d (List.mem_cons_self ..)
      have hs : ∀ b ∈ ds, IsDigit b := fun b hb => hd b (List.mem_cons_of_mem _ hb)
      simp only [List.cons_append, digitsVal, h0, if_true]
      exact ih hs _

theorem digitsVal_dec (n : Nat) : digitsVal 0 (dec n) = n := by
  induction n using Nat.base_induction 10 (by decide) with
  | single m hm =>
      have hd : IsDigit (UInt8.ofNat (48 + m)) := dec_digit m _ (by rw [dec_of_lt hm]; simp)
      rw [dec_of_lt hm]
      simp only [digitsVal, hd, if_true, digit_toNat hm]
      omega
  | digit m k hk hm ih =>
      have hd : IsDigit (UInt8.ofNat (48 + k)) := dec_digit k _ (by rw [dec_of_lt hk]; simp)
      rw [dec_append hm hk, digitsVal_append (dec_digit m), ih, dec_of_lt hk]
      simp only [digitsVal, hd, if_true, digit_toNat hk]
      omega

/-- Distinct numbers print differently. -/
theorem dec_inj {n m : Nat} (h : dec n = dec m) : n = m := by
  rw [← digitsVal_dec n, h, digitsVal_dec]

/-! A digit is no white space and no sign. -/

theorem IsDigit.not_space {b : Byte} (hb : IsDigit b) : isSpace b = false := by
  obtain ⟨h1, h2⟩ := hb
  simp only [isSpace, Bool.or_eq_false_iff, beq_eq_false_iff_ne, ne_eq, Bool.and_eq_false_iff,
    decide_eq_false_iff_not, UInt8.le_iff_toNat_le, UInt8.ext_iff]
  constructor
  · intro h
    rw [h] at h1
    exact absurd h1 (by decide)
  · right
    change ¬ b.toNat ≤ 13
    omega

theorem IsDigit.ne_minus {b : Byte} (hb : IsDigit b) : b ≠ 45 := by
  rintro rfl
  exact absurd hb (by decide)

theorem IsDigit.ne_plus {b : Byte} (hb : IsDigit b) : b ≠ 43 := by
  rintro rfl
  exact absurd hb (by decide)

/-- A text that begins with a digit is read from its first byte on. -/
theorem strtol_of_digit {b : Byte} (hb : IsDigit b) (bs : List Byte) :
    strtol (b :: bs) = Int.ofNat (min (digitsVal 0 (b :: bs)) longMax) := by
  simp [strtol, hb.not_space, hb.ne_minus, hb.ne_plus]

/-- Nothing is left of a text that consists of digits. -/
theorem strtolEnd_of_digits {s : List Byte} (hne : s ≠ []) (hs : ∀ b ∈ s, IsDigit b) :
    strtolEnd s = [] := by
  obtain ⟨b, bs, rfl⟩ := List.exists_cons_of_ne_nil hne
  have hb : IsDigit b := hs b (List.mem_cons_self ..)
  have hnumber : (b :: bs).dropWhile isSpace = b :: bs := by
    rw [List.dropWhile_cons_of_neg (by simp [hb.not_space])]
  have hrest : (b :: bs).dropWhile (fun b => decide (IsDigit b)) = [] :=
    List.dropWhile_eq_nil_iff.mpr fun x hx => decide_eq_true (hs x hx)
  unfold strtolEnd
  rw [hnumber]
  simp [hb.ne_minus, hb.ne_plus, hrest]

/-- Reading what was printed gives the number back, up to `LONG_MAX`. -/
theorem strtol_dec {n : Nat} (h : n ≤ longMax) : strtol (dec n) = n := by
  rcases hd : dec n with _ | ⟨b, bs⟩
  · exact absurd hd (dec_ne_nil n)
  · have hb : IsDigit b := dec_digit n b (by rw [hd]; simp)
    rw [strtol_of_digit hb, ← hd, digitsVal_dec, Nat.min_eq_left h]
    rfl

end Decimal
