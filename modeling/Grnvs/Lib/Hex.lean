/-
  Hexadecimal numbers as C prints them, read back.

  `printHex w n` is what `%.wx` prints: the digits of `n`, with zeros in front if there are fewer
  than `w`. A number below `16 ^ w` comes out as its last `w` digits (`printHex_eq`), from which
  `readHex` gets it back (`readHex_printHex`).
-/
import Grnvs.Lib.Bytes
import Mathlib.Algebra.Group.Nat.Defs
import Mathlib.Tactic.Common

namespace Hex

open Bytes

/-- `%.wx` for an unsigned number. -/
def printHex (w n : Nat) : List Byte :=
  let digits := (Nat.toDigits 16 n).map fun c => UInt8.ofNat c.toNat
  List.replicate (w - digits.length) 48 ++ digits

/-- The digit `d` as a byte. -/
def digit (d : Nat) : Byte := UInt8.ofNat (Nat.digitChar d).toNat

/-- The last `w` digits of `n`. -/
def lastDigits : Nat → Nat → List Byte
  | 0, _ => []
  | w + 1, n => lastDigits w (n / 16) ++ [digit (n % 16)]

/-- The number a digit stands for. -/
def digitVal (b : Byte) : Option Nat :=
  if 48 ≤ b.toNat ∧ b.toNat ≤ 57 then some (b.toNat - 48)
  else if 97 ≤ b.toNat ∧ b.toNat ≤ 102 then some (b.toNat - 87)
  else none

/-- The number digits spell, most significant first, if they all are digits. -/
def readHex (ds : List Byte) : Option Nat :=
  ds.foldlM (fun acc b => (digitVal b).map (acc * 16 + ·)) 0

/-! ## Printing -/

@[simp] theorem lastDigits_length (w n : Nat) : (lastDigits w n).length = w := by
  induction w generalizing n with
  | zero => rfl
  | succ w ih => rw [lastDigits, List.length_append, ih, List.length_singleton]

theorem lastDigits_zero (w : Nat) : lastDigits w 0 = List.replicate w 48 := by
  induction w with
  | zero => rfl
  | succ w ih =>
    rw [lastDigits, Nat.zero_div, ih, List.replicate_succ']
    rfl

/-- A digit in front of the others. -/
theorem printHex_of_lt {w n : Nat} (h : n < 16) :
    printHex w n = List.replicate (w - 1) 48 ++ [digit n] := by
  unfold printHex
  rw [Nat.toDigits_of_lt_base h]
  rfl

theorem printHex_of_ge {w n : Nat} (h : 16 ≤ n) :
    printHex (w + 1) n = printHex w (n / 16) ++ [digit (n % 16)] := by
  unfold printHex
  rw [Nat.toDigits_of_base_le (by decide) h]
  dsimp only
  rw [List.map_append, List.length_append, List.map_singleton, List.length_singleton,
    Nat.add_sub_add_right, List.append_assoc]
  rfl

/-- A number that fits is printed with exactly `w` digits. -/
theorem printHex_eq {w n : Nat} (hw : 0 < w) (h : n < 16 ^ w) : printHex w n = lastDigits w n := by
  induction w generalizing n with
  | zero => omega
  | succ w ih =>
    rcases Nat.lt_or_ge n 16 with hn | hn
    · rw [printHex_of_lt hn, lastDigits, Nat.div_eq_of_lt hn, Nat.mod_eq_of_lt hn,
        lastDigits_zero]
      rfl
    · have hpos : 0 < w := by
        rcases Nat.eq_zero_or_pos w with rfl | hpos
        · omega
        · exact hpos
      have hdiv : n / 16 < 16 ^ w := by
        rw [Nat.pow_succ] at h
        omega
      rw [printHex_of_ge hn, ih hpos hdiv, lastDigits]

theorem printHex_length {w n : Nat} (hw : 0 < w) (h : n < 16 ^ w) : (printHex w n).length = w := by
  rw [printHex_eq hw h, lastDigits_length]

/-! ## Reading -/

theorem digitVal_digit {d : Nat} (h : d < 16) : digitVal (digit d) = some d := by
  have key : ∀ d < 16, digitVal (digit d) = some d := by decide
  exact key d h

/-- No digit is a blank, a line feed or a NUL. -/
theorem digit_ne {d : Nat} (h : d < 16) : digit d ≠ 32 ∧ digit d ≠ 10 ∧ digit d ≠ 0 := by
  have key : ∀ d < 16, digit d ≠ 32 ∧ digit d ≠ 10 ∧ digit d ≠ 0 := by decide
  exact key d h

theorem mem_lastDigits {w n : Nat} {b : Byte} (h : b ∈ lastDigits w n) : ∃ d < 16, b = digit d := by
  induction w generalizing n with
  | zero => cases h
  | succ w ih =>
    rw [lastDigits, List.mem_append, List.mem_singleton] at h
    cases h with
    | inl h => exact ih h
    | inr h => exact ⟨n % 16, Nat.mod_lt n (by decide), h⟩

theorem mem_printHex {w n : Nat} {b : Byte} (hw : 0 < w) (hn : n < 16 ^ w)
    (h : b ∈ printHex w n) : ∃ d < 16, b = digit d := by
  rw [printHex_eq hw hn] at h
  exact mem_lastDigits h

theorem readHex_lastDigits {w n : Nat} (h : n < 16 ^ w) : readHex (lastDigits w n) = some n := by
  induction w generalizing n with
  | zero =>
    rw [Nat.pow_zero] at h
    obtain rfl : n = 0 := by omega
    rfl
  | succ w ih =>
    have hdiv : n / 16 < 16 ^ w := by
      rw [Nat.pow_succ] at h
      omega
    have hfront := ih hdiv
    unfold readHex at hfront ⊢
    rw [lastDigits, List.foldlM_append, hfront]
    show (digitVal (digit (n % 16))).map (n / 16 * 16 + ·) >>= pure = some n
    rw [digitVal_digit (Nat.mod_lt n (by decide))]
    show some (n / 16 * 16 + n % 16) = some n
    rw [Nat.div_add_mod']

/-- Reading what was printed gives the number back. -/
theorem readHex_printHex {w n : Nat} (hw : 0 < w) (h : n < 16 ^ w) :
    readHex (printHex w n) = some n := by
  rw [printHex_eq hw h, readHex_lastDigits h]

end Hex
