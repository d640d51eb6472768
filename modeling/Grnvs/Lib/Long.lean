/-
  The `long` of a 64-bit machine.

  A `Long` is an integer in range. Arithmetic is done on the integers, and `result` says which
  `long` comes of it: the exact one where that is in range. C leaves a signed result out of range
  undefined, so what comes of one is the argument `overflow`: some other `long`, as on a machine
  that wraps (`twosComplement`), or nothing that has a meaning (`undefined`).
-/
import Mathlib.Algebra.Group.Int.Defs
import Mathlib.Algebra.Group.Nat.Defs
import Mathlib.Tactic.Common

namespace Signed

/-- A value of type `long`. -/
structure Long where
  val : Int
  lower : -2 ^ 63 ≤ val
  upper : val < 2 ^ 63
deriving DecidableEq, Repr

/-- What a machine makes of a result that is no `long`. -/
abbrev Overflow := Int → Option Long

def undefined : Overflow := fun _ => none

def twosComplement : Overflow := fun i =>
  some ⟨Int.bmod i (2 ^ 64),
    by have := Int.le_bmod (x := i) (m := 2 ^ 64) (by decide); omega,
    by have := Int.bmod_lt (x := i) (m := 2 ^ 64) (by decide); omega⟩

/-- The `long` that comes of an arithmetical operation with the exact result `i`. -/
def result (overflow : Overflow) (i : Int) : Option Long :=
  if h : -2 ^ 63 ≤ i ∧ i < 2 ^ 63 then some ⟨i, h.1, h.2⟩ else overflow i

section Result

variable {overflow : Overflow} {i : Int} {a : Long}

theorem result_of_range (h : -2 ^ 63 ≤ i ∧ i < 2 ^ 63) :
    result overflow i = some ⟨i, h.1, h.2⟩ := dif_pos h

theorem result_undefined (h : result undefined i = some a) : a.val = i := by
  unfold result at h
  split at h
  · exact congrArg Long.val (Option.some.inj h).symm
  · cases h

/-- Whatever comes of a result out of range, it is not that result. -/
theorem result_ne (h : 2 ^ 63 ≤ i) (a : Long) : a.val ≠ i := by
  intro he
  have := a.upper
  omega

end Result

end Signed
