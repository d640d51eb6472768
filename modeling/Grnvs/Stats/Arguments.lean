/-
  `arguments.c` of ethstats: how many frames the command line asks for.

  NUM is read as a `long` and cast to `int`, so an accepted NUM can be any `int`
  (`parse_args_frames`), and every number that fits is taken as it stands (`parse_args_dec`).
-/
import Grnvs.Lib.Argp
import Grnvs.Lib.Decimal

namespace Grnvs.Stats

open Argp Bytes Decimal

/-- What argp calls `parse_opt` for. -/
inductive Key where
  | arg (s : CString)
  | interface (s : CString)
deriving DecidableEq, Repr

/-- `struct arguments` -/
structure Arguments where
  interface : CString
  frames : Int
deriving DecidableEq, Repr

def Key.isArg : Key → Bool
  | .arg _ => true
  | .interface _ => false

/-- One option or argument; `argNum` counts the arguments before it. -/
def parse_opt (argNum : Nat) (args : Arguments) : Key → Except Refusal Arguments
  | .arg s =>
      if argNum = 0 then
        if strtolEnd s.bytes ≠ [] then .error .code
        else .ok { args with frames := intOfLong (strtol s.bytes) }
      else .error .unknown
  | .interface s => .ok { args with interface := s }

def argp_parse : Nat → Arguments → List Key → Except Refusal Arguments :=
  Argp.parse Key.isArg parse_opt

/-- `"eth0"` -/
def eth0 : CString := ⟨lit "eth0", by decide⟩

def parse_args (keys : List Key) : Except Refusal Arguments := argp_parse 0 ⟨eth0, 10⟩ keys

/-! ## What is accepted -/

section Accepted

variable {argNum n : Nat} {args args' : Arguments} {key : Key} {keys : List Key}

/-- `frames` holds an `int`. -/
def Arguments.InRange (args : Arguments) : Prop := -2 ^ 31 ≤ args.frames ∧ args.frames < 2 ^ 31

theorem parse_opt_inRange (hargs : args.InRange) (h : parse_opt argNum args key = .ok args') :
    args'.InRange := by
  cases key with
  | arg s =>
    rw [parse_opt] at h
    by_cases hfirst : argNum = 0
    · rw [if_pos hfirst] at h
      by_cases hend : strtolEnd s.bytes ≠ []
      · rw [if_pos hend] at h
        cases h
      · rw [if_neg hend] at h
        cases h
        exact intOfLong_range _
    · rw [if_neg hfirst] at h
      cases h
  | interface s =>
    cases h
    exact hargs

theorem parse_args_frames (h : parse_args keys = .ok args) : args.InRange := by
  have hten : (⟨eth0, 10⟩ : Arguments).InRange := ⟨by decide, by decide⟩
  exact Argp.parse_invariant (fun _ _ _ _ => parse_opt_inRange) hten h

/-- No NUM of an `int` from 0 on is refused or changed. -/
theorem parse_args_dec (h : n < 2 ^ 31) :
    parse_args [.arg ⟨dec n, dec_nulFree n⟩] = .ok ⟨eth0, n⟩ := by
  have hend : strtolEnd (dec n) = [] := strtolEnd_of_digits (dec_ne_nil n) (dec_digit n)
  have hmax : n ≤ longMax := by
    show n ≤ 2 ^ 63 - 1
    omega
  have hint : intOfLong (strtol (dec n)) = n := by
    rw [strtol_dec hmax]
    exact Int.bmod_eq_of_le (by omega) (by omega)
  have hopt : parse_opt 0 ⟨eth0, 10⟩ (.arg ⟨dec n, dec_nulFree n⟩) = .ok ⟨eth0, n⟩ := by
    rw [parse_opt, if_pos rfl, if_neg (not_not.mpr hend), hint]
  rw [parse_args, argp_parse, Argp.parse_taken hopt]
  rfl

end Accepted

end Grnvs.Stats
