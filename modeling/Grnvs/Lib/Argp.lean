/-
  `argp_parse` of the C library.

  It hands the options and arguments of a command line to the `parse_opt` of a program, one after the
  other. An error code ends it and is its result. `ARGP_ERR_UNKNOWN` ends the process instead, with
  the status `EX_USAGE`: the program does not come back from the call, so the two are kept apart
  (`Refusal`). What is kept by `parse_opt` is kept by the whole command line (`parse_invariant`).
-/
import Mathlib.Control.Monad.Basic

namespace Argp

/-- Why `parse_opt` does not take an option or argument. -/
inductive Refusal where
  | code
  | unknown
deriving DecidableEq, Repr

/-- The status of a process that `argp_parse` has ended. -/
def EX_USAGE : Int := 64

section Parse

variable {Args Key : Type} {isArg : Key → Bool} {parseOpt : Nat → Args → Key → Except Refusal Args}

/-- The command line from `keys` on; `argNum` counts the arguments before them. -/
def parse (isArg : Key → Bool) (parseOpt : Nat → Args → Key → Except Refusal Args) :
    Nat → Args → List Key → Except Refusal Args
  | _, args, [] => .ok args
  | argNum, args, key :: keys => do
      let args ← parseOpt argNum args key
      parse isArg parseOpt (if isArg key then argNum + 1 else argNum) args keys

theorem parse_refused {argNum : Nat} {args : Args} {key : Key} {r : Refusal}
    (h : parseOpt argNum args key = .error r) (keys : List Key) :
    parse isArg parseOpt argNum args (key :: keys) = .error r := by
  rw [parse, h]
  rfl

theorem parse_taken {argNum : Nat} {args args' : Args} {key : Key}
    (h : parseOpt argNum args key = .ok args') (keys : List Key) :
    parse isArg parseOpt argNum args (key :: keys) =
      parse isArg parseOpt (if isArg key then argNum + 1 else argNum) args' keys := by
  rw [parse, h]
  rfl

/-- What every step keeps is true of the arguments of an accepted command line. -/
theorem parse_invariant {I : Args → Prop}
    (hopt : ∀ argNum args key args', I args → parseOpt argNum args key = .ok args' → I args')
    {argNum : Nat} {args args' : Args} {keys : List Key} (hI : I args)
    (h : parse isArg parseOpt argNum args keys = .ok args') : I args' := by
  induction keys generalizing argNum args with
  | nil =>
    cases h
    exact hI
  | cons key keys ih =>
    cases hkey : parseOpt argNum args key with
    | error r => exact nomatch (parse_refused hkey keys).symm.trans h
    | ok args₁ =>
      rw [parse_taken hkey] at h
      exact ih (hopt _ _ _ _ hI hkey) h

end Parse

end Argp
