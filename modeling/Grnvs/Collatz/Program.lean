/-
  `assignment1`: the program `collatz`.

  The state of a run is the list of the numbers printed so far. The loop has no other exit than the
  value 1, so how many turns it may take is the argument `fuel`, and a run stops with `fuel` when
  they do not suffice. What an overflow leaves behind is up to the machine (`Signed.Overflow`);
  a machine that gives it no meaning stops the run with `undefined`.
-/
import Grnvs.Lib.Argp
import Grnvs.Lib.Decimal
import Grnvs.Lib.Fuel
import Grnvs.Lib.Long

namespace Grnvs.Collatz

open Argp Bytes Decimal Signed

/-- Why a run ends without a result. -/
inductive Stop where
  | undefined
  | fuel
deriving DecidableEq, Repr

abbrev Run := Comp Stop (List Long)

/-! ## `assignment1.c` -/

/-- `printf("%ld\n", start);` -/
def print (start : Long) : Run Unit := Comp.modify fun printed => printed ++ [start]

/-- The value of an expression of type `long`. -/
def long (overflow : Overflow) (i : Int) : Run Long :=
  match result overflow i with
  | some a => pure a
  | none => Comp.stop .undefined

/-- One evaluation of the loop's condition and, where it holds, one turn. Division and remainder
    round towards zero. -/
def turn (overflow : Overflow) (start : Long) (_fuel : Nat) : Run (Long ⊕ Unit) := do
  if start.val ≠ 1 then
    if start.val.tmod 2 = 0 then do
      let start ← long overflow (start.val.tdiv 2)
      print start
      pure (.inl start)
    else do
      let triple ← long overflow (3 * start.val)
      let start ← long overflow (triple.val + 1)
      print start
      pure (.inl start)
  else pure (.inr ())

def assignment1 (overflow : Overflow) (fuel : Nat) (start : Long) : Run Unit := do
  print start
  Comp.loop .fuel (turn overflow) start fuel

/-! ## `arguments.c` -/

/-- `struct arguments` -/
structure Arguments where
  start : Long
deriving DecidableEq, Repr

/-- `strtol(arg, &endptr, 10)` -/
def strtolLong (arg : CString) : Long :=
  ⟨strtol arg.bytes, (strtol_range arg.bytes).1, (strtol_range arg.bytes).2⟩

/-- One argument of the command line; `argNum` counts those before it. -/
def parse_opt (argNum : Nat) (args : Arguments) (arg : CString) : Except Refusal Arguments :=
  if argNum = 0 then
    let tmp := strtolLong arg
    if strtolEnd arg.bytes ≠ [] ∨ strtolEnd arg.bytes = arg.bytes then .error .code
    else .ok { args with start := tmp }
  else .error .unknown

def argp_parse : Nat → Arguments → List CString → Except Refusal Arguments :=
  Argp.parse (fun _ => true) parse_opt

/-- `argc` counts the program's name and whatever else argp does not hand on as an argument. -/
def parse_args (argc : Nat) (argv : List CString) : Except Refusal Arguments :=
  if argc ≤ 1 then .error .code else argp_parse 0 ⟨⟨0, by decide, by decide⟩⟩ argv

/-- `main`, by the status of the process: -1 where it returns because the arguments are refused, and
    argp's own where it does not come back from `argp_parse`. -/
def main (overflow : Overflow) (fuel argc : Nat) (argv : List CString) : Run Int :=
  match parse_args argc argv with
  | .error .code => pure (-1)
  | .error .unknown => pure EX_USAGE
  | .ok args => do
      assignment1 overflow fuel args.start
      pure 0

end Grnvs.Collatz
