/-
  `arguments.c` and `main`: what the command line leaves behind `nick` and `msg`.

  argp hands the options and arguments of the command line to `parse_opt` one after the other. A
  message file is read once, into an array of 4096 bytes of which the last stays zero; every other
  string is the argument itself.
-/
import Grnvs.Ascii.Client
import Grnvs.Lib.Argp

namespace Grnvs.Ascii

open Argp Bytes Decimal Netstring

/-! ## `arguments.c` -/

/-- What argp calls `parse_opt` for. -/
inductive Key where
  | arg (s : CString)
  | message (s : CString)
  | port (s : CString)
  | file (s : CString)
deriving DecidableEq, Repr

/-- `struct arguments` -/
structure Arguments where
  dst : Option CString
  nick : Option CString
  msg : Option CString
  file : Option CString
  port : Int
deriving DecidableEq, Repr

def Key.isArg : Key → Bool
  | .arg _ => true
  | _ => false

/-- One option or argument; `argNum` counts the arguments before it. -/
def parse_opt (argNum : Nat) (args : Arguments) : Key → Except Refusal Arguments
  | .arg s =>
      if argNum = 0 then .ok { args with nick := some s }
      else if argNum = 1 then .ok { args with dst := some s }
      else .error .unknown
  | .message s => .ok { args with msg := some s }
  | .port s =>
      if strtolEnd s.bytes = [] then .ok { args with port := intOfLong (strtol s.bytes) }
      else .error .code
  | .file s => .ok { args with file := some s }

def argp_parse : Nat → Arguments → List Key → Except Refusal Arguments :=
  Argp.parse Key.isArg parse_opt

def parse_args (keys : List Key) : Except Refusal Arguments := do
  let args ← argp_parse 0 ⟨none, none, none, none, 1337⟩ keys
  if args.dst = none then .error .code
  else if args.nick = none then .error .code
  else if args.file = none ∧ args.msg = none then .error .code
  else .ok args

/-! ## `main` -/

/-- What `open` and the one `read` answer for a path. -/
inductive Opened where
  | notOpened
  | notRead
  | content (bytes : List Byte)
deriving DecidableEq, Repr

/-- What `assignment4` is called with: the array each of its two strings stands in. -/
structure Input where
  nick : List Byte
  msg : List Byte
deriving DecidableEq, Repr

/-- `buffer` after the file has been read. -/
def fileBuffer (bytes : List Byte) : List Byte := splice (zeros 4096) 0 (bytes.take (4096 - 1))

/-- `main` up to the call of `assignment4`; `none` if it returns before, or if argp has ended the
    process. -/
def main (opened : CString → Opened) (keys : List Key) : Option Input := do
  let args ← (parse_args keys).toOption
  let nick ← args.nick
  match args.file with
  | some path =>
      match opened path with
      | .notOpened => none
      | .notRead => none
      | .content bytes => some ⟨nick.bytes ++ [0], fileBuffer bytes⟩
  | none => do
      let msg ← args.msg
      some ⟨nick.bytes ++ [0], msg.bytes ++ [0]⟩

/-! ## The strings behind the arguments -/

/-- A file leaves a string of at most 4095 bytes, the ones before its first NUL. -/
theorem fileBuffer_cstr (bytes : List Byte) :
    ∃ s, cstr (fileBuffer bytes) = some s ∧ s.length ≤ 4095 := by
  have hlen : (bytes.take (4096 - 1)).length ≤ 4095 := by
    rw [List.length_take]
    omega
  have hend : fileBuffer bytes =
      bytes.take (4096 - 1) ++ 0 :: zeros (4095 - (bytes.take (4096 - 1)).length) := by
    rw [fileBuffer, splice_zero, drop_zeros, ← zeros_succ]
    congr 2
    omega
  obtain ⟨s, hs, hle⟩ := cstr_of_zero (bytes.take (4096 - 1))
    (zeros (4095 - (bytes.take (4096 - 1)).length))
  rw [← hend] at hs
  exact ⟨s, hs, by omega⟩

/-- Behind both arguments stands a C string. -/
theorem main_cstr {opened : CString → Opened} {keys : List Key} {input : Input}
    (hmain : main opened keys = some input) :
    (∃ nick, cstr input.nick = some nick) ∧ ∃ msg, cstr input.msg = some msg := by
  simp only [main, Option.bind_eq_bind, Option.bind_eq_some_iff] at hmain
  obtain ⟨args, -, nick, -, h⟩ := hmain
  split at h
  · split at h
    · cases h
    · cases h
    · cases h
      obtain ⟨s, hs, -⟩ := fileBuffer_cstr ‹List Byte›
      exact ⟨⟨_, cstr_terminated nick.nulFree []⟩, s, hs⟩
  · simp only [Option.bind_eq_some_iff] at h
    obtain ⟨msg, -, h⟩ := h
    cases h
    exact ⟨⟨_, cstr_terminated nick.nulFree []⟩, _, cstr_terminated msg.nulFree []⟩

end Grnvs.Ascii
