/-
  The machine ethstats runs on: the socket and the clock behind `grnvs_read`, the heap that holds
  its list, and what it prints.

  A `Kernel` answers the system calls, the n-th call of each in its own way; nothing is assumed
  about the answers here. Access to memory that is not there, or not there any more, stops the run
  with `undefined`.
-/
import Grnvs.Lib.Bytes
import Grnvs.Lib.Comp
import Grnvs.Lib.Linked

namespace Grnvs.Stats

open Bytes Linked

def ETH_ALEN : Nat := 6

structure Timespec where
  tv_sec : Int
  tv_nsec : Int
deriving DecidableEq, Repr

inductive Errno where
  | eintr
  | other (n : Nat)
deriving DecidableEq, Repr

/-- What `pselect` returns: 1, 0, -1, or nothing at all. -/
inductive Selected where
  | ready
  | timedOut
  | failed (e : Errno)
  | blocked
deriving DecidableEq, Repr

/-- What `read` returns: the bytes that are there, of which it delivers as many as were asked for,
    or -1. -/
inductive Received where
  | bytes (bs : List Byte)
  | failed (e : Errno)
deriving DecidableEq, Repr

structure TypeInfo where
  ethType : Nat
  frameCounter : Nat
  byteCounter : Nat
  next : Link
deriving DecidableEq, Repr

/-- The answers of the system: the n-th call of `pselect` comes `idle n` ns after the one before has
    returned and takes the ns it says; `len n` is what an uninitialised `len` holds before that
    call, `fresh n` what stands in the n-th block of `malloc`. -/
structure Kernel where
  hwaddr : List Byte
  idle : Nat → Nat
  select : Nat → Option Timespec → Nat × Selected
  read : Nat → Received
  len : Nat → Int
  full : Nat → Bool
  fresh : Nat → TypeInfo
  strerror : Errno → String

inductive Output where
  | stdout (text : String)
  | stderr (text : String)
  /-- The line of the four rates, which are computed from `totalByte`. -/
  | rate (totalByte : Nat)
deriving DecidableEq, Repr

/-- `clock` is the monotonic clock in ns; `selects`, `reads` and `mallocs` count the calls so far;
    `freed` are the blocks freed so far. -/
structure World where
  kernel : Kernel
  ifindex : Int
  clock : Nat
  selects : Nat
  reads : Nat
  recbuffer : List Byte
  mymac : List Byte
  heap : Addr → Option TypeInfo
  mallocs : Nat
  freed : List Addr
  out : List Output

/-- Why a run ends before its end. -/
inductive Stop where
  | exit (code : Int)
  | undefined
  | blocked
  | fuel
deriving DecidableEq, Repr

abbrev Run := Comp Stop World

/-! ## Output -/

/-- `fprintf`. -/
def print (o : Output) : Run Unit := Comp.modify fun w => { w with out := w.out ++ [o] }

/-! ## System calls -/

/-- Time goes by. -/
def pass : Run Unit :=
  Comp.modify fun w => { w with clock := w.clock + w.kernel.idle w.selects }

/-- What the clock shows. -/
def reading (ns : Nat) : Timespec := ⟨(ns / 1000000000 : Nat), (ns % 1000000000 : Nat)⟩

def clock_gettime : Run Timespec := Comp.gets fun w => reading w.clock

def pselect (tp : Option Timespec) : Run Selected := do
  let answer ← Comp.gets fun w => w.kernel.select w.selects tp
  Comp.modify fun w => { w with clock := w.clock + answer.1, selects := w.selects + 1 }
  if answer.2 = .blocked then Comp.stop .blocked else pure answer.2

/-- `read` into `recbuffer`: the number of bytes delivered, or the error. -/
def read (maxlen : Nat) : Run (Except Errno Nat) := do
  let answer ← Comp.gets fun w => w.kernel.read w.reads
  Comp.modify fun w => { w with reads := w.reads + 1 }
  match answer with
  | .bytes bs => do
      Comp.modify fun w => { w with recbuffer := splice w.recbuffer 0 (bs.take maxlen) }
      pure (.ok (bs.take maxlen).length)
  | .failed e => pure (.error e)

theorem pselect_run {w : World} {tp : Option Timespec} {e : Nat} {ret : Selected}
    (h : w.kernel.select w.selects tp = (e, ret)) (hret : ret ≠ .blocked) :
    (pselect tp).run w =
      (.ok ret, { w with clock := w.clock + e, selects := w.selects + 1 }) := by
  rw [pselect, Comp.gets_bind, h, Comp.modify_bind, if_neg hret]
  rfl

theorem read_run {w : World} {bs : List Byte} (h : w.kernel.read w.reads = .bytes bs)
    (maxlen : Nat) : (read maxlen).run w = (.ok (.ok (bs.take maxlen).length),
      { w with
        reads := w.reads + 1
        recbuffer := splice w.recbuffer 0 (bs.take maxlen) }) := by
  rw [read, Comp.gets_bind, h]
  rfl

/-! ## The heap -/

/-- A block of the size of a `struct typeInfo`, or the null pointer. -/
def malloc : Run Link := do
  let n ← Comp.gets World.mallocs
  let full ← Comp.gets fun w => w.kernel.full n
  Comp.modify fun w => { w with mallocs := n + 1 }
  if full then pure none
  else do
    Comp.modify fun w => { w with heap := Function.update w.heap n (some (w.kernel.fresh n)) }
    pure (some n)

/-- `free`, which ignores the null pointer; a block that is not live must not be freed. -/
def free (p : Link) : Run Unit :=
  match p with
  | none => pure ()
  | some a => do
      match ← Comp.gets fun w => w.heap a with
      | none => Comp.stop .undefined
      | some _ =>
          Comp.modify fun w =>
            { w with heap := Function.update w.heap a none, freed := w.freed ++ [a] }

/-- The structure a pointer points to. -/
def deref (p : Link) : Run TypeInfo :=
  match p with
  | none => Comp.stop .undefined
  | some a => do
      match ← Comp.gets fun w => w.heap a with
      | none => Comp.stop .undefined
      | some info => pure info

/-- Assign to fields of the structure a pointer points to. -/
def assign (p : Link) (f : TypeInfo → TypeInfo) : Run Unit :=
  match p with
  | none => Comp.stop .undefined
  | some a => do
      match ← Comp.gets fun w => w.heap a with
      | none => Comp.stop .undefined
      | some info => Comp.modify fun w => { w with heap := Function.update w.heap a (some (f info)) }

section Heap

variable {w : World} {a : Addr} {info : TypeInfo}

theorem deref_run (h : w.heap a = some info) : (deref (some a)).run w = (.ok info, w) := by
  rw [deref, Comp.gets_bind, h]
  rfl

theorem assign_run (h : w.heap a = some info) (f : TypeInfo → TypeInfo) :
    (assign (some a) f).run w =
      (.ok (), { w with heap := Function.update w.heap a (some (f info)) }) := by
  rw [assign, Comp.gets_bind, h]
  rfl

theorem free_run (h : w.heap a = some info) :
    (free (some a)).run w =
      (.ok (), { w with heap := Function.update w.heap a none, freed := w.freed ++ [a] }) := by
  rw [free, Comp.gets_bind, h]
  rfl

theorem malloc_run (h : w.kernel.full w.mallocs = false) :
    malloc.run w = (.ok (some w.mallocs),
      { w with
        mallocs := w.mallocs + 1
        heap := Function.update w.heap w.mallocs (some (w.kernel.fresh w.mallocs)) }) := by
  rw [malloc, Comp.gets_bind, Comp.gets_bind, Comp.modify_bind, h]
  rfl

end Heap

end Grnvs.Stats
