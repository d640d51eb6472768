/-
  The machine asciiclient runs on: its arrays, its sockets, and the libc calls it makes.

  Arrays are byte lists of fixed size. A pointer is an array and an offset; reading or writing
  outside the array, reading a string that has no NUL in its array, and writing into a literal
  stop the run with `undefined`. C leaves a `strcpy` or `strncpy` between overlapping places
  undefined, and the client makes such copies: what they do is the library's (`Libc`), and results
  that rest on a library that copies forward say so (`Libc.CopiesForward`).

  What a `read` returns is given (`Peer`): a socket hands out what its peer sent one chunk at a time,
  and a chunk longer than the count asked for is cut and its rest stays for the next read. A `read`
  that does not return is not among the answers, so nothing here is said of a session that waits for
  a silent peer on `sdC`, the one socket without a receive timeout.

  The log keeps the reads, writes and prints of a run in order. `check` and `accept` entries are
  notes for the proofs: no branch of the client looks at the log.
-/
import Grnvs.Lib.Comp
import Grnvs.Lib.Netstring
import Mathlib.Logic.Function.Basic

namespace Grnvs.Ascii

open Bytes

/-- The arrays of the client: locals of `assignment4`, `recvMessage`, `readNet` and
    `checkMessage`, and the two argument strings. -/
inductive Arr where
  | recvbuf | sendbuf | token | text
  | buf
  | scratch
  | errmsg
  | nick | msg
deriving DecidableEq, Repr

/-- What a pointer can point into: an array, or a string literal (which is read-only). -/
inductive Blk where
  | lit (s : List Byte)
  | arr (a : Arr)
deriving DecidableEq, Repr

structure Ptr where
  blk : Blk
  off : Nat
deriving DecidableEq, Repr

instance : HAdd Ptr Nat Ptr := ⟨fun p n => ⟨p.blk, p.off + n⟩⟩

@[simp] theorem Ptr.add_blk (p : Ptr) (n : Nat) : (p + n).blk = p.blk := rfl

@[simp] theorem Ptr.add_off (p : Ptr) (n : Nat) : (p + n).off = p.off + n := rfl

/-- The start of an array. -/
def Arr.ptr (a : Arr) : Ptr := ⟨.arr a, 0⟩

@[simp] theorem Arr.ptr_blk (a : Arr) : a.ptr.blk = .arr a := rfl

@[simp] theorem Arr.ptr_off (a : Arr) : a.ptr.off = 0 := rfl

theorem Arr.ptr_add (a : Arr) (n : Nat) : a.ptr + n = ⟨.arr a, n⟩ := by
  change (⟨.arr a, 0 + n⟩ : Ptr) = _
  rw [Nat.zero_add]

/-- A string literal of the source. -/
def litPtr (s : String) : Ptr := ⟨.lit (lit s), 0⟩

/-- The sockets `sdC`, `sdL` and `sdD`. -/
inductive Fd where
  | control | listening | data
deriving DecidableEq, Repr

/-- How `read` answers when all a peer sent has been read: end of stream, or -1 as after the receive
    timeout of `sdL` and `sdD`. -/
inductive Ending where
  | eof | timeout
deriving DecidableEq, Repr

/-- What the reads of a socket will return, whatever their counts: `none` is a failing read,
    `some bs` a chunk. -/
structure Peer where
  pending : List (Option (List Byte))
  ending : Ending
deriving Repr

/-- One `read(fd, buf, count)`: the result (`none` for -1) and what is left. -/
def Peer.read (p : Peer) (count : Nat) : Option (List Byte) × Peer :=
  match p.pending with
  | [] => (match p.ending with | .eof => some [] | .timeout => none, p)
  | none :: rest => (none, { p with pending := rest })
  | some bs :: rest =>
      if bs.length ≤ count then (some bs, { p with pending := rest })
      else (some (bs.take count), { p with pending := some (bs.drop count) :: rest })

/-- A chunk that the count has room for comes whole. -/
theorem Peer.read_whole {bs : List Byte} {rest : List (Option (List Byte))} {e : Ending}
    {count : Nat} (h : bs.length ≤ count) :
    Peer.read ⟨some bs :: rest, e⟩ count = (some bs, ⟨rest, e⟩) := by
  simp [Peer.read, h]

/-- A longer chunk is cut, and its rest stays. -/
theorem Peer.read_cut {bs : List Byte} {rest : List (Option (List Byte))} {e : Ending}
    {count : Nat} (h : count < bs.length) :
    Peer.read ⟨some bs :: rest, e⟩ count =
      (some (bs.take count), ⟨some (bs.drop count) :: rest, e⟩) := by
  simp [Peer.read, Nat.not_le.mpr h]

/-- The seven places where the protocol takes a message of the server. -/
inductive Step where
  | controlVersion | controlToken
  | dataVersion | dataToken | dataDtoken
  | controlLength | controlAck
deriving DecidableEq, Repr

/-- The socket the protocol has a step's message on. -/
def Step.fd : Step → Fd
  | .controlVersion | .controlToken | .controlLength | .controlAck => .control
  | .dataVersion | .dataToken | .dataDtoken => .data

inductive Event where
  | read (fd : Fd) (count : Nat) (got : Option (List Byte))
  | write (fd : Fd) (bytes : List Byte)
  | print (bytes : List Byte)
  | close (fd : Fd)
  | check (fd : Fd) (expected actual : List Byte)
  | accept (step : Step) (message : List Byte)
deriving DecidableEq, Repr

/-- Why a run stops: the process exits, it does something C leaves undefined, or the loops ran
    longer than the fuel of the model. -/
inductive Stop where
  | exit (code : Int)
  | undefined
  | fuel
deriving DecidableEq, Repr

/-- The two orders in which a compiler may evaluate the unsequenced operands of the length test in
    `writeNet`: `countDigits(len)` before or after the assignment to `len`. -/
inductive EvalOrder where
  | before | after
deriving DecidableEq, Repr

structure World where
  mem : Arr → List Byte
  net : Fd → Peer
  log : List Event
  order : EvalOrder

/-- What the C library does where C leaves a copy undefined: the array behind a copy of `n` bytes
    inside it, from an offset `src` to a `dst` that overlaps it, or `none` for nothing definite. -/
class Libc where
  overlapping (l : List Byte) (dst src n : Nat) : Option (List Byte)
  length_overlapping {l l' : List Byte} {dst src n : Nat} :
    overlapping l dst src n = some l' → l'.length = l.length

/-- The library copies byte after byte, from the first on, where the destination lies below the
    source. -/
class Libc.CopiesForward [Libc] : Prop where
  forward {l : List Byte} {dst src n : Nat} : dst ≤ src → src + n ≤ l.length →
    Libc.overlapping l dst src n = some (copyForward l dst src n)

/-- The library with a loop over the bytes. -/
@[reducible] def Libc.bytewise : Libc where
  overlapping l dst src n := some (copyForward l dst src n)
  length_overlapping h := (Option.some.inj h) ▸ copyForward_length ..

instance Libc.bytewise_copiesForward : @Libc.CopiesForward Libc.bytewise :=
  @Libc.CopiesForward.mk Libc.bytewise fun _ _ => rfl

abbrev Run := Comp Stop World

namespace World

/-- The bytes of a block. -/
def block (w : World) : Blk → List Byte
  | .lit s => s ++ [0]
  | .arr a => w.mem a

def setArr (w : World) (a : Arr) (l : List Byte) : World :=
  { w with mem := Function.update w.mem a l }

def note (w : World) (e : Event) : World := { w with log := w.log ++ [e] }

def setNet (w : World) (fd : Fd) (p : Peer) : World :=
  { w with net := Function.update w.net fd p }

variable (w : World) (a b : Arr) (l : List Byte) (e : Event) (fd : Fd) (p : Peer)

@[simp] theorem block_lit (s : List Byte) : w.block (.lit s) = s ++ [0] := rfl

@[simp] theorem block_arr : w.block (.arr a) = w.mem a := rfl

@[simp] theorem setArr_mem : (w.setArr a l).mem a = l := Function.update_self ..

theorem setArr_mem_of_ne {a b : Arr} (h : b ≠ a) : (w.setArr a l).mem b = w.mem b :=
  Function.update_of_ne h ..

@[simp] theorem setArr_net : (w.setArr a l).net = w.net := rfl

@[simp] theorem setArr_log : (w.setArr a l).log = w.log := rfl

@[simp] theorem setArr_order : (w.setArr a l).order = w.order := rfl

@[simp] theorem note_mem : (w.note e).mem = w.mem := rfl

@[simp] theorem note_net : (w.note e).net = w.net := rfl

@[simp] theorem note_log : (w.note e).log = w.log ++ [e] := rfl

@[simp] theorem note_order : (w.note e).order = w.order := rfl

@[simp] theorem setNet_mem : (w.setNet fd p).mem = w.mem := rfl

@[simp] theorem setNet_log : (w.setNet fd p).log = w.log := rfl

@[simp] theorem setNet_net : (w.setNet fd p).net fd = p := Function.update_self ..

@[simp] theorem setNet_order : (w.setNet fd p).order = w.order := rfl

end World

/-! ## libc -/

def undefined {α : Type} : Run α := Comp.stop .undefined

def exit {α : Type} (code : Int) : Run α := Comp.stop (.exit code)

def note (e : Event) : Run Unit := Comp.modify fun w => w.note e

/-- `char a[n] = {0};` -/
def declare (a : Arr) (n : Nat) : Run Unit := Comp.modify fun w => w.setArr a (zeros n)

/-- The string at `p`. -/
def strAt (p : Ptr) : Run (List Byte) where
  run w :=
    match cstr ((w.block p.blk).drop p.off) with
    | some s => (.ok s, w)
    | none => (.error .undefined, w)

/-- `*p` -/
def charAt (p : Ptr) : Run Byte where
  run w :=
    match (w.block p.blk).drop p.off with
    | [] => (.error .undefined, w)
    | b :: _ => (.ok b, w)

/-- Write `bs` at `p`. -/
def store (p : Ptr) (bs : List Byte) : Run Unit where
  run w :=
    match p.blk with
    | .lit _ => (.error .undefined, w)
    | .arr a =>
        if p.off + bs.length ≤ (w.mem a).length then
          (.ok (), w.setArr a (splice (w.mem a) p.off bs))
        else (.error .undefined, w)

def strlen (p : Ptr) : Run Nat := do
  let s ← strAt p
  pure s.length

/-- `strchr(p, c) - p`, or `none` for a null pointer. -/
def strchr (p : Ptr) (c : Byte) : Run (Option Nat) := do
  let s ← strAt p
  pure (find c s)

/-- `memset(p, 0, n)` -/
def memset (p : Ptr) (n : Nat) : Run Unit := store p (zeros n)

/-- The places of a copy share a byte: `dst`, where `written` bytes go, and `src`, where `read`
    bytes stand. -/
def Overlap (dst src : Ptr) (written read : Nat) : Prop :=
  dst.blk = src.blk ∧ dst.off < src.off + read ∧ src.off < dst.off + written

instance (dst src : Ptr) (written read : Nat) : Decidable (Overlap dst src written read) :=
  inferInstanceAs (Decidable (_ ∧ _))

section Copy

variable [Libc]

/-- The array `l` of `dst` behind a copy of the bytes `bs` at `src`, of a call that writes `written`
    bytes in all. -/
def copied (l : List Byte) (dst src : Ptr) (bs : List Byte) (written : Nat) :
    Option (List Byte) :=
  if Overlap dst src written bs.length then Libc.overlapping l dst.off src.off bs.length
  else some (splice l dst.off bs)

/-- Copy the bytes `bs`, which stand at `src`, to `dst`. -/
def copy (dst src : Ptr) (bs : List Byte) (written : Nat) : Run Unit where
  run w :=
    match dst.blk with
    | .lit _ => (.error .undefined, w)
    | .arr a =>
        if dst.off + bs.length ≤ (w.mem a).length then
          match copied (w.mem a) dst src bs written with
          | some l => (.ok (), w.setArr a l)
          | none => (.error .undefined, w)
        else (.error .undefined, w)

def strcpy (dst src : Ptr) : Run Unit := do
  let s ← strAt src
  copy dst src (s ++ [0]) (s.length + 1)

def strcat (dst src : Ptr) : Run Unit := do
  let d ← strlen dst
  strcpy (dst + d) src

/-- `strncpy` writes exactly `n` bytes: the string with its NUL, cut at `n`, then zeros. -/
def strncpy (dst src : Ptr) (n : Nat) : Run Unit := do
  let room ← Comp.gets fun w => (w.block dst.blk).length
  if dst.off + n ≤ room then do
    let s ← strAt src
    let bs := (s ++ [0]).take n
    copy dst src bs n
    store (dst + bs.length) (zeros (n - bs.length))
  else undefined

variable {l l' bs r : List Byte} {dst src : Ptr} {written : Nat}

theorem copied_length (h : copied l dst src bs written = some l')
    (hfit : dst.off + bs.length ≤ l.length) : l'.length = l.length := by
  unfold copied at h
  by_cases ho : Overlap dst src written bs.length
  · rw [if_pos ho] at h
    exact Libc.length_overlapping h
  · rw [if_neg ho] at h
    rw [← Option.some.inj h, splice_length hfit]

/-- Between two blocks nothing overlaps. -/
theorem copied_apart (h : src.blk ≠ dst.blk) :
    copied l dst src bs written = some (splice l dst.off bs) :=
  if_neg fun ho => h ho.1.symm

/-- A copy between two blocks is a store. -/
theorem copy_apart (h : src.blk ≠ dst.blk) (w : World) :
    (copy dst src bs written).run w = (store dst bs).run w := by
  simp only [copy, store, copied_apart h]

/-- Behind a copy to a place that is not behind the source stand its bytes. -/
theorem copied_forward [Libc.CopiesForward] (hle : dst.off ≤ src.off)
    (hsrc : l.drop src.off = bs ++ r) (hoff : src.off ≤ l.length) :
    copied l dst src bs written = some (splice l dst.off bs) := by
  have hlen : src.off + bs.length ≤ l.length := by
    have := congrArg List.length hsrc
    rw [List.length_drop, List.length_append] at this
    omega
  unfold copied
  by_cases ho : Overlap dst src written bs.length
  · rw [if_pos ho, Libc.CopiesForward.forward hle hlen, copyForward_eq hle hlen, hsrc,
      List.take_left]
  · rw [if_neg ho]

end Copy

/-- `read(fd, p, count)`: the number of bytes, or -1. -/
def readFd (fd : Fd) (p : Ptr) (count : Nat) : Run Int := do
  let (got, rest) ← Comp.gets fun w => (w.net fd).read count
  Comp.modify fun w => (w.setNet fd rest).note (.read fd count got)
  match got with
  | none => pure (-1)
  | some bs => do
      store p bs
      pure bs.length

/-- `write(fd, p, count)`; the client never looks at its result. -/
def writeFd (fd : Fd) (p : Ptr) (count : Nat) : Run Unit := do
  let bytes ← Comp.gets fun w => (w.block p.blk).drop p.off
  if count ≤ bytes.length then note (.write fd (bytes.take count))
  else undefined

end Grnvs.Ascii
