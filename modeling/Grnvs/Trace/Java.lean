/-
  The Java machine trace6 runs on: arrays, exceptions, the static fields of `Assignment3`, and the
  calls of the socket.

  An array is the list of its bytes. An access or a copy outside an array throws, as in Java; code
  that touches nothing but arrays is an `Except`, code that prints, reads or writes a `Run`.

  What the calls of the socket return is part of the state: one `Int` for every `write` and one
  `Answer` for every `read`. A call for which no result is left has not returned (`waiting`). The
  log keeps what was printed, written and read in order.
-/
import Grnvs.Lib.InetAddress
import Grnvs.Trace.Checksum

namespace Grnvs.Trace

open Bytes OnesComplement

/-- Why a run ends before its last line: an uncaught exception, `System.exit`, undefined behaviour
    of native code, a call that has not returned, or a loop that was given too few turns. -/
inductive Stop where
  | arrayIndex (index : Int)
  | arrayCopy
  | illegalArgument (message : String)
  | unknownHost
  | bufferOverflow
  | native (fault : Option Fault)
  | exit (code : Int)
  | waiting
  | fuel
deriving DecidableEq, Repr

/-- What `grnvs_read` returns: a negative number, or the bytes it has put into the buffer (none for
    a timeout). -/
inductive Reading where
  | failed (n : Nat)
  | bytes (bs : List Byte)
deriving DecidableEq, Repr

/-- A `read` that has returned, with the milliseconds it leaves in its timeout. -/
structure Answer where
  reading : Reading
  timeout : Int
deriving DecidableEq, Repr

inductive Event where
  | printInt (n : Int)
  | print (text : String)
  | printErr (text : String)
  | hexdump (bytes : List Byte)
  | write (bytes : List Byte)
  | read (timeout : Int) (reading : Reading)
deriving DecidableEq, Repr

structure World where
  stopProbes : Bool
  myIP : List Byte
  sequenceNumber : UInt16
  timeout : Int
  written : List Int
  answers : List Answer
  log : List Event
deriving DecidableEq, Repr

abbrev Run := Comp Stop World

def World.note (w : World) (e : Event) : World := { w with log := w.log ++ [e] }

@[simp] theorem World.note_log (w : World) (e : Event) : (w.note e).log = w.log ++ [e] := rfl

@[simp] theorem World.note_stopProbes (w : World) (e : Event) :
    (w.note e).stopProbes = w.stopProbes := rfl

@[simp] theorem World.note_myIP (w : World) (e : Event) : (w.note e).myIP = w.myIP := rfl

/-- `System.out.print` and the other outputs. -/
def emit (e : Event) : Run Unit := Comp.modify (·.note e)

@[simp] theorem emit_run (e : Event) (w : World) : (emit e).run w = (.ok (), w.note e) := rfl

/-! ## Integers -/

/-- A Java `int`. -/
def int32 (n : Int) : Int := n.bmod (2 ^ 32)

theorem int32_of_range {n : Int} (h1 : -2 ^ 31 ≤ n) (h2 : n < 2 ^ 31) : int32 n = n := by
  unfold int32
  rw [Int.bmod_def]
  omega

/-- `(int) b` for a Java `byte`, which has a sign. -/
def signed (b : Byte) : Int := if b.toNat < 128 then b.toNat else (b.toNat : Int) - 256

/-- `(byte) n`. -/
def toByte (n : Int) : Byte := UInt8.ofNat (n % 256).toNat

/-! ## Arrays -/

def arrayGet (a : List Byte) (index : Int) : Except Stop Byte :=
  if 0 ≤ index then
    match a[index.toNat]? with
    | some b => .ok b
    | none => .error (.arrayIndex index)
  else .error (.arrayIndex index)

def arraySet (a : List Byte) (index : Int) (b : Byte) : Except Stop (List Byte) :=
  if 0 ≤ index ∧ index < a.length then .ok (a.set index.toNat b) else .error (.arrayIndex index)

/-- `System.arraycopy`: `dst` with the copied bytes in it. -/
def arraycopy (src : List Byte) (srcPos : Int) (dst : List Byte) (dstPos length : Int) :
    Except Stop (List Byte) :=
  if 0 ≤ srcPos ∧ 0 ≤ dstPos ∧ 0 ≤ length ∧ srcPos + length ≤ src.length ∧
      dstPos + length ≤ dst.length then
    .ok (splice dst dstPos.toNat ((src.drop srcPos.toNat).take length.toNat))
  else .error .arrayCopy

theorem ok_bind {α β : Type} (a : α) (f : α → Except Stop β) : (Except.ok a >>= f) = f a := rfl

theorem error_bind {α β : Type} (e : Stop) (f : α → Except Stop β) :
    ((Except.error e : Except Stop α) >>= f) = .error e := rfl

/-- An access is in bounds, or it throws. -/
theorem arrayGet_cases (a : List Byte) (index : Int) :
    (∃ (n : Nat) (h : n < a.length), index = n ∧ arrayGet a index = .ok a[n]) ∨
      (index < 0 ∨ a.length ≤ index) ∧ arrayGet a index = .error (.arrayIndex index) := by
  unfold arrayGet
  split
  · rename_i h0
    rcases Nat.lt_or_ge index.toNat a.length with h | h
    · rw [List.getElem?_eq_getElem h]
      exact .inl ⟨index.toNat, h, (Int.toNat_of_nonneg h0).symm, rfl⟩
    · rw [List.getElem?_eq_none h]
      exact .inr ⟨.inr (by omega), rfl⟩
  · exact .inr ⟨.inl (by omega), rfl⟩

theorem arraySet_ok {a : List Byte} {n : Nat} (h : n < a.length) (b : Byte) :
    arraySet a (n : Int) b = .ok (a.set n b) := by
  rw [arraySet, if_pos (by omega), Int.toNat_natCast]

/-- A copy in bounds. -/
theorem arraycopy_ok {src dst : List Byte} {s d n : Nat} (hs : s + n ≤ src.length)
    (hd : d + n ≤ dst.length) :
    arraycopy src (s : Int) dst (d : Int) (n : Int) =
      .ok (splice dst d ((src.drop s).take n)) := by
  rw [arraycopy, if_pos (by omega), Int.toNat_natCast, Int.toNat_natCast, Int.toNat_natCast]

/-- A copy that fills a new array. -/
theorem arraycopy_new {src : List Byte} {s n : Nat} (hs : s + n ≤ src.length) :
    arraycopy src (s : Int) (zeros n) 0 (n : Int) = .ok ((src.drop s).take n) := by
  have hlen : ((src.drop s).take n).length = n := by
    rw [List.length_take, List.length_drop]
    omega
  have hd : 0 + n ≤ (zeros n).length := by rw [zeros_length]; omega
  have h := arraycopy_ok hs hd
  rw [splice_zero, hlen, drop_zeros, Nat.sub_self, zeros_zero, List.append_nil] at h
  exact h

/-- A copy of a whole array over a piece of the same length. -/
theorem arraycopy_replace {a old new c : List Byte} {k n : Nat} (ha : a.length = k)
    (hn : new.length = n) (ho : old.length = n) :
    arraycopy new 0 (a ++ old ++ c) (k : Int) (n : Int) = .ok (a ++ new ++ c) := by
  have h : arraycopy new (0 : Nat) (a ++ old ++ c) (k : Int) (n : Int) =
      .ok (splice (a ++ old ++ c) k ((new.drop 0).take n)) := by
    apply arraycopy_ok
    · omega
    · simp only [List.length_append]
      omega
  rw [List.drop_zero, List.take_of_length_le (by omega), ← ha,
    splice_replace (hn.trans ho.symm), ha] at h
  exact h

/-! ## Library classes -/

/-- `InetAddress.getByAddress(..).getHostAddress()`. -/
def hostAddress (addr : List Byte) : Except Stop String :=
  match InetAddress.getByAddress addr with
  | some a => .ok a.getHostAddress
  | none => .error .unknownHost

/-- The text of an address of 16 bytes. -/
def hostText (addr : List Byte) : String :=
  match InetAddress.getByAddress addr with
  | some a => a.getHostAddress
  | none => ""

theorem hostAddress_ok {addr : List Byte} (h : addr.length = 16) :
    hostAddress addr = .ok (hostText addr) := by
  have hsome : ∃ a, InetAddress.getByAddress addr = some a := by
    rw [InetAddress.getByAddress, if_pos h]
    split
    · exact ⟨_, rfl⟩
    · exact ⟨_, rfl⟩
  obtain ⟨a, ha⟩ := hsome
  rw [hostAddress, hostText, ha]

theorem hostText_inj {a b : List Byte} (ha : a.length = 16) (hb : b.length = 16)
    (h : hostText a = hostText b) : a = b := by
  have hsome : ∀ c : List Byte, c.length = 16 → ∃ x, InetAddress.getByAddress c = some x := by
    intro c hc
    rw [InetAddress.getByAddress, if_pos hc]
    split
    · exact ⟨_, rfl⟩
    · exact ⟨_, rfl⟩
  obtain ⟨x, hx⟩ := hsome a ha
  obtain ⟨y, hy⟩ := hsome b hb
  rw [hostText, hostText, hx, hy] at h
  exact InetAddress.getHostAddress_inj ha hb hx hy h

/-- Nothing but digits and separators stands in the text of an address. -/
theorem not_mem_hostText {d : Char} (hd : ∀ n < 16, d ≠ Nat.digitChar n) (h1 : d ≠ '.')
    (h2 : d ≠ ':') (addr : List Byte) : d ∉ (hostText addr).toList := by
  unfold hostText
  cases InetAddress.getByAddress addr with
  | none => exact List.not_mem_nil
  | some a => exact InetAddress.not_mem_getHostAddress hd h1 h2 a

/-- A big-endian `java.nio.ByteBuffer` whose limit is its capacity. -/
structure ByteBuffer where
  array : List Byte
  position : Nat
deriving DecidableEq, Repr

def ByteBuffer.allocate (capacity : Nat) : ByteBuffer := ⟨zeros capacity, 0⟩

def ByteBuffer.putChar (bb : ByteBuffer) (c : UInt16) : Except Stop ByteBuffer :=
  if bb.position + 2 ≤ bb.array.length then
    .ok ⟨splice bb.array bb.position (be16 c.toNat), bb.position + 2⟩
  else .error .bufferOverflow

def ByteBuffer.clear (bb : ByteBuffer) : ByteBuffer := { bb with position := 0 }

end Grnvs.Trace
