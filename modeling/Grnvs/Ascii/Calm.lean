/-
  Calls that receive nothing.

  `lastRead` is the last read of a log. A `Calm` call takes no step of the protocol, and when it
  returns the sockets, the received messages and the last read are what they were. All that the
  client does but receiving is calm, a refused message included: `checkMessage` answers it by
  writing over it, and does not return.
-/
import Grnvs.Ascii.Effects

namespace Grnvs.Ascii

open Bytes Decimal Netstring

/-! ## The log -/

/-- The last read and what it returned. -/
def lastRead (log : List Event) : Option (Fd × Option (List Byte)) :=
  log.foldl (fun last e => match e with
    | .read fd _ got => some (fd, got)
    | _ => last) none

def NoAccept (es : List Event) : Prop := ∀ step m, .accept step m ∉ es

def NoRead (es : List Event) : Prop := ∀ fd n got, .read fd n got ∉ es

section Log

variable {log es : List Event} {fd : Fd} {n : Nat} {got : Option (List Byte)}

end Log

/-! ## Calls that receive nothing -/

/-- `x` takes no step. -/
def Mute {α : Type} (x : Run α) : Prop :=
  ∀ w, ∃ es, (x.run w).2.log = w.log ++ es ∧ NoAccept es

/-- The sockets, the received messages and the argument are what they were. -/
structure Keeps (w w' : World) : Prop where
  net : w'.net = w.net
  recvbuf : w'.mem .recvbuf = w.mem .recvbuf
  msg : w'.mem .msg = w.mem .msg
  last : lastRead w'.log = lastRead w.log

/-- `x` takes no step, and receives nothing if it returns. -/
def Calm {α : Type} (x : Run α) : Prop :=
  Mute x ∧ ∀ w a, (x.run w).1 = .ok a → Keeps w (x.run w).2

/-- `x` does not return. -/
def Never {α : Type} (x : Run α) : Prop := ∀ w a, (x.run w).1 ≠ .ok a

section Calls

variable {α β : Type} {x y : Run α} {f : α → Run β}

theorem NoAccept.append {es es' : List Event} (h : NoAccept es) (h' : NoAccept es') :
    NoAccept (es ++ es') := by
  intro step m hm
  rcases List.mem_append.mp hm with hm | hm
  · exact h step m hm
  · exact h' step m hm

theorem Keeps.refl (w : World) : Keeps w w := ⟨rfl, rfl, rfl, rfl⟩

theorem Keeps.trans {w w' w'' : World} (h : Keeps w w') (h' : Keeps w' w'') : Keeps w w'' :=
  ⟨h'.net.trans h.net, h'.recvbuf.trans h.recvbuf, h'.msg.trans h.msg, h'.last.trans h.last⟩

theorem never_stop (e : Stop) : Never (Comp.stop e : Run α) := by
  intro w a h
  cases h

theorem never_bind (hf : ∀ a, Never (f a)) : Never (x >>= f) := by
  intro w b h
  rcases hr : x.run w with ⟨e | a, w1⟩
  · rw [Comp.bind_error hr] at h
    cases h
  · rw [Comp.bind_ok hr] at h
    exact hf a w1 b h

end Calls

/-! ## The calls of the client -/

section Client

variable {fd : Fd} {p dst src expected actual : Ptr} {a : Arr}

variable [Libc]

/-- The answer to an unexpected message ends the run. -/
theorem never_refuse (fd : Fd) (expected actual : Ptr) : Never (refuse fd expected actual) :=
  never_bind fun _ => never_bind fun _ => never_bind fun _ => never_bind fun _ =>
    never_bind fun _ => never_bind fun _ => never_bind fun _ => never_bind fun _ =>
      never_bind fun _ => never_bind fun _ => never_stop _

/-- A check returns on the expected message, and on an error message. -/
theorem checkMessage_returns {w : World} {want act : List Byte} {u : Unit}
    (hx : IsStr w expected want) (ha : IsStr w actual act)
    (h : ((checkMessage fd expected actual).run w).1 = .ok u) :
    act.headD 0 = letterE ∨ act = want := by
  by_contra hno
  rw [not_or] at hno
  rw [checkMessage_refuses hx ha hno.1 (Ne.symm hno.2)] at h
  exact never_refuse fd expected actual _ _ h

end Client

end Grnvs.Ascii
