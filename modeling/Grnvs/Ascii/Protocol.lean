/-
  The session as it is meant, without buffers.

  A `Script` is what both sides bring along: the user's strings, the port, and the server's seven
  messages. `play` runs through the steps: the frames the client sends, and whether it comes to
  the end. A message that is not accepted ends the play with one error frame (`play_refused`);
  with every message accepted the frames are exactly `frames` (`play_accepted`).
-/
import Grnvs.Ascii.Send

namespace Grnvs.Ascii

open Bytes Decimal

/-- The steps in the order of the protocol. -/
def Step.all : List Step :=
  [.controlVersion, .controlToken, .dataVersion, .dataToken, .dataDtoken, .controlLength,
    .controlAck]

/-- The place of a step in the protocol. -/
def Step.number : Step → Nat
  | .controlVersion => 0
  | .controlToken => 1
  | .dataVersion => 2
  | .dataToken => 3
  | .dataDtoken => 4
  | .controlLength => 5
  | .controlAck => 6

/-- How many frames the client has sent when it checks the message of a step. -/
def Step.sent : Step → Nat
  | .controlVersion => 1
  | .controlToken => 2
  | .dataVersion => 3
  | .dataToken => 4
  | .dataDtoken => 5
  | .controlLength => 5
  | .controlAck => 6

structure Script where
  nick : List Byte
  msg : List Byte
  port : UInt16
  said : Step → List Byte

namespace Script

variable (S : Script)

/-- The server's tokens: its messages without their first two bytes. -/
def token : List Byte := (S.said .controlToken).drop 2

def dtoken : List Byte := (S.said .dataDtoken).drop 2

/-- What the client expects; of a token message only the first two bytes count. -/
def expected : Step → List Byte
  | .controlVersion => lit "S GRNVS V:1.0"
  | .controlToken => lit "S <token>"
  | .dataVersion => lit "T GRNVS V:1.0"
  | .dataToken => lit "T " ++ S.token
  | .dataDtoken => lit "T <dtoken>"
  | .controlLength => lit "S " ++ dec S.msg.length
  | .controlAck => lit "S ACK"

def Accepts : Step → Prop
  | .controlToken => (S.said .controlToken).take 2 = lit "S "
  | .dataDtoken => (S.said .dataDtoken).take 2 = lit "T "
  | s => S.said s = S.expected s

instance (s : Step) : Decidable (S.Accepts s) := by
  cases s <;> exact inferInstanceAs (Decidable (_ = _))

/-- The frames of a session that comes to its end. -/
def frames : List (Fd × List Byte) :=
  [(.control, lit "C GRNVS V:1.0"), (.control, lit "C " ++ S.nick),
    (.control, lit "C " ++ dec S.port.toNat), (.data, lit "D " ++ S.nick),
    (.data, lit "D " ++ S.msg), (.control, lit "C " ++ S.dtoken)]

/-- The frames between the check before a step and the check of the step. -/
def before : Step → List (Fd × List Byte)
  | .controlVersion => [(.control, lit "C GRNVS V:1.0")]
  | .controlToken => [(.control, lit "C " ++ S.nick)]
  | .dataVersion => [(.control, lit "C " ++ dec S.port.toNat)]
  | .dataToken => [(.data, lit "D " ++ S.nick)]
  | .dataDtoken => [(.data, lit "D " ++ S.msg)]
  | .controlLength => []
  | .controlAck => [(.control, lit "C " ++ S.dtoken)]

/-- The client's answer to a message it does not accept. -/
def refusal (s : Step) : Fd × List Byte := (s.fd, expectedText (S.expected s) (S.said s))

/-- The frames from here on, and whether the end is reached. -/
def play : List Step → List (Fd × List Byte) × Bool
  | [] => ([], true)
  | s :: todo =>
      if S.Accepts s then (S.before s ++ (play todo).1, (play todo).2)
      else (S.before s ++ [S.refusal s], false)

variable {S}

theorem play_accept {s : Step} (h : S.Accepts s) (todo : List Step) :
    S.play (s :: todo) = (S.before s ++ (S.play todo).1, (S.play todo).2) := if_pos h

theorem play_refuse {s : Step} (h : ¬ S.Accepts s) (todo : List Step) :
    S.play (s :: todo) = (S.before s ++ [S.refusal s], false) := if_neg h

theorem play_accepts (pre : List Step) (h : ∀ s ∈ pre, S.Accepts s) (todo : List Step) :
    S.play (pre ++ todo) = (pre.flatMap S.before ++ (S.play todo).1, (S.play todo).2) := by
  induction pre with
  | nil => rfl
  | cons s pre ih =>
      rw [List.cons_append, play_accept (h s (List.mem_cons_self ..)),
        ih fun x hx => h x (List.mem_cons_of_mem _ hx), List.flatMap_cons, List.append_assoc]

/-- Every message accepted: all frames, and the end. -/
theorem play_accepted (h : ∀ s, S.Accepts s) : S.play Step.all = (S.frames, true) := by
  have := play_accepts Step.all (fun s _ => h s) []
  rw [List.append_nil] at this
  rw [this]
  rfl

/-- The first message that is not accepted: the frames so far, one error frame, no end. -/
theorem play_refused {s : Step} (h : ∀ s', s'.number < s.number → S.Accepts s')
    (hs : ¬ S.Accepts s) : S.play Step.all = (S.frames.take s.sent ++ [S.refusal s], false) := by
  have hsplit : Step.all = Step.all.take s.number ++ s :: Step.all.drop (s.number + 1) := by
    cases s <;> rfl
  have hpre : ∀ s' ∈ Step.all.take s.number, s'.number < s.number := by
    cases s <;> decide
  have hsent : (Step.all.take s.number).flatMap S.before ++ S.before s = S.frames.take s.sent := by
    cases s <;> rfl
  rw [hsplit, play_accepts _ (fun s' hs' => h s' (hpre s' hs')), play_refuse hs,
    ← List.append_assoc, hsent]

end Script

end Grnvs.Ascii
