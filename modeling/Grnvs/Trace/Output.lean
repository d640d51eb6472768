/-
  What trace6 writes over a whole run.

  The invariant ties the state of the machine to its log: the number of probes counted is the number
  written, and the line being printed is the last number printed (`Counted`). With it every probe in
  the log of a run is the one for its line and for the number of probes before it, whatever was read
  in between (`run_probes`).
-/
import Grnvs.Trace.Run

namespace Grnvs.Trace

open Bytes OnesComplement

/-- The datagrams written in a log. -/
def writes (log : List Event) : List (List Byte) :=
  log.filterMap fun
    | .write bs => some bs
    | _ => none

/-- The number of the line that is being printed at the end of a log. -/
def lineOf (log : List Event) : Option Int :=
  (log.filterMap fun
    | .printInt n => some n
    | _ => none).getLast?

@[simp] theorem writes_append (log log' : List Event) :
    writes (log ++ log') = writes log ++ writes log' := List.filterMap_append

theorem writes_quiet {events : List Event} (h : ∀ bs, .write bs ∉ events) : writes events = [] := by
  rw [writes, List.filterMap_eq_nil_iff]
  intro e he
  cases e with
  | write bs => exact absurd he (h bs)
  | _ => rfl

/-- Events without a number stay on the line. -/
theorem lineOf_append {log events : List Event} (h : ∀ n, .printInt n ∉ events) :
    lineOf (log ++ events) = lineOf log := by
  have hnone : events.filterMap (fun
      | .printInt n => some n
      | _ => none) = ([] : List Int) := by
    rw [List.filterMap_eq_nil_iff]
    intro e he
    cases e with
    | printInt n => exact absurd he (h n)
    | _ => rfl
  rw [lineOf, List.filterMap_append, hnone, List.append_nil, lineOf]

theorem lineOf_printInt (log : List Event) (n : Int) : lineOf (log ++ [.printInt n]) = some n := by
  rw [lineOf, List.filterMap_append]
  exact List.getLast?_concat

/-- What the machine has counted. -/
structure Counted (log : List Event) (s : Progress) : Prop where
  count : s.count = (writes log).length
  line : ∀ attempt, s.phase = .sending attempt ∨ s.phase = .waiting attempt →
    lineOf log = some s.hops

section Counted

variable {p : Parameters} {log events : List Event} {s s' : Progress}

/-- A step that writes nothing and begins no line. -/
theorem Counted.quiet (h : Counted log s) (hwrite : ∀ bs, .write bs ∉ events)
    (hprint : ∀ n, .printInt n ∉ events) (hcount : s'.count = s.count) (hhops : s'.hops = s.hops)
    (hphase : ∃ attempt, s.phase = .sending attempt ∨ s.phase = .waiting attempt) :
    Counted (log ++ events) s' := by
  obtain ⟨attempt, hphase⟩ := hphase
  refine ⟨?_, fun _ _ => ?_⟩
  · rw [hcount, writes_append, writes_quiet hwrite, List.append_nil, h.count]
  · rw [lineOf_append hprint, hhops, h.line attempt hphase]

theorem Counted.step (h : Counted log s) (hs : Step p s events s') : Counted (log ++ events) s' := by
  cases hs with
  | @line hops count _ =>
    refine ⟨?_, fun _ _ => lineOf_printInt log hops⟩
    have hnone : writes [.printInt hops] = [] := rfl
    rw [writes_append, hnone, List.append_nil]
    exact h.count
  | @send attempt hops count stop _ =>
    refine ⟨?_, fun _ _ => ?_⟩
    · rw [writes_append, List.length_append, ← h.count]
      rfl
    · rw [lineOf_append (by simp)]
      exact h.line attempt (.inl rfl)
  | ignore => exact h.quiet (by simp) (by simp) rfl rfl ⟨_, .inr rfl⟩
  | timeout => exact h.quiet (by simp) (by simp) rfl rfl ⟨_, .inr rfl⟩
  | accept => exact h.quiet (by simp) (by simp) rfl rfl ⟨_, .inr rfl⟩
  | newline =>
    refine ⟨?_, fun attempt hphase => ?_⟩
    · have hnone : writes [.print "\n"] = [] := rfl
      rw [writes_append, hnone, List.append_nil]
      exact h.count
    · cases hphase with
      | inl hphase => cases hphase
      | inr hphase => cases hphase
  | failedWrite => exact h.quiet (by simp) (by simp) rfl rfl ⟨_, .inr rfl⟩
  | failedRead => exact h.quiet (by simp) (by simp) rfl rfl ⟨_, .inr rfl⟩
  | throws => exact h.quiet (by simp) (by simp) rfl rfl ⟨_, .inr rfl⟩

theorem trace_counted (h : (tool p).Trace log s) : Counted log s := by
  apply h.invariant
  · exact ⟨rfl, fun attempt hphase => by cases hphase with
      | inl hphase => cases hphase
      | inr hphase => cases hphase⟩
  · intro log s events s' hI hs
    exact hI.step hs

end Counted

/-! ## Probes -/

/-- A step writes nothing but the probe of the line and of the count. -/
theorem Step.write {p : Parameters} {s s' : Progress} {events a b : List Event} {bs : List Byte}
    (h : Step p s events s') (he : events = a ++ .write bs :: b) :
    a = [] ∧ bs = probe p.srcIp p.dstIp s.hops (UInt16.ofNat s.count) ∧
      ∃ attempt, s.phase = .sending attempt := by
  have hmem : Event.write bs ∈ events := by
    rw [he]
    exact List.mem_append_right a List.mem_cons_self
  cases h with
  | @send attempt hops count stop _ =>
    cases a with
    | nil => exact ⟨rfl, by cases he; rfl, attempt, rfl⟩
    | cons e a =>
      have hlen := congrArg List.length he
      simp at hlen
  | _ => simp at hmem

/-- Every write in a log of the machine. -/
theorem trace_write {p : Parameters} {log : List Event} {s : Progress}
    (h : (tool p).Trace log s) {a b : List Event} {bs : List Byte}
    (hlog : log = a ++ .write bs :: b) :
    ∃ n, lineOf a = some n ∧ bs = probe p.srcIp p.dstIp n (UInt16.ofNat (writes a).length) := by
  refine h.events (Q := fun a e => ∀ bs, e = .write bs → ∃ n, lineOf a = some n ∧
    bs = probe p.srcIp p.dstIp n (UInt16.ofNat (writes a).length)) ?_ a _ b hlog bs rfl
  intro log s events s' ht hstep a e b hevents bs he
  rw [he] at hevents
  obtain ⟨rfl, hbs, attempt, hphase⟩ := Step.write hstep hevents
  have hcounted := trace_counted ht
  rw [List.append_nil]
  refine ⟨s.hops, hcounted.line attempt (.inl hphase), ?_⟩
  rw [hbs, hcounted.count]

/-- The `j`-th probe of a run, written while line `n` is printed. -/
theorem run_probes (p : Parameters) (hsrc : p.srcIp.length = 16) (hdst : p.dstIp.length = 16)
    (fuel : Nat) (written : List Int) (answers : List Answer) (before behind : List Event)
    (bs : List Byte)
    (hlog : ((run fuel p).run (World.start written answers)).2.log =
      before ++ .write bs :: behind) :
    ∃ n cksum, lineOf before = some n ∧
      bs = [0x60, 0, 0, 0, 0, 8, 58, UInt8.ofNat (n % 256).toNat] ++ p.srcIp ++ p.dstIp ++
        [128, 0] ++ be16 cksum ++ [0xab, 0] ++ be16 ((writes before).length % 65536) ∧
      bs.length = 48 ∧
      cksum = rfc1071 p.srcIp p.dstIp
        ([128, 0, 0, 0, 0xab, 0] ++ be16 ((writes before).length % 65536)) ∧
      sum 65535 (words (pseudoHeader p.srcIp p.dstIp 8 ++ bs.drop 40)) = 0xffff := by
  obtain ⟨s, htrace⟩ := run_broken hsrc hdst fuel written answers
  obtain ⟨n, hline, hbs⟩ := trace_write htrace hlog
  have hsequence : (UInt16.ofNat (writes before).length).toNat = (writes before).length % 65536 :=
    UInt16.toNat_ofNat'
  have hlen := probe_length hsrc hdst n (UInt16.ofNat (writes before).length)
  have hsum := @echoDatagram_sum (zeros 3) p.srcIp p.dstIp
    (be16 (UInt16.ofNat (writes before).length).toNat) (toByte n) 128 rfl hsrc hdst rfl
  refine ⟨n, _, hline, ?_, ?_, rfl, ?_⟩
  · rw [hbs, probe, hsequence, echoDatagram, echo, echoChecksum]
    simp only [List.append_assoc]
    rfl
  · rw [hbs, hlen]
  · rw [hbs]
    rw [summed, ← probe, hlen, probe, echoDatagram_source rfl hsrc,
      echoDatagram_destination rfl hsrc hdst, ← probe] at hsum
    exact hsum

/-- The second probe of a run, behind a datagram that is ignored and a timeout. -/
theorem run_probes_demo :
    ∃ fuel answers before bs behind,
      ((run fuel attemptDemo).run (World.start [48, 48] answers)).2.log =
        before ++ .write bs :: behind ∧
      (writes before).length = 1 ∧ bs.length = 48 ∧
      bs.take 8 = [0x60, 0, 0, 0, 0, 8, 58, 2] ∧ bs.drop 44 = [0xab, 0, 0, 1] ∧
      sum 65535 (words (pseudoHeader attemptDemo.srcIp attemptDemo.dstIp 8 ++ bs.drop 40)) =
        0xffff := by
  obtain ⟨fuel, D, w', hrun, -, -, -, hlog⟩ := run_answered_demo
  let before : List Event := [.printInt 1,
    .write (probe attemptDemo.srcIp attemptDemo.dstIp 1 0), .read 5000 (.bytes timeExDemo),
    .read 800 (.bytes []), .print "  *", .print "\n", .printInt 2]
  have hsplit : ((run fuel attemptDemo).run (World.start [48, 48]
      [⟨.bytes timeExDemo, 800⟩, ⟨.bytes [], 0⟩, ⟨.bytes D, 300⟩])).2.log =
      before ++ .write (probe attemptDemo.srcIp attemptDemo.dstIp 2 1) ::
        [.read 5000 (.bytes D), .print (token D 40), .print "\n"] := by
    rw [hrun]
    exact hlog
  obtain ⟨n, cksum, hline, hbs, hlen, -, hsum⟩ :=
    run_probes attemptDemo rfl rfl fuel [48, 48] _ _ _ _ hsplit
  obtain rfl : 2 = n := Option.some.inj hline
  have hwrites : (writes before).length = 1 := rfl
  rw [hwrites] at hbs
  refine ⟨fuel, _, _, _, _, hsplit, hwrites, hlen, ?_, ?_, hsum⟩
  · rw [hbs]
    rfl
  · rw [hbs]
    rfl

end Grnvs.Trace
