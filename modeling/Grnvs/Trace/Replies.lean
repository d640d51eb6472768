/-
  Which replies end an attempt.

  `checkMessage` takes every echo reply with the identifier of trace6 and a right checksum. It looks
  neither at the source address nor at the sequence number nor at the Payload Length, so a reply is
  the answer to the probe of its attempt exactly when it is not `Unrelated` to it.
-/
import Grnvs.Trace.Lines

namespace Grnvs.Trace

open Bytes OnesComplement

/-- An echo reply that passes all tests of `checkMessage`, read behind the log `before`, but from
    another host than the destination, with another sequence number than the last probe, or with a
    Payload Length that is not the number of bytes behind the fixed header. -/
def Unrelated (p : Parameters) (before : List Event) (D : List Byte) : Prop :=
  ∃ pos, Passes p.srcIp D pos ∧
    (source D ≠ p.dstIp ∨
      (D.drop (pos + 6)).take 2 ≠ be16 (((writes before).length - 1) % 65536) ∨
      wordAt D 4 ≠ D.length - 40)

/-- No datagram that has been read is unrelated to the probe before it. -/
def Related (p : Parameters) (log : List Event) : Prop :=
  ∀ before time D behind, log = before ++ .read time (.bytes D) :: behind →
    ¬ Unrelated p before D

/-- A datagram that is the answer to the last probe written before it. -/
structure Answers (p : Parameters) (before : List Event) (D : List Byte) : Prop where
  source : source D = p.dstIp
  message : ∃ pos P, MessageAt D pos ∧ (writes before).getLast? = some P ∧
    (D.drop (pos + 4)).take 4 = P.drop 44
  length : wordAt D 4 = D.length - 40

/-- Every datagram that ends an attempt answers the probe of that attempt. -/
def OwnReplies (p : Parameters) (log : List Event) : Prop :=
  ∀ before time D text behind, log = before ++ .read time (.bytes D) :: .print text :: behind →
    D ≠ [] → Answers p before D

section Replies

variable {p : Parameters} {log events : List Event} {s s' : Progress}

/-- While an attempt waits, the last write is its probe. -/
theorem trace_waiting (h : (tool p).Trace log s) : ∀ attempt, s.phase = .waiting attempt →
    0 < s.count ∧ (writes log).getLast? =
      some (probe p.srcIp p.dstIp s.hops (UInt16.ofNat (s.count - 1))) := by
  apply h.invariant (I := fun log s => ∀ attempt, s.phase = .waiting attempt →
    0 < s.count ∧ (writes log).getLast? =
      some (probe p.srcIp p.dstIp s.hops (UInt16.ofNat (s.count - 1))))
  · intro attempt hphase
    cases hphase
  · intro log s events s' hI hs attempt hphase
    cases hs with
    | @send attempt hops count stop _ =>
      rw [writes_append]
      exact ⟨Nat.succ_pos count, List.getLast?_concat⟩
    | @ignore _ _ _ _ D time _ _ =>
      have hnone : writes [.read time (.bytes D)] = [] := rfl
      rw [writes_append, hnone, List.append_nil]
      exact hI attempt hphase
    | _ => cases hphase

/-- Between two attempts a read is not the last thing that has happened. -/
theorem trace_sending (h : (tool p).Trace log s) {attempt : Int}
    (hphase : s.phase = .sending attempt) (before : List Event) (time : Int) (reading : Reading) :
    log ≠ before ++ [.read time reading] := by
  cases h with
  | start => cases hphase
  | step _ hs =>
    intro hlog
    have hlast := congrArg List.getLast? hlog
    rw [List.getLast?_concat, List.getLast?_append] at hlast
    cases hs with
    | line => cases hlast
    | timeout => cases hlast
    | accept => cases hlast
    | _ => cases hphase

/-- The identifier and the sequence number of a message. -/
theorem Passes.echo_rest {me D : List Byte} {pos : Nat} (hp : Passes me D pos) :
    (D.drop (pos + 4)).take 4 = [0xab, 0] ++ (D.drop (pos + 6)).take 2 := by
  obtain ⟨h4, h5⟩ := hp.identifier
  obtain ⟨hlt4, h4⟩ := List.getElem?_eq_some_iff.mp h4
  obtain ⟨hlt5, h5⟩ := List.getElem?_eq_some_iff.mp h5
  rw [List.drop_eq_getElem_cons hlt4, List.drop_eq_getElem_cons hlt5, h4, h5]
  rfl

/-- What a probe tells its answer. -/
theorem probe_rest (hsrc : p.srcIp.length = 16) (hdst : p.dstIp.length = 16) (n : Int) (count : Nat) :
    (probe p.srcIp p.dstIp n (UInt16.ofNat count)).drop 44 = [0xab, 0] ++ be16 (count % 65536) := by
  rw [← List.drop_drop (i := 4) (j := 40), probe, echoDatagram_message rfl hsrc hdst,
    UInt16.toNat_ofNat']
  rfl

/-- A datagram that is accepted while an attempt waits, and is not unrelated. -/
theorem answers_of_accepted (hsrc : p.srcIp.length = 16) (hdst : p.dstIp.length = 16)
    (h : (tool p).Trace log s) {attempt : Int} (hphase : s.phase = .waiting attempt) {D : List Byte}
    {pos : Nat} (hp : Passes p.srcIp D pos) (hun : ¬ Unrelated p log D) : Answers p log D := by
  obtain ⟨hpos, hlast⟩ := trace_waiting h attempt hphase
  have hcount := (trace_counted h).count
  have hrelated : source D = p.dstIp ∧
      (D.drop (pos + 6)).take 2 = be16 (((writes log).length - 1) % 65536) ∧
      wordAt D 4 = D.length - 40 := by
    by_contra hne
    apply hun
    refine ⟨pos, hp, ?_⟩
    by_contra hall
    simp only [not_or, not_not] at hall
    exact hne hall
  obtain ⟨hsource, hsequence, hlength⟩ := hrelated
  refine ⟨hsource, ⟨pos, _, hp.walked, hlast, ?_⟩, hlength⟩
  rw [hp.echo_rest, hsequence, probe_rest hsrc hdst, hcount]

/-- The second of two events stands behind the first. -/
theorem pair_front {x y e : Event} {a b : List Event} (h : [x, y] = a ++ e :: b) (hx : x ≠ e) :
    a = [x] := by
  match a with
  | [] => exact absurd (List.cons.inj h).1 hx
  | [z] => rw [(List.cons.inj h).1]
  | z :: z' :: a =>
    have hlen := congrArg List.length h
    simp at hlen

theorem pair_back {x y e : Event} {a b : List Event} (h : [x, y] = a ++ e :: b) (hy : y ≠ e) :
    a = [] ∧ b = [y] := by
  match a with
  | [] => exact ⟨rfl, (List.cons.inj h).2.symm⟩
  | [z] => exact absurd (List.cons.inj (List.cons.inj h).2).1 hy
  | z :: z' :: a =>
    have hlen := congrArg List.length h
    simp at hlen

theorem single_front {x e : Event} {a b : List Event} (h : [x] = a ++ e :: b) : a = [] := by
  cases a with
  | nil => rfl
  | cons z a =>
    have hlen := congrArg List.length h
    simp at hlen

/-- A read is the first event of a step that an attempt makes while it waits. -/
theorem Step.read (h : Step p s events s') {a b : List Event} {time : Int} {reading : Reading}
    (he : events = a ++ .read time reading :: b) :
    a = [] ∧ ∃ attempt, s.phase = .waiting attempt := by
  have hmem : Event.read time reading ∈ events := by
    rw [he]
    exact List.mem_append_right a List.mem_cons_self
  cases h with
  | ignore => exact ⟨single_front he, _, rfl⟩
  | timeout => exact ⟨(pair_back he nofun).1, _, rfl⟩
  | accept => exact ⟨(pair_back he nofun).1, _, rfl⟩
  | failedRead => exact ⟨single_front he, _, rfl⟩
  | throws => exact ⟨single_front he, _, rfl⟩
  | _ => simp at hmem

/-- In every log of the machine whose datagrams are not unrelated, the replies are its own. -/
theorem trace_ownReplies (hsrc : p.srcIp.length = 16) (hdst : p.dstIp.length = 16)
    (h : (tool p).Trace log s) (hread : Related p log) : OwnReplies p log := by
  intro before time D text behind hlog hD
  have hun : ¬ Unrelated p before D := hread before time D (.print text :: behind) hlog
  have hsplit : log = (before ++ [.read time (.bytes D)]) ++ .print text :: behind := by
    rw [hlog, List.append_assoc]
    rfl
  refine h.events (Q := fun a e => ∀ before time D text, e = .print text →
    a = before ++ [.read time (.bytes D)] → D ≠ [] → ¬ Unrelated p before D →
    Answers p before D) ?_ _ _ behind hsplit before time D text rfl rfl hD hun
  intro log s events s' ht hs a e b hevents before time D text he hbefore hD hun
  subst he
  have hmem : .print text ∈ events := by
    rw [hevents]
    exact List.mem_append_right a List.mem_cons_self
  cases hs with
  | timeout time' =>
    obtain rfl := pair_front hevents (by simp)
    have hread := (List.append_inj' hbefore rfl).2
    cases hread
    exact absurd rfl hD
  | @accept attempt hops count pos stop D' time' hD' hp =>
    obtain rfl := pair_front hevents (by simp)
    obtain ⟨rfl, hread⟩ := List.append_inj' hbefore rfl
    cases hread
    exact answers_of_accepted hsrc hdst ht rfl hp hun
  | newline =>
    rw [single_front hevents, List.append_nil] at hbefore
    exact absurd hbefore (trace_sending ht rfl before time (.bytes D))
  | _ => simp at hmem

/-- Where the tool has not broken off, a datagram that passes the tests has ended its attempt. -/
theorem trace_accepted (h : (tool p).Trace log s) (hphase : s.phase ≠ .aborted) {before : List Event}
    {time : Int} {D : List Byte} {behind : List Event} {pos : Nat}
    (hlog : log = before ++ .read time (.bytes D) :: behind) (hp : Passes p.srcIp D pos) :
    ∃ text rest, behind = .print text :: rest := by
  induction h generalizing behind with
  | start => exact absurd hlog (by simp)
  | @step log events s s' ht hs ih =>
    obtain ⟨behind', hfront, rfl⟩ | ⟨a, -, hevents⟩ := Machine.append_cases hlog
    · have hrunning : s.phase ≠ .aborted := by
        cases hs <;> exact nofun
      obtain ⟨text, rest, rfl⟩ := ih hrunning hfront
      exact ⟨text, rest ++ events, rfl⟩
    · obtain ⟨rfl, attempt, hwaiting⟩ := Step.read hs hevents
      cases hs with
      | ignore time' hD hreject =>
        cases hevents
        exact absurd hp (hreject pos)
      | timeout time' =>
        cases hevents
        have := hp.reaches.header
        simp at this
      | accept time' hD hp' =>
        cases hevents
        exact ⟨_, [], rfl⟩
      | throws => exact absurd rfl hphase
      | failedRead => cases hevents
      | failedWrite => cases hevents
      | _ => cases hwaiting

/-- In front of a read the last write is the probe of its attempt. -/
theorem trace_read (h : (tool p).Trace log s) {before behind : List Event} {time : Int}
    {reading : Reading} (hlog : log = before ++ .read time reading :: behind) :
    ∃ n, (writes before).getLast? =
      some (probe p.srcIp p.dstIp n (UInt16.ofNat ((writes before).length - 1))) := by
  refine h.events (Q := fun a e => ∀ time reading, e = .read time reading →
    ∃ n, (writes a).getLast? =
      some (probe p.srcIp p.dstIp n (UInt16.ofNat ((writes a).length - 1)))) ?_ _ _ behind hlog
    time reading rfl
  intro log s events s' ht hs a e b hevents time reading he
  subst he
  obtain ⟨rfl, attempt, hphase⟩ := Step.read hs hevents
  have hlast := (trace_waiting ht attempt hphase).2
  rw [List.append_nil, ← (trace_counted ht).count]
  exact ⟨s.hops, hlast⟩

/-- Where every reply is the tool's own, none was unrelated. -/
theorem trace_related (hsrc : p.srcIp.length = 16) (hdst : p.dstIp.length = 16)
    (h : (tool p).Trace log s) (hphase : s.phase ≠ .aborted) (hown : OwnReplies p log) :
    Related p log := by
  intro before time D behind hlog hun
  obtain ⟨pos, hp, hbad⟩ := hun
  obtain ⟨text, rest, rfl⟩ := trace_accepted h hphase hlog hp
  have hD : D ≠ [] := by
    intro hD
    have := hp.reaches.header
    rw [hD] at this
    simp at this
  obtain ⟨hsource, ⟨pos', P, hat, hlast, hrest⟩, hlength⟩ := hown before time D text rest hlog hD
  obtain ⟨n, hprobe⟩ := trace_read h hlog
  rw [hlast] at hprobe
  obtain rfl := Option.some.inj hprobe
  obtain rfl : pos' = pos := by
    obtain ⟨q, skip, hw, -, hq⟩ := hat
    obtain ⟨q', skip', hw', -, hq'⟩ := hp.walked
    obtain ⟨rfl, rfl⟩ := hw.unique hw'
    omega
  rw [hp.echo_rest, probe_rest hsrc hdst] at hrest
  obtain hbad | hbad | hbad := hbad
  · exact hbad hsource
  · exact hbad (List.append_cancel_left hrest)
  · exact hbad hlength

end Replies

/-- When no unrelated reply is read, every reply that ends an attempt answers its probe; and in a
    run that completes only then. -/
theorem run_replies (p : Parameters) (hsrc : p.srcIp.length = 16) (hdst : p.dstIp.length = 16)
    (fuel : Nat) (written : List Int) (answers : List Answer) :
    (Related p ((run fuel p).run (World.start written answers)).2.log →
      OwnReplies p ((run fuel p).run (World.start written answers)).2.log) ∧
    ∀ w, (run fuel p).run (World.start written answers) = (.ok (), w) → OwnReplies p w.log →
      Related p w.log := by
  constructor
  · intro hread
    obtain ⟨s, htrace⟩ := run_broken hsrc hdst fuel written answers
    exact trace_ownReplies hsrc hdst htrace hread
  · intro w hrun hown
    obtain ⟨hops, count, stop, -, hat⟩ := (run_traces hsrc hdst fuel written answers).ok hrun
    exact trace_related hsrc hdst hat.trace nofun hown

/-- The reply that ends the second attempt of a run is the tool's own. -/
theorem run_replies_demo :
    ∃ fuel D w, (run fuel attemptDemo).run (World.start [48, 48]
        [⟨.bytes timeExDemo, 800⟩, ⟨.bytes [], 0⟩, ⟨.bytes D, 300⟩]) = (.ok (), w) ∧
      w.stopProbes = true ∧ OwnReplies attemptDemo w.log := by
  obtain ⟨fuel, D, w, hrun, hp, hD, hstop, hlog⟩ := run_answered_demo
  have hread : Related attemptDemo w.log := by
    intro before time D' behind hsplit hun
    obtain ⟨pos, hp', hbad⟩ := hun
    have hreads : D' = timeExDemo ∨ D' = [] ∨ D' = D ∧ (writes before).length = 2 := by
      rw [hlog] at hsplit
      simp [List.cons_eq_append_iff] at hsplit
      obtain ⟨_, rfl, ⟨-, ⟨-, hD'⟩, -⟩ | ⟨_, rfl, ⟨-, ⟨-, hD'⟩, -⟩ | ⟨rfl, ⟨-, hD'⟩, -⟩⟩⟩ := hsplit
      · exact .inl hD'
      · exact .inr (.inl hD')
      · exact .inr (.inr ⟨hD', rfl⟩)
    obtain rfl | rfl | ⟨rfl, hwrites⟩ := hreads
    · exact timeExDemo_not_passes pos hp'
    · exact absurd hp'.reaches.header (by decide)
    · obtain rfl := hp.unique hp'
      rw [hwrites, hD, echoReply_probe rfl rfl] at hbad
      obtain hbad | hbad | hbad := hbad
      · exact hbad (echoDatagram_source rfl rfl)
      · apply hbad
        rw [← List.drop_drop (i := 6) (j := 40), echoDatagram_message rfl rfl rfl]
        rfl
      · apply hbad
        rw [echoDatagram_length rfl rfl rfl rfl]
        rfl
  have h := (run_replies attemptDemo rfl rfl fuel [48, 48]
    [⟨.bytes timeExDemo, 800⟩, ⟨.bytes [], 0⟩, ⟨.bytes D, 300⟩]).1
  rw [hrun] at h
  exact ⟨fuel, D, w, hrun, hstop, h hread⟩

/-- The reply of another host ends the attempt as well. -/
theorem foreign_reply_accepted :
    ∃ fuel w, (run fuel attemptDemo).run (World.start [48] [⟨.bytes replyDemo, 0⟩]) = (.ok (), w) ∧
      w.stopProbes = true ∧ ¬ OwnReplies attemptDemo w.log := by
  have hp : Passes attemptDemo.srcIp replyDemo 40 := replyDemo_passes
  obtain ⟨fuel, w, hrun, hstop, hlog⟩ :=
    @run_answered attemptDemo replyDemo 40 rfl rfl rfl (by decide) hp (by decide) 0
  refine ⟨fuel, w, hrun, hstop, ?_⟩
  intro hown
  have h := (hown [.printInt 1, .write (probe attemptDemo.srcIp attemptDemo.dstIp 1 0)] _ replyDemo
    (token replyDemo 40) [.print "\n"] hlog (by decide)).source
  revert h
  decide

end Grnvs.Trace
