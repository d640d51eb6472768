/-
  `run` of `Assignment3`, and the machine it is.

  The three loops take the number of turns they may make from `fuel`. What they do is said once, by
  a machine whose steps are those a reader of the output can tell apart: a line is begun, a probe is
  sent, a datagram is ignored, an attempt times out or is answered, a line ends, or the run breaks
  off (`Step`). Every run, whether it completes or not, leaves a log of that machine (`run_traces`),
  and a run that completes leaves the machine between two lines, stopped or past the last line.
-/
import Grnvs.Lib.Machine
import Grnvs.Trace.Probe

namespace Grnvs.Trace

open Bytes OnesComplement

/-! ## The loops -/

/-- `while (!done)` around `read`. -/
def readLoop (fuel : Nat) : Nat → List Byte → Run Unit
  | 0, _ => Comp.stop .fuel
  | n + 1, buffer => do
      let (ret, buffer) ← GRNVS_RAW.read buffer
      Comp.when (0 > ret) (abort "failed to read from socket: " ret buffer)
      if ret = 0 then emit (.print "  *")
      else do
        let resp ← arraycopy buffer 0 (zeros ret.toNat) 0 ret
        let done ← checkMessage fuel resp
        if done then pure () else readLoop fuel n buffer

/-- `for (int attempt = 1; attempt <= attempts; attempt++)`. -/
def attemptLoop (fuel : Nat) (p : Parameters) (hops : Int) : Nat → Int → Locals → Run Locals
  | 0, _, _ => Comp.stop .fuel
  | n + 1, attempt, l =>
      if attempt ≤ p.attempts then do
        let (buffer, l) ← sendProbe p hops l
        readLoop fuel fuel buffer
        attemptLoop fuel p hops n (int32 (attempt + 1)) l
      else pure l

/-- `while (!stopProbes && hops <= hopLimit)`. -/
def hopsLoop (fuel : Nat) (p : Parameters) : Nat → Int → Locals → Run Unit
  | 0, _, _ => Comp.stop .fuel
  | n + 1, hops, l => do
      let stopProbes ← Comp.gets World.stopProbes
      if stopProbes = false ∧ hops ≤ p.hopLimit then do
        emit (.printInt hops)
        let l ← attemptLoop fuel p hops fuel 1 l
        emit (.print "\n")
        hopsLoop fuel p n (int32 (hops + 1)) l
      else pure ()

def run (fuel : Nat) (p : Parameters) : Run Unit := do
  Comp.modify fun w => { w with myIP := p.srcIp }
  Comp.modify fun w => { w with
    stopProbes := false, sequenceNumber := 0, timeout := int32 (p.timeout * 1000) }
  hopsLoop fuel p fuel 1 Locals.new

/-! ## The machine -/

inductive Phase where
  | between
  | sending (attempt : Int)
  | waiting (attempt : Int)
  | aborted
deriving DecidableEq, Repr

/-- Where the tool is: the line it prints or would print next, the number of probes it has sent,
    and whether it has been told to stop. -/
structure Progress where
  phase : Phase
  hops : Int
  count : Nat
  stop : Bool
deriving DecidableEq, Repr

inductive Step (p : Parameters) : Progress → List Event → Progress → Prop where
  | line {hops : Int} {count : Nat} : hops ≤ p.hopLimit →
      Step p ⟨.between, hops, count, false⟩ [.printInt hops] ⟨.sending 1, hops, count, false⟩
  | send {attempt hops : Int} {count : Nat} {stop : Bool} : attempt ≤ p.attempts →
      Step p ⟨.sending attempt, hops, count, stop⟩
        [.write (probe p.srcIp p.dstIp hops (UInt16.ofNat count))]
        ⟨.waiting attempt, hops, count + 1, stop⟩
  | ignore {attempt hops : Int} {count : Nat} {stop : Bool} {D : List Byte} (time : Int) : D ≠ [] →
      (∀ pos, ¬ Passes p.srcIp D pos) →
      Step p ⟨.waiting attempt, hops, count, stop⟩ [.read time (.bytes D)]
        ⟨.waiting attempt, hops, count, stop⟩
  | timeout {attempt hops : Int} {count : Nat} {stop : Bool} (time : Int) :
      Step p ⟨.waiting attempt, hops, count, stop⟩ [.read time (.bytes []), .print "  *"]
        ⟨.sending (int32 (attempt + 1)), hops, count, stop⟩
  | accept {attempt hops : Int} {count pos : Nat} {stop : Bool} {D : List Byte} (time : Int) :
      D ≠ [] → Passes p.srcIp D pos →
      Step p ⟨.waiting attempt, hops, count, stop⟩
        [.read time (.bytes D), .print (token D pos)]
        ⟨.sending (int32 (attempt + 1)), hops, count, true⟩
  | newline {attempt hops : Int} {count : Nat} {stop : Bool} : p.attempts < attempt →
      Step p ⟨.sending attempt, hops, count, stop⟩ [.print "\n"]
        ⟨.between, int32 (hops + 1), count, stop⟩
  | failedWrite {attempt hops : Int} {count : Nat} {stop : Bool} (text : String)
      (bytes : List Byte) :
      Step p ⟨.waiting attempt, hops, count, stop⟩ [.printErr text, .hexdump bytes]
        ⟨.aborted, hops, count, stop⟩
  | failedRead {attempt hops : Int} {count : Nat} {stop : Bool} (time : Int) (n : Nat) :
      Step p ⟨.waiting attempt, hops, count, stop⟩ [.read time (.failed n)]
        ⟨.aborted, hops, count, stop⟩
  | throws {attempt hops : Int} {count : Nat} {stop : Bool} {D : List Byte} (time : Int) : D ≠ [] →
      Step p ⟨.waiting attempt, hops, count, stop⟩ [.read time (.bytes D)]
        ⟨.aborted, hops, count, stop⟩

def tool (p : Parameters) : Machine Progress Event :=
  { start := ⟨.between, 1, 0, false⟩, step := Step p }

/-! ## The loops as steps of the machine -/

/-- The world of a tool that has come to `s`. -/
structure At (p : Parameters) (s : Progress) (w : World) : Prop where
  trace : (tool p).Trace w.log s
  myIP : w.myIP = p.srcIp
  stopProbes : w.stopProbes = s.stop
  sequenceNumber : w.sequenceNumber = UInt16.ofNat s.count

/-- The world of a tool that has broken off. -/
def Broken (p : Parameters) (w : World) : Prop := ∃ s, (tool p).Trace w.log s

theorem At.broken {p : Parameters} {s : Progress} {w : World} (h : At p s w) : Broken p w :=
  ⟨s, h.trace⟩

theorem At.step {p : Parameters} {s s' : Progress} {w w' : World} {events : List Event}
    (h : At p s w) (hs : Step p s events s') (hlog : w'.log = w.log ++ events)
    (hme : w'.myIP = w.myIP) (hstop : w'.stopProbes = s'.stop)
    (hsequence : w'.sequenceNumber = UInt16.ofNat s'.count) : At p s' w' :=
  ⟨hlog ▸ h.trace.step hs, hme.trans h.myIP, hstop, hsequence⟩

theorem Broken.step {p : Parameters} {s s' : Progress} {w w' : World} {events : List Event}
    (h : At p s w) (hs : Step p s events s') (hlog : w'.log = w.log ++ events) : Broken p w' :=
  ⟨s', hlog ▸ h.trace.step hs⟩

section Loops

variable {fuel : Nat} {p : Parameters} {attempt hops : Int} {count : Nat} {stop : Bool} {w : World}

/-- What is read is what the datagram is taken to be. -/
theorem resp_eq {buffer D : List Byte} (h : D.length ≤ buffer.length) :
    arraycopy (splice buffer 0 D) 0 (zeros (D.length : Int).toNat) 0 D.length = .ok D := by
  have hlen : (splice buffer 0 D).length = buffer.length := splice_length (by omega)
  have hcopy : arraycopy (splice buffer 0 D) (0 : Nat) (zeros D.length) 0 (D.length : Int) =
      .ok (((splice buffer 0 D).drop 0).take D.length) := arraycopy_new (by omega)
  rw [List.drop_zero, splice_zero, List.take_left] at hcopy
  rw [Int.toNat_natCast, splice_zero]
  exact hcopy

/-- The buffer keeps its size. -/
theorem readBuffer_length {buffer D : List Byte} (hb : buffer.length = 1514)
    (hle : D.length ≤ 1514) : (splice buffer 0 D).length = 1514 := by
  rw [splice_length (by omega), hb]

/-- A turn of the read loop: an empty read ends the attempt, any other datagram is checked. -/
theorem readLoop_turn {fuel : Nat} (n : Nat) {w : World} {buffer : List Byte}
    (hb : buffer.length = 1514) {bs : List Byte} {time : Int} {rest : List Answer}
    (hw : w.answers = ⟨.bytes bs, time⟩ :: rest) :
    (readLoop fuel (n + 1) buffer).run w =
      (if bs.take 1514 = [] then emit (.print "  *")
        else do
          let done ← checkMessage fuel (bs.take 1514)
          if done then pure () else readLoop fuel n (splice buffer 0 (bs.take 1514)) :
        Run Unit).run ((w.answered time rest).note (.read w.timeout (.bytes (bs.take 1514)))) := by
  have hle : (bs.take 1514).length ≤ 1514 := List.length_take_le 1514 bs
  rw [readLoop, Comp.bind_ok (read_returns hb hw)]
  dsimp only
  generalize bs.take 1514 = D at hle
  rw [Comp.when_neg (by omega), Comp.pure_bind_run]
  by_cases hD : D = []
  · rw [if_pos hD, if_pos (by rw [hD]; rfl)]
  · have hne : ¬ (D.length : Int) = 0 := by
      intro h0
      exact hD (List.length_eq_zero_iff.mp (by omega))
    rw [if_neg hD, if_neg hne, Comp.lift_bind (resp_eq (by omega))]

theorem readLoop_timeout {fuel n : Nat} {w : World} {buffer : List Byte}
    (hb : buffer.length = 1514) {time : Int} {answers : List Answer}
    (hw : w.answers = ⟨.bytes [], time⟩ :: answers) :
    (readLoop fuel (n + 1) buffer).run w =
      (.ok (), ((w.answered time answers).note (.read w.timeout (.bytes []))).note
        (.print "  *")) := by
  rw [readLoop_turn n hb hw, List.take_nil, if_pos rfl]
  rfl

/-- One datagram that has been read. -/
theorem datagram_lands (hsrc : p.srcIp.length = 16)
    (h : At p ⟨.waiting attempt, hops, count, stop⟩ w) {w₁ : World} {D : List Byte} {time : Int}
    (hD : D ≠ []) (hw₁ : w₁ = { w with answers := w₁.answers, timeout := w₁.timeout, log := w₁.log })
    (hlog : w₁.log = w.log ++ [.read time (.bytes D)]) :
    Comp.Lands (fun done w' =>
      (done = true ∧ At p ⟨.sending (int32 (attempt + 1)), hops, count, true⟩ w') ∨
      (done = false ∧ At p ⟨.waiting attempt, hops, count, stop⟩ w'))
      (Broken p) ((checkMessage fuel D).run w₁) := by
  have hme : w₁.myIP = w.myIP := by rw [hw₁]
  have hstop : w₁.stopProbes = stop := by rw [hw₁]; exact h.stopProbes
  have hsequence : w₁.sequenceNumber = UInt16.ofNat count := by rw [hw₁]; exact h.sequenceNumber
  have hmy : w₁.myIP = p.srcIp := hme.trans h.myIP
  have hout := checkMessage_outcome (by rw [hmy, hsrc]) fuel D (w := w₁)
  have hreject : ((checkMessage fuel D).run w₁).1 = .ok false →
      ∀ pos, ¬ Passes p.srcIp D pos := by
    intro hr pos hp
    rw [← hmy] at hp
    exact hp.not_rejected fuel hr
  generalize (checkMessage fuel D).run w₁ = r at hout hreject
  cases hout with
  | throws e why => exact Broken.step h (.throws time hD) hlog
  | rejects =>
    exact .inr ⟨rfl, h.step (.ignore time hD (hreject rfl)) hlog hme hstop hsequence⟩
  | @accepts pos hp =>
    rw [hmy] at hp
    refine .inl ⟨rfl, h.step (.accept time hD hp) ?_ hme rfl hsequence⟩
    change w₁.log ++ [.print (token D pos)] = _
    rw [hlog, List.append_assoc]
    rfl

/-- The read loop of an attempt. -/
theorem readLoop_lands (hsrc : p.srcIp.length = 16) (n : Nat) {buffer : List Byte}
    (hb : buffer.length = 1514) (h : At p ⟨.waiting attempt, hops, count, stop⟩ w) :
    Comp.Lands (fun _ w' => ∃ stop', At p ⟨.sending (int32 (attempt + 1)), hops, count, stop'⟩ w')
      (Broken p) ((readLoop fuel n buffer).run w) := by
  induction n generalizing buffer w with
  | zero => exact h.broken
  | succ n ih =>
    cases hw : w.answers with
    | nil =>
      rw [readLoop, Comp.bind_error (read_waiting hw)]
      exact h.broken
    | cons answer rest =>
      obtain ⟨reading, time⟩ := answer
      cases reading with
      | failed k =>
        rw [readLoop, Comp.bind_error (read_failed hw)]
        exact Broken.step h (.failedRead w.timeout k) rfl
      | bytes bs =>
        have hle : (bs.take 1514).length ≤ 1514 := List.length_take_le 1514 bs
        rw [readLoop_turn n hb hw]
        generalize bs.take 1514 = D at hle
        by_cases hD : D = []
        · rw [if_pos hD, hD]
          refine ⟨stop, h.step (.timeout w.timeout) ?_ rfl h.stopProbes h.sequenceNumber⟩
          change w.log ++ [_] ++ [_] = _
          rw [List.append_assoc]
          rfl
        · rw [if_neg hD]
          apply Comp.lands_bind (datagram_lands hsrc h hD rfl rfl)
          intro done w' hdone
          obtain ⟨rfl, hat⟩ | ⟨rfl, hat⟩ := hdone
          · exact ⟨true, hat⟩
          · exact ih (readBuffer_length hb hle) hat

/-- A probe that has been written. -/
theorem At.sent (h : At p ⟨.sending attempt, hops, count, stop⟩ w) (ha : attempt ≤ p.attempts)
    (rest : List Int) : At p ⟨.waiting attempt, hops, count + 1, stop⟩ (w.sent p hops rest) := by
  refine h.step (.send ha) ?_ rfl h.stopProbes ?_
  · rw [← h.sequenceNumber]
    rfl
  · change w.sequenceNumber + 1 = _
    rw [h.sequenceNumber]
    exact (UInt16.ofNat_add count 1).symm

/-- Sending a probe. -/
theorem sendProbe_lands (hsrc : p.srcIp.length = 16) (hdst : p.dstIp.length = 16) {l : Locals}
    (hl : l.Kept) (h : At p ⟨.sending attempt, hops, count, stop⟩ w) (ha : attempt ≤ p.attempts) :
    Comp.Lands (fun r w' => r.1.length = 1514 ∧ r.2.Kept ∧
        At p ⟨.waiting attempt, hops, count + 1, stop⟩ w')
      (Broken p) ((sendProbe p hops l).run w) := by
  obtain ⟨-, hrun⟩ | ⟨ret, rest, -, hrun⟩ := sendProbe_cases hsrc hdst hops hl w
  · rw [hrun]
    exact ⟨_, h.trace⟩
  · have hsent := h.sent ha rest
    obtain ⟨-, l', hl', hrun⟩ | ⟨-, hrun⟩ := hrun
    · rw [hrun]
      refine ⟨?_, hl', hsent⟩
      rw [List.length_append, probe_length hsrc hdst, zeros_length]
    · rw [hrun]
      apply Broken.step hsent (.failedWrite _ _)
      change _ ++ [_] ++ [_] = _
      rw [List.append_assoc]
      rfl

/-- The attempts of a line. -/
theorem attemptLoop_lands (hsrc : p.srcIp.length = 16) (hdst : p.dstIp.length = 16) (n : Nat)
    {l : Locals} (hl : l.Kept) (h : At p ⟨.sending attempt, hops, count, stop⟩ w) :
    Comp.Lands (fun l' w' => l'.Kept ∧ ∃ attempt' count' stop', p.attempts < attempt' ∧
        At p ⟨.sending attempt', hops, count', stop'⟩ w')
      (Broken p) ((attemptLoop fuel p hops n attempt l).run w) := by
  induction n generalizing attempt count stop l w with
  | zero => exact h.broken
  | succ n ih =>
    rw [attemptLoop]
    by_cases ha : attempt ≤ p.attempts
    · rw [if_pos ha]
      apply Comp.lands_bind (sendProbe_lands hsrc hdst hl h ha)
      intro r w₁ hr
      obtain ⟨hb, hl', hw₁⟩ := hr
      apply Comp.lands_bind (readLoop_lands hsrc fuel hb hw₁)
      intro _ w₂ hw₂
      obtain ⟨stop', hw₂⟩ := hw₂
      exact ih hl' hw₂
    · rw [if_neg ha]
      exact ⟨hl, attempt, count, stop, by omega, h⟩

/-- The lines of a run. -/
theorem hopsLoop_lands (hsrc : p.srcIp.length = 16) (hdst : p.dstIp.length = 16) (n : Nat)
    {l : Locals} (hl : l.Kept) (h : At p ⟨.between, hops, count, stop⟩ w) :
    Comp.Lands (fun _ w' => ∃ hops' count' stop', (stop' = true ∨ p.hopLimit < hops') ∧
        At p ⟨.between, hops', count', stop'⟩ w')
      (Broken p) ((hopsLoop fuel p n hops l).run w) := by
  induction n generalizing hops count stop l w with
  | zero => exact h.broken
  | succ n ih =>
    rw [hopsLoop, Comp.gets_bind, h.stopProbes]
    dsimp only
    by_cases hgo : stop = false ∧ hops ≤ p.hopLimit
    · rw [if_pos hgo]
      obtain ⟨rfl, hle⟩ := hgo
      have hline : At p ⟨.sending 1, hops, count, false⟩ (w.note (.printInt hops)) :=
        h.step (.line hle) rfl rfl h.stopProbes h.sequenceNumber
      rw [Comp.bind_ok (emit_run _ _)]
      apply Comp.lands_bind (attemptLoop_lands hsrc hdst fuel hl hline)
      intro l' w₁ hw₁
      obtain ⟨hl', attempt', count', stop', ha, hw₁⟩ := hw₁
      rw [Comp.bind_ok (emit_run _ _)]
      exact ih hl' (hw₁.step (.newline ha) rfl rfl hw₁.stopProbes hw₁.sequenceNumber)
    · rw [if_neg hgo]
      refine ⟨hops, count, stop, ?_, h⟩
      cases stop with
      | true => exact .inl rfl
      | false => exact .inr (by simpa using hgo)

end Loops

/-- The state a run of the tool starts in. -/
def World.start (written : List Int) (answers : List Answer) : World :=
  { World.idle [] with written, answers }

/-- Every run leaves a log of the machine, and one that completes leaves it between two lines. -/
theorem run_traces {p : Parameters} (hsrc : p.srcIp.length = 16) (hdst : p.dstIp.length = 16)
    (fuel : Nat) (written : List Int) (answers : List Answer) :
    Comp.Lands (fun _ w' => ∃ hops count stop, (stop = true ∨ p.hopLimit < hops) ∧
        At p ⟨.between, hops, count, stop⟩ w')
      (Broken p) ((run fuel p).run (World.start written answers)) := by
  rw [run, Comp.modify_bind, Comp.modify_bind]
  exact hopsLoop_lands hsrc hdst fuel Locals.kept_new ⟨.start, rfl, rfl, rfl⟩

/-- Whatever a run reads, the log it leaves is one of the machine. -/
theorem run_broken {p : Parameters} (hsrc : p.srcIp.length = 16) (hdst : p.dstIp.length = 16)
    (fuel : Nat) (written : List Int) (answers : List Answer) :
    Broken p ((run fuel p).run (World.start written answers)).2 := by
  have h := run_traces hsrc hdst fuel written answers
  generalize (run fuel p).run (World.start written answers) = r at h
  obtain ⟨e | a, w'⟩ := r
  · exact h
  · obtain ⟨hops, count, stop, -, hat⟩ := h
    exact hat.broken

/-! ## Runs of one attempt a line -/

section Answered

variable {p : Parameters} {D : List Byte} {pos : Nat}

/-- An attempt whose first datagram is accepted. -/
theorem readLoop_answered {fuel n : Nat} {w : World} {buffer : List Byte} {q skip time : Int}
    {rest : List Answer} (hb : buffer.length = 1514) (hme : w.myIP = p.srcIp)
    (hp : Passes p.srcIp D pos) (hlen : D.length ≤ 1514) (hwalk : walk fuel D 6 34 = .ok (q, skip))
    (hnext : arrayGet D q = .ok icmpNH) (hpos : q + skip = pos)
    (hw : w.answers = ⟨.bytes D, time⟩ :: rest) :
    (readLoop fuel (n + 1) buffer).run w =
      (.ok (), ((w.answered time rest).note (.read w.timeout (.bytes D))).accept (token D pos)) := by
  have hheader := hp.reaches.header
  have htake : D.take 1514 = D := List.take_of_length_le hlen
  have hD : D ≠ [] := List.ne_nil_of_length_pos (by omega)
  rw [← hme] at hp
  have hcheck : _ = (_, ((w.answered time rest).note (.read w.timeout (.bytes D))).accept
      (token D pos)) := Passes.run_of_walk hp hwalk hnext hpos
  rw [readLoop_turn n hb hw, htake, if_neg hD, Comp.bind_ok hcheck]
  rfl

/-- An attempt whose first datagram is ignored, and which times out then. -/
theorem readLoop_ignored {fuel n : Nat} {w : World} {buffer E : List Byte} {time time' : Int}
    {rest : List Answer} (hb : buffer.length = 1514) (hE : E ≠ []) (hlen : E.length ≤ 1514)
    (hreject : ∀ w' : World, w'.myIP = w.myIP → (checkMessage fuel E).run w' = (.ok false, w'))
    (hw : w.answers = ⟨.bytes E, time⟩ :: ⟨.bytes [], time'⟩ :: rest) :
    (readLoop fuel (n + 2) buffer).run w =
      (.ok (), (((((w.answered time (⟨.bytes [], time'⟩ :: rest)).note
        (.read w.timeout (.bytes E))).answered time' rest).note (.read time (.bytes []))).note
        (.print "  *"))) := by
  have htake : E.take 1514 = E := List.take_of_length_le hlen
  have hturn := @readLoop_turn fuel (n + 1) w buffer hb E time _ hw
  rw [htake, if_neg hE,
    Comp.bind_ok (hreject ((w.answered time _).note (.read w.timeout (.bytes E))) rfl)] at hturn
  have hbuffer : (splice buffer 0 E).length = 1514 := readBuffer_length hb hlen
  exact hturn.trans (readLoop_timeout hbuffer rfl)

/-- A line of one attempt, by what comes of its probe. -/
theorem attemptLoop_single (hsrc : p.srcIp.length = 16) (hdst : p.dstIp.length = 16)
    (hattempts : p.attempts = 1) {n : Nat} {hops ret : Int} {rest : List Int} {w w₁ : World}
    {l : Locals} (hl : l.Kept) {sequence : UInt16} (hsequence : w.sequenceNumber = sequence)
    (hw : w.written = ret :: rest) (hret : 0 < ret)
    (hread : (readLoop (n + 2) (n + 2) (probe p.srcIp p.dstIp hops sequence ++ zeros 1466)).run
      (w.sent p hops rest) = (.ok (), w₁)) :
    ∃ l', l'.Kept ∧ (attemptLoop (n + 2) p hops (n + 2) 1 l).run w = (.ok l', w₁) := by
  obtain ⟨hnil, -⟩ | ⟨ret', rest', hw', hsend⟩ := sendProbe_cases hsrc hdst hops hl w
  · exact nomatch hw.symm.trans hnil
  · cases hw.symm.trans hw'
    obtain ⟨-, l', hl', hsend⟩ | ⟨hle, -⟩ := hsend
    · refine ⟨l', hl', ?_⟩
      rw [attemptLoop, if_pos (by omega), Comp.bind_ok hsend]
      dsimp only
      rw [hsequence, Comp.bind_ok hread, attemptLoop, if_neg (by rw [hattempts]; decide),
        Comp.pure_run]
    · omega

/-- The loop over the lines goes on behind such a line. -/
theorem hopsLoop_single (hsrc : p.srcIp.length = 16) (hdst : p.dstIp.length = 16)
    (hattempts : p.attempts = 1) {n m : Nat} {hops ret : Int} {rest : List Int} {w w₁ : World}
    {l : Locals} (hl : l.Kept) (hgo : w.stopProbes = false ∧ hops ≤ p.hopLimit)
    {sequence : UInt16} (hsequence : w.sequenceNumber = sequence) (hw : w.written = ret :: rest)
    (hret : 0 < ret)
    (hread : (readLoop (n + 2) (n + 2) (probe p.srcIp p.dstIp hops sequence ++ zeros 1466)).run
      ((w.note (.printInt hops)).sent p hops rest) = (.ok (), w₁)) :
    ∃ l', l'.Kept ∧ (hopsLoop (n + 2) p (m + 1) hops l).run w =
      (hopsLoop (n + 2) p m (int32 (hops + 1)) l').run (w₁.note (.print "\n")) := by
  obtain ⟨l', hl', hattempt⟩ := attemptLoop_single (w := w.note (.printInt hops)) hsrc hdst
    hattempts hl hsequence hw hret hread
  refine ⟨l', hl', ?_⟩
  rw [hopsLoop, Comp.gets_bind, if_pos hgo, Comp.bind_ok (emit_run _ _), Comp.bind_ok hattempt,
    Comp.bind_ok (emit_run _ _)]

/-- The loop ends when the tool has been told to stop, or behind the last line. -/
theorem hopsLoop_end {fuel m : Nat} {hops : Int} {w : World} {l : Locals}
    (hend : w.stopProbes = true ∨ p.hopLimit < hops) :
    (hopsLoop fuel p (m + 1) hops l).run w = (.ok (), w) := by
  have hdone : ¬ (w.stopProbes = false ∧ hops ≤ p.hopLimit) := by
    rintro ⟨hstop, hle⟩
    obtain hstop' | hlt := hend
    · exact nomatch hstop'.symm.trans hstop
    · omega
  rw [hopsLoop, Comp.gets_bind, if_neg hdone, Comp.pure_run]

/-- A run of one attempt a line that ends with its first line. -/
theorem run_single (hsrc : p.srcIp.length = 16) (hdst : p.dstIp.length = 16)
    (hattempts : p.attempts = 1) (hlimit : 1 ≤ p.hopLimit) {n : Nat} {answers : List Answer}
    {w w₁ : World}
    (hw : w = { World.start [48] answers with
      myIP := p.srcIp, timeout := int32 (p.timeout * 1000) })
    (hread : (readLoop (n + 2) (n + 2) (probe p.srcIp p.dstIp 1 0 ++ zeros 1466)).run
      ((w.note (.printInt 1)).sent p 1 []) = (.ok (), w₁))
    (hend : w₁.stopProbes = true ∨ p.hopLimit < 2) :
    (run (n + 2) p).run (World.start [48] answers) = (.ok (), w₁.note (.print "\n")) := by
  obtain ⟨l, -, hline⟩ := hopsLoop_single (w := w) (m := n + 1) hsrc hdst hattempts
    Locals.kept_new ⟨by rw [hw]; rfl, hlimit⟩ (by rw [hw]; rfl) (by rw [hw]; rfl) (by decide) hread
  have hrest : (hopsLoop (n + 2) p (n + 1) 2 l).run (w₁.note (.print "\n")) =
    (.ok (), w₁.note (.print "\n")) := hopsLoop_end hend
  rw [run, Comp.modify_bind, Comp.modify_bind]
  rw [hw] at hline
  exact hline.trans hrest

/-- A first attempt that is answered ends a run of one attempt a line. -/
theorem run_answered (hsrc : p.srcIp.length = 16) (hdst : p.dstIp.length = 16)
    (hattempts : p.attempts = 1) (hlimit : 1 ≤ p.hopLimit) (hp : Passes p.srcIp D pos)
    (hlen : D.length ≤ 1514) (time : Int) :
    ∃ fuel w', (run fuel p).run (World.start [48] [⟨.bytes D, time⟩]) = (.ok (), w') ∧
      w'.stopProbes = true ∧
      w'.log = [.printInt 1, .write (probe p.srcIp p.dstIp 1 0),
        .read (int32 (p.timeout * 1000)) (.bytes D), .print (token D pos), .print "\n"] := by
  obtain ⟨q, skip, hwalks, hnext, hpos⟩ := hp.walked
  obtain ⟨n, hn⟩ := hwalks.walk
  have hwalk := hn (n + 2) (by omega)
  have hb : (probe p.srcIp p.dstIp 1 0 ++ zeros 1466).length = 1514 := by
    rw [List.length_append, probe_length hsrc hdst, zeros_length]
  let w : World := { World.start [48] [⟨.bytes D, time⟩] with
    myIP := p.srcIp, timeout := int32 (p.timeout * 1000) }
  have hread := readLoop_answered (w := (w.note (.printInt 1)).sent p 1 []) (n := n + 1) hb rfl hp
    hlen hwalk hnext hpos rfl
  have hrun := run_single hsrc hdst hattempts hlimit rfl hread (.inl rfl)
  exact ⟨n + 2, _, hrun, rfl, rfl⟩

/-- A first attempt in which something is ignored before the time is up, and a second one that is
    answered. -/
theorem run_answered_second (hsrc : p.srcIp.length = 16) (hdst : p.dstIp.length = 16)
    (hattempts : p.attempts = 1) (hlimit : 2 ≤ p.hopLimit) {E : List Byte}
    (hreject : ∀ fuel (w : World), 0 < fuel → w.myIP = p.srcIp →
      (checkMessage fuel E).run w = (.ok false, w))
    (hE : E ≠ []) (hElen : E.length ≤ 1514) (hp : Passes p.srcIp D pos) (hlen : D.length ≤ 1514)
    (time time' time'' : Int) :
    ∃ fuel w', (run fuel p).run (World.start [48, 48]
        [⟨.bytes E, time⟩, ⟨.bytes [], time'⟩, ⟨.bytes D, time''⟩]) = (.ok (), w') ∧
      w'.stopProbes = true ∧
      w'.log = [.printInt 1, .write (probe p.srcIp p.dstIp 1 0),
        .read (int32 (p.timeout * 1000)) (.bytes E), .read time (.bytes []), .print "  *",
        .print "\n", .printInt 2, .write (probe p.srcIp p.dstIp 2 1),
        .read (int32 (p.timeout * 1000)) (.bytes D), .print (token D pos), .print "\n"] := by
  obtain ⟨q, skip, hwalks, hnext, hpos⟩ := hp.walked
  obtain ⟨n, hn⟩ := hwalks.walk
  have hb : ∀ hops sequence,
      (probe p.srcIp p.dstIp hops sequence ++ zeros 1466).length = 1514 := by
    intro hops sequence
    rw [List.length_append, probe_length hsrc hdst, zeros_length]
  let w : World := { World.start [48, 48]
      [⟨.bytes E, time⟩, ⟨.bytes [], time'⟩, ⟨.bytes D, time''⟩] with
    myIP := p.srcIp, timeout := int32 (p.timeout * 1000) }
  have hfirst := readLoop_ignored (w := (w.note (.printInt 1)).sent p 1 [48]) (n := n + 1)
    (hb 1 0) hE hElen (fun w' hme => hreject (n + 3) w' (by omega) hme) rfl
  obtain ⟨l, hl, hline⟩ := hopsLoop_single (w := w) (n := n + 1) (m := n + 2) hsrc hdst hattempts
    Locals.kept_new ⟨rfl, by omega⟩ rfl rfl (by decide) hfirst
  generalize hw₁ : World.note _ (.print "\n") = w₁ at hline
  have hsecond := readLoop_answered (w := (w₁.note (.printInt 2)).sent p 2 []) (n := n + 2)
    (hb 2 1) (by rw [← hw₁]; rfl) hp hlen (hn (n + 3) (by omega)) hnext hpos
    (by rw [← hw₁]; rfl)
  obtain ⟨l', -, hline'⟩ := hopsLoop_single (w := w₁) (n := n + 1) (m := n + 1) hsrc hdst hattempts
    hl ⟨by rw [← hw₁]; rfl, hlimit⟩ (by rw [← hw₁]; rfl) (by rw [← hw₁]; rfl) (by decide) hsecond
  have hrun := hline.trans (hline'.trans (hopsLoop_end (.inl rfl)))
  refine ⟨n + 3, _, hrun, ?_, ?_⟩
  · rfl
  · rw [← hw₁]
    rfl

end Answered

/-- One attempt a line. -/
def attemptDemo : Parameters := { parametersDemo with attempts := 1 }

theorem timeExDemo_rejected {fuel : Nat} (hfuel : 0 < fuel) {w : World}
    (hme : w.myIP = attemptDemo.srcIp) : (checkMessage fuel timeExDemo).run w = (.ok false, w) :=
  errors_rejected ⟨by decide, by decide, hme ▸ rfl⟩ (by decide) (by decide) (by decide)
    (.inl (by decide)) hfuel

theorem timeExDemo_not_passes (pos : Nat) : ¬ Passes attemptDemo.srcIp timeExDemo pos := by
  intro hp
  have hrun := @timeExDemo_rejected 1 (by decide) (World.idle attemptDemo.srcIp) rfl
  apply Passes.not_rejected (w := World.idle attemptDemo.srcIp) hp 1
  rw [hrun]

/-- A run whose first probe is answered by a router, and the second by the host it went to. -/
theorem run_answered_demo :
    ∃ fuel D w', (run fuel attemptDemo).run (World.start [48, 48]
        [⟨.bytes timeExDemo, 800⟩, ⟨.bytes [], 0⟩, ⟨.bytes D, 300⟩]) = (.ok (), w') ∧
      Passes attemptDemo.srcIp D 40 ∧
      D = echoReply (probe attemptDemo.srcIp attemptDemo.dstIp 2 1) [0, 0, 0] 64 ∧
      w'.stopProbes = true ∧
      w'.log = [.printInt 1, .write (probe attemptDemo.srcIp attemptDemo.dstIp 1 0),
        .read 5000 (.bytes timeExDemo), .read 800 (.bytes []), .print "  *", .print "\n",
        .printInt 2, .write (probe attemptDemo.srcIp attemptDemo.dstIp 2 1),
        .read 5000 (.bytes D), .print (token D 40), .print "\n"] := by
  have hpasses := @echoReply_passes attemptDemo.srcIp attemptDemo.dstIp rfl rfl 2 1 [0, 0, 0] rfl 64
  have hlen : (echoReply (probe attemptDemo.srcIp attemptDemo.dstIp 2 1) [0, 0, 0] 64).length ≤
      1514 := by
    rw [echoReply_probe rfl rfl, echoDatagram_length rfl rfl rfl rfl]
    decide
  obtain ⟨fuel, w', hrun, hstop, hlog⟩ := run_answered_second rfl rfl rfl (by decide)
    (fun fuel w hfuel => timeExDemo_rejected hfuel) (by decide) (by decide) hpasses hlen 800 0 300
  exact ⟨fuel, _, w', hrun, hpasses, rfl, hstop, hlog⟩

end Grnvs.Trace
