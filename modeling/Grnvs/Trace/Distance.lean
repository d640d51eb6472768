/-
  What trace6 shows of a path.

  Whatever a path loses, delays, doubles or mixes with foreign datagrams, no router is shown, and
  the destination on no line before its distance (`path_shown`). That the destination is shown at
  all needs a path that answers. The log of a run on one that answers every probe in time (`Manner`)
  is written down first (`Path.log`), beside the results of its reads (`Path.answers`). An attempt,
  a line and the whole run leave just that log, so the screen shows stars for the routers and the
  address of the destination on the line of its distance (`path_printed`).
-/
import Grnvs.Trace.Path

namespace Grnvs.Trace

open Bytes OnesComplement

/-! ## The log -/

/-- How a path answers the probes: what is in the header of the answer and the code of a router, and
    what the answer leaves of the time of its attempt. -/
structure Manner (p : Parameters) where
  label : Nat → List Byte
  hopLimit : Nat → Byte
  code : Nat → Byte
  left : Nat → Int
  label_length : ∀ count, (label count).length = 3
  timeout_pos : 0 < int32 (p.timeout * 1000)
  inTime : ∀ count, 0 ≤ left count ∧ left count ≤ int32 (p.timeout * 1000)

/-- What the router `router` answers to the probe `P`. -/
def Manner.exceeded {p : Parameters} (manner : Manner p) (router P : List Byte) (count : Nat) :
    List Byte :=
  timeExceeded router P (manner.label count) (manner.code count) (manner.hopLimit count)

/-- What the destination answers to it. -/
def Manner.reply {p : Parameters} (manner : Manner p) (P : List Byte) (count : Nat) : List Byte :=
  echoReply P (manner.label count) (manner.hopLimit count)

namespace Path

variable (π : Path) {p : Parameters} (manner : Manner p)

/-- A probe, and what answers it. The answer of a router is ignored, and nothing else comes in the
    time it leaves. -/
def attemptLog (hops : Int) (count : Nat) : List Event :=
  let P := probe p.srcIp p.dstIp hops (UInt16.ofNat count)
  let time := int32 (p.timeout * 1000)
  match π.routers[(hops - 1).toNat]? with
  | some router =>
      [.write P, .read time (.bytes (manner.exceeded router P count)),
        .read (manner.left count) (.bytes []), .print "  *"]
  | none =>
      [.write P, .read time (.bytes (manner.reply P count)), .print ("  " ++ hostText p.dstIp)]

/-- The results of the reads of an attempt. -/
def attemptAnswers (hops : Int) (count : Nat) : List Answer :=
  let P := probe p.srcIp p.dstIp hops (UInt16.ofNat count)
  match π.routers[(hops - 1).toNat]? with
  | some router =>
      [⟨.bytes (manner.exceeded router P count), manner.left count⟩, ⟨.bytes [], 0⟩]
  | none => [⟨.bytes (manner.reply P count), manner.left count⟩]

/-- `k` attempts of a line; `count` probes have been sent before. -/
def attemptsLog (hops : Int) : Nat → Nat → List Event
  | 0, _ => []
  | k + 1, count => π.attemptLog manner hops count ++ attemptsLog hops k (count + 1)

def attemptsAnswers (hops : Int) : Nat → Nat → List Answer
  | 0, _ => []
  | k + 1, count => π.attemptAnswers manner hops count ++ attemptsAnswers hops k (count + 1)

def lineLog (hops : Int) (count : Nat) : List Event :=
  .printInt hops :: π.attemptsLog manner hops p.attempts.toNat count ++ [.print "\n"]

/-- `n` lines behind the first `i`. -/
def linesLog : Nat → Nat → List Event
  | 0, _ => []
  | n + 1, i => π.lineLog manner (i + 1) (i * p.attempts.toNat) ++ linesLog n (i + 1)

def linesAnswers : Nat → Nat → List Answer
  | 0, _ => []
  | n + 1, i =>
      π.attemptsAnswers manner (i + 1) p.attempts.toNat (i * p.attempts.toNat) ++
        linesAnswers n (i + 1)

/-- The number of lines: the tool ends with the one of the destination, or with its last. -/
def lines (p : Parameters) : Nat := min π.distance p.hopLimit.toNat

def log : List Event := π.linesLog manner (π.lines p) 0

def answers : List Answer := π.linesAnswers manner (π.lines p) 0

end Path

/-- The results of the writes in a log. -/
def results (log : List Event) : List Int := (writes log).map fun _ => 48

theorem results_append (log log' : List Event) :
    results (log ++ log') = results log ++ results log' := by
  unfold results
  rw [writes_append, List.map_append]

/-! ## An attempt -/

/-- The world of a tool that has sent `count` probes, with the results of the calls that are still
    to come. -/
structure On (p : Parameters) (w : World) (count : Nat) (stop : Bool) (log : List Event)
    (written : List Int) (answers : List Answer) : Prop where
  myIP : w.myIP = p.srcIp
  sequenceNumber : w.sequenceNumber = UInt16.ofNat count
  stopProbes : w.stopProbes = stop
  log : w.log = log
  written : w.written = written
  answers : w.answers = answers

section Attempt

variable {π : Path} {p : Parameters} {manner : Manner p} {w : World} {hops : Int} {count fuel : Nat}
  {stop : Bool} {log : List Event} {written : List Int} {answers : List Answer} {l : Locals}

/-- The parts of the answer of a router. -/
theorem timeExceeded_parts {router P label : List Byte} (code hopLimit : Byte)
    (hr : router.length = 16) (hP : (source P).length = 16) (hl : label.length = 3) :
    (timeExceeded router P label code hopLimit).length = 48 + P.length ∧
      destination (timeExceeded router P label code hopLimit) = source P := by
  have hhead : (0x60 :: label ++ be16 (8 + P.length) ++ [58, hopLimit] ++ router).length = 24 := by
    simp [be16, hl, hr]
  constructor
  · simp [timeExceeded, be16, hl, hr, hP]
    omega
  · rw [destination, timeExceeded, List.append_assoc, List.drop_left' hhead, List.take_left' hP]

/-- The answer of a router is read and rejected. -/
theorem timeExceeded_rejected (hsrc : p.srcIp.length = 16) (hdst : p.dstIp.length = 16)
    {router label : List Byte} (code hopLimit : Byte) (hr : router.length = 16)
    (hl : label.length = 3) (sequence : UInt16) (hme : w.myIP = p.srcIp) :
    (checkMessage (fuel + 1)
      (timeExceeded router (probe p.srcIp p.dstIp hops sequence) label code hopLimit)).run w =
        (.ok false, w) := by
  have hP := probe_length hsrc hdst hops sequence
  have hsource : source (probe p.srcIp p.dstIp hops sequence) = p.srcIp :=
    echoDatagram_source rfl hsrc
  obtain ⟨hlen, hdestination⟩ :=
    timeExceeded_parts code hopLimit hr (by rw [hsource, hsrc]) hl
  have htype := timeExceeded_type code hopLimit hr (by rw [hsource, hsrc]) hl
  have hhead : ∀ D, D = timeExceeded router (probe p.srcIp p.dstIp hops sequence) label code
      hopLimit → D[0]? = some versionIpv6 ∧ D[6]? = some icmpNH := by
    intro D hD
    match label, hl with
    | [a, b, c], _ =>
      rw [hD]
      exact ⟨rfl, rfl⟩
  obtain ⟨hversion, hnext⟩ := hhead _ rfl
  have hreaches : Reaches w.myIP
      (timeExceeded router (probe p.srcIp p.dstIp hops sequence) label code hopLimit) :=
    ⟨by omega, hversion, by rw [hdestination, hsource, hme]⟩
  exact errors_rejected hreaches (by omega) (by omega) hnext (.inl htype) (Nat.succ_pos fuel)

/-- A probe is written. -/
theorem On.sent (h : On p w count stop log (48 :: written) answers) (hops : Int) :
    On p (w.sent p hops written) (count + 1) stop
      (log ++ [.write (probe p.srcIp p.dstIp hops (UInt16.ofNat count))]) written answers := by
  obtain ⟨hme, hsequence, hstop, hlog, -, hanswers⟩ := h
  refine ⟨hme, ?_, hstop, ?_, rfl, hanswers⟩
  · change w.sequenceNumber + 1 = _
    rw [hsequence]
    exact (UInt16.ofNat_add count 1).symm
  · change w.log ++ [_] = _
    rw [hlog, hsequence]

/-- Something is read. -/
theorem On.read {bs : List Byte} {time : Int}
    (h : On p w count stop log written (⟨.bytes bs, time⟩ :: answers)) :
    On p ((w.answered time answers).note (.read w.timeout (.bytes bs))) count stop
      (log ++ [.read w.timeout (.bytes bs)]) written answers := by
  obtain ⟨hme, hsequence, hstop, hlog, hwritten, -⟩ := h
  refine ⟨hme, hsequence, hstop, ?_, hwritten, rfl⟩
  change w.log ++ [_] = _
  rw [hlog]

/-- A line or a part of it is printed. -/
theorem On.note (h : On p w count stop log written answers) (e : Event) :
    On p (w.note e) count stop (log ++ [e]) written answers := by
  obtain ⟨hme, hsequence, hstop, hlog, hwritten, hanswers⟩ := h
  refine ⟨hme, hsequence, hstop, ?_, hwritten, hanswers⟩
  change w.log ++ [e] = _
  rw [hlog]

theorem attempt_router {router : List Byte} (h : π.routers[(hops - 1).toNat]? = some router) :
    π.attemptLog manner hops count =
        [.write (probe p.srcIp p.dstIp hops (UInt16.ofNat count)),
          .read (int32 (p.timeout * 1000)) (.bytes (manner.exceeded router
            (probe p.srcIp p.dstIp hops (UInt16.ofNat count)) count)),
          .read (manner.left count) (.bytes []), .print "  *"] ∧
      π.attemptAnswers manner hops count =
        [⟨.bytes (manner.exceeded router (probe p.srcIp p.dstIp hops (UInt16.ofNat count)) count),
          manner.left count⟩, ⟨.bytes [], 0⟩] := by
  unfold Path.attemptLog Path.attemptAnswers
  rw [h]
  exact ⟨rfl, rfl⟩

theorem attempt_destination (h : π.routers[(hops - 1).toNat]? = none) :
    π.attemptLog manner hops count =
        [.write (probe p.srcIp p.dstIp hops (UInt16.ofNat count)),
          .read (int32 (p.timeout * 1000)) (.bytes (manner.reply
            (probe p.srcIp p.dstIp hops (UInt16.ofNat count)) count)),
          .print ("  " ++ hostText p.dstIp)] ∧
      π.attemptAnswers manner hops count =
        [⟨.bytes (manner.reply (probe p.srcIp p.dstIp hops (UInt16.ofNat count)) count),
          manner.left count⟩] := by
  unfold Path.attemptLog Path.attemptAnswers
  rw [h]
  exact ⟨rfl, rfl⟩

/-- The read loop of a probe that a router answers. -/
theorem readLoop_router (hsrc : p.srcIp.length = 16) (hdst : p.dstIp.length = 16)
    {router buffer : List Byte} (hrouter : π.routers[(hops - 1).toNat]? = some router)
    (hb : buffer.length = 1514) {sequence : UInt16} {time : Int} (probed n : Nat)
    (ho : On p w count stop log written
      (⟨.bytes (manner.exceeded router (probe p.srcIp p.dstIp hops sequence) probed), time⟩ ::
        ⟨.bytes [], 0⟩ :: answers)) :
    ∃ w', (readLoop (fuel + 1) (n + 2) buffer).run w = (.ok (), w') ∧
      On p w' count stop (log ++ [.read w.timeout (.bytes (manner.exceeded router
        (probe p.srcIp p.dstIp hops sequence) probed)), .read time (.bytes []),
        .print "  *"]) written answers := by
  have hr : router.length = 16 := π.addresses _ (List.mem_of_getElem? hrouter)
  have hP := probe_length hsrc hdst hops sequence
  have hsource : (source (probe p.srcIp p.dstIp hops sequence)).length = 16 := by
    rw [probe, echoDatagram_source rfl hsrc, hsrc]
  have hlabel := manner.label_length probed
  have hlen : (manner.exceeded router (probe p.srcIp p.dstIp hops sequence) probed).length =
      48 + (probe p.srcIp p.dstIp hops sequence).length :=
    (timeExceeded_parts _ _ hr hsource hlabel).1
  have hfirst := ho.read
  have hreject : ∀ w' : World, w'.myIP = p.srcIp → (checkMessage (fuel + 1)
      (manner.exceeded router (probe p.srcIp p.dstIp hops sequence) probed)).run w' =
        (.ok false, w') :=
    fun w' hme => timeExceeded_rejected hsrc hdst _ _ hr hlabel sequence hme
  generalize manner.exceeded router (probe p.srcIp p.dstIp hops sequence) probed = E at *
  have hne : E ≠ [] := List.ne_nil_of_length_pos (by omega)
  have hsecond := (hfirst.read).note (.print "  *")
  refine ⟨_, readLoop_ignored hb hne (by omega)
    (fun w' hme => hreject w' (hme.trans ho.myIP)) ho.answers, ?_⟩
  rw [List.append_assoc, List.append_assoc] at hsecond
  exact hsecond

/-- The read loop of a probe that the destination answers. -/
theorem readLoop_destination (hsrc : p.srcIp.length = 16) (hdst : p.dstIp.length = 16)
    {buffer : List Byte} (hb : buffer.length = 1514) {sequence : UInt16} {time : Int}
    (probed n : Nat)
    (ho : On p w count stop log written
      (⟨.bytes (manner.reply (probe p.srcIp p.dstIp hops sequence) probed), time⟩ :: answers)) :
    ∃ w', (readLoop (fuel + 1) (n + 1) buffer).run w = (.ok (), w') ∧
      On p w' count true (log ++ [.read w.timeout (.bytes (manner.reply
        (probe p.srcIp p.dstIp hops sequence) probed)),
        .print ("  " ++ hostText p.dstIp)]) written answers := by
  have hlabel := manner.label_length probed
  have hpasses : Passes p.srcIp (manner.reply (probe p.srcIp p.dstIp hops sequence) probed) 40 :=
    echoReply_passes hsrc hdst hops sequence hlabel (manner.hopLimit probed)
  have htoken : token (manner.reply (probe p.srcIp p.dstIp hops sequence) probed) 40 =
      "  " ++ hostText p.dstIp :=
    echoReply_token hsrc hdst hops sequence hlabel (manner.hopLimit probed)
  have hlen : (manner.reply (probe p.srcIp p.dstIp hops sequence) probed).length ≤ 1514 := by
    rw [Manner.reply, echoReply_probe hsrc hdst, echoDatagram_length hlabel hdst hsrc rfl]
    decide
  have hnext : arrayGet (manner.reply (probe p.srcIp p.dstIp hops sequence) probed) 6 =
      .ok icmpNH := by
    unfold Manner.reply
    match manner.label probed, hlabel with
    | [a, b, c], _ => rfl
  have hread := ho.read
  generalize manner.reply (probe p.srcIp p.dstIp hops sequence) probed = D at *
  have hwalk : walk (fuel + 1) D 6 34 = .ok (6, 34) := walk_stay (walkStep_end hnext (by decide))
  obtain ⟨hme, hsequence, -, hlog, hwritten, hanswers⟩ := hread.note (.print (token D 40))
  refine ⟨_, readLoop_answered hb ho.myIP hpasses hlen hwalk hnext (by decide) ho.answers, ?_⟩
  refine ⟨hme, hsequence, rfl, ?_, hwritten, hanswers⟩
  rw [← htoken]
  refine hlog.trans ?_
  rw [List.append_assoc]
  rfl

/-- An attempt: whether the destination is reached depends on the line only. -/
theorem attempt_run (π : Path) (hsrc : p.srcIp.length = 16) (hdst : p.dstIp.length = 16)
    (hl : l.Kept) (n : Nat)
    (ho : On p w count stop log (results (π.attemptLog manner hops count) ++ written)
      (π.attemptAnswers manner hops count ++ answers)) :
    ∃ buffer l' w₁ w', (sendProbe p hops l).run w = (.ok (buffer, l'), w₁) ∧ l'.Kept ∧
      (readLoop (fuel + 1) (n + 2) buffer).run w₁ = (.ok (), w') ∧
      On p w' (count + 1) (stop || decide (π.routers.length ≤ (hops - 1).toNat))
        (log ++ π.attemptLog manner hops count) written answers := by
  have hwritten : w.written = 48 :: written := by
    rw [ho.written]
    cases hrouter : π.routers[(hops - 1).toNat]? with
    | some router => rw [(attempt_router hrouter).1]; rfl
    | none => rw [(attempt_destination hrouter).1]; rfl
  obtain ⟨hnil, -⟩ | ⟨ret, rest, hw, hsend⟩ := sendProbe_cases hsrc hdst hops hl w
  · rw [hwritten] at hnil
    cases hnil
  rw [hwritten] at hw
  cases hw
  obtain ⟨-, l', hl', hsend⟩ | ⟨hle, -⟩ := hsend
  · have hsent := On.sent ⟨ho.myIP, ho.sequenceNumber, ho.stopProbes, ho.log, hwritten,
      ho.answers⟩ hops
    have hb : (probe p.srcIp p.dstIp hops w.sequenceNumber ++ zeros 1466).length = 1514 := by
      rw [List.length_append, probe_length hsrc hdst, zeros_length]
    have htime : (w.sent p hops written).timeout = int32 (p.timeout * 1000) := rfl
    cases hrouter : π.routers[(hops - 1).toNat]? with
    | some router =>
      rw [(attempt_router hrouter).2] at hsent
      obtain ⟨w', hread, ho'⟩ := @readLoop_router π p manner _ hops _ fuel _ _ _ _ hsrc hdst
        router _ hrouter hb _ _ count n hsent
      have hnear : ¬ π.routers.length ≤ (hops - 1).toNat := by
        have := (List.getElem?_eq_some_iff.mp hrouter).1
        omega
      refine ⟨_, l', _, w', hsend, hl', hread, ?_⟩
      rw [(attempt_router hrouter).1, decide_eq_false hnear, Bool.or_false]
      rw [htime, List.append_assoc] at ho'
      exact ho'
    | none =>
      rw [(attempt_destination hrouter).2] at hsent
      obtain ⟨w', hread, ho'⟩ := @readLoop_destination p manner _ hops _ fuel _ _ _ _ hsrc hdst _
        hb _ _ count (n + 1) hsent
      have hfar : π.routers.length ≤ (hops - 1).toNat := List.getElem?_eq_none_iff.mp hrouter
      refine ⟨_, l', _, w', hsend, hl', hread, ?_⟩
      rw [(attempt_destination hrouter).1, decide_eq_true hfar, Bool.or_true]
      rw [htime, List.append_assoc] at ho'
      exact ho'
  · omega

end Attempt

/-! ## Lines -/

section Lines

variable {π : Path} {p : Parameters} {manner : Manner p} {w : World} {hops : Int} {count fuel : Nat}
  {stop : Bool} {log : List Event} {written : List Int} {answers : List Answer} {l : Locals}

/-- `k` attempts. -/
theorem attemptLoop_path (hsrc : p.srcIp.length = 16) (hdst : p.dstIp.length = 16)
    (hmax : p.attempts ≤ 2 ^ 31 - 2) {k : Nat} {attempt : Int} (h1 : 1 ≤ attempt)
    (hattempt : attempt + k = p.attempts + 1) {n : Nat} (hn : k < n) (hl : l.Kept)
    (ho : On p w count stop log (results (π.attemptsLog manner hops k count) ++ written)
      (π.attemptsAnswers manner hops k count ++ answers)) :
    ∃ l' w', (attemptLoop (fuel + 2) p hops n attempt l).run w = (.ok l', w') ∧ l'.Kept ∧
      On p w' (count + k) (stop || decide (0 < k ∧ π.routers.length ≤ (hops - 1).toNat))
        (log ++ π.attemptsLog manner hops k count) written answers := by
  induction k generalizing attempt n count stop log l w with
  | zero =>
    obtain ⟨m, rfl⟩ : ∃ m, n = m + 1 := ⟨n - 1, by omega⟩
    refine ⟨l, w, ?_, hl, ?_⟩
    · rw [attemptLoop, if_neg (by omega), Comp.pure_run]
    · have hnone : ¬ (0 < 0 ∧ π.routers.length ≤ (hops - 1).toNat) := fun h => Nat.lt_irrefl 0 h.1
      rw [Path.attemptsLog, List.append_nil, decide_eq_false hnone, Bool.or_false]
      exact ho
  | succ k ih =>
    obtain ⟨m, rfl⟩ : ∃ m, n = m + 1 := ⟨n - 1, by omega⟩
    rw [Path.attemptsLog, Path.attemptsAnswers, results_append, List.append_assoc,
      List.append_assoc] at ho
    obtain ⟨buffer, l₁, w₁, w₂, hsend, hl₁, hread, ho₂⟩ :=
      @attempt_run p manner w hops count (fuel + 1) stop log _ _ l π hsrc hdst hl fuel ho
    have hnext : int32 (attempt + 1) = attempt + 1 := int32_of_range (by omega) (by omega)
    have hrange : attempt + 1 + k = p.attempts + 1 := by omega
    obtain ⟨l', w', hrest, hl', ho'⟩ :=
      ih (by omega : 1 ≤ attempt + 1) hrange (by omega : k < m) hl₁ ho₂
    refine ⟨l', w', ?_, hl', ?_⟩
    · rw [attemptLoop, if_pos (by omega), Comp.bind_ok hsend]
      dsimp only
      rw [Comp.bind_ok hread, hnext, hrest]
    · have hcount : count + 1 + k = count + (k + 1) := by omega
      have hstop : ((stop || decide (π.routers.length ≤ (hops - 1).toNat)) ||
          decide (0 < k ∧ π.routers.length ≤ (hops - 1).toNat)) =
          (stop || decide (0 < k + 1 ∧ π.routers.length ≤ (hops - 1).toNat)) := by
        by_cases hfar : π.routers.length ≤ (hops - 1).toNat
        · have hsome : 0 < k + 1 ∧ π.routers.length ≤ (hops - 1).toNat := ⟨Nat.succ_pos k, hfar⟩
          rw [decide_eq_true hfar, decide_eq_true hsome, Bool.or_true, Bool.true_or]
        · rw [decide_eq_false hfar, decide_eq_false (fun h => hfar h.2),
            decide_eq_false (fun h => hfar h.2), Bool.or_false, Bool.or_false]
      rw [hcount, hstop, List.append_assoc] at ho'
      exact ho'

/-- A line. -/
theorem line_path (hsrc : p.srcIp.length = 16) (hdst : p.dstIp.length = 16)
    (hattempts : 1 ≤ p.attempts) (hmax : p.attempts ≤ 2 ^ 31 - 2) {i : Nat}
    (hfuel : p.attempts.toNat < fuel + 2) (hl : l.Kept)
    (ho : On p w count false log (results (π.lineLog manner (i + 1) count) ++ written)
      (π.attemptsAnswers manner (i + 1) p.attempts.toNat count ++ answers)) :
    ∃ l' w', (attemptLoop (fuel + 2) p (i + 1) (fuel + 2) 1 l).run (w.note (.printInt (i + 1))) =
        (.ok l', w') ∧ l'.Kept ∧
      On p (w'.note (.print "\n")) (count + p.attempts.toNat) (decide (π.distance ≤ i + 1))
        (log ++ π.lineLog manner (i + 1) count) written answers := by
  have hresults : results (π.lineLog manner (i + 1) count) =
      results (π.attemptsLog manner (i + 1) p.attempts.toNat count) := by
    rw [Path.lineLog, results_append]
    exact List.append_nil _
  rw [hresults] at ho
  obtain ⟨l', w', hrun, hl', ho'⟩ := attemptLoop_path hsrc hdst hmax (Int.le_refl 1) (by omega)
    hfuel hl (ho.note (.printInt (i + 1)))
  refine ⟨l', w', hrun, hl', ?_⟩
  have hline := ho'.note (.print "\n")
  have hstop : (false || decide (0 < p.attempts.toNat ∧
      π.routers.length ≤ ((i : Int) + 1 - 1).toNat)) = decide (π.distance ≤ i + 1) := by
    unfold Path.distance
    rw [Bool.false_or, decide_eq_decide]
    omega
  rw [hstop, List.append_assoc, List.append_assoc] at hline
  exact hline

/-- The lines: the tool has been told to stop once the destination is reached. -/
theorem hopsLoop_path (hsrc : p.srcIp.length = 16) (hdst : p.dstIp.length = 16)
    (hattempts : 1 ≤ p.attempts) (hmax : p.attempts ≤ 2 ^ 31 - 2) (hbyte : π.distance ≤ 255)
    (hfuel : p.attempts.toNat < fuel + 2) {n i : Nat} (hn : i + n = π.lines p) {m : Nat}
    (hm : n < m) (hl : l.Kept)
    (ho : On p w (i * p.attempts.toNat) (decide (π.distance ≤ i)) log
      (results (π.linesLog manner n i)) (π.linesAnswers manner n i)) :
    ∃ w', (hopsLoop (fuel + 2) p m (i + 1) l).run w = (.ok (), w') ∧
      w'.log = log ++ π.linesLog manner n i := by
  have hleft : i + n ≤ π.distance ∧ i + n ≤ p.hopLimit.toNat :=
    ⟨hn ▸ Nat.min_le_left _ _, hn ▸ Nat.min_le_right _ _⟩
  induction n generalizing i m log l w with
  | zero =>
    obtain ⟨m, rfl⟩ : ∃ m', m = m' + 1 := ⟨m - 1, by omega⟩
    have hend : w.stopProbes = true ∨ p.hopLimit < (i : Int) + 1 := by
      unfold Path.lines at hn
      rw [ho.stopProbes, decide_eq_true_iff]
      omega
    refine ⟨w, hopsLoop_end hend, ?_⟩
    rw [ho.log, Path.linesLog, List.append_nil]
  | succ n ih =>
    obtain ⟨m, rfl⟩ : ∃ m', m = m' + 1 := ⟨m - 1, by omega⟩
    have hnear : ¬ π.distance ≤ i := by omega
    have hgo : w.stopProbes = false ∧ (i : Int) + 1 ≤ p.hopLimit :=
      ⟨ho.stopProbes.trans (decide_eq_false hnear), by omega⟩
    have hcount : i * p.attempts.toNat + p.attempts.toNat = (i + 1) * p.attempts.toNat :=
      (Nat.succ_mul i _).symm
    rw [Path.linesLog, Path.linesAnswers, results_append, decide_eq_false hnear] at ho
    obtain ⟨l', w', hrun, hl', ho'⟩ := line_path hsrc hdst hattempts hmax hfuel hl ho
    rw [hcount] at ho'
    obtain ⟨w'', hrest, hlog⟩ := ih (by omega) (by omega : n < m) hl' ho' (by omega)
    have hnext : int32 ((i : Int) + 1 + 1) = (i + 1 : Nat) + 1 := by
      rw [int32_of_range (by omega) (by omega)]
      omega
    refine ⟨w'', ?_, hlog.trans ?_⟩
    · rw [hopsLoop, Comp.gets_bind, if_pos hgo, Comp.bind_ok (emit_run _ _), Comp.bind_ok hrun,
        Comp.bind_ok (emit_run _ _), hnext, hrest]
    · rw [List.append_assoc]
      rfl

end Lines

/-! ## What is on the path -/

section Carries

variable {π : Path} {p : Parameters} {manner : Manner p} {log : List Event} {hops : Int} {count : Nat}

theorem Path.Carries.concat (h : π.Carries p log) {e : Event}
    (he : ∀ time D, e = .read time (.bytes D) → π.Delivers p (writes log) D) :
    π.Carries p (log ++ [e]) := by
  intro a time D b hlog
  obtain ⟨b', hold, -⟩ | ⟨a', rfl, hnew⟩ := Machine.append_cases hlog
  · exact h a time D b' hold
  · obtain ⟨rfl, hread⟩ := Machine.singleton_cases hnew
    rw [List.append_nil]
    exact he time D hread.symm

/-- What answers a probe is on the path. -/
theorem Path.Carries.attempt (h : π.Carries p log) (h1 : 1 ≤ hops) (hbyte : hops ≤ 255) :
    π.Carries p (log ++ π.attemptLog manner hops count) := by
  let P := probe p.srcIp p.dstIp hops (UInt16.ofNat count)
  have hwrite : π.Carries p (log ++ [.write P]) := h.concat fun _ _ hread => by cases hread
  have hsent : P ∈ writes (log ++ [.write P]) := by
    rw [writes_append]
    exact List.mem_append_right _ List.mem_cons_self
  have hbyteOf : hopLimitOf P = hops.toNat := by
    have hbyteAt : (hopLimitOf P : Int) = hops % 256 := hopLimitOf_probe _ _ hops _
    omega
  cases hrouter : π.routers[(hops - 1).toNat]? with
  | some router =>
    have hread := hwrite.concat (e := .read (int32 (p.timeout * 1000))
      (.bytes (manner.exceeded router P count))) fun time D he => by
        cases he
        exact .exceeded _ _ hsent (by omega) hrouter (manner.label_length count)
    have hempty := hread.concat (e := .read (manner.left count) (.bytes [])) fun time D he => by
      cases he
      exact .nothing
    have hprint := hempty.concat (e := .print "  *") fun _ _ he => by cases he
    rw [(attempt_router hrouter).1]
    simpa using hprint
  | none =>
    have hfar : π.distance ≤ hopLimitOf P := by
      have := List.getElem?_eq_none_iff.mp hrouter
      unfold Path.distance
      omega
    have hread := hwrite.concat (e := .read (int32 (p.timeout * 1000))
      (.bytes (manner.reply P count))) fun time D he => by
        cases he
        exact .reply _ hsent hfar (manner.label_length count)
    have hprint := hread.concat (e := .print ("  " ++ hostText p.dstIp)) fun _ _ he => by cases he
    rw [(attempt_destination hrouter).1]
    simpa using hprint

theorem Path.Carries.attempts (k : Nat) (h : π.Carries p log) (h1 : 1 ≤ hops)
    (hbyte : hops ≤ 255) : π.Carries p (log ++ π.attemptsLog manner hops k count) := by
  induction k generalizing log count with
  | zero =>
    rw [Path.attemptsLog, List.append_nil]
    exact h
  | succ k ih =>
    rw [Path.attemptsLog, ← List.append_assoc]
    exact ih (h.attempt h1 hbyte)

theorem Path.Carries.lines (h : π.Carries p log) {n i : Nat} (hbyte : i + n ≤ 255) :
    π.Carries p (log ++ π.linesLog manner n i) := by
  induction n generalizing log i with
  | zero =>
    rw [Path.linesLog, List.append_nil]
    exact h
  | succ n ih =>
    have hnumber : π.Carries p (log ++ [.printInt (i + 1)]) := h.concat fun _ _ he => by cases he
    have hattempts := @Path.Carries.attempts π p manner _ (i + 1) (i * p.attempts.toNat)
      p.attempts.toNat hnumber (by omega) (by omega)
    have hline := hattempts.concat (e := .print "\n") fun _ _ he => by cases he
    have hrest := ih hline (by omega : i + 1 + n ≤ 255)
    rw [List.append_assoc, List.append_assoc, List.append_assoc] at hrest
    rw [Path.linesLog, Path.lineLog]
    simpa using hrest

theorem Path.carries_log (π : Path) (manner : Manner p) (hbyte : π.distance ≤ 255) :
    π.Carries p (π.log manner) := by
  have hnone : π.Carries p [] := by
    intro a time D b hlog
    cases a with
    | nil => cases hlog
    | cons e a => cases hlog
  have hle : π.lines p ≤ π.distance := Nat.min_le_left _ _
  exact hnone.lines (by omega : 0 + π.lines p ≤ 255)

end Carries

/-! ## What is printed -/

/-- What a log leaves on the screen. -/
def prints (log : List Event) : List Event :=
  log.filter fun
    | .print _ | .printInt _ => true
    | _ => false

/-- A line with the same text for every attempt. -/
def screenLine (p : Parameters) (n : Int) (text : String) : List Event :=
  .printInt n :: List.replicate p.attempts.toNat (.print text) ++ [.print "\n"]

/-- Stars for a router, the address for the destination. -/
def Path.tokenOf (π : Path) (p : Parameters) (hops : Int) : String :=
  if (hops - 1).toNat < π.routers.length then "  *" else "  " ++ hostText p.dstIp

/-- The lines up to the one of the destination. -/
def Path.screen (π : Path) (p : Parameters) : List Event :=
  (List.range (π.lines p)).flatMap fun (i : Nat) => screenLine p (i + 1) (π.tokenOf p (i + 1))

section Prints

variable {π : Path} {p : Parameters} {manner : Manner p} {hops : Int}

theorem prints_append (log log' : List Event) : prints (log ++ log') = prints log ++ prints log' :=
  List.filter_append log log'

theorem prints_attempt (count : Nat) :
    prints (π.attemptLog manner hops count) = [.print (π.tokenOf p hops)] := by
  unfold Path.tokenOf
  cases hrouter : π.routers[(hops - 1).toNat]? with
  | some router =>
    rw [(attempt_router hrouter).1, if_pos (List.getElem?_eq_some_iff.mp hrouter).1]
    rfl
  | none =>
    rw [(attempt_destination hrouter).1,
      if_neg (Nat.not_lt.mpr (List.getElem?_eq_none_iff.mp hrouter))]
    rfl

theorem prints_attempts (k count : Nat) :
    prints (π.attemptsLog manner hops k count) = List.replicate k (.print (π.tokenOf p hops)) := by
  induction k generalizing count with
  | zero => rfl
  | succ k ih =>
    rw [Path.attemptsLog, prints_append, prints_attempt, ih, List.replicate_succ]
    rfl

theorem prints_line (count : Nat) :
    prints (π.lineLog manner hops count) = screenLine p hops (π.tokenOf p hops) := by
  have hnumber : prints [.printInt hops] = [.printInt hops] := rfl
  have hend : prints [.print "\n"] = [.print "\n"] := rfl
  rw [Path.lineLog, ← List.singleton_append, prints_append, prints_append, hnumber, hend,
    prints_attempts]
  rfl

theorem prints_lines (n i : Nat) :
    prints (π.linesLog manner n i) =
      (List.range' i n).flatMap fun (i : Nat) => screenLine p (i + 1) (π.tokenOf p (i + 1)) := by
  induction n generalizing i with
  | zero => rfl
  | succ n ih =>
    rw [Path.linesLog, prints_append, prints_line, ih, List.range'_succ, List.flatMap_cons]

/-- The run on a path that answers every probe in time. -/
theorem run_path (π : Path) (manner : Manner p) (hsrc : p.srcIp.length = 16)
    (hdst : p.dstIp.length = 16) (hattempts : 1 ≤ p.attempts) (hmax : p.attempts ≤ 2 ^ 31 - 2)
    (hbyte : π.distance ≤ 255) {fuel : Nat} (hfuel : π.lines p + p.attempts.toNat < fuel + 2) :
    ∃ w', (run (fuel + 2) p).run (World.start (results (π.log manner)) (π.answers manner)) =
        (.ok (), w') ∧ w'.log = π.log manner := by
  rw [run, Comp.modify_bind, Comp.modify_bind]
  have hnear : decide (π.distance ≤ 0) = false := decide_eq_false (Nat.not_succ_le_zero _)
  have hon : On p { World.start (results (π.log manner)) (π.answers manner) with
      myIP := p.srcIp, timeout := int32 (p.timeout * 1000) } (0 * p.attempts.toNat)
      (decide (π.distance ≤ 0)) [] (results (π.log manner)) (π.answers manner) := by
    rw [hnear, Nat.zero_mul]
    exact ⟨rfl, rfl, rfl, rfl, rfl, rfl⟩
  exact hopsLoop_path hsrc hdst hattempts hmax hbyte (by omega) (Nat.zero_add _) (by omega)
    Locals.kept_new hon

end Prints

/-! ## What a run shows -/

/-- Whatever is lost, late, doubled or out of order on the path, whatever else comes that the tool's
    tests reject, and however the run ends: no router is shown, the destination on no line before
    its distance, and no line is begun after it. -/
theorem path_shown (π : Path) (p : Parameters) (hsrc : p.srcIp.length = 16)
    (hdst : p.dstIp.length = 16) (hlimit : p.hopLimit < 2 ^ 31 - 1) (fuel : Nat)
    (written : List Int) (answers : List Answer)
    (hcarries : π.Carries p ((run fuel p).run (World.start written answers)).2.log) :
    Shown π p ((run fuel p).run (World.start written answers)).2.log := by
  obtain ⟨s, htrace⟩ := run_broken hsrc hdst fuel written answers
  have hat := @trace_shownAt p π _ s hsrc hdst hlimit htrace
  have hbefore : ∀ a e b, ((run fuel p).run (World.start written answers)).2.log = a ++ e :: b →
      π.Carries p a := by
    intro a e b hlog a' time D b' ha
    refine hcarries a' time D (b' ++ e :: b) ?_
    rw [hlog, ha, List.append_assoc]
    rfl
  constructor
  · intro a text b hlog
    exact hat a _ b hlog (hbefore a _ b hlog)
  · intro a n b hlog
    exact hat a _ b hlog (hbefore a _ b hlog)

/-- A path with one router. -/
def pathDemo : Path where
  routers := [0x20 :: zeros 14 ++ [1]]
  addresses := by decide

/-- Every answer comes after 800 ms. -/
def mannerDemo : Manner attemptDemo where
  label _ := zeros 3
  hopLimit _ := 64
  code _ := 0
  left _ := int32 (attemptDemo.timeout * 1000) - 800
  label_length _ := rfl
  timeout_pos := by decide
  inTime _ := by decide

/-- What is read of a path with one router. -/
theorem path_shown_demo : ∃ fuel written answers,
    pathDemo.Carries attemptDemo
      ((run fuel attemptDemo).run (World.start written answers)).2.log ∧
    .print ("  " ++ hostText attemptDemo.dstIp) ∈
      ((run fuel attemptDemo).run (World.start written answers)).2.log ∧
    Shown pathDemo attemptDemo
      ((run fuel attemptDemo).run (World.start written answers)).2.log := by
  obtain ⟨w', hrun, hlog⟩ := @run_path attemptDemo pathDemo mannerDemo rfl rfl (by decide)
    (by decide) (by decide) 2 (by decide)
  have hcarries : pathDemo.Carries attemptDemo ((run 4 attemptDemo).run (World.start
      (results (pathDemo.log mannerDemo)) (pathDemo.answers mannerDemo))).2.log := by
    rw [hrun, hlog]
    exact pathDemo.carries_log mannerDemo (by decide)
  refine ⟨4, _, _, hcarries, ?_, path_shown pathDemo attemptDemo rfl rfl (by decide) 4 _ _ hcarries⟩
  rw [hrun, hlog]
  have hshown : .print ("  " ++ hostText attemptDemo.dstIp) ∈ prints (pathDemo.log mannerDemo) := by
    rw [Path.log, prints_lines]
    exact List.mem_of_getElem? (i := 4) rfl
  exact (List.mem_filter.mp hshown).1

/-- On a path that answers every probe in time, and is no longer than a Hop Limit can count, the run
    completes; it prints a line of stars for each router and one of addresses for the destination,
    as far as it is allowed to go. -/
theorem path_printed (π : Path) {p : Parameters} (manner : Manner p) (hsrc : p.srcIp.length = 16)
    (hdst : p.dstIp.length = 16) (hattempts : 1 ≤ p.attempts) (hmax : p.attempts ≤ 2 ^ 31 - 2)
    (hbyte : π.distance ≤ 255) :
    ∃ N, ∀ fuel, N ≤ fuel → ∃ w',
      (run fuel p).run (World.start (results (π.log manner)) (π.answers manner)) = (.ok (), w') ∧
      w'.log = π.log manner ∧ π.Carries p w'.log ∧ prints w'.log = π.screen p := by
  refine ⟨π.lines p + p.attempts.toNat + 2, ?_⟩
  intro fuel hfuel
  obtain ⟨n, rfl⟩ : ∃ n, fuel = n + 2 := ⟨fuel - 2, by omega⟩
  obtain ⟨w', hrun, hlog⟩ := run_path π manner hsrc hdst hattempts hmax hbyte (by omega : _ < n + 2)
  refine ⟨w', hrun, hlog, ?_, ?_⟩
  · rw [hlog]
    exact π.carries_log manner hbyte
  · rw [hlog, Path.log, prints_lines, Path.screen, List.range_eq_range']

/-- The screen for a path with one router. -/
theorem path_printed_demo :
    (∃ N, ∀ fuel, N ≤ fuel → ∃ w', (run fuel attemptDemo).run (World.start
        (results (pathDemo.log mannerDemo)) (pathDemo.answers mannerDemo)) = (.ok (), w') ∧
      w'.log = pathDemo.log mannerDemo ∧ pathDemo.Carries attemptDemo w'.log ∧
      prints w'.log = pathDemo.screen attemptDemo) ∧
    pathDemo.screen attemptDemo =
      [.printInt 1, .print "  *", .print "\n",
        .printInt 2, .print ("  " ++ hostText attemptDemo.dstIp), .print "\n"] :=
  ⟨path_printed pathDemo mannerDemo rfl rfl (by decide) (by decide) (by decide), rfl⟩

end Grnvs.Trace
