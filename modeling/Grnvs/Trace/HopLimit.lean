/-
  The Hop Limits of the probes.

  The line counter is an `int`, and its lowest byte goes into the header. The numbers of the lines
  increase from 1 on as long as none is above 255 (`Numbered`), and then every probe carries the number
  of its line. Line 256 is begun when `hopLimit` allows it and 255 lines of attempts have timed out,
  and its probes carry the Hop Limit 0 (`run_timeouts`). A line of 2^31 - 1 attempts never ends, because
  the counter of the attempts wraps; so these runs stay on line 1.
-/
import Grnvs.Trace.Output

namespace Grnvs.Trace

open Bytes

/-- The numbers of the lines in a log. -/
def numbers (log : List Event) : List Int :=
  log.filterMap fun
    | .printInt n => some n
    | _ => none

@[simp] theorem numbers_append (log log' : List Event) :
    numbers (log ++ log') = numbers log ++ numbers log' := List.filterMap_append

theorem numbers_quiet {events : List Event} (h : ∀ n, .printInt n ∉ events) :
    numbers events = [] := by
  rw [numbers, List.filterMap_eq_nil_iff]
  intro e he
  cases e with
  | printInt n => exact absurd he (h n)
  | _ => rfl

theorem mem_numbers {log : List Event} {n : Int} : n ∈ numbers log ↔ .printInt n ∈ log := by
  rw [numbers, List.mem_filterMap]
  constructor
  · rintro ⟨e, he, hn⟩
    cases e with
    | printInt m => exact Option.some.inj hn ▸ he
    | _ => cases hn
  · exact fun h => ⟨_, h, rfl⟩

theorem mem_numbers_of_lineOf {log : List Event} {n : Int} (h : lineOf log = some n) :
    n ∈ numbers log := List.mem_of_getLast? h

/-- What is expected of the Hop Limits in a log. -/
structure HopLimits (log : List Event) : Prop where
  exact : ∀ before bs behind, log = before ++ .write bs :: behind →
    ∃ (n : Int) (b : Byte), lineOf before = some n ∧ bs[7]? = some b ∧ (b.toNat : Int) = n
  nonzero : ∀ bs, .write bs ∈ log → bs[7]? ≠ some 0
  increasing : ∀ before bs between bs' behind,
    log = before ++ .write bs :: (between ++ .write bs' :: behind) →
    (∃ n, .printInt n ∈ between) → ∃ b b', bs[7]? = some b ∧ bs'[7]? = some b' ∧ b < b'

/-! ## Lines up to 255 -/

/-- The parameters with which no line above 255 is begun. -/
def Parameters.Low (p : Parameters) : Prop := p.hopLimit ≤ 255 ∨ 2147483647 ≤ p.attempts

/-- The numbers so far, for every phase. -/
structure Numbered (p : Parameters) (log : List Event) (s : Progress) : Prop where
  increasing : (numbers log).Pairwise (· < ·)
  bounded : ∀ n ∈ numbers log, 1 ≤ n ∧ n ≤ 255
  between : s.phase = .between → 1 ≤ s.hops ∧ s.hops ≤ 256 ∧ (255 < p.hopLimit → s.hops = 1) ∧
    ∀ n ∈ numbers log, n < s.hops
  within : ∀ attempt, s.phase = .sending attempt ∨ s.phase = .waiting attempt →
    1 ≤ s.hops ∧ s.hops ≤ 255 ∧ attempt ≤ 2147483647 ∧ ∀ n ∈ numbers log, n ≤ s.hops

section Numbered

variable {p : Parameters} {log events : List Event} {s s' : Progress}

/-- A step inside a line. -/
theorem Numbered.inside (h : Numbered p log s) (hprint : ∀ n, .printInt n ∉ events)
    (hphase : ∃ attempt, s.phase = .sending attempt ∨ s.phase = .waiting attempt)
    (hhops : s'.hops = s.hops) (hbetween : s'.phase ≠ .between)
    (hwithin : ∀ attempt, s'.phase = .sending attempt ∨ s'.phase = .waiting attempt →
      attempt ≤ 2147483647) : Numbered p (log ++ events) s' := by
  obtain ⟨attempt, hphase⟩ := hphase
  obtain ⟨h1, h2, -, h4⟩ := h.within attempt hphase
  have hnumbers : numbers (log ++ events) = numbers log := by
    rw [numbers_append, numbers_quiet hprint, List.append_nil]
  refine ⟨?_, ?_, fun hb => absurd hb hbetween, fun a ha => ?_⟩
  · rw [hnumbers]
    exact h.increasing
  · rw [hnumbers]
    exact h.bounded
  · rw [hhops, hnumbers]
    exact ⟨h1, h2, hwithin a ha, h4⟩

theorem int32_le (i : Int) : int32 i ≤ 2147483647 := by
  rw [int32, Int.bmod_def]
  omega

/-- A line is begun with a number that no line had. -/
theorem Numbered.line {hops : Int} {count : Nat} (h : Numbered p log ⟨.between, hops, count, false⟩)
    (hle : hops ≤ p.hopLimit) :
    Numbered p (log ++ [.printInt hops]) ⟨.sending 1, hops, count, false⟩ := by
  obtain ⟨h1, h2, h3, h4⟩ := h.between rfl
  have hhops : hops ≤ 255 := by
    by_contra hgt
    have hone : hops = 1 := h3 (by omega)
    omega
  have hnumbers : numbers (log ++ [.printInt hops]) = numbers log ++ [hops] := numbers_append _ _
  refine ⟨?_, ?_, nofun, fun attempt hphase => ⟨h1, hhops, ?_, ?_⟩⟩
  · rw [hnumbers, List.pairwise_append]
    refine ⟨h.increasing, List.pairwise_singleton _ _, fun n hn m hm => ?_⟩
    rw [List.mem_singleton.mp hm]
    exact h4 n hn
  · intro n hn
    rw [hnumbers, List.mem_append, List.mem_singleton] at hn
    rcases hn with hn | rfl
    · exact h.bounded n hn
    · exact ⟨h1, hhops⟩
  · rcases hphase with hphase | hphase
    · cases hphase
      decide
    · cases hphase
  · intro n hn
    rw [hnumbers, List.mem_append, List.mem_singleton] at hn
    rcases hn with hn | rfl
    · exact Int.le_of_lt (h4 n hn)
    · exact Int.le_refl _

/-- A line is ended, and the next number is greater than all so far. -/
theorem Numbered.newline {attempt hops : Int} {count : Nat} {stop : Bool} (hp : p.Low)
    (h : Numbered p log ⟨.sending attempt, hops, count, stop⟩) (ha : p.attempts < attempt) :
    Numbered p (log ++ [.print "\n"]) ⟨.between, int32 (hops + 1), count, stop⟩ := by
  obtain ⟨h1, h2, h3, h4⟩ := h.within attempt (.inl rfl)
  have hnumbers : numbers (log ++ [.print "\n"]) = numbers log := by
    rw [numbers_append]
    exact List.append_nil _
  have h1' : 1 ≤ hops := h1
  have h2' : hops ≤ 255 := h2
  have hnext : int32 (hops + 1) = hops + 1 := int32_of_range (by omega) (by omega)
  rw [hnext]
  refine ⟨?_, ?_, fun _ => ⟨Int.le_add_one h1', Int.add_le_add_right h2' 1, fun hlimit => ?_,
    fun n hn => ?_⟩, fun a hphase => ?_⟩
  · rw [hnumbers]
    exact h.increasing
  · rw [hnumbers]
    exact h.bounded
  · -- with that many attempts the line does not end
    rcases hp with hp | hp
    · omega
    · omega
  · rw [hnumbers] at hn
    exact Int.lt_add_one_of_le (h4 n hn)
  · rcases hphase with hphase | hphase
    · cases hphase
    · cases hphase

/-- An attempt is over, and no number has been printed for it. -/
theorem Numbered.answered {attempt hops : Int} {count : Nat} {stop : Bool}
    (h : Numbered p log ⟨.waiting attempt, hops, count, stop⟩)
    (hprint : ∀ n, .printInt n ∉ events) (stop' : Bool) :
    Numbered p (log ++ events) ⟨.sending (int32 (attempt + 1)), hops, count, stop'⟩ := by
  refine h.inside hprint ⟨attempt, .inr rfl⟩ rfl nofun fun a hphase => ?_
  rcases hphase with hphase | hphase
  · cases hphase
    exact int32_le _
  · cases hphase

theorem Numbered.step (hp : p.Low) (h : Numbered p log s) (hs : Step p s events s') :
    Numbered p (log ++ events) s' := by
  cases hs with
  | line hle => exact h.line hle
  | @send attempt hops count stop ha =>
    refine h.inside (by simp) ⟨attempt, .inl rfl⟩ rfl nofun fun a hphase => ?_
    rcases hphase with hphase | hphase
    · cases hphase
    · cases hphase
      exact (h.within attempt (.inl rfl)).2.2.1
  | @ignore attempt hops count stop D time hD hp =>
    refine h.inside (by simp) ⟨attempt, .inr rfl⟩ rfl nofun fun a hphase => ?_
    exact (h.within a hphase).2.2.1
  | timeout => exact h.answered (by simp) _
  | accept => exact h.answered (by simp) _
  | newline ha => exact h.newline hp ha
  | @failedWrite attempt hops count stop text bytes =>
    exact h.inside (by simp) ⟨attempt, .inr rfl⟩ rfl nofun (by simp)
  | @failedRead attempt hops count stop time n =>
    exact h.inside (by simp) ⟨attempt, .inr rfl⟩ rfl nofun (by simp)
  | @throws attempt hops count stop D time hD =>
    exact h.inside (by simp) ⟨attempt, .inr rfl⟩ rfl nofun (by simp)

theorem trace_numbered (hp : p.Low) (h : (tool p).Trace log s) : Numbered p log s := by
  apply h.invariant
  · have hone : (tool p).start.hops = 1 := rfl
    refine ⟨List.Pairwise.nil, by simp [numbers], fun _ => ?_, ?_⟩
    · rw [hone]
      exact ⟨Int.le_refl 1, by decide, fun _ => rfl, by simp [numbers]⟩
    · rintro attempt (hphase | hphase)
      · cases hphase
      · cases hphase
  · intro log s events s' hI hs
    exact hI.step hp hs

/-- The byte of the Hop Limit. -/
theorem probe_hopLimit (src dst : List Byte) (hops : Int) (sequence : UInt16) :
    (probe src dst hops sequence)[7]? = some (toByte hops) := rfl

theorem toByte_toNat {n : Int} (h1 : 0 ≤ n) (h2 : n ≤ 255) : ((toByte n).toNat : Int) = n := by
  have hn : (toByte n).toNat = (n % 256).toNat % 256 := UInt8.toNat_ofNat'
  omega

/-- Up to line 255 every probe carries the number of its line. -/
theorem trace_exact (hp : p.Low) (h : (tool p).Trace log s) {before behind : List Event}
    {bs : List Byte} (hlog : log = before ++ .write bs :: behind) :
    ∃ (n : Int) (b : Byte), lineOf before = some n ∧ bs[7]? = some b ∧ (b.toNat : Int) = n ∧
      1 ≤ n := by
  obtain ⟨n, hline, hbs⟩ := trace_write h hlog
  have hn : n ∈ numbers log := by
    rw [hlog, numbers_append]
    exact List.mem_append_left _ (mem_numbers_of_lineOf hline)
  obtain ⟨h1, h2⟩ := (trace_numbered hp h).bounded n hn
  exact ⟨n, toByte n, hline, by rw [hbs, probe_hopLimit], toByte_toNat (by omega) h2, h1⟩

theorem trace_hopLimits (hp : p.Low) (h : (tool p).Trace log s) : HopLimits log := by
  refine ⟨fun before bs behind hlog => ?_, fun bs hbs hzero => ?_,
    fun before bs between bs' behind hlog hnumber => ?_⟩
  · obtain ⟨n, b, h1, h2, h3, -⟩ := trace_exact hp h hlog
    exact ⟨n, b, h1, h2, h3⟩
  · obtain ⟨before, behind, hlog⟩ := List.append_of_mem hbs
    obtain ⟨n, b, -, hb, hn, h1⟩ := trace_exact hp h hlog
    rw [hzero] at hb
    cases hb
    rw [← hn] at h1
    exact absurd h1 (by decide)
  · have hlog' : log = (before ++ .write bs :: between) ++ .write bs' :: behind := by
      rw [hlog, List.append_assoc, List.cons_append]
    obtain ⟨n, b, hline, hb, hn, -⟩ := trace_exact hp h hlog
    obtain ⟨n', b', hline', hb', hn', -⟩ := trace_exact hp h hlog'
    refine ⟨b, b', hb, hb', ?_⟩
    have hmem : n ∈ numbers before := mem_numbers_of_lineOf hline
    have hmem' : n' ∈ numbers between := by
      obtain ⟨m, hm⟩ := hnumber
      have hne : numbers between ≠ [] := List.ne_nil_of_mem (mem_numbers.mpr hm)
      have hlast : (numbers before ++ numbers between).getLast? = some n' := by
        rw [← hline', ← numbers_append]
        change _ = (numbers (before ++ .write bs :: between)).getLast?
        rw [numbers_append, numbers_append]
        rfl
      rw [List.getLast?_append_of_ne_nil _ hne] at hlast
      exact List.mem_of_getLast? hlast
    have hpair := (trace_numbered hp h).increasing
    rw [hlog, numbers_append] at hpair
    have hmem'' : n' ∈ numbers (.write bs :: (between ++ .write bs' :: behind)) := by
      rw [mem_numbers] at hmem' ⊢
      exact List.mem_cons_of_mem _ (List.mem_append_left _ hmem')
    have hlt := (List.pairwise_append.mp hpair).2.2 n hmem n' hmem''
    rw [UInt8.lt_iff_toNat_lt]
    omega

/-- Without attempts nothing is written. -/
theorem trace_silent (hp : p.attempts ≤ 0) (h : (tool p).Trace log s) :
    (∀ bs, .write bs ∉ log) ∧ (s.phase = .between ∨ s.phase = .sending 1) := by
  apply h.invariant
  · exact ⟨by simp, .inl rfl⟩
  · intro log s events s' hI hs
    obtain ⟨hlog, hphase⟩ := hI
    have hone (attempt : Int) (ha : s.phase = .sending attempt) : attempt = 1 := by
      rcases hphase with hphase | hphase
      · rw [hphase] at ha
        cases ha
      · rw [hphase] at ha
        exact (Phase.sending.inj ha).symm
    have hwaiting (attempt : Int) : s.phase ≠ .waiting attempt := by
      rcases hphase with hphase | hphase
      · rw [hphase]
        exact nofun
      · rw [hphase]
        exact nofun
    cases hs with
    | line => exact ⟨by simpa using hlog, .inr rfl⟩
    | @send attempt hops count stop ha =>
      have := hone attempt rfl
      omega
    | newline => exact ⟨by simpa using hlog, .inl rfl⟩
    | ignore => exact absurd rfl (hwaiting _)
    | timeout => exact absurd rfl (hwaiting _)
    | accept => exact absurd rfl (hwaiting _)
    | failedWrite => exact absurd rfl (hwaiting _)
    | failedRead => exact absurd rfl (hwaiting _)
    | throws => exact absurd rfl (hwaiting _)

theorem hopLimits_silent (h : ∀ bs, .write bs ∉ log) : HopLimits log := by
  refine ⟨fun before bs behind hlog => ?_, fun bs hbs => absurd hbs (h bs),
    fun before bs between bs' behind hlog => ?_⟩
  · exact absurd (hlog ▸ List.mem_append_right _ List.mem_cons_self) (h bs)
  · exact absurd (hlog ▸ List.mem_append_right _ List.mem_cons_self) (h bs)

end Numbered

/-! ## Line 256 -/

section Timeouts

variable {fuel : Nat} {p : Parameters} {hops : Int} {w : World} {written : List Int}
  {answers : List Answer}

variable (fuel hops) in
/-- `k` attempts that time out. -/
theorem attemptLoop_timeouts (hsrc : p.srcIp.length = 16) (hdst : p.dstIp.length = 16)
    (hmax : p.attempts < 2147483647) {k : Nat} (n : Nat) (hk : k < n) {attempt : Int} (ha : 0 ≤ attempt)
    (hattempt : attempt + k = p.attempts + 1) {l : Locals} (hl : l.Kept)
    (hwritten : w.written = List.replicate k 1 ++ written)
    (hanswers : w.answers = List.replicate k ⟨.bytes [], 0⟩ ++ answers) :
    ∃ l' w', (attemptLoop (fuel + 1) p hops n attempt l).run w = (.ok l', w') ∧ l'.Kept ∧
      w'.written = written ∧ w'.answers = answers ∧ w'.stopProbes = w.stopProbes := by
  induction k generalizing n attempt l w with
  | zero =>
    obtain ⟨m, rfl⟩ : ∃ m, n = m + 1 := ⟨n - 1, by omega⟩
    rw [attemptLoop, if_neg (by omega)]
    exact ⟨l, w, rfl, hl, hwritten, hanswers, rfl⟩
  | succ k ih =>
    obtain ⟨m, rfl⟩ : ∃ m, n = m + 1 := ⟨n - 1, by omega⟩
    rw [List.replicate_succ, List.cons_append] at hwritten hanswers
    obtain ⟨hnil, -⟩ | ⟨ret, rest, hw, hsend⟩ := sendProbe_cases hsrc hdst hops hl w
    · rw [hwritten] at hnil
      cases hnil
    rw [hwritten] at hw
    cases hw
    obtain ⟨-, l', hl', hsend⟩ | ⟨hle, -⟩ := hsend
    · have hb : (probe p.srcIp p.dstIp hops w.sequenceNumber ++ zeros 1466).length = 1514 := by
        rw [List.length_append, probe_length hsrc hdst, zeros_length]
      have hread : (readLoop (fuel + 1) (fuel + 1) (probe p.srcIp p.dstIp hops w.sequenceNumber ++
          zeros 1466)).run (w.sent p hops (List.replicate k 1 ++ written)) = _ :=
        readLoop_timeout hb (w := w.sent p hops (List.replicate k 1 ++ written)) hanswers
      rw [attemptLoop, if_pos (by omega), Comp.bind_ok hsend]
      dsimp only
      rw [Comp.bind_ok hread, int32_of_range (by omega) (by omega)]
      exact ih m (by omega) (by omega) (by omega) hl' rfl rfl
    · exact absurd hle (by decide)

variable (fuel hops) in
/-- `j` lines of timeouts. -/
theorem hopsLoop_timeouts (hsrc : p.srcIp.length = 16) (hdst : p.dstIp.length = 16)
    (hmax : p.attempts < 2147483647) {k : Nat} (hattempts : p.attempts = k) (hk : k ≤ fuel)
    (j n : Nat) (hhops : 0 ≤ hops) (hlimit : hops + j ≤ p.hopLimit + 1) (hj : hops + j ≤ 256)
    {l : Locals} (hl : l.Kept) (hstop : w.stopProbes = false)
    (hwritten : w.written = List.replicate (j * k) 1 ++ written)
    (hanswers : w.answers = List.replicate (j * k) ⟨.bytes [], 0⟩ ++ answers) :
    ∃ l' w', (hopsLoop (fuel + 1) p (n + j) hops l).run w =
        (hopsLoop (fuel + 1) p n (hops + j) l').run w' ∧ l'.Kept ∧
      w'.written = written ∧ w'.answers = answers ∧ w'.stopProbes = false := by
  induction j generalizing hops l w with
  | zero =>
    rw [Nat.zero_mul] at hwritten hanswers
    refine ⟨l, w, ?_, hl, hwritten, hanswers, hstop⟩
    simp only [Nat.add_zero, Int.natCast_zero, Int.add_zero]
  | succ j ih =>
    rw [Nat.succ_mul, Nat.add_comm, List.replicate_add, List.append_assoc] at hwritten hanswers
    obtain ⟨l₁, w₁, hrun, hl₁, hwritten₁, hanswers₁, hstop₁⟩ :=
      attemptLoop_timeouts fuel hops hsrc hdst hmax (fuel + 1) (by omega)
        (by decide : (0 : Int) ≤ 1) (by omega : 1 + (k : Int) = p.attempts + 1) hl
        (w := w.note (.printInt hops)) hwritten hanswers
    have hnext : int32 (hops + 1) = hops + 1 := int32_of_range (by omega) (by omega)
    obtain ⟨l₂, w₂, hrest, hkept⟩ :=
      ih (hops + 1) (by omega) (by omega) (by omega) hl₁ (w := w₁.note (.print "\n"))
        (hstop₁.trans hstop) hwritten₁ hanswers₁
    refine ⟨l₂, w₂, ?_, hkept⟩
    rw [← Nat.add_assoc, hopsLoop, Comp.gets_bind, if_pos ⟨hstop, by omega⟩,
      Comp.bind_ok (emit_run _ _), Comp.bind_ok hrun, Comp.bind_ok (emit_run _ _), hnext, hrest]
    congr 2
    omega

variable (fuel hops) in
/-- The first attempt of a line whose answer is still to come. -/
theorem hopsLoop_waiting (hsrc : p.srcIp.length = 16) (hdst : p.dstIp.length = 16)
    (hattempts : 1 ≤ p.attempts) (hlimit : hops ≤ p.hopLimit) (n : Nat) {l : Locals} (hl : l.Kept)
    (hstop : w.stopProbes = false) (hwritten : w.written = [1]) (hanswers : w.answers = []) :
    ∃ w', (hopsLoop (fuel + 1) p (n + 1) hops l).run w = (.error .waiting, w') ∧
      w'.log = (w.log ++ [.printInt hops]) ++
        [.write (probe p.srcIp p.dstIp hops w.sequenceNumber)] := by
  obtain ⟨hnil, -⟩ | ⟨ret, rest, hw, hsend⟩ :=
    sendProbe_cases hsrc hdst hops hl (w.note (.printInt hops))
  · rw [show (w.note (.printInt hops)).written = [1] from hwritten] at hnil
    cases hnil
  rw [show (w.note (.printInt hops)).written = [1] from hwritten] at hw
  cases hw
  obtain ⟨-, l', hl', hsend⟩ | ⟨hle, -⟩ := hsend
  · refine ⟨(w.note (.printInt hops)).sent p hops [], ?_, rfl⟩
    rw [hopsLoop, Comp.gets_bind, if_pos ⟨hstop, hlimit⟩, Comp.bind_ok (emit_run _ _)]
    apply Comp.bind_error
    rw [attemptLoop, if_pos hattempts, Comp.bind_ok hsend]
    dsimp only
    apply Comp.bind_error
    rw [readLoop]
    exact Comp.bind_error (read_waiting hanswers)
  · exact absurd hle (by decide)

/-- After `j` lines of timeouts the first probe of the next line is written. -/
theorem run_timeouts (hsrc : p.srcIp.length = 16) (hdst : p.dstIp.length = 16) {k : Nat} (hk : 1 ≤ k)
    (hattempts : p.attempts = k) (hmax : k < 2147483647) {j : Nat} (hj : j ≤ 255)
    (hlimit : j < p.hopLimit) :
    ∃ fuel before sequence w', (run fuel p).run (World.start (List.replicate (j * k) 1 ++ [1])
        (List.replicate (j * k) ⟨.bytes [], 0⟩)) = (.error .waiting, w') ∧
      w'.log = (before ++ [.printInt (1 + j)]) ++ [.write (probe p.srcIp p.dstIp (1 + j) sequence)] := by
  let w₀ : World := { World.start (List.replicate (j * k) 1 ++ [1])
    (List.replicate (j * k) ⟨.bytes [], 0⟩) with
    myIP := p.srcIp, timeout := int32 (p.timeout * 1000) }
  have hwritten₀ : w₀.written = List.replicate (j * k) 1 ++ [1] := rfl
  have hanswers₀ : w₀.answers = List.replicate (j * k) ⟨.bytes [], 0⟩ ++ [] :=
    (List.append_nil _).symm
  obtain ⟨l, w, hrun, hl, hwritten, hanswers, hstop⟩ :=
    hopsLoop_timeouts (k + j) 1 hsrc hdst (by omega) hattempts (by omega) j (k + 1) (by decide)
      (by omega) (by omega) Locals.kept_new (rfl : w₀.stopProbes = false) hwritten₀ hanswers₀
  have hturns : k + 1 + j = k + j + 1 := by omega
  rw [hturns] at hrun
  obtain ⟨w', hwait, hlog⟩ :=
    hopsLoop_waiting (k + j) (1 + j) hsrc hdst (by omega) (by omega) k hl hstop hwritten hanswers
  refine ⟨k + j + 1, w.log, w.sequenceNumber, w', ?_, hlog⟩
  rw [run, Comp.modify_bind, Comp.modify_bind]
  exact hrun.trans hwait

end Timeouts

/-! ## Results -/

/-- A run that has completed, waits for a call, or was given too few turns. -/
def Unaborted {α : Type} (r : Except Stop α × World) : Prop :=
  ∀ e, r.1 = .error e → e = .fuel ∨ e = .waiting

theorem unaborted_waiting {α : Type} (w : World) :
    Unaborted ((.error .waiting, w) : Except Stop α × World) := by
  intro e he
  exact .inr (Except.error.inj he).symm

/-- A probe of line 256 has the Hop Limit 0. -/
theorem not_hopLimits {before : List Event} {src dst : List Byte} {sequence : UInt16} :
    ¬ HopLimits (before ++ [.write (probe src dst 256 sequence)]) := by
  intro h
  apply h.nonzero (probe src dst 256 sequence)
  · exact List.mem_append_right _ List.mem_cons_self
  · exact probe_hopLimit src dst 256 sequence

/-- The Hop Limits are the numbers of the lines in every run, when the number of lines is at most
    255, or nothing is sent, or the first line never ends. -/
theorem hopLimits_iff (p : Parameters) (hsrc : p.srcIp.length = 16) (hdst : p.dstIp.length = 16) :
    (∀ fuel written answers, Unaborted ((run fuel p).run (World.start written answers)) →
      HopLimits ((run fuel p).run (World.start written answers)).2.log) ↔
    p.hopLimit ≤ 255 ∨ p.attempts ≤ 0 ∨ 2147483647 ≤ p.attempts := by
  constructor
  · intro h
    by_contra hno
    obtain ⟨k, hk⟩ := Int.eq_ofNat_of_zero_le (by omega : 0 ≤ p.attempts)
    obtain ⟨fuel, before, sequence, w', hrun, hlog⟩ :=
      run_timeouts hsrc hdst (k := k) (by omega) hk (by omega) (j := 255) (Nat.le_refl _) (by omega)
    have hlimits := h fuel _ _ (hrun ▸ unaborted_waiting w')
    rw [hrun] at hlimits
    dsimp only at hlimits
    rw [hlog] at hlimits
    exact not_hopLimits hlimits
  · intro h fuel written answers _
    obtain ⟨s, htrace⟩ := run_broken hsrc hdst fuel written answers
    rcases h with h | h | h
    · exact trace_hopLimits (.inl h) htrace
    · exact hopLimits_silent (trace_silent h htrace).1
    · exact trace_hopLimits (.inr h) htrace

/-- The first line of the demo run timed out. -/
theorem hopLimits_demo : ∃ fuel w', (run fuel parametersDemo).run (World.start [1, 1, 1, 1]
    [⟨.bytes [], 0⟩, ⟨.bytes [], 0⟩, ⟨.bytes [], 0⟩]) = (.error .waiting, w') ∧
      HopLimits w'.log := by
  have hlow := (hopLimits_iff parametersDemo rfl rfl).mpr (.inl (by decide))
  obtain ⟨fuel, before, sequence, w', hrun, -⟩ :=
    @run_timeouts parametersDemo rfl rfl 3 (by decide) rfl (by decide) 1 (by decide) (by decide)
  have hlimits := hlow fuel _ _ (hrun ▸ unaborted_waiting w')
  rw [hrun] at hlimits
  exact ⟨fuel, w', hrun, hlimits⟩

/-- With `-m 300` and no answers, line 256 is printed in front of a probe with Hop Limit 0. -/
theorem hopLimit_zero :
    ∃ fuel before bs w', (run fuel { parametersDemo with hopLimit := 300 }).run
        (World.start (List.replicate 766 1) (List.replicate 765 ⟨.bytes [], 0⟩)) =
      (.error .waiting, w') ∧
    w'.log = (before ++ [.printInt 256]) ++ [.write bs] ∧ bs[7]? = some 0 ∧ ¬ HopLimits w'.log := by
  obtain ⟨fuel, before, sequence, w', hrun, hlog⟩ :=
    @run_timeouts { parametersDemo with hopLimit := 300 } rfl rfl 3 (by decide) rfl (by decide) 255
      (by decide) (by decide)
  have hwritten : List.replicate (255 * 3) (1 : Int) ++ [1] = List.replicate 766 1 := by
    rw [← List.replicate_succ']
  rw [hwritten] at hrun
  refine ⟨fuel, before, _, w', hrun, hlog, probe_hopLimit _ _ _ _, ?_⟩
  rw [hlog]
  exact not_hopLimits

end Grnvs.Trace
