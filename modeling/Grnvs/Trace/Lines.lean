/-
  The lines trace6 prints.

  A log of a run is cut into lines and attempts (`Line`, `Attempt`). `Layout` says how far the
  machine has come in it, for every phase: the complete lines, the attempts of the line that is
  being printed, and the datagrams of the attempt that is waiting. One step leads from one layout to
  the next (`Layout.step`) as long as the numbers do not wrap and no datagram is misread, so a run
  that completes has printed nothing but lines (`run_lines`).
-/
import Grnvs.Trace.Output

namespace Grnvs.Trace

open Bytes OnesComplement

/-- An attempt: the probe, the datagrams that were read and rejected with the timeouts of their
    reads, and what the last read returned, nothing or a datagram that was accepted. -/
structure Attempt where
  probe : List Byte
  ignored : List (Int × List Byte)
  time : Int
  last : List Byte
deriving DecidableEq, Repr

def Attempt.answered (a : Attempt) : Bool := !a.last.isEmpty

/-- What is printed for an attempt. -/
def Attempt.token (a : Attempt) : String :=
  if a.last = [] then "  *" else "  " ++ hostText (source a.last)

def ignoredEvents (ignored : List (Int × List Byte)) : List Event :=
  ignored.map fun r => .read r.1 (.bytes r.2)

def Attempt.events (a : Attempt) : List Event :=
  .write a.probe :: ignoredEvents a.ignored ++ [.read a.time (.bytes a.last), .print a.token]

/-- The datagrams of an attempt are treated as `checkMessage` decides. -/
structure Attempt.Decided (p : Parameters) (a : Attempt) : Prop where
  ignored : ∀ r ∈ a.ignored, r.2 ≠ [] ∧ ∀ pos, ¬ Passes p.srcIp r.2 pos
  last : a.last ≠ [] → ∃ pos, Passes p.srcIp a.last pos

structure Line where
  number : Int
  attempts : List Attempt
deriving DecidableEq, Repr

def Line.answered (l : Line) : Bool := l.attempts.any Attempt.answered

def Line.events (l : Line) : List Event :=
  .printInt l.number :: l.attempts.flatMap Attempt.events ++ [.print "\n"]

/-- Complete lines, in order. -/
structure Complete (p : Parameters) (lines : List Line) : Prop where
  number : ∀ (i : Nat) line, lines[i]? = some line → line.number = i + 1
  attempts : ∀ line ∈ lines, line.attempts.length = p.attempts.toNat
  decided : ∀ line ∈ lines, ∀ a ∈ line.attempts, a.Decided p

/-- How far the machine has come in its log. -/
inductive Layout (p : Parameters) : List Event → Progress → Prop where
  | between {lines : List Line} {count : Nat} {stop : Bool} : Complete p lines →
      lines.length ≤ p.hopLimit.toNat → (∀ line ∈ lines.dropLast, line.answered = false) →
      stop = lines.any Line.answered →
      Layout p (lines.flatMap Line.events) ⟨.between, lines.length + 1, count, stop⟩
  | sending {lines : List Line} {attempts : List Attempt} {count : Nat} : Complete p lines →
      (lines.length : Int) + 1 ≤ p.hopLimit → (∀ line ∈ lines, line.answered = false) →
      attempts.length ≤ p.attempts.toNat → (∀ a ∈ attempts, a.Decided p) →
      Layout p (lines.flatMap Line.events ++
          .printInt (lines.length + 1) :: attempts.flatMap Attempt.events)
        ⟨.sending (attempts.length + 1), lines.length + 1, count, attempts.any Attempt.answered⟩
  | waiting {lines : List Line} {attempts : List Attempt} {probe : List Byte}
      {ignored : List (Int × List Byte)} {count : Nat} : Complete p lines →
      (lines.length : Int) + 1 ≤ p.hopLimit → (∀ line ∈ lines, line.answered = false) →
      attempts.length < p.attempts.toNat → (∀ a ∈ attempts, a.Decided p) →
      (∀ r ∈ ignored, r.2 ≠ [] ∧ ∀ pos, ¬ Passes p.srcIp r.2 pos) →
      Layout p (lines.flatMap Line.events ++
          .printInt (lines.length + 1) :: attempts.flatMap Attempt.events ++
          .write probe :: ignoredEvents ignored)
        ⟨.waiting (attempts.length + 1), lines.length + 1, count, attempts.any Attempt.answered⟩
  | aborted {log : List Event} {hops : Int} {count : Nat} {stop : Bool} :
      Layout p log ⟨.aborted, hops, count, stop⟩

section Layout

variable {p : Parameters} {log events : List Event} {s s' : Progress}

theorem Layout.of_eq {log' : List Event} (h : Layout p log s) (hlog : log = log') (hs : s = s') :
    Layout p log' s' := by
  rw [← hlog, ← hs]
  exact h

/-- A complete line behind the others. -/
theorem Complete.concat {lines : List Line} (h : Complete p lines) {attempts : List Attempt}
    (hlen : attempts.length = p.attempts.toNat) (hdecided : ∀ a ∈ attempts, a.Decided p) :
    Complete p (lines ++ [⟨lines.length + 1, attempts⟩]) := by
  constructor
  · intro i line hi
    rcases Nat.lt_trichotomy i lines.length with hlt | heq | hgt
    · rw [List.getElem?_append_left hlt] at hi
      exact h.number i line hi
    · rw [heq, List.getElem?_concat_length] at hi
      cases hi
      rw [heq]
    · rw [List.getElem?_eq_none (by simp; omega)] at hi
      cases hi
  · intro line hline
    obtain hline | hline := List.mem_append.mp hline
    · exact h.attempts line hline
    · rw [List.mem_singleton.mp hline]
      exact hlen
  · intro line hline
    obtain hline | hline := List.mem_append.mp hline
    · exact h.decided line hline
    · rw [List.mem_singleton.mp hline]
      exact hdecided

/-- The end of an attempt. -/
theorem Layout.attempt {lines : List Line} {attempts : List Attempt} {a : Attempt} {count : Nat}
    (hattempts : p.attempts ≤ 2 ^ 31 - 2) (hlines : Complete p lines)
    (hlimit : (lines.length : Int) + 1 ≤ p.hopLimit)
    (hstop : ∀ line ∈ lines, line.answered = false) (hlen : attempts.length < p.attempts.toNat)
    (hdecided : ∀ a ∈ attempts, a.Decided p) (ha : a.Decided p) :
    Layout p (lines.flatMap Line.events ++
        .printInt (lines.length + 1) :: attempts.flatMap Attempt.events ++ a.events)
      ⟨.sending (int32 (attempts.length + 1 + 1)), lines.length + 1, count,
        attempts.any Attempt.answered || a.answered⟩ := by
  have hall : ∀ x ∈ attempts ++ [a], x.Decided p := by
    intro x hx
    obtain hx | hx := List.mem_append.mp hx
    · exact hdecided x hx
    · rw [List.mem_singleton.mp hx]
      exact ha
  have hcount : (attempts ++ [a]).length ≤ p.attempts.toNat := by
    rw [List.length_append, List.length_singleton]
    omega
  have hnext : int32 ((attempts.length : Int) + 1 + 1) = attempts.length + 1 + 1 :=
    int32_of_range (by omega) (by omega)
  apply (@Layout.sending p lines (attempts ++ [a]) count hlines hlimit hstop hcount hall).of_eq
  · simp
  · rw [hnext]
    simp

/-- One step leads from one layout to the next. -/
theorem Layout.step (hlimit : p.hopLimit < 2 ^ 31 - 1) (hattempts : p.attempts ≤ 2 ^ 31 - 2)
    (hread : ∀ time D, .read time (.bytes D) ∈ events → ¬ Misread p.srcIp D)
    (h : Layout p log s) (hs : Step p s events s') : Layout p (log ++ events) s' := by
  cases h with
  | @between lines count stop hlines hle hlast hstop =>
    cases hs with
    | line hhops =>
      have hnone : ∀ line ∈ lines, line.answered = false := by simpa using hstop.symm
      exact @Layout.sending p lines [] count hlines hhops hnone (Nat.zero_le _) (by simp)
  | @sending lines attempts count hlines hle hstop hlen hdecided =>
    cases hs with
    | send ha =>
      exact @Layout.waiting p lines attempts _ [] (count + 1) hlines hle hstop (by omega) hdecided
        (by simp)
    | newline ha =>
      have hnext : int32 ((lines.length : Int) + 1 + 1) = lines.length + 1 + 1 :=
        int32_of_range (by omega) (by omega)
      have hfull : attempts.length = p.attempts.toNat := by omega
      have hcount : (lines ++ [Line.mk (lines.length + 1) attempts]).length ≤ p.hopLimit.toNat := by
        rw [List.length_append, List.length_singleton]
        omega
      have hbefore : ∀ line ∈ (lines ++ [Line.mk (lines.length + 1) attempts]).dropLast,
          line.answered = false := by
        rw [List.dropLast_concat]
        exact hstop
      have hany : lines.any Line.answered = false := by simpa using hstop
      apply (@Layout.between p _ count (attempts.any Attempt.answered)
        (hlines.concat hfull hdecided) hcount hbefore ?_).of_eq
      · simp [Line.events]
      · rw [hnext]
        simp
      · rw [List.any_append, hany]
        simp [Line.answered]
  | @waiting lines attempts probe ignored count hlines hle hstop hlen hdecided hignored =>
    cases hs with
    | @ignore _ _ _ _ D time hD hreject =>
      have hall : ∀ r ∈ ignored ++ [(time, D)], r.2 ≠ [] ∧ ∀ pos, ¬ Passes p.srcIp r.2 pos := by
        intro r hr
        obtain hr | hr := List.mem_append.mp hr
        · exact hignored r hr
        · rw [List.mem_singleton.mp hr]
          exact ⟨hD, hreject⟩
      apply (@Layout.waiting p lines attempts probe (ignored ++ [(time, D)]) count hlines hle hstop
        hlen hdecided hall).of_eq
      · simp [ignoredEvents]
      · rfl
    | timeout time =>
      have ha : Attempt.Decided p ⟨probe, ignored, time, []⟩ := ⟨hignored, fun h => absurd rfl h⟩
      apply (@Layout.attempt p lines attempts _ count hattempts hlines hle hstop hlen hdecided
        ha).of_eq
      · simp [Attempt.events, Attempt.token]
      · simp [Attempt.answered]
    | @accept _ _ _ pos _ D time hD hp =>
      have hsource : source (cleared D pos) = source D := by
        by_contra hne
        exact hread time D List.mem_cons_self ⟨pos, hp, hne⟩
      have ha : Attempt.Decided p ⟨probe, ignored, time, D⟩ := ⟨hignored, fun _ => ⟨pos, hp⟩⟩
      apply (@Layout.attempt p lines attempts _ count hattempts hlines hle hstop hlen hdecided
        ha).of_eq
      · simp [Attempt.events, Attempt.token, token, hD, hsource]
      · simp [Attempt.answered, hD]
    | failedWrite => exact .aborted
    | failedRead => exact .aborted
    | throws => exact .aborted
  | aborted => cases hs

/-- Every log without a misread datagram is laid out in lines. -/
theorem trace_layout (hlimit : p.hopLimit < 2 ^ 31 - 1) (hattempts : p.attempts ≤ 2 ^ 31 - 2)
    (h : (tool p).Trace log s)
    (hread : ∀ time D, .read time (.bytes D) ∈ log → ¬ Misread p.srcIp D) : Layout p log s := by
  revert hread
  apply h.invariant (I := fun log s =>
    (∀ time D, .read time (.bytes D) ∈ log → ¬ Misread p.srcIp D) → Layout p log s)
  · intro _
    have hnone : Complete p [] := ⟨by simp, by simp, by simp⟩
    exact @Layout.between p [] 0 false hnone (Nat.zero_le _) (by simp) rfl
  · intro log s events s' hI hs hread
    have hlog : Layout p log s := by
      apply hI
      intro time D hD
      exact hread time D (List.mem_append_left _ hD)
    apply hlog.step hlimit hattempts ?_ hs
    intro time D hD
    exact hread time D (List.mem_append_right _ hD)

end Layout

/-! ## Tokens and probes -/

/-- The token of a timeout is that of no address. -/
theorem hostText_ne_star (addr : List Byte) : "  " ++ hostText addr ≠ "  *" := by
  intro h
  have htext : (hostText addr).toList = ['*'] := by
    have hlist := congrArg String.toList h
    rw [String.toList_append] at hlist
    exact List.append_cancel_left hlist
  apply not_mem_hostText (d := '*') (by decide) (by decide) (by decide) addr
  rw [htext]
  exact List.mem_singleton_self _

theorem Attempt.token_star (a : Attempt) : a.token = "  *" ↔ a.last = [] := by
  rw [Attempt.token]
  constructor
  · intro h
    by_contra hne
    rw [if_neg hne] at h
    exact hostText_ne_star _ h
  · intro h
    rw [if_pos h]

theorem writes_attempt (a : Attempt) : writes a.events = [a.probe] := by
  have hnone : writes (ignoredEvents a.ignored ++ [.read a.time (.bytes a.last), .print a.token]) =
      [] := by
    apply writes_quiet
    intro bs hbs
    simp [ignoredEvents] at hbs
  have hcons : writes a.events =
      a.probe :: writes (ignoredEvents a.ignored ++
        [.read a.time (.bytes a.last), .print a.token]) := rfl
  rw [hcons, hnone]

theorem writes_attempts (attempts : List Attempt) :
    writes (attempts.flatMap Attempt.events) = attempts.map Attempt.probe := by
  induction attempts with
  | nil => rfl
  | cons a attempts ih =>
    rw [List.flatMap_cons, writes_append, writes_attempt, ih]
    rfl

theorem writes_line (line : Line) : writes line.events = line.attempts.map Attempt.probe := by
  have hcons : writes line.events =
      writes (line.attempts.flatMap Attempt.events ++ [.print "\n"]) := rfl
  have hnone : writes [.print "\n"] = [] := rfl
  rw [hcons, writes_append, writes_attempts, hnone, List.append_nil]

/-- A line writes as many probes as it has attempts. -/
theorem writes_lines {n : Nat} {lines : List Line} (h : ∀ line ∈ lines, line.attempts.length = n) :
    (writes (lines.flatMap Line.events)).length = lines.length * n := by
  induction lines with
  | nil => rw [List.length_nil, Nat.zero_mul]; rfl
  | cons line lines ih =>
    have hline : line.attempts.length = n := h line List.mem_cons_self
    rw [List.flatMap_cons, writes_append, List.length_append, writes_line, List.length_map, hline,
      ih fun l hl => h l (List.mem_cons_of_mem line hl), List.length_cons, Nat.succ_mul,
      Nat.add_comm]

/-! ## Whole runs -/

/-- The output of a run that has completed in the world `w`. -/
structure Lined (p : Parameters) (w : World) (lines : List Line) : Prop where
  log : w.log = lines.flatMap Line.events
  complete : Complete p lines
  star : ∀ line ∈ lines, ∀ a ∈ line.attempts, a.token = "  *" ↔ a.last = []
  probes : (writes w.log).length = lines.length * p.attempts.toNat
  stop : w.stopProbes = lines.any Line.answered
  earlier : ∀ line ∈ lines.dropLast, line.answered = false
  limit : lines.length ≤ p.hopLimit.toNat
  unstopped : w.stopProbes = false → lines.length = p.hopLimit.toNat

/-- A run that completes without misreading a datagram has printed its lines. -/
theorem run_lines (p : Parameters) (hsrc : p.srcIp.length = 16) (hdst : p.dstIp.length = 16)
    (hlimit : p.hopLimit < 2 ^ 31 - 1) (hattempts : 0 ≤ p.attempts ∧ p.attempts ≤ 2 ^ 31 - 2)
    (fuel : Nat) (written : List Int) (answers : List Answer) (w : World)
    (hrun : (run fuel p).run (World.start written answers) = (.ok (), w))
    (hread : ∀ time D, .read time (.bytes D) ∈ w.log → ¬ Misread p.srcIp D) :
    ∃ lines, Lined p w lines := by
  obtain ⟨hops, count, stop, hend, hat⟩ := (run_traces hsrc hdst fuel written answers).ok hrun
  have hlayout := trace_layout hlimit hattempts.2 hat.trace hread
  have hstop := hat.stopProbes
  generalize hlog : w.log = log at hlayout
  cases hlayout with
  | @between lines _ _ hlines hle hlast hany =>
    refine ⟨lines, ⟨hlog, hlines, fun _ _ a _ => a.token_star, ?_, hstop.trans hany, hlast, hle, ?_⟩⟩
    · rw [hlog]
      exact writes_lines hlines.attempts
    · intro hfalse
      obtain htrue | hover := hend
      · rw [hstop, htrue] at hfalse
        cases hfalse
      · omega

/-- A run of two lines, whose first attempt ignores a datagram and times out. -/
theorem run_lines_demo :
    ∃ fuel D w lines, (run fuel attemptDemo).run (World.start [48, 48]
        [⟨.bytes timeExDemo, 800⟩, ⟨.bytes [], 0⟩, ⟨.bytes D, 300⟩]) = (.ok (), w) ∧
      Lined attemptDemo w lines ∧ lines.length = 2 ∧ w.stopProbes = true := by
  obtain ⟨fuel, D, w, hrun, hp, hD, hstop, hlog⟩ := run_answered_demo
  have hread : ∀ time D', .read time (.bytes D') ∈ w.log → ¬ Misread attemptDemo.srcIp D' := by
    intro time D' hmem hmis
    obtain ⟨pos, hp', hne⟩ := hmis
    rw [hlog] at hmem
    simp at hmem
    obtain ⟨-, rfl⟩ | ⟨-, rfl⟩ | ⟨-, rfl⟩ := hmem
    · exact timeExDemo_not_passes pos hp'
    · exact absurd hp'.reaches.header (by decide)
    · obtain rfl := hp.unique hp'
      exact hne (source_cleared (by decide))
  obtain ⟨lines, hlines⟩ := run_lines attemptDemo rfl rfl (by decide) (by decide) fuel [48, 48]
    [⟨.bytes timeExDemo, 800⟩, ⟨.bytes [], 0⟩, ⟨.bytes D, 300⟩] w hrun hread
  have hprobes : lines.length * 1 = (writes w.log).length := hlines.probes.symm
  rw [hlog, Nat.mul_one] at hprobes
  exact ⟨fuel, D, w, lines, hrun, hlines, hprobes, hstop⟩

/-! ## A misread datagram -/

/-- What is printed between two line numbers. -/
theorem Lined.print {p : Parameters} {w : World} {lines : List Line} (h : Lined p w lines)
    {text : String} (ht : .print text ∈ w.log) :
    text = "\n" ∨ text = "  *" ∨ ∃ time D, .read time (.bytes D) ∈ w.log ∧ D ≠ [] ∧
      text = "  " ++ hostText (source D) := by
  rw [h.log, List.mem_flatMap] at ht
  obtain ⟨line, hline, ht⟩ := ht
  have hevents : .print text ∈ line.attempts.flatMap Attempt.events ++ [.print "\n"] := by
    simpa [Line.events] using ht
  obtain ht | ht := List.mem_append.mp hevents
  · obtain ⟨a, ha, ht⟩ := List.mem_flatMap.mp ht
    have htoken : text = a.token := by simpa [Attempt.events, ignoredEvents] using ht
    by_cases hlast : a.last = []
    · exact .inr (.inl (htoken.trans (a.token_star.mpr hlast)))
    · refine .inr (.inr ⟨a.time, a.last, ?_, hlast, ?_⟩)
      · rw [h.log, List.mem_flatMap]
        refine ⟨line, hline, ?_⟩
        have hmem : .read a.time (.bytes a.last) ∈ a.events := by simp [Attempt.events]
        have : .read a.time (.bytes a.last) ∈ line.attempts.flatMap Attempt.events :=
          List.mem_flatMap.mpr ⟨a, ha, hmem⟩
        simp [Line.events, this]
      · rw [htoken, Attempt.token, if_neg hlast]
  · left
    simpa using ht

/-- The run that reads the misread datagram prints an address it does not come from. -/
theorem misread_printed :
    ∃ fuel w, (run fuel attemptDemo).run (World.start [48] [⟨.bytes misreadDemo, 0⟩]) =
        (.ok (), w) ∧ ¬ ∃ lines, Lined attemptDemo w lines := by
  obtain ⟨pos, hp, hne⟩ := misreadDemo_misread
  obtain ⟨fuel, w, hrun, -, hlog⟩ :=
    run_answered (p := attemptDemo) rfl rfl rfl (by decide) hp (by decide) 0
  refine ⟨fuel, w, hrun, ?_⟩
  intro h
  obtain ⟨lines, h⟩ := h
  have ht : .print (token misreadDemo pos) ∈ w.log := by
    rw [hlog]
    simp
  obtain htext | htext | ⟨time, D, hD, -, htext⟩ := h.print ht
  · -- a token starts with a blank
    have hlist := congrArg String.toList htext
    rw [token, String.toList_append] at hlist
    cases hlist
  · exact hostText_ne_star _ htext
  · rw [hlog] at hD
    simp at hD
    obtain ⟨-, rfl⟩ := hD
    have hp' : Passes (World.idle attemptDemo.srcIp).myIP misreadDemo pos := hp
    apply Misread.token_ne hp' hne (.inl rfl)
    rw [htext, String.append_empty]

end Grnvs.Trace
