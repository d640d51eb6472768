/-
  The waiting that the reads of an attempt are allowed.

  trace6 hands one `Timeout` from read to read, and `GRNVS_RAW.read` passes it to `grnvs_read` as an
  `unsigned int`. Each read is allowed what the one before has left (`readLoop_allowed`), which is no
  more as long as no call runs over its budget (`timeout_antitone`).
-/
import Grnvs.Stats.Elapsed
import Grnvs.Trace.Run

namespace Grnvs.Trace

open Bytes

/-- The timeouts that the reads of a log have started with. -/
def allowed (log : List Event) : List Int :=
  log.filterMap fun
    | .read time _ => some time
    | _ => none

/-- The timeout of each answer is the one that a call of `grnvs_read` leaves, which starts with what
    the answer before has left and does not run over. -/
inductive Supplied : Int → List Answer → Prop where
  | nil {time : Int} : Supplied time []
  | cons {time v : Int} {T' fuel : Nat} {s s' : Stats.World} {answer : Answer}
      {rest : List Answer} :
      (Stats.grnvs_read fuel 1514 (some (Stats.unsigned time))).run s = (.ok (v, some T'), s') →
      Stats.Bounded 1514 (Stats.unsigned time) s → answer.timeout = int32 T' →
      Supplied answer.timeout rest → Supplied time (answer :: rest)

theorem unsigned_lt (i : Int) : Stats.unsigned i < 4294967296 := by
  rw [Stats.unsigned]
  omega

/-- What goes through a Java `int` comes back. -/
theorem unsigned_int32 {n : Nat} (h : n < 4294967296) : Stats.unsigned (int32 n) = n := by
  rw [Stats.unsigned, int32, Int.bmod_def]
  omega

theorem Supplied.antitone {time : Int} {answers : List Answer} (h : Supplied time answers) :
    ((time :: answers.map Answer.timeout).map Stats.unsigned).Pairwise (· ≥ ·) := by
  induction h with
  | nil => exact List.pairwise_singleton ..
  | @cons time v T' fuel s s' answer rest hrun hbounded hleft _ ih =>
    have hT' : T' ≤ Stats.unsigned time := by
      obtain ⟨T'', h1, h2⟩ :=
        (Stats.grnvs_read_bounded_iff 1514 (unsigned_lt time) s).mpr hbounded _ _ _ _ hrun
      cases h1
      exact h2
    have hnext : Stats.unsigned answer.timeout ≤ Stats.unsigned time := by
      rw [hleft, unsigned_int32 (Nat.lt_of_le_of_lt hT' (unsigned_lt time))]
      exact hT'
    rw [List.map_cons, List.pairwise_cons]
    refine ⟨?_, ih⟩
    intro T hT
    rw [List.map_cons, List.map_cons, List.mem_cons] at hT
    rcases hT with rfl | hT
    · exact hnext
    · rw [List.map_cons, List.pairwise_cons] at ih
      exact Nat.le_trans (ih.1 T hT) hnext

section Attempt

variable {fuel : Nat} {w : World}

/-- The reads of an attempt: the first one starts with the timeout of the attempt, each later one
    with what the answer before has left. -/
theorem readLoop_allowed (hme : w.myIP.length = 16) (n : Nat) {buffer : List Byte}
    (hb : buffer.length = 1514) :
    ∃ mine es, w.answers = mine ++ ((readLoop fuel n buffer).run w).2.answers ∧
      ((readLoop fuel n buffer).run w).2.log = w.log ++ es ∧
      allowed es = (w.timeout :: mine.map Answer.timeout).take mine.length := by
  induction n generalizing buffer w with
  | zero => exact ⟨[], [], rfl, (List.append_nil _).symm, rfl⟩
  | succ n ih =>
    cases hw : w.answers with
    | nil =>
      rw [readLoop, Comp.bind_error (read_waiting hw)]
      exact ⟨[], [], hw.symm, (List.append_nil _).symm, rfl⟩
    | cons answer rest =>
      obtain ⟨reading, time⟩ := answer
      cases reading with
      | failed k =>
        rw [readLoop, Comp.bind_error (read_failed hw)]
        exact ⟨[⟨.failed k, time⟩], [.read w.timeout (.failed k)], rfl, rfl, rfl⟩
      | bytes bs =>
        have hle : (bs.take 1514).length ≤ 1514 := List.length_take_le 1514 bs
        rw [readLoop_turn n hb hw]
        generalize bs.take 1514 = D at hle
        by_cases hD : D = []
        · rw [if_pos hD]
          refine ⟨[⟨.bytes bs, time⟩], [.read w.timeout (.bytes D), .print "  *"], rfl, ?_, rfl⟩
          change w.log ++ [_] ++ [_] = _
          rw [List.append_assoc]
          rfl
        · rw [if_neg hD]
          set w₁ := (w.answered time rest).note (.read w.timeout (.bytes D)) with hw₁
          have hout := checkMessage_outcome (w := w₁) hme fuel D
          have hanswers : rest = w₁.answers := rfl
          rcases hr : (checkMessage fuel D).run w₁ with ⟨result, w₂⟩
          rw [hr] at hout
          cases hout with
          | throws e why =>
            rw [Comp.bind_error hr]
            exact ⟨[⟨.bytes bs, time⟩], [.read w.timeout (.bytes D)], rfl, rfl, rfl⟩
          | rejects =>
            rw [Comp.bind_ok hr, if_neg (by decide)]
            obtain ⟨mine, es, ha, hl, hes⟩ := ih (w := w₁) hme (readBuffer_length hb hle)
            refine ⟨⟨.bytes bs, time⟩ :: mine, .read w.timeout (.bytes D) :: es, ?_, ?_, ?_⟩
            · rw [hanswers, ha, List.cons_append]
            · rw [hl, hw₁, World.note_log, List.append_assoc]
              rfl
            · rw [List.length_cons, List.take_succ_cons, List.map_cons]
              change w.timeout :: allowed es = _
              rw [hes]
              rfl
          | @accepts pos hp =>
            rw [Comp.bind_ok hr, if_pos rfl]
            refine ⟨[⟨.bytes bs, time⟩], [.read w.timeout (.bytes D), .print (token D pos)], rfl, ?_,
              rfl⟩
            change w.log ++ [_] ++ [_] = _
            rw [List.append_assoc]
            rfl

end Attempt

/-- `*timeout` does not grow in a call just when the call is bounded; while all calls are, the calls
    of a run of ethstats are allowed less and less, and so are the reads of an attempt of trace6. -/
theorem timeout_antitone (s : Stats.World) {w : World} (hme : w.myIP.length = 16) :
    (∀ maxlen T, T < 4294967296 →
      ((∀ fuel v left s', (Stats.grnvs_read fuel maxlen (some T)).run s = (.ok (v, left), s') →
        ∃ T', left = some T' ∧ T' ≤ T) ↔ Stats.Bounded maxlen T s)) ∧
    (∀ fuel turns (l : Stats.Locals), l.timeout < 4294967296 →
      (∀ c ∈ Stats.calls fuel turns l s, Stats.Bounded 1514 c.2 c.1) →
      ((Stats.calls fuel turns l s).map Prod.snd).Pairwise (· ≥ ·)) ∧
    ∀ fuel n (buffer : List Byte), buffer.length = 1514 →
      ∃ mine es, w.answers = mine ++ ((readLoop fuel n buffer).run w).2.answers ∧
        ((readLoop fuel n buffer).run w).2.log = w.log ++ es ∧
        (Supplied w.timeout mine →
          ((allowed es).map Stats.unsigned).Pairwise (· ≥ ·)) := by
  refine ⟨fun maxlen T hlt => Stats.grnvs_read_bounded_iff maxlen hlt s,
    fun fuel turns l hlt h => (Stats.calls_antitone turns hlt h).2, ?_⟩
  intro fuel n buffer hb
  obtain ⟨mine, es, ha, hl, hes⟩ := @readLoop_allowed fuel w hme n buffer hb
  refine ⟨mine, es, ha, hl, ?_⟩
  intro h
  rw [hes, List.map_take]
  exact h.antitone.sublist (List.take_sublist _ _)

theorem timeout_antitone_late :
    (∀ fuel v left s', (Stats.grnvs_read fuel 1514 (some 10)).run (Stats.opened Stats.kernelLate) =
        (.ok (v, left), s') → ∃ T', left = some T' ∧ T' ≤ 10) ↔
      Stats.Bounded 1514 10 (Stats.opened Stats.kernelLate) :=
  (@timeout_antitone (Stats.opened Stats.kernelLate) (World.idle (destination replyDemo))
    (by decide)).1 1514 10 (by decide)

end Grnvs.Trace
