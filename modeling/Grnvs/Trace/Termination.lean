/-
  When trace6 ends.

  The tool waits for what it is to read, so a run on finitely many answers ends unless a loop of its
  own goes on for ever. There are two that can. Without attempts the lines are printed one after
  the other, and their numbers wrap around in front of the largest Hop Limit (`hopsLoop_idle`). And
  the walk over the extension headers of a datagram can go back (`Hangs`). Apart from these, every
  turn takes something from what is left to be written or read, so with enough turns the tool
  either ends or stands in front of a walk that needs more (`Stuck`); and a run that has come to a
  datagram whose walk does not end is the same with any number of turns (`hopsLoop_follows`).
-/
import Grnvs.Lib.Fuel
import Grnvs.Trace.HopLimit

namespace Grnvs.Trace

open Bytes OnesComplement

/-! ## One datagram -/

/-- A datagram for the tool whose walk does not end. -/
structure Hangs (me D : List Byte) : Prop where
  reaches : Reaches me D
  walk : ∀ fuel, walk fuel D 6 34 = .error .fuel

/-- No datagram that has been read hangs. -/
def Sound (me : List Byte) (log : List Event) : Prop :=
  ∀ time D, .read time (.bytes D) ∈ log → ¬ Hangs me D

section Datagram

variable {me D : List Byte} {fuel : Nat} {log : List Event} {w : World}

theorem Sound.quiet (h : Sound me log) {e : Event} (he : ∀ time D, e ≠ .read time (.bytes D)) :
    Sound me (log ++ [e]) := by
  intro time D hread
  rw [List.mem_append, List.mem_singleton] at hread
  cases hread with
  | inl hold => exact h time D hold
  | inr hnew => exact absurd hnew.symm (he time D)

theorem Sound.read (h : Sound me log) (time : Int) (hD : ¬ Hangs me D) :
    Sound me (log ++ [.read time (.bytes D)]) := by
  intro time' D' hread
  rw [List.mem_append, List.mem_singleton] at hread
  cases hread with
  | inl hold => exact h time' D' hold
  | inr hnew =>
    cases hnew
    exact hD

/-- More turns do not change the end of a walk. -/
theorem walk_stable {buffer : List Byte} {pos skip : Int} {k k' : Nat}
    (h : walk k buffer pos skip ≠ .error .fuel) (hk : k ≤ k') :
    walk k' buffer pos skip = walk k buffer pos skip := by
  induction k generalizing pos skip k' with
  | zero => exact absurd rfl h
  | succ k ih =>
    obtain ⟨n, rfl⟩ : ∃ n, k' = n + 1 := ⟨k' - 1, by omega⟩
    cases hs : walkStep buffer pos skip with
    | error e => rw [walk_throws hs, walk_throws hs]
    | ok turn =>
      cases turn with
      | none => rw [walk_stay hs, walk_stay hs]
      | some turn =>
        rw [walk_turn hs] at h
        rw [walk_turn hs, walk_turn hs]
        exact ih h (by omega)

theorem searchIcmp_stable (D : List Byte) :
    Comp.Stable .fuel fun fuel => searchIcmp fuel D := by
  refine Comp.stable_bind ?_ fun _ => Comp.stable_const _
  intro w k hne k' hk
  have hwalk : walk k D 6 34 ≠ .error .fuel := hne
  rw [Comp.lift_run, Comp.lift_run, walk_stable hwalk hk]

theorem checkMessage_stable (D : List Byte) :
    Comp.Stable .fuel fun fuel => checkMessage fuel D := by
  refine Comp.stable_bind (Comp.stable_const _) fun version => ?_
  refine Comp.stable_ite (Comp.stable_const _) ?_
  refine Comp.stable_bind (Comp.stable_const _) fun _ => ?_
  refine Comp.stable_bind (Comp.stable_const _) fun receiver => ?_
  refine Comp.stable_bind (Comp.stable_const _) fun _ => ?_
  refine Comp.stable_bind (Comp.stable_const _) fun own => ?_
  exact Comp.stable_ite (Comp.stable_const _) (searchIcmp_stable D)

theorem Hangs.run (h : Hangs w.myIP D) (fuel : Nat) :
    (checkMessage fuel D).run w = (.error .fuel, w) := by
  rw [checkMessage_reached h.reaches, searchIcmp, Comp.lift_bind_error (h.walk fuel)]

end Datagram

/-! ## More turns -/

/-- What a run leaves of the datagrams it reads, and how it compares with one that may take more
    turns: a read that hangs stops both in the same place, and every run that has ended is the
    same. -/
structure Settled {α : Type} (me : List Byte) (r r' : Except Stop α × World) : Prop where
  sound : Comp.Closes (fun _ w => Sound me w.log) (fun e w => e = .fuel ∨ Sound me w.log) r
  follows : Comp.Follows (fun e w => e ≠ .fuel ∨ ¬ Sound me w.log) r r'

section Settled

variable {α β : Type} {me : List Byte} {w : World}

theorem settled_bind {x x' : Run α} {f f' : α → Run β} (hx : Settled me (x.run w) (x'.run w))
    (hf : ∀ a w', x.run w = (.ok a, w') → Sound me w'.log →
      Settled me ((f a).run w') ((f' a).run w')) :
    Settled me ((x >>= f).run w) ((x' >>= f').run w) := by
  constructor
  · exact Comp.closes_bind hx.sound fun a w' hr hs => (hf a w' hr hs).sound
  · exact Comp.follows_bind hx.follows fun a w' hr => (hf a w' hr (hx.sound.ok hr)).follows

/-- A run without turns. -/
theorem settled_same {r : Except Stop α × World}
    (h : Comp.Closes (fun _ w => Sound me w.log) (fun _ w => Sound me w.log) r) :
    Settled me r r := by
  refine ⟨?_, Comp.follows_refl r⟩
  obtain ⟨e | a, w⟩ := r
  · exact .inr h
  · exact h

/-- A run that has no turn left. -/
theorem settled_fuel {r' : Except Stop α × World} (h : Sound me w.log) :
    Settled me (.error .fuel, w) r' := by
  refine ⟨.inl rfl, fun he => ?_⟩
  cases he with
  | inl hne => exact absurd rfl hne
  | inr hnot => exact absurd h hnot

theorem checkMessage_settled {D : List Byte} (hlen : w.myIP.length = 16)
    (h : Hangs w.myIP D ∨ Sound w.myIP w.log) {k k' : Nat} (hk : k ≤ k') :
    Settled w.myIP ((checkMessage k D).run w) ((checkMessage k' D).run w) := by
  cases h with
  | inl hhangs =>
    rw [hhangs.run k, hhangs.run k']
    exact ⟨.inl rfl, Comp.follows_refl _⟩
  | inr hsound =>
    have hout := checkMessage_outcome hlen k D
    have hfollows := (checkMessage_stable D).follows hk (s := w)
    generalize (checkMessage k D).run w = r at hout hfollows
    cases hout with
    | throws e why =>
      refine ⟨.inr hsound, fun he => ?_⟩
      cases he with
      | inl hne => exact hfollows hne
      | inr hnot => exact absurd hsound hnot
    | rejects => exact ⟨hsound, hfollows⟩
    | accepts hp => exact ⟨hsound.quiet (by simp), hfollows⟩

end Settled

section Loops

variable {p : Parameters} {w : World} {attempt hops : Int} {count : Nat} {stop : Bool}
  {k k' : Nat} {l : Locals} {buffer : List Byte}

theorem readLoop_settled (hsrc : p.srcIp.length = 16) (hk : k ≤ k') {n n' : Nat} (hn : n ≤ n')
    (hb : buffer.length = 1514) (hme : w.myIP = p.srcIp) (h : Sound p.srcIp w.log) :
    Settled p.srcIp ((readLoop k n buffer).run w) ((readLoop k' n' buffer).run w) := by
  induction n generalizing n' buffer w with
  | zero => exact settled_fuel h
  | succ n ih =>
    obtain ⟨m, rfl⟩ : ∃ m, n' = m + 1 := ⟨n' - 1, by omega⟩
    cases hw : w.answers with
    | nil =>
      rw [readLoop, readLoop, Comp.bind_error (read_waiting hw), Comp.bind_error (read_waiting hw)]
      exact settled_same h
    | cons answer rest =>
      obtain ⟨reading, time⟩ := answer
      cases reading with
      | failed j =>
        rw [readLoop, readLoop, Comp.bind_error (read_failed hw), Comp.bind_error (read_failed hw)]
        exact settled_same (h.quiet (by simp))
      | bytes bs =>
        have hle : (bs.take 1514).length ≤ 1514 := List.length_take_le 1514 bs
        rw [readLoop_turn n hb hw, readLoop_turn m hb hw]
        generalize bs.take 1514 = D at hle
        by_cases hD : D = []
        · have hempty : ¬ Hangs p.srcIp D := by
            intro hhangs
            have := hhangs.reaches.header
            rw [hD] at this
            exact absurd this (by decide)
          rw [if_pos hD, if_pos hD]
          exact settled_same ((h.read w.timeout hempty).quiet (by simp))
        · rw [if_neg hD, if_neg hD]
          generalize hw₁ : (w.answered time rest).note (.read w.timeout (.bytes D)) = w₁
          have hme₁ : w₁.myIP = p.srcIp := by
            rw [← hw₁]
            exact hme
          have hread : Hangs p.srcIp D ∨ Sound p.srcIp w₁.log := by
            rw [← hw₁]
            by_cases hhangs : Hangs p.srcIp D
            · exact .inl hhangs
            · exact .inr (h.read w.timeout hhangs)
          rw [← hme₁] at hsrc hread ⊢
          refine settled_bind (checkMessage_settled hsrc hread hk) ?_
          intro done w₂ hrun hsound
          cases done with
          | true => exact settled_same hsound
          | false =>
            have hsame : w₂ = w₁ := by
              have hout := checkMessage_outcome hsrc k D
              rw [hrun] at hout
              cases hout
              rfl
            rw [hsame] at hsound ⊢
            rw [hme₁] at hsound ⊢
            exact ih (by omega) (readBuffer_length hb hle) hme₁ hsound

theorem attemptLoop_settled (hsrc : p.srcIp.length = 16) (hdst : p.dstIp.length = 16)
    (hk : k ≤ k') {n n' : Nat} (hn : n ≤ n') (hl : l.Kept)
    (hat : At p ⟨.sending attempt, hops, count, stop⟩ w) (h : Sound p.srcIp w.log) :
    Settled p.srcIp ((attemptLoop k p hops n attempt l).run w)
      ((attemptLoop k' p hops n' attempt l).run w) := by
  induction n generalizing n' attempt count stop l w with
  | zero => exact settled_fuel h
  | succ n ih =>
    obtain ⟨m, rfl⟩ : ∃ m, n' = m + 1 := ⟨n' - 1, by omega⟩
    rw [attemptLoop, attemptLoop]
    by_cases ha : attempt ≤ p.attempts
    · rw [if_pos ha, if_pos ha]
      have hsent : Comp.Closes (fun _ w => Sound p.srcIp w.log) (fun _ w => Sound p.srcIp w.log)
          ((sendProbe p hops l).run w) := by
        obtain ⟨-, hrun⟩ | ⟨ret, rest, -, hrun⟩ := sendProbe_cases hsrc hdst hops hl w
        · rw [hrun]
          exact h
        · obtain ⟨-, l', -, hrun⟩ | ⟨-, hrun⟩ := hrun
          · rw [hrun]
            exact h.quiet (by simp)
          · rw [hrun]
            exact ((h.quiet (by simp)).quiet (by simp)).quiet (by simp)
      refine settled_bind (settled_same hsent) ?_
      intro r w₁ hrun hsound₁
      obtain ⟨hb, hl', hat₁⟩ := (sendProbe_lands hsrc hdst hl hat ha).ok hrun
      refine settled_bind (readLoop_settled hsrc hk hk hb hat₁.myIP hsound₁) ?_
      intro _ w₂ hread hsound₂
      obtain ⟨stop', hat₂⟩ := (readLoop_lands hsrc k hb hat₁).ok hread
      exact ih (by omega) hl' hat₂ hsound₂
    · rw [if_neg ha, if_neg ha]
      exact settled_same h

theorem hopsLoop_settled (hsrc : p.srcIp.length = 16) (hdst : p.dstIp.length = 16)
    (hk : k ≤ k') {n n' : Nat} (hn : n ≤ n') (hl : l.Kept)
    (hat : At p ⟨.between, hops, count, stop⟩ w) (h : Sound p.srcIp w.log) :
    Settled p.srcIp ((hopsLoop k p n hops l).run w) ((hopsLoop k' p n' hops l).run w) := by
  induction n generalizing n' hops count stop l w with
  | zero => exact settled_fuel h
  | succ n ih =>
    obtain ⟨m, rfl⟩ : ∃ m, n' = m + 1 := ⟨n' - 1, by omega⟩
    rw [hopsLoop, hopsLoop, Comp.gets_bind, Comp.gets_bind, hat.stopProbes]
    dsimp only
    by_cases hgo : stop = false ∧ hops ≤ p.hopLimit
    · rw [if_pos hgo, if_pos hgo, Comp.bind_ok (emit_run _ _), Comp.bind_ok (emit_run _ _)]
      obtain ⟨rfl, hle⟩ := hgo
      have hline : At p ⟨.sending 1, hops, count, false⟩ (w.note (.printInt hops)) :=
        hat.step (.line hle) rfl rfl hat.stopProbes hat.sequenceNumber
      have hnumber : Sound p.srcIp (w.note (.printInt hops)).log := h.quiet (by simp)
      refine settled_bind (attemptLoop_settled hsrc hdst hk hk hl hline hnumber) ?_
      intro l' w₁ hrun hsound
      obtain ⟨hl', attempt', count', stop', ha, hat₁⟩ :=
        (attemptLoop_lands hsrc hdst k hl hline).ok hrun
      rw [Comp.bind_ok (emit_run _ _), Comp.bind_ok (emit_run _ _)]
      exact ih (by omega) hl'
        (hat₁.step (.newline ha) rfl rfl hat₁.stopProbes hat₁.sequenceNumber) (hsound.quiet (by simp))
    · rw [if_neg hgo, if_neg hgo]
      exact settled_same h

/-- A run, compared with one that may take more turns. -/
theorem run_settled (hsrc : p.srcIp.length = 16) (hdst : p.dstIp.length = 16) (hk : k ≤ k')
    (written : List Int) (answers : List Answer) :
    Settled p.srcIp ((run k p).run (World.start written answers))
      ((run k' p).run (World.start written answers)) := by
  rw [run, run, Comp.modify_bind, Comp.modify_bind, Comp.modify_bind, Comp.modify_bind]
  refine hopsLoop_settled hsrc hdst hk hk Locals.kept_new ⟨.start, rfl, rfl, rfl⟩ ?_
  exact fun _ _ hread => absurd hread List.not_mem_nil

end Loops

/-! ## Enough turns -/

/-- A tool that has only some of the answers left. -/
structure Ready (p : Parameters) (answers : List Answer) (w : World) : Prop where
  myIP : w.myIP = p.srcIp
  answers : ∀ answer ∈ w.answers, answer ∈ answers

/-- The walk over one of the answers has run out of turns. -/
def Stuck (fuel : Nat) (me : List Byte) (answers : List Answer) (log : List Event) : Prop :=
  ∃ time bs rest, ⟨.bytes bs, rest⟩ ∈ answers ∧ .read time (.bytes (bs.take 1514)) ∈ log ∧
    Reaches me (bs.take 1514) ∧ walk fuel (bs.take 1514) 6 34 = .error .fuel

section Turns

variable {p : Parameters} {w w' : World} {attempt hops : Int} {fuel n : Nat} {l : Locals}
  {buffer : List Byte} {answers : List Answer}

theorem Ready.of_eq (h : Ready p answers w) (hme : w'.myIP = w.myIP)
    (hanswers : w'.answers = w.answers) : Ready p answers w' :=
  ⟨hme.trans h.myIP, hanswers ▸ h.answers⟩

theorem readLoop_turns (hsrc : p.srcIp.length = 16) (hb : buffer.length = 1514)
    (h : Ready p answers w) (hn : w.answers.length < n) :
    Comp.Closes (fun _ w' => Ready p answers w' ∧ w'.written = w.written ∧
        w'.answers.length ≤ w.answers.length)
      (fun e w' => e = .fuel → Stuck fuel p.srcIp answers w'.log)
      ((readLoop fuel n buffer).run w) := by
  induction n generalizing buffer w with
  | zero => exact absurd hn (Nat.not_lt_zero _)
  | succ n ih =>
    cases hw : w.answers with
    | nil =>
      rw [readLoop, Comp.bind_error (read_waiting hw)]
      exact Stop.noConfusion
    | cons answer rest =>
      have hanswer : answer ∈ answers := h.answers answer (hw ▸ List.mem_cons_self)
      obtain ⟨reading, time⟩ := answer
      cases reading with
      | failed j =>
        rw [readLoop, Comp.bind_error (read_failed hw)]
        exact Stop.noConfusion
      | bytes bs =>
        have hle : (bs.take 1514).length ≤ 1514 := List.length_take_le 1514 bs
        rw [hw] at hn
        rw [readLoop_turn n hb hw]
        have hnext : Ready p answers
            ((w.answered time rest).note (.read w.timeout (.bytes (bs.take 1514)))) :=
          ⟨h.myIP, fun a ha => h.answers a (hw ▸ List.mem_cons_of_mem _ ha)⟩
        have hread : .read w.timeout (.bytes (bs.take 1514)) ∈
            ((w.answered time rest).note (.read w.timeout (.bytes (bs.take 1514)))).log :=
          List.mem_append_right _ List.mem_cons_self
        have hrest : rest.length ≤ (⟨.bytes bs, time⟩ :: rest : List Answer).length :=
          Nat.le_succ _
        by_cases hD : bs.take 1514 = []
        · rw [if_pos hD]
          exact ⟨hnext.of_eq rfl rfl, rfl, hrest⟩
        · have hlen : ((w.answered time rest).note
              (.read w.timeout (.bytes (bs.take 1514)))).myIP.length = 16 := by
            rw [hnext.myIP, hsrc]
          have hout := checkMessage_outcome hlen fuel (bs.take 1514)
          rw [if_neg hD]
          generalize hr : (checkMessage fuel (bs.take 1514)).run _ = r at hout
          cases hout with
          | throws e why =>
            rw [Comp.bind_error hr]
            intro he
            obtain ⟨hreaches, hwalk⟩ := why he
            rw [hnext.myIP] at hreaches
            exact ⟨w.timeout, bs, time, hanswer, hread, hreaches, hwalk⟩
          | rejects =>
            rw [Comp.bind_ok hr]
            have hcloses := ih (readBuffer_length hb hle) hnext (Nat.lt_of_succ_lt_succ hn)
            refine hcloses.mono ?_ fun _ _ => id
            intro _ w' hw'
            exact ⟨hw'.1, hw'.2.1, Nat.le_trans hw'.2.2 hrest⟩
          | accepts hp =>
            rw [Comp.bind_ok hr]
            exact ⟨hnext.of_eq rfl rfl, rfl, hrest⟩

/-- Every attempt takes the result of a `write`. -/
theorem attemptLoop_turns (hsrc : p.srcIp.length = 16) (hdst : p.dstIp.length = 16)
    (hl : l.Kept) (h : Ready p answers w) (hanswers : w.answers.length < fuel)
    (hn : w.written.length < n) :
    Comp.Closes (fun l' w' => l'.Kept ∧ Ready p answers w' ∧
        w'.answers.length ≤ w.answers.length ∧ w'.written.length ≤ w.written.length ∧
        (attempt ≤ p.attempts → w'.written.length < w.written.length))
      (fun e w' => e = .fuel → Stuck fuel p.srcIp answers w'.log)
      ((attemptLoop fuel p hops n attempt l).run w) := by
  induction n generalizing attempt l w with
  | zero => exact absurd hn (Nat.not_lt_zero _)
  | succ n ih =>
    rw [attemptLoop]
    by_cases ha : attempt ≤ p.attempts
    · rw [if_pos ha]
      obtain ⟨-, hrun⟩ | ⟨ret, rest, hw, hrun⟩ := sendProbe_cases hsrc hdst hops hl w
      · rw [Comp.bind_error hrun]
        exact Stop.noConfusion
      · rw [hw] at hn ⊢
        obtain ⟨-, l', hl', hrun⟩ | ⟨-, hrun⟩ := hrun
        · rw [Comp.bind_ok hrun]
          dsimp only
          have hsent : Ready p answers (w.sent p hops rest) := h.of_eq rfl rfl
          have hb : (probe p.srcIp p.dstIp hops w.sequenceNumber ++ zeros 1466).length = 1514 := by
            rw [List.length_append, probe_length hsrc hdst, zeros_length]
          refine Comp.closes_bind (readLoop_turns hsrc hb hsent hanswers) ?_
          intro _ w₁ _ hread
          obtain ⟨hready, hwritten, hless⟩ := hread
          have hrest : w₁.written.length = rest.length := congrArg List.length hwritten
          have hfewer : w₁.answers.length ≤ w.answers.length := hless
          have hleft : rest.length + 1 < n + 1 := hn
          refine (ih hl' hready (by omega) (by omega)).mono ?_ fun _ _ => id
          intro l'' w' hw'
          obtain ⟨hl'', hready', hanswers', hwritten', -⟩ := hw'
          refine ⟨hl'', hready', by omega, ?_, fun _ => ?_⟩
          · exact Nat.le_trans (hrest ▸ hwritten') (Nat.le_succ _)
          · exact Nat.lt_succ_of_le (hrest ▸ hwritten')
        · rw [Comp.bind_error hrun]
          exact Stop.noConfusion
    · rw [if_neg ha]
      exact ⟨hl, h, Nat.le_refl _, Nat.le_refl _, fun h => absurd h ha⟩

/-- The lines, each of which has an attempt. -/
theorem hopsLoop_turns (hsrc : p.srcIp.length = 16) (hdst : p.dstIp.length = 16)
    (hattempts : 1 ≤ p.attempts) (hl : l.Kept) (h : Ready p answers w)
    (hanswers : w.answers.length < fuel) (hwritten : w.written.length < fuel)
    (hn : w.written.length < n) :
    Comp.Closes (fun _ _ => True) (fun e w' => e = .fuel → Stuck fuel p.srcIp answers w'.log)
      ((hopsLoop fuel p n hops l).run w) := by
  induction n generalizing hops l w with
  | zero => exact absurd hn (Nat.not_lt_zero _)
  | succ n ih =>
    rw [hopsLoop, Comp.gets_bind]
    by_cases hgo : w.stopProbes = false ∧ hops ≤ p.hopLimit
    · rw [if_pos hgo, Comp.bind_ok (emit_run _ _)]
      have hline : Ready p answers (w.note (.printInt hops)) := h.of_eq rfl rfl
      refine Comp.closes_bind (attemptLoop_turns hsrc hdst hl hline hanswers hwritten) ?_
      intro l' w₁ _ hw₁
      obtain ⟨hl', hready, hanswers', -, hless⟩ := hw₁
      have hfewer : w₁.written.length < w.written.length := hless hattempts
      have hleft : w₁.answers.length ≤ w.answers.length := hanswers'
      rw [Comp.bind_ok (emit_run _ _)]
      have hend : Ready p answers (w₁.note (.print "\n")) := hready.of_eq rfl rfl
      exact ih hl' hend (by show w₁.answers.length < fuel; omega)
        (by show w₁.written.length < fuel; omega) (by show w₁.written.length < n; omega)
    · rw [if_neg hgo]
      trivial

/-- Without attempts a line is printed and nothing else happens. -/
theorem attemptLoop_idle (hattempts : p.attempts ≤ 0) (hf : 0 < fuel) (w : World) :
    (attemptLoop fuel p hops fuel 1 l).run w = (.ok l, w) := by
  obtain ⟨m, rfl⟩ : ∃ m, fuel = m + 1 := ⟨fuel - 1, by omega⟩
  rw [attemptLoop, if_neg (by omega), Comp.pure_run]

/-- Lines without attempts, up to the last one. -/
theorem hopsLoop_empty (hattempts : p.attempts ≤ 0) (hlimit : p.hopLimit < 2147483647)
    (hf : 0 < fuel) (h1 : 1 ≤ hops) (hn : p.hopLimit - hops + 1 < n) (hpos : 0 < n) :
    ((hopsLoop fuel p n hops l).run w).1 ≠ .error .fuel := by
  induction n generalizing hops w with
  | zero => exact absurd hpos (Nat.lt_irrefl 0)
  | succ n ih =>
    rw [hopsLoop, Comp.gets_bind]
    by_cases hgo : w.stopProbes = false ∧ hops ≤ p.hopLimit
    · have hnext : int32 (hops + 1) = hops + 1 := int32_of_range (by omega) (by omega)
      rw [if_pos hgo, Comp.bind_ok (emit_run _ _), Comp.bind_ok (attemptLoop_idle hattempts hf _),
        Comp.bind_ok (emit_run _ _), hnext]
      exact ih (by omega) (by omega) (by omega)
    · rw [if_neg hgo]
      intro hfail
      cases hfail

/-- Lines without attempts whose numbers wrap around. -/
theorem hopsLoop_idle (hattempts : p.attempts ≤ 0) (hlimit : 2147483647 ≤ p.hopLimit)
    (hops : Int) (hh : hops ≤ 2147483647) (hstop : w.stopProbes = false) :
    ((hopsLoop fuel p n hops l).run w).1 = .error .fuel := by
  induction n generalizing hops w with
  | zero => rfl
  | succ n ih =>
    have hgo : w.stopProbes = false ∧ hops ≤ p.hopLimit := ⟨hstop, Int.le_trans hh hlimit⟩
    rw [hopsLoop, Comp.gets_bind, if_pos hgo, Comp.bind_ok (emit_run _ _)]
    by_cases hf : 0 < fuel
    · rw [Comp.bind_ok (attemptLoop_idle hattempts hf _), Comp.bind_ok (emit_run _ _)]
      exact ih _ (int32_le _) hstop
    · have hzero : fuel = 0 := by omega
      rw [hzero]
      rfl

end Turns

/-! ## Runs -/

section Runs

variable {p : Parameters} {answers : List Answer}

/-- One number of turns for the walks over all answers that do not hang. -/
theorem exists_turns (me : List Byte) (answers : List Answer) :
    ∃ N, ∀ fuel, N ≤ fuel → ∀ bs rest, ⟨.bytes bs, rest⟩ ∈ answers →
      Reaches me (bs.take 1514) → walk fuel (bs.take 1514) 6 34 = .error .fuel →
      Hangs me (bs.take 1514) := by
  induction answers with
  | nil => exact ⟨0, fun _ _ _ _ hmem => absurd hmem List.not_mem_nil⟩
  | cons answer answers ih =>
    obtain ⟨N, hN⟩ := ih
    obtain ⟨M, hM⟩ : ∃ M, ∀ fuel, M ≤ fuel → ∀ bs, answer.reading = .bytes bs →
        Reaches me (bs.take 1514) → walk fuel (bs.take 1514) 6 34 = .error .fuel →
        Hangs me (bs.take 1514) := by
      by_cases hends : ∃ bs M, answer.reading = .bytes bs ∧
          walk M (bs.take 1514) 6 34 ≠ .error .fuel
      · obtain ⟨bs, M, hreading, hwalk⟩ := hends
        refine ⟨M, ?_⟩
        intro fuel hfuel bs' hreading' _ hfail
        obtain rfl : bs = bs' := Reading.bytes.inj (hreading.symm.trans hreading')
        rw [walk_stable hwalk hfuel] at hfail
        exact absurd hfail hwalk
      · refine ⟨0, ?_⟩
        intro _ _ bs hreading hreaches _
        refine ⟨hreaches, fun M => ?_⟩
        by_contra hwalk
        exact hends ⟨bs, M, hreading, hwalk⟩
    refine ⟨max N M, ?_⟩
    intro fuel hfuel bs rest hmem hreaches hwalk
    cases List.mem_cons.mp hmem with
    | inl heq => exact hM fuel (by omega) bs (by rw [← heq]) hreaches hwalk
    | inr hmem => exact hN fuel (by omega) bs rest hmem hreaches hwalk

/-- A run that has read a datagram that hangs never ends. -/
theorem run_hangs (hsrc : p.srcIp.length = 16) (hdst : p.dstIp.length = 16) {written : List Int}
    {k : Nat} (h : ¬ Sound p.srcIp ((run k p).run (World.start written answers)).2.log) :
    ¬ Comp.Ends .fuel (fun fuel => run fuel p) (World.start written answers) := by
  intro hends
  obtain ⟨N, hN⟩ := hends
  have hsettled := run_settled hsrc hdst (Nat.le_max_left k N) written answers
  have hlater := hN (max k N) (Nat.le_max_right k N)
  have hsound := hsettled.sound
  have hsame := hsettled.follows
  generalize (run k p).run (World.start written answers) = r at h hsound hsame
  obtain ⟨e | a, w'⟩ := r
  · cases hsound with
    | inl he =>
      rw [hsame (.inr h)] at hlater
      exact hlater (congrArg Except.error he)
    | inr hs => exact h hs
  · exact h hsound

/-- With enough turns a run that does not end has read an answer that hangs. -/
theorem run_turns (hsrc : p.srcIp.length = 16) (hdst : p.dstIp.length = 16)
    (hidle : ¬ (p.attempts ≤ 0 ∧ 2147483647 ≤ p.hopLimit)) (written : List Int)
    (answers : List Answer) :
    ∃ N, ∀ fuel, N ≤ fuel →
      ((run fuel p).run (World.start written answers)).1 = .error .fuel →
      ¬ Sound p.srcIp ((run fuel p).run (World.start written answers)).2.log := by
  obtain ⟨N, hN⟩ := exists_turns p.srcIp answers
  refine ⟨N + written.length + answers.length + p.hopLimit.toNat + 2, ?_⟩
  intro fuel hfuel hfail hsound
  by_cases hattempts : 1 ≤ p.attempts
  · have hready : Ready p answers { World.start written answers with
        myIP := p.srcIp, timeout := int32 (p.timeout * 1000) } := ⟨rfl, fun _ => id⟩
    have hturns := @hopsLoop_turns p _ 1 fuel fuel Locals.new answers hsrc hdst hattempts
      Locals.kept_new hready (by show answers.length < fuel; omega)
      (by show written.length < fuel; omega) (by show written.length < fuel; omega)
    obtain ⟨time, bs, rest, hmem, hread, hreaches, hwalk⟩ :=
      hturns.error (Prod.ext hfail rfl) rfl
    exact hsound time _ hread (hN fuel (by omega) bs rest hmem hreaches hwalk)
  · refine absurd hfail ?_
    rw [run, Comp.modify_bind, Comp.modify_bind]
    exact hopsLoop_empty (by omega) (by omega) (by omega) (Int.le_refl 1) (by omega) (by omega)

/-- trace6 ends on every sequence of answers, except that it prints lines for ever when it is to
    make no attempts up to the largest Hop Limit there is, and that it does not come back from a
    datagram that hangs. -/
theorem run_ends_iff (p : Parameters) (hsrc : p.srcIp.length = 16) (hdst : p.dstIp.length = 16)
    (written : List Int) (answers : List Answer) :
    Comp.Ends .fuel (fun fuel => run fuel p) (World.start written answers) ↔
      ¬ (p.attempts ≤ 0 ∧ 2147483647 ≤ p.hopLimit) ∧
        ∀ fuel, Sound p.srcIp ((run fuel p).run (World.start written answers)).2.log := by
  constructor
  · intro hends
    constructor
    · intro hidle
      obtain ⟨N, hN⟩ := hends
      refine hN N (Nat.le_refl N) ?_
      show ((run N p).run (World.start written answers)).1 = _
      rw [run, Comp.modify_bind, Comp.modify_bind]
      exact hopsLoop_idle hidle.1 hidle.2 1 (by decide) rfl
    · intro fuel
      by_contra hsound
      exact run_hangs hsrc hdst hsound hends
  · intro h
    obtain ⟨hidle, hsound⟩ := h
    obtain ⟨N, hN⟩ := run_turns hsrc hdst hidle written answers
    exact ⟨N, fun fuel hfuel hfail => hN fuel hfuel hfail (hsound fuel)⟩

end Runs

/-- No attempts, and as many lines as an `int` can count. -/
theorem run_ends_iff_idle :
    ¬ Comp.Ends .fuel (fun fuel => run fuel
      { parametersDemo with attempts := 0, hopLimit := 2147483647 }) (World.start [] []) := fun h =>
  ((run_ends_iff { parametersDemo with attempts := 0, hopLimit := 2147483647 } rfl rfl [] []).mp
    h).1 ⟨by decide, by decide⟩

end Grnvs.Trace
