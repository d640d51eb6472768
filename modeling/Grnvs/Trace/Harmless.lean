/-
  The datagrams that do not take trace6 down.

  The walk runs off the end of a datagram whose chain is cut short, or for ever when lengths are
  negative; `checkIcmpProperties` throws for every message behind offset 40, and the handler of echo
  replies reads up to two bytes more than were tested. `Harmless` is what is left, by recursion
  along the chain of headers. `checkMessage` returns for exactly these datagrams
  (`checkMessage_returns_iff`), and a run that reads no others goes on (`datagrams_survived`).
-/
import Grnvs.Trace.Datagram
import Grnvs.Trace.Run

namespace Grnvs.Trace

open Bytes OnesComplement

/-- A message at `pos` that can be tested to its end: an echo reply of code 0 that is intact has the
    bytes of the identifier that are looked at. -/
structure Answerable (buffer : List Byte) (pos : Nat) : Prop where
  checkable : Checkable buffer pos
  identifier : be16 (recomputed buffer pos) = stored buffer pos →
    buffer[pos]? = some icmpEchoRep → buffer[pos + 1]? = some 0 →
    ∃ b, buffer[pos + 4]? = some b ∧ (b = icmpID → ∃ c, buffer[pos + 5]? = some c)

/-- A chain of headers that can be followed to its end: at `pos` stands the type of the header that
    begins `skip` bytes on, and extension headers are as long as their signed length bytes say. -/
inductive Passable (buffer : List Byte) : Int → Int → Prop where
  | other {pos skip : Int} {b : Byte} : arrayGet buffer pos = .ok b → isExtension b = false →
      b ≠ icmpNH → Passable buffer pos skip
  | message {pos skip : Int} {n : Nat} : arrayGet buffer pos = .ok icmpNH → pos + skip = n →
      Answerable buffer n → Passable buffer pos skip
  | extension {pos skip : Int} {b l : Byte} : arrayGet buffer pos = .ok b →
      isExtension b = true → arrayGet buffer (pos + skip + 1) = .ok l →
      Passable buffer (pos + skip) (8 + 8 * signed l) → Passable buffer pos skip

/-- A datagram the tool at `me` survives. -/
def Harmless (me buffer : List Byte) : Prop :=
  buffer[0]? ≠ some versionIpv6 ∨
    40 ≤ buffer.length ∧ (destination buffer ≠ me ∨ Passable buffer 6 34)

section Chain

variable {buffer : List Byte} {pos skip p s : Int}

/-- A turn of the walk is a step along the chain. -/
theorem Walks.passable (h : Walks buffer pos skip p s) (hend : Passable buffer p s) :
    Passable buffer pos skip := by
  induction h with
  | stay _ => exact hend
  | @turn pos skip pos' skip' _ _ hs _ ih =>
    rcases walkStep_cases buffer pos skip with ⟨b, -, -, hr⟩ | ⟨b, l, hb, hext, hl, hr⟩ |
      ⟨_, -, -, hr⟩
    · rw [hs] at hr
      cases hr
    · rw [hs] at hr
      cases hr
      exact .extension hb hext hl (ih hend)
    · rw [hs] at hr
      cases hr

/-- Where the walk ends stands a header of another kind. -/
theorem Walks.ends (h : Walks buffer pos skip p s) :
    ∃ b, arrayGet buffer p = .ok b ∧ isExtension b = false := by
  induction h with
  | @stay pos skip hs =>
    rcases walkStep_cases buffer pos skip with ⟨b, hb, hext, -⟩ | ⟨b, l, -, -, -, hr⟩ |
      ⟨_, -, -, hr⟩
    · exact ⟨b, hb, hext⟩
    · rw [hs] at hr
      cases hr
    · rw [hs] at hr
      cases hr
  | turn _ _ ih => exact ih

/-- The walk along a passable chain, and what stands behind it. -/
theorem Passable.walks (h : Passable buffer pos skip) :
    ∃ p s b, Walks buffer pos skip p s ∧ arrayGet buffer p = .ok b ∧
      (b = icmpNH → ∃ n : Nat, p + s = n ∧ Answerable buffer n) := by
  induction h with
  | @other pos skip b hb hext hne =>
    exact ⟨pos, skip, b, .stay (walkStep_end hb hext), hb, fun h => absurd h hne⟩
  | @message pos skip n hb hn hans =>
    exact ⟨pos, skip, icmpNH, .stay (walkStep_end hb (by decide)), hb, fun _ => ⟨n, hn, hans⟩⟩
  | extension hb hext hl _ ih =>
    obtain ⟨p, s, c, hw, hc, hmessage⟩ := ih
    exact ⟨p, s, c, .turn (walkStep_turn hb hext hl) hw, hc, hmessage⟩

end Chain

/-! ## The message -/

section Message

variable {fuel pos : Nat} {buffer : List Byte} {w : World}

/-- The handler of echo replies reads the identifier only if the code is 0, and its second byte only
    if the first is right. -/
theorem handleIcmpEchoRep_returns {pos : Int} {host : String} {c : Byte}
    (hc : arrayGet buffer (pos + 1) = .ok c) :
    (∃ done, ((handleIcmpEchoRep buffer pos host).run w).1 = .ok done) ↔
      (c = 0 → ∃ b, arrayGet buffer (pos + 4) = .ok b ∧
        (b = icmpID → ∃ d, arrayGet buffer (pos + 5) = .ok d)) := by
  rw [handleIcmpEchoRep, Comp.lift_bind hc]
  by_cases h0 : c = 0
  · rw [if_neg (not_not.mpr h0)]
    rcases hb : arrayGet buffer (pos + 4) with e | b
    · rw [Comp.lift_bind_error rfl]
      refine iff_of_false ?_ ?_
      · rintro ⟨done, h⟩
        cases h
      · intro h
        obtain ⟨b, h, -⟩ := h h0
        cases h
    rw [Comp.lift_bind rfl]
    by_cases h1 : b = icmpID
    · rw [if_neg (not_not.mpr h1)]
      rcases hd : arrayGet buffer (pos + 5) with e | d
      · rw [Comp.lift_bind_error rfl]
        refine iff_of_false ?_ ?_
        · rintro ⟨done, h⟩
          cases h
        · intro h
          obtain ⟨b', hb', h⟩ := h h0
          cases hb'
          obtain ⟨d, h⟩ := h h1
          cases h
      rw [Comp.lift_bind rfl]
      refine iff_of_true ?_ fun _ => ⟨b, rfl, fun _ => ⟨d, rfl⟩⟩
      by_cases h2 : d = 0
      · exact ⟨true, by rw [if_neg (not_not.mpr h2)]; rfl⟩
      · exact ⟨false, by rw [if_pos h2]; rfl⟩
    · rw [if_pos h1]
      exact iff_of_true ⟨false, rfl⟩ fun _ => ⟨b, rfl, fun h => absurd h h1⟩
  · rw [if_pos h0]
    exact iff_of_true ⟨false, rfl⟩ fun h => absurd h h0

/-- A message that is tested to its end. -/
theorem dispatch_returns (h : Checkable buffer pos) :
    (∃ done, ((dispatch (cleared buffer pos) pos).run w).1 = .ok done) ↔
      (buffer[pos]? = some icmpEchoRep → buffer[pos + 1]? = some 0 →
        ∃ b, buffer[pos + 4]? = some b ∧ (b = icmpID → ∃ c, buffer[pos + 5]? = some c)) := by
  obtain ⟨type, code, htype, hcode, -, hget⟩ := cleared_type h
  have hkept : ∀ (i : Nat) (b : Byte), i ≠ pos + 2 → i ≠ pos + 3 →
      (arrayGet (cleared buffer pos) (i : Int) = .ok b ↔ buffer[i]? = some b) := by
    intro i b h2 h3
    rw [arrayGet_eq_ok, cleared_getElem? h2 h3]
  rw [dispatch_run h htype, htype, hcode]
  by_cases h1 : type = icmpTimeEx
  · rw [if_pos h1, handleIcmpTimeEx_run hget]
    refine iff_of_true ⟨false, rfl⟩ ?_
    intro h
    rw [h1] at h
    cases h
  by_cases h2 : type = icmpDestUnreach
  · rw [if_neg h1, if_pos h2, handleIcmpDestUnreach_run hget]
    refine iff_of_true ⟨false, rfl⟩ ?_
    intro h
    rw [h2] at h
    cases h
  by_cases h3 : type = icmpEchoRep
  · rw [if_neg h1, if_neg h2, if_pos h3, handleIcmpEchoRep_returns hget]
    have h4 : ∀ b, arrayGet (cleared buffer pos) ((pos : Int) + 4) = .ok b ↔
        buffer[pos + 4]? = some b := fun b => hkept (pos + 4) b (by omega) (by omega)
    have h5 : ∀ b, arrayGet (cleared buffer pos) ((pos : Int) + 5) = .ok b ↔
        buffer[pos + 5]? = some b := fun b => hkept (pos + 5) b (by omega) (by omega)
    simp only [h4, h5, h3, Option.some.injEq, forall_const]
  · rw [if_neg h1, if_neg h2, if_neg h3]
    refine iff_of_true ⟨false, rfl⟩ ?_
    intro h
    exact absurd (Option.some.inj h) h3

end Message

/-! ## The datagram -/

section Datagram

variable {fuel : Nat} {buffer : List Byte} {w : World}

/-- Behind the walk: every header of another kind ends the search, an answerable message too. -/
theorem searchIcmp_returns {p s : Int} {b : Byte} (hwalk : walk fuel buffer 6 34 = .ok (p, s))
    (hb : arrayGet buffer p = .ok b) :
    (∃ done, ((searchIcmp fuel buffer).run w).1 = .ok done) ↔
      (b = icmpNH → ∃ n : Nat, p + s = n ∧ Answerable buffer n) := by
  by_cases hnh : b = icmpNH
  · subst hnh
    by_cases hat : ∃ n : Nat, p + s = n ∧ Checkable buffer n
    · obtain ⟨n, hn, hc⟩ := hat
      rw [searchIcmp_run hwalk hb hn hc]
      by_cases hsum : be16 (recomputed buffer n) = stored buffer n
      · rw [if_pos hsum, dispatch_returns hc]
        constructor
        · exact fun h _ => ⟨n, hn, hc, fun _ => h⟩
        · intro h
          obtain ⟨m, hm, hans⟩ := h rfl
          obtain rfl : n = m := by omega
          exact hans.identifier hsum
      · rw [if_neg hsum]
        exact iff_of_true ⟨false, rfl⟩ fun _ => ⟨n, hn, hc, fun h => absurd h hsum⟩
    · obtain ⟨e, he, -⟩ := checkIcmpProperties_error hat
      rw [searchIcmp, Comp.lift_bind hwalk]
      dsimp only
      rw [Comp.lift_bind hb, if_pos rfl, Comp.lift_bind_error he]
      refine iff_of_false ?_ ?_
      · rintro ⟨done, h⟩
        cases h
      · intro h
        obtain ⟨n, hn, hans⟩ := h rfl
        exact hat ⟨n, hn, hans.checkable⟩
  · rw [searchIcmp, Comp.lift_bind hwalk]
    dsimp only
    rw [Comp.lift_bind hb, if_neg hnh]
    exact iff_of_true ⟨false, rfl⟩ fun h => absurd h hnh

/-- A harmless datagram throws nothing, however many turns are left. -/
theorem Harmless.run (h : Harmless w.myIP buffer) (hme : w.myIP.length = 16)
    (hlen : 1 ≤ buffer.length) :
    ∃ n, ∀ fuel, (∃ done, ((checkMessage fuel buffer).run w).1 = .ok done) ∨
      fuel < n ∧ ((checkMessage fuel buffer).run w).1 = .error .fuel := by
  obtain ⟨v, hv⟩ : ∃ v, buffer[0]? = some v := ⟨buffer[0], List.getElem?_eq_getElem _⟩
  have h0 : arrayGet buffer 0 = .ok v := arrayGet_eq_ok.mpr hv
  by_cases hversion : v = versionIpv6
  · subst hversion
    rcases h with h | ⟨hheader, h⟩
    · exact absurd hv h
    have hcopy : arraycopy buffer 24 (zeros 16) 0 16 = .ok (destination buffer) :=
      arraycopy_new (by omega : 24 + 16 ≤ buffer.length)
    have hdst := destination_length hheader
    by_cases hreceiver : destination buffer = w.myIP
    · have hr : Reaches w.myIP buffer := ⟨hheader, hv, hreceiver⟩
      rcases h with h | h
      · exact absurd hreceiver h
      obtain ⟨p, s, b, hw, hb, hmessage⟩ := h.walks
      obtain ⟨n, hn⟩ := hw.walk
      refine ⟨n, fun fuel => ?_⟩
      rw [checkMessage_reached hr]
      rcases hw.walk_or fuel with hwalk | hwalk
      · by_cases hf : fuel < n
        · refine .inr ⟨hf, ?_⟩
          rw [searchIcmp, Comp.lift_bind_error hwalk]
        · rw [hn fuel (by omega)] at hwalk
          cases hwalk
      · exact .inl ((searchIcmp_returns hwalk hb).mpr hmessage)
    · refine ⟨0, fun fuel => .inl ⟨false, ?_⟩⟩
      have hne : hostText w.myIP ≠ hostText (destination buffer) := fun he =>
        hreceiver (hostText_inj hme hdst he).symm
      rw [checkMessage, Comp.lift_bind h0, if_neg (not_not.mpr rfl), Comp.lift_bind hcopy,
        Comp.lift_bind (hostAddress_ok hdst), Comp.gets_bind, Comp.lift_bind (hostAddress_ok hme),
        if_pos hne]
      rfl
  · refine ⟨0, fun fuel => .inl ⟨false, ?_⟩⟩
    rw [checkMessage, Comp.lift_bind h0, if_pos hversion]
    rfl

/-- A datagram that `checkMessage` returns from is harmless. -/
theorem harmless_of_returns {done : Bool} (hlen : 1 ≤ buffer.length)
    (h : ((checkMessage fuel buffer).run w).1 = .ok done) : Harmless w.myIP buffer := by
  obtain ⟨v, hv⟩ : ∃ v, buffer[0]? = some v := ⟨buffer[0], List.getElem?_eq_getElem _⟩
  have h0 : arrayGet buffer 0 = .ok v := arrayGet_eq_ok.mpr hv
  by_cases hversion : v = versionIpv6
  · subst hversion
    right
    have hheader : 40 ≤ buffer.length := by
      by_contra hshort
      have hcopy : arraycopy buffer 24 (zeros 16) 0 16 = .error .arrayCopy := by
        rw [arraycopy, if_neg (by omega)]
      rw [checkMessage, Comp.lift_bind h0, if_neg (not_not.mpr rfl),
        Comp.lift_bind_error hcopy] at h
      cases h
    refine ⟨hheader, ?_⟩
    by_cases hreceiver : destination buffer = w.myIP
    · right
      have hr : Reaches w.myIP buffer := ⟨hheader, hv, hreceiver⟩
      rw [checkMessage_reached hr] at h
      rcases hwalk : walk fuel buffer 6 34 with e | ⟨p, s⟩
      · rw [searchIcmp, Comp.lift_bind_error hwalk] at h
        cases h
      have hw := walks_of_walk hwalk
      obtain ⟨b, hb, hext⟩ := hw.ends
      have hmessage := (searchIcmp_returns hwalk hb).mp ⟨done, h⟩
      by_cases hnh : b = icmpNH
      · obtain ⟨n, hn, hans⟩ := hmessage hnh
        subst hnh
        exact hw.passable (.message hb hn hans)
      · exact hw.passable (.other hb hext hnh)
    · exact .inl hreceiver
  · refine .inl ?_
    rw [hv]
    exact fun he => hversion (Option.some.inj he)

/-- `checkMessage` returns exactly for the harmless datagrams. -/
theorem checkMessage_returns_iff (hme : w.myIP.length = 16) (hlen : 1 ≤ buffer.length) :
    (∃ n, ∀ fuel, n ≤ fuel → ∃ done, ((checkMessage fuel buffer).run w).1 = .ok done) ↔
      Harmless w.myIP buffer := by
  constructor
  · intro h
    obtain ⟨n, hn⟩ := h
    obtain ⟨done, hdone⟩ := hn n (Nat.le_refl n)
    exact harmless_of_returns hlen hdone
  · intro h
    obtain ⟨n, hn⟩ := h.run hme hlen
    refine ⟨n, fun fuel hf => ?_⟩
    rcases hn fuel with h | ⟨hlt, -⟩
    · exact h
    · omega

end Datagram

/-! ## Runs that read harmless datagrams -/

/-- Nothing was thrown: the run has returned with `Q`, waits for a call, has exited, or was given too
    few turns. -/
def GoesOn {α : Type} (Q : α → World → Prop) : Except Stop α × World → Prop
  | (.ok a, w) => Q a w
  | (.error e, _) => e = .fuel ∨ e = .waiting ∨ e = .exit 1

theorem goesOn_bind {α β : Type} {Q : α → World → Prop} {R : β → World → Prop} {x : Run α}
    {f : α → Run β} {w : World} (hx : GoesOn Q (x.run w))
    (hf : ∀ a w', Q a w' → GoesOn R ((f a).run w')) : GoesOn R ((x >>= f).run w) := by
  rcases hr : x.run w with ⟨e | a, w'⟩
  · rw [hr] at hx
    rw [Comp.bind_error hr]
    exact hx
  · rw [hr] at hx
    rw [Comp.bind_ok hr]
    exact hf a w' hx

/-- A `read` that has returned a timeout or a harmless datagram. -/
def Survived (me : List Byte) (answer : Answer) : Prop :=
  ∃ bs, answer.reading = .bytes bs ∧ (bs.take 1514 = [] ∨ Harmless me (bs.take 1514))

/-- A tool that has only such reads to come. -/
structure Peaceful (p : Parameters) (w : World) : Prop where
  myIP : w.myIP = p.srcIp
  answers : ∀ answer ∈ w.answers, Survived p.srcIp answer

section Peaceful

variable {p : Parameters} {w w' : World} {fuel : Nat} {buffer : List Byte}

/-- What matters to the reads to come is left alone by everything but `read`. -/
theorem Peaceful.of_eq (h : Peaceful p w) (hme : w'.myIP = w.myIP)
    (hanswers : w'.answers = w.answers) : Peaceful p w' :=
  ⟨hme.trans h.myIP, hanswers ▸ h.answers⟩

theorem checkMessage_goesOn (h : Peaceful p w) (hsrc : p.srcIp.length = 16)
    (hlen : 1 ≤ buffer.length) (hb : Harmless p.srcIp buffer) (fuel : Nat) :
    GoesOn (fun _ w' => Peaceful p w') ((checkMessage fuel buffer).run w) := by
  have hme : w.myIP.length = 16 := by rw [h.myIP, hsrc]
  have hout := checkMessage_outcome hme fuel buffer
  obtain ⟨n, hn⟩ := Harmless.run (w := w) (by rw [h.myIP]; exact hb) hme hlen
  have hrun := hn fuel
  generalize (checkMessage fuel buffer).run w = r at hout hrun
  cases hout with
  | throws e why =>
    rcases hrun with ⟨done, he⟩ | ⟨-, he⟩
    · cases he
    · exact .inl (Except.error.inj he)
  | rejects => exact h
  | accepts hp => exact h.of_eq rfl rfl

theorem readLoop_goesOn (hsrc : p.srcIp.length = 16) (n : Nat) (hb : buffer.length = 1514)
    (h : Peaceful p w) : GoesOn (fun _ w' => Peaceful p w') ((readLoop fuel n buffer).run w) := by
  induction n generalizing buffer w with
  | zero => exact .inl rfl
  | succ n ih =>
    cases hw : w.answers with
    | nil =>
      rw [readLoop, Comp.bind_error (read_waiting hw)]
      exact .inr (.inl rfl)
    | cons answer rest =>
      obtain ⟨bs, hbytes, hsurvived⟩ := h.answers answer (hw ▸ List.mem_cons_self ..)
      obtain ⟨reading, time⟩ := answer
      subst hbytes
      have hle : (bs.take 1514).length ≤ 1514 := List.length_take_le 1514 bs
      rw [readLoop_turn n hb hw]
      generalize bs.take 1514 = D at hle hsurvived
      have hnext : Peaceful p ((w.answered time rest).note (.read w.timeout (.bytes D))) :=
        ⟨h.myIP, fun a ha => h.answers a (hw ▸ List.mem_cons_of_mem _ ha)⟩
      by_cases hD : D = []
      · rw [if_pos hD]
        exact hnext.of_eq rfl rfl
      · have hharmless : Harmless p.srcIp D := hsurvived.resolve_left hD
        have hpos : 1 ≤ D.length := List.length_pos_iff.mpr hD
        rw [if_neg hD]
        apply goesOn_bind (checkMessage_goesOn hnext hsrc hpos hharmless fuel)
        intro done w' hw'
        cases done with
        | true => exact hw'
        | false => exact ih (readBuffer_length hb hle) hw'

theorem attemptLoop_goesOn (hsrc : p.srcIp.length = 16) (hdst : p.dstIp.length = 16) (hops : Int)
    (n : Nat) {attempt : Int} {l : Locals} (hl : l.Kept) (h : Peaceful p w) :
    GoesOn (fun l' w' => l'.Kept ∧ Peaceful p w')
      ((attemptLoop fuel p hops n attempt l).run w) := by
  induction n generalizing attempt l w with
  | zero => exact .inl rfl
  | succ n ih =>
    rw [attemptLoop]
    by_cases ha : attempt ≤ p.attempts
    · rw [if_pos ha]
      obtain ⟨-, hrun⟩ | ⟨ret, rest, -, ⟨-, l', hl', hrun⟩ | ⟨-, hrun⟩⟩ :=
        sendProbe_cases hsrc hdst hops hl w
      · rw [Comp.bind_error hrun]
        exact .inr (.inl rfl)
      · rw [Comp.bind_ok hrun]
        have hbuffer : (probe p.srcIp p.dstIp hops w.sequenceNumber ++ zeros 1466).length = 1514 := by
          rw [List.length_append, probe_length hsrc hdst, zeros_length]
        have hsent : Peaceful p (w.sent p hops rest) := h.of_eq rfl rfl
        dsimp only
        apply goesOn_bind (readLoop_goesOn hsrc fuel hbuffer hsent)
        exact fun _ w' hw' => ih hl' hw'
      · rw [Comp.bind_error hrun]
        exact .inr (.inr rfl)
    · rw [if_neg ha]
      exact ⟨hl, h⟩

theorem hopsLoop_goesOn (hsrc : p.srcIp.length = 16) (hdst : p.dstIp.length = 16) (n : Nat)
    {hops : Int} {l : Locals} (hl : l.Kept) (h : Peaceful p w) :
    GoesOn (fun _ w' => Peaceful p w') ((hopsLoop fuel p n hops l).run w) := by
  induction n generalizing hops l w with
  | zero => exact .inl rfl
  | succ n ih =>
    rw [hopsLoop, Comp.gets_bind]
    split
    · rw [Comp.bind_ok (emit_run _ _)]
      have hline : Peaceful p (w.note (.printInt hops)) := h.of_eq rfl rfl
      apply goesOn_bind (attemptLoop_goesOn hsrc hdst hops fuel hl hline)
      intro l' w' hw'
      rw [Comp.bind_ok (emit_run _ _)]
      exact ih hw'.1 (hw'.2.of_eq rfl rfl)
    · exact h

end Peaceful

/-- `checkMessage` returns, neither throwing nor running for ever, for exactly the harmless
    datagrams; and no run that reads only such datagrams throws. -/
theorem datagrams_survived {p : Parameters} (hsrc : p.srcIp.length = 16)
    (hdst : p.dstIp.length = 16) :
    (∀ (buffer : List Byte) (w : World), w.myIP = p.srcIp → 1 ≤ buffer.length →
      ((∃ n, ∀ fuel, n ≤ fuel → ∃ done, ((checkMessage fuel buffer).run w).1 = .ok done) ↔
        Harmless p.srcIp buffer)) ∧
    ∀ (fuel : Nat) (written : List Int) (answers : List Answer),
      (∀ answer ∈ answers, Survived p.srcIp answer) →
      GoesOn (fun _ _ => True) ((run fuel p).run (World.start written answers)) := by
  constructor
  · intro buffer w hme hlen
    rw [← hme] at hsrc ⊢
    exact checkMessage_returns_iff hsrc hlen
  intro fuel written answers h
  have hrun : GoesOn (fun _ w' => Peaceful p w') ((run fuel p).run (World.start written answers)) := by
    rw [run, Comp.modify_bind, Comp.modify_bind]
    exact hopsLoop_goesOn hsrc hdst fuel Locals.kept_new ⟨rfl, h⟩
  generalize (run fuel p).run (World.start written answers) = r at hrun
  obtain ⟨e | a, w'⟩ := r
  · exact hrun
  · trivial

theorem datagrams_survived_demo :
    (∃ n, ∀ fuel, n ≤ fuel →
      ∃ done, ((checkMessage fuel replyDemo).run (World.idle (destination replyDemo))).1 = .ok done) ↔
    Harmless (destination replyDemo) replyDemo :=
  (@datagrams_survived { parametersDemo with srcIp := destination replyDemo } (by decide)
    (by decide)).1 replyDemo (World.idle (destination replyDemo)) rfl (by decide)

/-- A reply with a Hop-by-Hop header in front of its message. -/
def crashDemo : List Byte :=
  [0x60, 0, 0, 0, 0, 16, 0, 64,
    0xfe, 0x80, 0, 0, 0, 0, 0, 0, 0, 0, 0, 0, 0, 0, 0, 2,
    0xfe, 0x80, 0, 0, 0, 0, 0, 0, 0, 0, 0, 0, 0, 0, 0, 1,
    58, 0, 1, 4, 0, 0, 0, 0,
    129, 0, 0, 0, 0xab, 0, 0, 0]

/-- `GRNVS_RAW.checksum` refuses its arguments, and the exception ends the tool. -/
theorem crashDemo_throws :
    (∀ fuel, ((checkMessage (fuel + 2) crashDemo).run (World.idle (destination crashDemo))).1 =
      .error (.illegalArgument "payload is shorter than payloadLength.")) ∧
    ¬ ∃ n, ∀ fuel, n ≤ fuel →
      ∃ done, ((checkMessage fuel crashDemo).run (World.idle (destination crashDemo))).1 = .ok done := by
  have hreach : Reaches (World.idle (destination crashDemo)).myIP crashDemo :=
    ⟨by decide, by decide, rfl⟩
  have hstart : walkStep crashDemo 6 34 = .ok (some (40, 8)) := by decide
  have hend : walkStep crashDemo 40 8 = .ok none := by decide
  have hnext : arrayGet crashDemo 40 = .ok icmpNH := by decide
  have hcheck : checkIcmpProperties crashDemo (40 + 8) =
      .error (.illegalArgument "payload is shorter than payloadLength.") := by decide +kernel
  have hrun : ∀ fuel, ((checkMessage (fuel + 2) crashDemo).run
      (World.idle (destination crashDemo))).1 =
      .error (.illegalArgument "payload is shorter than payloadLength.") := by
    intro fuel
    have hwalk : walk (fuel + 2) crashDemo 6 34 = .ok (40, 8) := by
      rw [walk_turn hstart, walk_stay hend]
    rw [checkMessage_reached hreach, searchIcmp, Comp.lift_bind hwalk]
    dsimp only
    rw [Comp.lift_bind hnext, if_pos rfl, Comp.lift_bind_error hcheck]
  refine ⟨hrun, ?_⟩
  rintro ⟨n, hn⟩
  obtain ⟨done, hdone⟩ := hn (n + 2) (Nat.le_add_right n 2)
  rw [hrun n] at hdone
  cases hdone

end Grnvs.Trace
