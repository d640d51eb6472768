/-
  Receiving stays inside its arrays exactly where every step of it fits.

  `AtHead`, `AtPiece` and `AtTail` are the states a call of `recvMessage` comes to: in front of a
  turn of its loop, in front of a turn of the fragment loop, and behind that loop. `StepsFit` says
  that each of them meets the condition of the part that follows. Every state a call comes to
  keeps the sizes of the arrays (`AtHead.recv`, `AtPiece.filled`, `AtTail.filled`), so the parts
  can be judged one by one.
-/
import Grnvs.Ascii.Receive
import Mathlib.Data.List.Infix

namespace Grnvs.Ascii

open Bytes Decimal Netstring

/-! ## The states of a call -/

/-- In front of a turn, with `message_length` and `nets`. -/
def AtHead [Libc] (fd : Fd) (w0 : World) (i : Nat × Nat) (w : World) : Prop :=
  ∃ w1, (recvStart fd).run w0 = (.ok true, w1) ∧
    Relation.ReflTransGen (Comp.Next (recvTurn fd)) ((0, 0), w1) (i, w)

/-- In front of a turn of the fragment loop, with the number of digits and the announced length. -/
def AtPiece [Libc] (fd : Fd) (w0 : World) (d n : Nat) (w : World) : Prop :=
  ∃ i w1 w2, AtHead fd w0 i w1 ∧ (w1.mem .buf).headD 0 ≠ 0 ∧
    (readHead fd).run w1 = (.ok (d, n), w2) ∧
    Relation.ReflTransGen (Comp.Next (refillTurn fd n)) ((), w2) ((), w)

/-- Behind the fragment loop. -/
def AtTail [Libc] (fd : Fd) (w0 : World) (i : Nat × Nat) (d n : Nat) (w : World) : Prop :=
  ∃ w1 w2, AtHead fd w0 i w1 ∧ (w1.mem .buf).headD 0 ≠ 0 ∧
    (readHead fd).run w1 = (.ok (d, n), w2) ∧
    Comp.Settles (refill fd Arr.buf.ptr n) w2 (.ok (), w)

/-- Every step of a call fits, and every count of the fragment loop has `q`. -/
structure StepsFit [Libc] (q : Nat → Prop) (fd : Fd) (w0 : World) : Prop where
  heads : ∀ i w, AtHead fd w0 i w →
    ∃ t, cstr (w.mem .buf) = some t ∧ (t ≠ [] → HeadFits (w.mem .buf) t)
  pieces : ∀ d n w t s, AtPiece fd w0 d n w → IsStr w Arr.buf.ptr t → IsStr w Arr.scratch.ptr s →
    PieceFits q n (w.net fd) (w.mem .scratch) t s
  tails : ∀ i d n w t, AtTail fd w0 i d n w → IsStr w Arr.buf.ptr t →
    TailFits (w.mem .buf) t d n i.1

/-! ## Turns -/

/-- The end of a turn: it goes on with the next message. -/
def turnEnd [Libc] (fd : Fd) (i : Nat × Nat) (digits strLength : Nat) : Run
    ((Nat × Nat) ⊕ Int) := do
  let pos ← finish fd i.1 digits strLength
  pure (.inl (pos, i.2 + 1))

/-- A turn with a text: from `readNet` on. -/
def turnBody [Libc] (fd : Fd) (i : Nat × Nat) (fuel : Nat) : Run ((Nat × Nat) ⊕ Int) := do
  let h ← readHead fd
  refill fd Arr.buf.ptr h.2 fuel
  turnEnd fd i h.1 h.2

/-- The text that the fragment loop works on, with its colon at `d`. -/
def Filled (d : Nat) (w : World) : Prop := ∃ t s, Filling w t s ∧ find colon t = some d

section Turns

variable {fd : Fd} {w w' : World} {i j : Nat × Nat} {d n k : Nat} {t s : List Byte}

theorem charAt_buf (hw : Recv w) :
    (charAt Arr.buf.ptr).run w = (.ok ((w.mem .buf).headD 0), w) := by
  have hlen := hw.buf
  rcases hb : w.mem .buf with _ | ⟨b, bs⟩
  · rw [hb] at hlen
    cases hlen
  · simp [charAt, hb]

/-- The first byte of an array is NUL for the empty text only. -/
theorem headD_cstr {B : List Byte} (h : cstr B = some t) : B.headD 0 = 0 ↔ t = [] := by
  obtain ⟨hn, r, rfl⟩ := cstr_eq_some.mp h
  cases t with
  | nil => exact ⟨fun _ => rfl, fun _ => rfl⟩
  | cons b t =>
    refine ⟨fun hb => ?_, nofun⟩
    exact absurd (List.mem_cons.mpr (.inl (hb : b = 0).symm)) hn

theorem headD_noText {B : List Byte} (hB : B ≠ []) (h : cstr B = none) : B.headD 0 ≠ 0 := by
  rcases B with _ | ⟨b, bs⟩
  · exact absurd rfl hB
  · intro hb
    obtain rfl : b = 0 := hb
    cases h

theorem sizeOfLong_lt (v : Int) : sizeOfLong v < 2 ^ 64 := by
  unfold sizeOfLong
  omega

/-- In front of the fragment loop its array is empty. -/
theorem Headed.filling (hw : Recv w) (hs : IsStr w Arr.buf.ptr t) (h : Headed t d n w w') :
    Filling w' t [] where
  buf := by
    rw [h.buf]
    exact hw.buf
  recvbuf := by
    rw [h.recvbuf]
    exact hw.recvbuf
  scratch := by rw [h.scratch, zeros_length]
  text := by
    unfold IsStr
    rw [Arr.ptr_blk, World.block_arr, h.buf]
    exact hs
  piece := by
    unfold IsStr
    rw [Arr.ptr_blk, World.block_arr, Arr.ptr_off, List.drop_zero, h.scratch]
    exact cstr_zeros (by decide)
  shorter := Nat.zero_le _

theorem Filling.of_mem (hf : Filling w t s) (h : w'.mem = w.mem) : Filling w' t s where
  buf := by
    rw [h]
    exact hf.buf
  recvbuf := by
    rw [h]
    exact hf.recvbuf
  scratch := by
    rw [h]
    exact hf.scratch
  text := (isStr_congr h).mpr hf.text
  piece := (isStr_congr h).mpr hf.piece
  shorter := hf.shorter

theorem find_append_left {c : Byte} (h : find c t = some d) (s : List Byte) :
    find c (t ++ s) = some d := by
  obtain ⟨a, b, rfl, ha, rfl⟩ := find_eq_some.mp h
  rw [List.append_assoc, List.cons_append]
  exact find_append ha _

variable [Libc]

theorem recvTurn_eq (fuel : Nat) :
    recvTurn fd i fuel = (do
      let c ← charAt Arr.buf.ptr
      if c ≠ 0 then turnBody fd i fuel else pure (.inr i.2)) := by
  unfold recvTurn turnBody turnEnd finish
  refine bind_congr fun c => ?_
  split
  · rw [readNet_eq]
    simp only [bind_assoc]
  · rfl

theorem recvTurn_text (hw : Recv w) (h : (w.mem .buf).headD 0 ≠ 0) :
    (recvTurn fd i k).run w = (turnBody fd i k).run w := by
  rw [recvTurn_eq, Comp.bind_ok (charAt_buf hw), if_pos h]

theorem recvTurn_end (hw : Recv w) (h : (w.mem .buf).headD 0 = 0) :
    (recvTurn fd i k).run w = (.ok (.inr i.2), w) := by
  rw [recvTurn_eq, Comp.bind_ok (charAt_buf hw), if_neg (not_not.mpr h), Comp.pure_run]

theorem stable_refillTurn (fd : Fd) (n : Nat) (u : Unit) :
    Comp.Stable .fuel (refillTurn fd n u) := Comp.stable_const _

theorem stable_refill (fd : Fd) (n : Nat) : Comp.Stable .fuel (refill fd Arr.buf.ptr n) := by
  have h : refill fd Arr.buf.ptr n = Comp.loop .fuel (refillTurn fd n) () :=
    funext fun k => refill_eq n k
  rw [h]
  exact Comp.stable_loop (stable_refillTurn fd n) ()

theorem stable_turnBody (fd : Fd) (i : Nat × Nat) : Comp.Stable .fuel (turnBody fd i) :=
  Comp.stable_bind (Comp.stable_const _) fun h =>
    Comp.stable_bind (stable_refill fd h.2) fun _ => Comp.stable_const _

theorem stable_recvTurn (fd : Fd) (i : Nat × Nat) : Comp.Stable .fuel (recvTurn fd i) := by
  have h : recvTurn fd i = fun k => charAt Arr.buf.ptr >>= fun c =>
      if c ≠ 0 then turnBody fd i k else pure (.inr i.2) := funext fun k => recvTurn_eq k
  rw [h]
  refine Comp.stable_bind (Comp.stable_const _) fun c => ?_
  by_cases hc : c ≠ 0
  · simp only [if_pos hc]
    exact stable_turnBody fd i
  · simp only [if_neg hc]
    exact Comp.stable_const _

/-- A turn that goes on has gone through its parts. -/
theorem recvTurn_next (hw : Recv w) (h : Comp.Next (recvTurn fd) (i, w) (j, w')) :
    ∃ d n w1 w2, (w.mem .buf).headD 0 ≠ 0 ∧ (readHead fd).run w = (.ok (d, n), w1) ∧
      Comp.Settles (refill fd Arr.buf.ptr n) w1 (.ok (), w2) ∧
      (finish fd i.1 d n).run w2 = (.ok j.1, w') := by
  obtain ⟨k, hk⟩ := h
  have hrun : (recvTurn fd i k).run w = (.ok (.inl j), w') := hk k (Nat.le_refl k)
  by_cases hc : (w.mem .buf).headD 0 = 0
  · rw [recvTurn_end hw hc] at hrun
    cases hrun
  · rw [recvTurn_text hw hc] at hrun
    obtain ⟨h, w1, h1, hrun⟩ := Comp.bind_eq_ok hrun
    obtain ⟨u, w2, h2, hrun⟩ := Comp.bind_eq_ok hrun
    obtain ⟨pos, w3, h3, hrun⟩ := Comp.bind_eq_ok hrun
    cases hrun
    exact ⟨h.1, h.2, w1, w2, hc, h1, (stable_refill fd h.2).settles h2 nofun, h3⟩

/-! ## What the states keep -/

/-- A turn of the fragment loop that goes on has got a piece that fits. -/
theorem refillTurn_next (hf : Filling w t s)
    (h : Comp.Next (refillTurn fd n) ((), w) ((), w')) :
    t.length < n ∧ ∃ c s', ((w.net fd).read (subSize n s.length)).1 = some c ∧
      cstr (splice (w.mem .scratch) 0 c) = some s' ∧ Filling w' (t ++ s') s' ∧
      w'.net = (pieceRead fd (subSize n s.length) w).net ∧
      w'.log = (pieceRead fd (subSize n s.length) w).log := by
  have hrun : (refillTurn fd n () 0).run w = (.ok (.inl ()), w') := Comp.settles_const.mp h
  rcases refillTurn_cases fd n 0 hf with ⟨-, hr⟩ | ⟨hlt, hr | ⟨w1, hr⟩ |
    ⟨c, s', w1, hread, hs', hr, hf', hnet, hlog⟩⟩
  · cases hr.symm.trans hrun
  · cases hr.symm.trans hrun
  · cases hr.symm.trans hrun
  · cases hr.symm.trans hrun
    exact ⟨hlt, c, s', hread, hs', hf', hnet, hlog⟩

/-- A turn of the fragment loop that ends the loop has read nothing, or nothing has come. -/
theorem refillTurn_last (hf : Filling w t s)
    (h : (refillTurn fd n () k).run w = (.ok (.inr ()), w')) :
    w' = w ∨ w' = pieceRead fd (subSize n s.length) w := by
  rcases refillTurn_cases fd n k hf with ⟨-, hr⟩ | ⟨-, hr | ⟨w1, hr⟩ |
    ⟨c, s', w1, -, -, hr, -⟩⟩
  · cases hr.symm.trans h
    exact .inl rfl
  · cases hr.symm.trans h
    exact .inr rfl
  · cases hr.symm.trans h
  · cases hr.symm.trans h

theorem Filled.reached {p q : Unit × World}
    (hq : Relation.ReflTransGen (Comp.Next (refillTurn fd n)) p q) (h : Filled d p.2) :
    Filled d q.2 := by
  induction hq with
  | refl => exact h
  | tail _ hn ih =>
    obtain ⟨t, s, hf, hd⟩ := ih
    obtain ⟨-, c, s', -, -, hf', -⟩ := refillTurn_next hf hn
    exact ⟨t ++ s', s', hf', find_append_left hd s'⟩

/-- The fragment loop keeps what its turns keep. -/
theorem Filled.refill (h : Filled d w)
    (hr : Comp.Settles (refill fd Arr.buf.ptr n) w (.ok (), w')) : Filled d w' := by
  obtain ⟨k, hk⟩ := hr
  have hrun := hk k (Nat.le_refl k)
  rw [refill_eq] at hrun
  obtain ⟨⟨u, v⟩, m, hreach, hlast⟩ := Comp.loop_returns (stable_refillTurn fd n) hrun
  obtain ⟨t, s, hf, hd⟩ := Filled.reached hreach h
  rcases refillTurn_last hf hlast with rfl | rfl
  · exact ⟨t, s, hf, hd⟩
  · exact ⟨t, s, hf.of_mem rfl, hd⟩

/-- A turn leaves the arrays as long as they were, and is further on. -/
theorem turned_of_next [Libc.CopiesForward] (hw : Recv w) (hpos : i.1 ≤ BUFSIZE)
    (h : Comp.Next (recvTurn fd) (i, w) (j, w')) : Recv w' ∧ i.1 < j.1 ∧ j.1 ≤ BUFSIZE := by
  obtain ⟨d, n, w1, w2, -, h1, h2, h3⟩ := recvTurn_next hw h
  obtain ⟨t, hs, -, hhead⟩ := readHead_ok fd hw h1
  have hfilled : Filled d w1 := ⟨t, [], hhead.filling hw hs, hhead.colonAt⟩
  obtain ⟨t', s', hf, hd⟩ := hfilled.refill h2
  obtain ⟨-, hturn⟩ := finish_ok fd hf.toRecv hf.text (find_lt hd) hpos h3
  exact ⟨hturn.toRecv, hturn.forward, hturn.inside⟩

variable {w0 : World}

theorem AtHead.recv [Libc.CopiesForward] (h0 : (w0.mem .recvbuf).length = BUFSIZE)
    (h : AtHead fd w0 i w) :
    Recv w ∧ i.1 ≤ BUFSIZE := by
  obtain ⟨w1, hstart, hreach⟩ := h
  obtain ⟨b, v, hr, hv, -⟩ := recvStart_run fd h0
  cases hr.symm.trans hstart
  have hinv : ∀ q : (Nat × Nat) × World, Relation.ReflTransGen (Comp.Next (recvTurn fd))
      ((0, 0), w1) q → Recv q.2 ∧ q.1.1 ≤ BUFSIZE := by
    intro q hq
    induction hq with
    | refl => exact ⟨hv, Nat.zero_le _⟩
    | tail _ hn ih =>
      obtain ⟨hw, -, hpos⟩ := turned_of_next ih.1 ih.2 hn
      exact ⟨hw, hpos⟩
  exact hinv _ hreach

/-- In front of the fragment loop of a turn. -/
theorem AtHead.filled [Libc.CopiesForward] (h0 : (w0.mem .recvbuf).length = BUFSIZE)
    (h : AtHead fd w0 i w)
    (hr : (readHead fd).run w = (.ok (d, n), w')) : Filled d w' ∧ n < 2 ^ 64 := by
  obtain ⟨hw, -⟩ := h.recv h0
  obtain ⟨t, hs, -, hhead⟩ := readHead_ok fd hw hr
  refine ⟨⟨t, [], hhead.filling hw hs, hhead.colonAt⟩, ?_⟩
  rw [hhead.length]
  exact sizeOfLong_lt _

theorem AtPiece.filled [Libc.CopiesForward] (h0 : (w0.mem .recvbuf).length = BUFSIZE)
    (h : AtPiece fd w0 d n w) :
    Filled d w ∧ n < 2 ^ 64 := by
  obtain ⟨i, w1, w2, hhead, -, hr, hreach⟩ := h
  obtain ⟨hfilled, hn⟩ := hhead.filled h0 hr
  exact ⟨Filled.reached hreach hfilled, hn⟩

theorem AtTail.filled [Libc.CopiesForward] (h0 : (w0.mem .recvbuf).length = BUFSIZE)
    (h : AtTail fd w0 i d n w) :
    Filled d w ∧ i.1 ≤ BUFSIZE := by
  obtain ⟨w1, w2, hhead, -, hr, hset⟩ := h
  exact ⟨(hhead.filled h0 hr).1.refill hset, (hhead.recv h0).2⟩

end Turns

/-! ## The counts of the reads -/

/-- The reads behind the first `k` entries of a log have counts with `q`. -/
def Counts (q : Nat → Prop) (k : Nat) (log : List Event) : Prop :=
  ∀ fd n got, .read fd n got ∈ log.drop k → q n

/-- A run that has not left the arrays, and whose reads have counts with `q`. -/
abbrev Intact {α : Type} (q : Nat → Prop) (k : Nat) (r : Except Stop α × World) : Prop :=
  Comp.Good .undefined (fun w => Counts q k w.log) r

section Counts

variable {α : Type} {q : Nat → Prop} {k : Nat} {w w' : World} {fd : Fd} {n : Nat}
  {got : Option (List Byte)} {log : List Event}

theorem counts_shrinks (q : Nat → Prop) (k : Nat) : Shrinks (Counts q k) := by
  intro l l' hl h fd n got hm
  exact h fd n got ((List.IsPrefix.drop hl k).subset hm)

theorem Counts.append {es : List Event} (h : Counts q k log)
    (he : ∀ fd n got, .read fd n got ∈ es → q n) : Counts q k (log ++ es) := by
  intro fd n got hm
  rw [List.drop_append] at hm
  rcases List.mem_append.mp hm with hm | hm
  · exact h fd n got hm
  · exact he fd n got (List.mem_of_mem_drop hm)

theorem Counts.same (h : Counts q k w.log) (hs : SameReads w w') : Counts q k w'.log := by
  obtain ⟨es, hl, he⟩ := hs
  rw [hl]
  exact h.append fun fd n got hm => absurd hm (he fd n got)

theorem Counts.read (h : Counts q k log) (hn : q n) : Counts q k (log ++ [.read fd n got]) := by
  refine h.append fun fd' n' got' hm => ?_
  cases List.mem_singleton.mp hm
  exact hn

theorem Counts.last (h : Counts q k (log ++ [.read fd n got])) (hk : k ≤ log.length) : q n := by
  refine h fd n got ?_
  rw [List.drop_append_of_le_length hk]
  exact List.mem_append_right _ (List.mem_singleton_self _)

theorem Intact.defined {x : Run α} (h : Intact q k (x.run w)) : ¬ Undefined x w := by
  rintro ⟨w', hr⟩
  exact h.1 (by rw [hr])

theorem intact_ok {x : Run α} {a : α} (hr : x.run w = (.ok a, w')) (h : Counts q k w'.log) :
    Intact q k (x.run w) := by
  rw [hr]
  exact ⟨nofun, h⟩

theorem intact_exit {x : Run α} {code : Int} (hr : x.run w = (.error (.exit code), w'))
    (h : Counts q k w'.log) : Intact q k (x.run w) := by
  rw [hr]
  exact ⟨nofun, h⟩

theorem grows_loop {ι : Type} {turn : ι → Nat → Run (ι ⊕ α)} (ht : ∀ i k, Grows (turn i k))
    (i : ι) (k : Nat) : Grows (Comp.loop .fuel turn i k) := by
  induction k generalizing i with
  | zero => exact grows_stop _
  | succ k ih =>
    unfold Comp.loop
    refine grows_bind (ht i k) fun r => ?_
    cases r with
    | inl j => exact ih j
    | inr a => exact grows_pure a

theorem grows_reached {ι : Type} {turn : ι → Nat → Run (ι ⊕ α)} (ht : ∀ i k, Grows (turn i k))
    {p q : ι × World} (h : Relation.ReflTransGen (Comp.Next turn) p q) :
    p.2.log <+: q.2.log := by
  induction h with
  | refl => exact List.prefix_rfl
  | @tail b c _ hn ih =>
    obtain ⟨n, hn⟩ := hn
    have hr := hn n (Nat.le_refl n)
    have hgrows := ht b.1 n b.2
    rw [hr] at hgrows
    exact ih.trans hgrows

variable [Libc]

theorem grows_readHead (fd : Fd) : Grows (readHead fd) := by
  unfold readHead
  exact grows_bind (quiet_formatBroken _).grows fun _ =>
    grows_bind (grows_when (grows_checkMessage _ _ _)) fun _ =>
      grows_bind (quiet_charAt _).grows fun _ =>
        grows_bind (grows_when (grows_checkMessage _ _ _)) fun _ =>
          grows_bind (quiet_digitsBefore _).grows fun _ =>
            grows_bind (quiet_strAt _).grows fun _ =>
              grows_bind (quiet_declare _ _).grows fun _ => grows_pure _

theorem grows_refillTurn (fd : Fd) (n : Nat) (u : Unit) (k : Nat) :
    Grows (refillTurn fd n u k) := by
  unfold refillTurn
  exact grows_bind (quiet_strlen _).grows fun _ =>
    grows_ite (grows_bind (quiet_strlen _).grows fun _ => grows_bind (grows_readFd _ _ _) fun _ =>
      grows_ite (grows_pure _) (grows_bind (quiet_strcat _ _).grows fun _ => grows_pure _))
      (grows_pure _)

theorem grows_finish (fd : Fd) (pos d n : Nat) : Grows (finish fd pos d n) := by
  unfold finish readTail
  exact grows_bind (grows_bind (quiet_formatBrokenFull _).grows fun _ =>
    grows_bind (grows_when (grows_checkMessage _ _ _)) fun _ => (quiet_convert _ _ _ _ _ _).grows)
    fun _ => (quiet_copyOut _ _ _).grows

theorem grows_turnEnd (fd : Fd) (i : Nat × Nat) (d n : Nat) : Grows (turnEnd fd i d n) :=
  grows_bind (grows_finish fd i.1 d n) fun _ => grows_pure _

theorem grows_turnBody (fd : Fd) (i : Nat × Nat) (k : Nat) : Grows (turnBody fd i k) :=
  grows_bind (grows_readHead fd) fun _ => grows_bind (grows_refill _ _ _ _) fun _ =>
    grows_turnEnd fd i _ _

theorem grows_recvTurn (fd : Fd) (i : Nat × Nat) (k : Nat) : Grows (recvTurn fd i k) := by
  rw [recvTurn_eq]
  exact grows_bind (quiet_charAt _).grows fun _ => grows_ite (grows_turnBody fd i k) (grows_pure _)

end Counts

section Logs

variable {fd : Fd} {w0 w : World} {i : Nat × Nat} {d n : Nat}

variable [Libc]

theorem AtHead.grown (h0 : (w0.mem .recvbuf).length = BUFSIZE) (h : AtHead fd w0 i w) :
    w0.log <+: w.log := by
  obtain ⟨w1, hstart, hreach⟩ := h
  obtain ⟨b, v, hr, -, -, hl⟩ := recvStart_run fd h0
  cases hr.symm.trans hstart
  refine List.IsPrefix.trans ?_ (grows_reached (grows_recvTurn fd) hreach)
  rw [hl]
  exact List.prefix_append _ _

theorem AtPiece.grown (h0 : (w0.mem .recvbuf).length = BUFSIZE) (h : AtPiece fd w0 d n w) :
    w0.log <+: w.log := by
  obtain ⟨i, w1, w2, hhead, -, hr, hreach⟩ := h
  have h1 : w1.log <+: w2.log := by
    have := grows_readHead fd w1
    rwa [hr] at this
  exact ((hhead.grown h0).trans h1).trans (grows_reached (grows_refillTurn fd n) hreach)

end Logs

/-! ## Where the steps fit -/

section StepsFit

variable {fd : Fd} {w0 w w' : World} {i : Nat × Nat} {d n : Nat} {q : Nat → Prop}

variable [Libc]

/-- The turns of a intact call are intact. -/
theorem AtHead.intact (h : Comp.Finally (Intact q w0.log.length)
    (fun k => recvMessage k fd Arr.recvbuf.ptr) w0) (hhead : AtHead fd w0 i w) :
    Comp.Finally (Intact q w0.log.length) (recvTurn fd i) w := by
  obtain ⟨w1, hstart, hreach⟩ := hhead
  have hloop : Comp.Finally (Intact q w0.log.length)
      (Comp.loop .fuel (recvTurn fd) (0, 0)) w1 :=
    Comp.finally_congr h 0 fun k _ => by
      rw [recvMessage_eq, Comp.bind_ok hstart, if_pos rfl]
  have hturn := Comp.finally_loop hloop (fun j k =>
    (grows_loop (grows_recvTurn fd) j k).reflects (counts_shrinks q _)) hreach
  exact hturn

theorem AtHead.intactBody [Libc.CopiesForward] (h0 : (w0.mem .recvbuf).length = BUFSIZE)
    (h : Comp.Finally (Intact q w0.log.length) (fun k => recvMessage k fd Arr.recvbuf.ptr) w0)
    (hhead : AtHead fd w0 i w) (htext : (w.mem .buf).headD 0 ≠ 0) :
    Comp.Finally (Intact q w0.log.length) (turnBody fd i) w :=
  Comp.finally_congr (hhead.intact h) 0 fun _ _ => recvTurn_text (hhead.recv h0).1 htext

/-- What follows the tests of a intact turn is intact. -/
theorem AtHead.intactRest [Libc.CopiesForward] (h0 : (w0.mem .recvbuf).length = BUFSIZE)
    (h : Comp.Finally (Intact q w0.log.length) (fun k => recvMessage k fd Arr.recvbuf.ptr) w0)
    (hhead : AtHead fd w0 i w) (htext : (w.mem .buf).headD 0 ≠ 0)
    (hr : (readHead fd).run w = (.ok (d, n), w')) :
    Comp.Finally (Intact q w0.log.length)
      (fun k => refill fd Arr.buf.ptr n k >>= fun _ => turnEnd fd i d n) w' :=
  Comp.finally_congr (hhead.intactBody h0 h htext) 0 fun k _ => by rw [turnBody, Comp.bind_ok hr]

/-- The steps of a intact call fit. -/
theorem stepsFit_of_finally [Libc.CopiesForward] (h0 : (w0.mem .recvbuf).length = BUFSIZE)
    (h : Comp.Finally (Intact q w0.log.length) (fun k => recvMessage k fd Arr.recvbuf.ptr) w0) :
    StepsFit q fd w0 where
  heads i w hhead := by
    obtain ⟨hw, -⟩ := hhead.recv h0
    have hne : w.mem .buf ≠ [] := fun hb => by
      have := hw.buf
      rw [hb] at this
      cases this
    -- a text reaches the tests
    have hintact : (w.mem .buf).headD 0 ≠ 0 → Intact q w0.log.length ((readHead fd).run w) :=
      fun htext => Comp.finally_const.mp (Comp.finally_bind_left (x := fun _ => readHead fd)
        (f := fun h k => refill fd Arr.buf.ptr h.2 k >>= fun _ => turnEnd fd i h.1 h.2)
        (hhead.intactBody h0 h htext) fun h k => (grows_bind (grows_refill _ _ _ _) fun _ =>
          grows_turnEnd _ _ _ _).reflects (counts_shrinks q _))
    rcases hc : cstr (w.mem .buf) with _ | t
    · exact absurd (readHead_noText fd hc) (hintact (headD_noText hne hc)).defined
    · refine ⟨t, rfl, fun ht => ?_⟩
      by_contra hfits
      have htext : (w.mem .buf).headD 0 ≠ 0 := fun hz => ht ((headD_cstr hc).mp hz)
      exact (hintact htext).defined (readHead_undefined fd hw hc hfits)
  pieces d n w t s hpiece ht hs := by
    obtain ⟨⟨t', s', hf, -⟩, -⟩ := hpiece.filled h0
    obtain rfl : t' = t := Option.some.inj (hf.text.symm.trans ht)
    obtain rfl : s' = s := Option.some.inj (hf.piece.symm.trans hs)
    have hgrown := (hpiece.grown h0).length_le
    obtain ⟨i, w1, w2, hhead, htext, hr, hreach⟩ := hpiece
    have hrefill : Comp.Finally (Intact q w0.log.length)
        (Comp.loop .fuel (refillTurn fd n) ()) w2 := by
      have hleft := Comp.finally_bind_left (hhead.intactRest h0 h htext hr) fun _ _ =>
        (grows_turnEnd fd i d n).reflects (counts_shrinks q _)
      exact Comp.finally_congr hleft 0 fun k _ => by rw [refill_eq]
    obtain ⟨m, hm⟩ := Comp.finally_loop hrefill (fun j k =>
      (grows_loop (grows_refillTurn fd n) j k).reflects (counts_shrinks q _)) hreach
    have hintact : Intact q w0.log.length ((refillTurn fd n () m).run w) := hm m (Nat.le_refl m)
    intro hlt
    have hcounts := hintact.2
    dsimp only at hcounts
    rw [refillTurn_log hf hlt, pieceRead_log] at hcounts
    refine ⟨hcounts.last hgrown, fun c hc => ?_⟩
    by_contra hfits
    exact hintact.defined (refillTurn_undefined hf hlt hc hfits)
  tails i d n w t htail ht := by
    obtain ⟨⟨t', s', hf, hd⟩, hpos⟩ := htail.filled h0
    obtain rfl : t' = t := Option.some.inj (hf.text.symm.trans ht)
    obtain ⟨w1, w2, hhead, htext, hr, hset⟩ := htail
    have hfinish : Intact q w0.log.length ((finish fd i.1 d n).run w) := by
      refine Comp.finally_const.mp (Comp.finally_bind_left (x := fun _ => finish fd i.1 d n)
        (f := fun pos _ => (pure (.inl (pos, i.2 + 1)) : Run ((Nat × Nat) ⊕ Int)))
        (Comp.finally_bind_right (hhead.intactRest h0 h htext hr) hset) fun _ _ =>
          (grows_pure _).reflects (counts_shrinks q _))
    by_contra hfits
    exact hfinish.defined (finish_undefined fd hf.toRecv hf.text (find_lt hd) hpos hfits)

variable (h0 : (w0.mem .recvbuf).length = BUFSIZE) (h : StepsFit q fd w0)

include h0 h

/-- A turn of the fragment loop that fits is intact. -/
theorem AtPiece.intact_turn [Libc.CopiesForward] (hpiece : AtPiece fd w0 d n w)
    (hK : Counts q w0.log.length w.log) :
    Comp.Always (Intact q w0.log.length) (refillTurn fd n ()) w := by
  intro k
  obtain ⟨⟨t, s, hf, -⟩, -⟩ := hpiece.filled h0
  rcases Nat.lt_or_ge t.length n with hlt | hge
  · obtain ⟨hq, hpiece⟩ := h.pieces d n w t s hpiece hf.text hf.piece hlt
    rcases hr : ((w.net fd).read (subSize n s.length)).1 with _ | c
    · refine intact_ok (refillTurn_fails hf hlt hr) ?_
      rw [pieceRead_log]
      exact hK.read hq
    · obtain ⟨hc, s', hs', hroom⟩ := hpiece c hr
      obtain ⟨w', hrun, -, -, -, hlog⟩ := refillTurn_goes_on (k := k) hf hlt hr hc hs' hroom
      refine intact_ok hrun ?_
      rw [hlog, pieceRead_log]
      exact hK.read hq
  · exact intact_ok (refillTurn_done hf hge) hK

/-- What is behind the fragment loop is intact where it fits. -/
theorem AtTail.intact_end [Libc.CopiesForward] (htail : AtTail fd w0 i d n w)
    (hK : Counts q w0.log.length w.log) :
    Intact q w0.log.length ((turnEnd fd i d n).run w) := by
  obtain ⟨⟨t, s, hf, hd⟩, -⟩ := htail.filled h0
  rcases finish_fits fd hf.toRecv hf.text (find_lt hd) (h.tails i d n w t htail hf.text) with
    ⟨pos, w', hr, hturn⟩ | ⟨w', hr, hreads⟩
  · have hrun : (turnEnd fd i d n).run w = (.ok (.inl (pos, i.2 + 1)), w') := by
      rw [turnEnd, Comp.bind_ok hr, Comp.pure_run]
    exact intact_ok hrun (hK.same hturn.reads)
  · have hrun : (turnEnd fd i d n).run w = (.error (.exit (-1)), w') := by
      rw [turnEnd, Comp.bind_error hr]
    exact intact_exit hrun (hK.same hreads)

/-- A turn all of whose parts fit is intact. -/
theorem AtHead.intact_turn [Libc.CopiesForward] (hhead : AtHead fd w0 i w)
    (hK : Counts q w0.log.length w.log) :
    Comp.Always (Intact q w0.log.length) (recvTurn fd i) w := by
  intro k
  obtain ⟨hw, -⟩ := hhead.recv h0
  by_cases htext : (w.mem .buf).headD 0 = 0
  · exact intact_ok (recvTurn_end hw htext) hK
  · obtain ⟨t, hc, hfits⟩ := h.heads i w hhead
    have hs : IsStr w Arr.buf.ptr t := hc
    have ht : t ≠ [] := fun ht => htext ((headD_cstr hc).mpr ht)
    rw [recvTurn_text hw htext]
    unfold turnBody
    rcases readHead_fits fd hw hs (hfits ht) with ⟨d, n, w1, hr, hheaded⟩ | ⟨w1, hr, hreads⟩
    · have hK1 : Counts q w0.log.length w1.log := hK.same hheaded.reads
      have hrefill : Comp.Always (Intact q w0.log.length) (refill fd Arr.buf.ptr n) w1 := by
        intro m
        rw [refill_eq]
        refine Comp.always_loop (stable_refillTurn fd n) (by decide) hK1 (fun p hp hKp => ?_) m
        exact AtPiece.intact_turn h0 h ⟨i, w, w1, hhead, htext, hr, hp⟩ hKp
      rw [Comp.bind_ok hr]
      refine Comp.always_bind (x := refill fd Arr.buf.ptr n) (f := fun _ _ => turnEnd fd i d n)
        hrefill (fun m u w2 hm => ?_) k
      have hK2 : Counts q w0.log.length w2.log := by
        have := (hrefill m).2
        rwa [hm] at this
      exact fun _ => AtTail.intact_end h0 h
        ⟨w, w1, hhead, htext, hr, (stable_refill fd n).settles hm nofun⟩ hK2
    · exact intact_exit (Comp.bind_error hr) (hK.same hreads)

/-- A call all of whose steps fit is intact. -/
theorem always_of_stepsFit [Libc.CopiesForward] (hq : q BUFSIZE) :
    Comp.Always (Intact q w0.log.length) (fun k => recvMessage k fd Arr.recvbuf.ptr) w0 := by
  intro k
  obtain ⟨b, w1, hr, -, -, hlog⟩ := recvStart_run fd h0
  have hnil : Counts q w0.log.length w0.log := fun fd n got hm => by
    rw [List.drop_length] at hm
    cases hm
  have hK : Counts q w0.log.length w1.log := by
    rw [hlog, pieceRead_log]
    exact hnil.read hq
  beta_reduce
  rw [recvMessage_eq, Comp.bind_ok hr]
  cases b with
  | false => exact intact_ok rfl hK
  | true =>
    rw [if_pos rfl]
    refine Comp.always_loop (stable_recvTurn fd) (by decide) hK (fun p hp hKp => ?_) k
    exact AtHead.intact_turn h0 h ⟨w1, hr, hp⟩ hKp

end StepsFit

/-! ## The receiving half -/

/-- What the receiving half has to keep, whatever is read: no access outside the arrays, no count
    larger than the array that is read into, and no pointer of `readNet` that does not point into
    the text. -/
structure Inside [Libc] (fd : Fd) (w0 : World) : Prop where
  arrays : ∀ fuel, ((recvMessage fuel fd Arr.recvbuf.ptr).run w0).1 ≠ .error .undefined
  counts : ∀ fuel, Counts (· ≤ BUFSIZE) w0.log.length
    ((recvMessage fuel fd Arr.recvbuf.ptr).run w0).2.log
  pointers : ∀ i w fuel next w', AtHead fd w0 i w → (w.mem .buf).headD 0 ≠ 0 →
    (readNet fuel Arr.buf.ptr BUFSIZE Arr.buf.ptr fd i.1).run w = (.ok next, w') →
    ∃ off, next = some ⟨.arr .buf, off⟩ ∧ off < BUFSIZE

section Inside

variable {fd : Fd} {w0 w w' : World}

theorem lt_of_cstr_drop {l r : List Byte} {k : Nat} (h : cstr (l.drop k) = some r) :
    k < l.length := by
  by_contra hk
  rw [List.drop_of_length_le (Nat.le_of_not_lt hk)] at h
  cases h

variable [Libc]

/-- A pointer that `readNet` returns, in a call whose steps fit. -/
theorem AtHead.pointer [Libc.CopiesForward] {q : Nat → Prop} {i : Nat × Nat} {fuel : Nat}
    {next : Option Ptr}
    (h0 : (w0.mem .recvbuf).length = BUFSIZE) (h : StepsFit q fd w0) (hhead : AtHead fd w0 i w)
    (htext : (w.mem .buf).headD 0 ≠ 0)
    (hr : (readNet fuel Arr.buf.ptr BUFSIZE Arr.buf.ptr fd i.1).run w = (.ok next, w')) :
    ∃ off, next = some ⟨.arr .buf, off⟩ ∧ off < BUFSIZE := by
  rw [readNet_eq] at hr
  obtain ⟨⟨d, n⟩, w1, h1, hr⟩ := Comp.bind_eq_ok hr
  obtain ⟨u, w2, h2, hr⟩ := Comp.bind_eq_ok hr
  have htail : AtTail fd w0 i d n w2 :=
    ⟨w, w1, hhead, htext, h1, (stable_refill fd n).settles h2 nofun⟩
  obtain ⟨⟨t, s, hf, hd⟩, -⟩ := htail.filled h0
  rcases readTail_fits fd hf.toRecv hf.text (find_lt hd) (h.tails i d n w2 t htail hf.text) with
    ⟨w3, w4, h3, -, -, -, -, hc⟩ | ⟨w3, h3, -⟩
  · cases h3.symm.trans hr
    obtain ⟨r, hrest⟩ := hc.rest
    have hlt := lt_of_cstr_drop hrest
    rw [hf.buf] at hlt
    exact ⟨_, rfl, hlt⟩
  · cases h3.symm.trans hr

/-- A call stays inside its arrays exactly where every step fits and no piece is asked for with a
    larger count than its array has room; a check of a message that stands in the destination,
    exactly where it fits. -/
theorem receive_inside_iff [Libc.CopiesForward] (fd : Fd)
    (h0 : (w0.mem .recvbuf).length = BUFSIZE) :
    (Inside fd w0 ↔ StepsFit (· ≤ BUFSIZE) fd w0) ∧
      ∀ expected off want act, IsStr w0 expected want → IsStr w0 ⟨.arr .recvbuf, off⟩ act →
        expected.blk ≠ .arr .errmsg →
        (((checkMessage fd expected ⟨.arr .recvbuf, off⟩).run w0).1 ≠ .error .undefined ↔
          CheckFits (w0.mem .recvbuf) off want act) := by
  refine ⟨⟨fun h => ?_, fun h => ?_⟩, fun expected off want act hx ha hxe => ?_⟩
  · have hintact : Comp.Always (Intact (· ≤ BUFSIZE) w0.log.length)
        (fun k => recvMessage k fd Arr.recvbuf.ptr) w0 := by
      intro k
      beta_reduce
      exact ⟨h.arrays k, h.counts k⟩
    exact stepsFit_of_finally h0 hintact.finally
  · have hintact : ∀ k, Intact (· ≤ BUFSIZE) w0.log.length
        ((recvMessage k fd Arr.recvbuf.ptr).run w0) := by
      intro k
      have hk := always_of_stepsFit h0 h (Nat.le_refl BUFSIZE) k
      beta_reduce at hk
      exact hk
    exact ⟨fun k => (hintact k).1, fun k => (hintact k).2,
      fun i w fuel next w' hhead htext hr => hhead.pointer h0 h htext hr⟩
  · exact checkMessage_fits_iff hx ha h0 hxe (by decide)

end Inside

section Bytewise

attribute [local instance] Libc.bytewise

/-- A length of four digits that the text does not have, and then nothing more. -/
def longLength : World := receiving fun _ => ⟨[some (lit "9999:x,")], .timeout⟩

theorem receive_inside_demo :
    (Inside .control longLength ↔ StepsFit (· ≤ BUFSIZE) .control longLength) ∧
      (((checkMessage .control (litPtr "S ACK") ⟨.arr .recvbuf, 0⟩).run longLength).1 ≠
          .error .undefined ↔
        CheckFits (longLength.mem .recvbuf) 0 (lit "S ACK") []) := by
  have h := @receive_inside_iff longLength _ _ .control (receiving_recvbuf _)
  exact ⟨h.1, h.2 _ 0 _ [] (isStr_lit (by decide)) (cstr_zeros (by decide)) (by simp [litPtr])⟩

/-- 9999 bytes are asked for, and the pointer -1 is copied from. -/
theorem longLength_not_inside : ¬ Inside .control longLength := by
  intro h
  have hrun : ((recvMessage 3 .control Arr.recvbuf.ptr).run longLength).1 =
      .error .undefined := by decide +kernel
  exact h.arrays 3 hrun

end Bytewise

end Grnvs.Ascii
