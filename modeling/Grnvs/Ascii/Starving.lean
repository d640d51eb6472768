/-
  Receiving from a peer that goes away.

  A turn of the fragment loop takes bytes of the peer, or, at the end of the stream, appends the
  piece that is left in its array once more. Either brings the loop nearer to its end
  (`refill_ends`), and a message brings `recvMessage` nearer to the end of its destination. The one
  state in which nothing moves is a closed stream with an empty array in front of a text that is too
  short (`Starving`): its turn repeats for ever (`starving_forever`).

  So a call ends exactly when it comes to no such state, and ends by returning or by exiting
  exactly when its steps fit as well (`receive_finishes_iff`).
-/
import Grnvs.Ascii.Inside
import Mathlib

namespace Grnvs.Ascii

open Bytes Decimal Netstring

/-! ## Peers that send chunks -/

/-- No chunk is empty, and none stands for a failing read. -/
def Chunks (p : Peer) : Prop := ∀ x ∈ p.pending, ∃ c, x = some c ∧ c ≠ []

/-- The bytes that are still to come. -/
def Peer.total (p : Peer) : Nat := (p.pending.map fun x => (x.getD []).length).sum

section Peer

variable {p : Peer} {count : Nat}

theorem Chunks.read (h : Chunks p) (count : Nat) : Chunks (p.read count).2 := by
  rcases p with ⟨_ | ⟨x, rest⟩, e⟩
  · exact h
  · obtain ⟨c, rfl, hc⟩ := h x (List.mem_cons_self ..)
    have hrest : ∀ x ∈ rest, ∃ c, x = some c ∧ c ≠ [] := fun x hx =>
      h x (List.mem_cons_of_mem _ hx)
    by_cases hle : c.length ≤ count
    · rw [Peer.read_whole hle]
      exact hrest
    · rw [Peer.read_cut (Nat.lt_of_not_le hle)]
      intro x hx
      rcases List.mem_cons.mp hx with rfl | hx
      · refine ⟨_, rfl, fun hnil => hle ?_⟩
        have := congrArg List.length hnil
        rw [List.length_drop, List.length_nil] at this
        omega
      · exact hrest x hx

/-- A read takes bytes as long as there are some. -/
theorem Chunks.total_lt (h : Chunks p) (hne : p.pending ≠ []) (hcount : 0 < count) :
    (p.read count).2.total < p.total := by
  rcases p with ⟨_ | ⟨x, rest⟩, e⟩
  · exact absurd rfl hne
  · obtain ⟨c, rfl, hc⟩ := h x (List.mem_cons_self ..)
    have hpos : 0 < c.length := List.length_pos_iff.mpr hc
    by_cases hle : c.length ≤ count
    · rw [Peer.read_whole hle]
      simp only [Peer.total, List.map_cons, List.sum_cons, Option.getD_some]
      omega
    · rw [Peer.read_cut (Nat.lt_of_not_le hle)]
      simp only [Peer.total, List.map_cons, List.sum_cons, Option.getD_some, List.length_drop]
      omega

/-- When all has been read, a read changes nothing. -/
theorem Peer.read_nil (h : p.pending = []) (count : Nat) : (p.read count).2 = p := by
  rcases p with ⟨pending, e⟩
  obtain rfl : pending = [] := h
  rfl

theorem pieceRead_net (fd : Fd) (count : Nat) (w : World) :
    (pieceRead fd count w).net fd = ((w.net fd).read count).2 := World.setNet_net ..

end Peer

/-! ## The states of a call, on the side of the peer -/

section Chunks

variable {fd : Fd} {w0 w w' : World} {i j : Nat × Nat} {d n k : Nat}

variable [Libc]

theorem chunks_reached {p q : Unit × World}
    (hq : Relation.ReflTransGen (Comp.Next (refillTurn fd n)) p q) (hf : Filled d p.2)
    (h : Chunks (p.2.net fd)) : Chunks (q.2.net fd) := by
  induction hq with
  | refl => exact h
  | tail hr hn ih =>
    obtain ⟨t, s, hf', -⟩ := Filled.reached hr hf
    obtain ⟨-, c, s', -, -, -, hnet, -⟩ := refillTurn_next hf' hn
    rw [hnet, pieceRead_net]
    exact ih.read _

theorem chunks_refill (hf : Filled d w) (h : Chunks (w.net fd))
    (hr : Comp.Settles (refill fd Arr.buf.ptr n) w (.ok (), w')) : Chunks (w'.net fd) := by
  obtain ⟨k, hk⟩ := hr
  have hrun := hk k (Nat.le_refl k)
  rw [refill_eq] at hrun
  obtain ⟨⟨u, v⟩, m, hreach, hlast⟩ := Comp.loop_returns (stable_refillTurn fd n) hrun
  obtain ⟨t, s, hf', -⟩ := Filled.reached hreach hf
  have hv := chunks_reached hreach hf h
  rcases refillTurn_last hf' hlast with rfl | rfl
  · exact hv
  · rw [pieceRead_net]
    exact hv.read _

theorem AtHead.chunks [Libc.CopiesForward] (h0 : (w0.mem .recvbuf).length = BUFSIZE)
    (hp : Chunks (w0.net fd)) (h : AtHead fd w0 i w) : Chunks (w.net fd) := by
  obtain ⟨w1, hstart, hreach⟩ := h
  have hinv : ∀ q : (Nat × Nat) × World, Relation.ReflTransGen (Comp.Next (recvTurn fd))
      ((0, 0), w1) q → Chunks (q.2.net fd) := by
    intro q hq
    induction hq with
    | refl =>
      obtain ⟨b, v, hr, -, hnet, -⟩ := recvStart_run fd h0
      cases hr.symm.trans hstart
      rw [hnet, pieceRead_net]
      exact hp.read _
    | @tail a b hr hn ih =>
      have hhead : AtHead fd w0 a.1 a.2 := ⟨w1, hstart, hr⟩
      obtain ⟨hw, hpos⟩ := hhead.recv h0
      obtain ⟨d, n, v1, v2, -, hr1, hr2, hr3⟩ := recvTurn_next hw hn
      obtain ⟨t, hs, -, hheaded⟩ := readHead_ok fd hw hr1
      have hfilled := (hhead.filled h0 hr1).1
      obtain ⟨t', s', hf', hd⟩ := hfilled.refill hr2
      obtain ⟨-, hturn⟩ := finish_ok fd hf'.toRecv hf'.text (find_lt hd) hpos hr3
      rw [hturn.net]
      refine chunks_refill hfilled ?_ hr2
      rw [hheaded.net]
      exact ih
  exact hinv _ hreach

theorem AtPiece.chunks [Libc.CopiesForward] (h0 : (w0.mem .recvbuf).length = BUFSIZE)
    (hp : Chunks (w0.net fd)) (h : AtPiece fd w0 d n w) : Chunks (w.net fd) := by
  obtain ⟨i, w1, w2, hhead, -, hr, hreach⟩ := h
  obtain ⟨t, hs, -, hheaded⟩ := readHead_ok fd (hhead.recv h0).1 hr
  refine chunks_reached hreach (hhead.filled h0 hr).1 ?_
  rw [hheaded.net]
  exact hhead.chunks h0 hp

theorem AtPiece.next (h : AtPiece fd w0 d n w)
    (hn : Comp.Next (refillTurn fd n) ((), w) ((), w')) : AtPiece fd w0 d n w' := by
  obtain ⟨i, w1, w2, hhead, htext, hr, hreach⟩ := h
  exact ⟨i, w1, w2, hhead, htext, hr, hreach.tail hn⟩

end Chunks

/-! ## Starving -/

/-- The fragment loop waits for bytes that do not come: the text is too short, there is no piece
    in the array, and the stream has ended. -/
structure Starving (fd : Fd) (n : Nat) (w : World) : Prop where
  text : ∃ t, IsStr w Arr.buf.ptr t ∧ t.length < n
  piece : IsStr w Arr.scratch.ptr []
  closed : w.net fd = ⟨[], .eof⟩

section Starving

variable {fd : Fd} {w : World} {d n : Nat} {t s : List Byte}

theorem splice_nil (l : List Byte) : splice l 0 [] = l := by
  rw [splice_zero]
  rfl

variable [Libc]

/-- The turn of a starving loop leaves it starving. -/
theorem starving_next (hf : Filling w t s) (h : Starving fd n w) :
    ∃ w', (∀ k, (refillTurn fd n () k).run w = (.ok (.inl ()), w')) ∧ Filling w' t [] ∧
      Starving fd n w' := by
  obtain rfl : s = [] := Option.some.inj (hf.piece.symm.trans h.piece)
  obtain ⟨t', ht, hlt⟩ := h.text
  obtain rfl : t' = t := Option.some.inj (ht.symm.trans hf.text)
  have hread : ((w.net fd).read (subSize n 0)) = (some [], ⟨[], .eof⟩) := by
    rw [h.closed]
    rfl
  have hshort : t'.length < BUFSIZE := hf.buf ▸ hf.text.length_lt rfl
  have hcs : cstr (splice (w.mem .scratch) 0 []) = some [] := by
    rw [splice_nil]
    exact hf.piece
  obtain ⟨w', hr, hf', -, hnet, -⟩ := @refillTurn_goes_on w fd n 0 _ [] [] _ [] hf hlt
    (congrArg Prod.fst hread) (Nat.zero_le _) hcs hshort
  rw [List.append_nil] at hf'
  refine ⟨w', fun _ => hr, hf', ⟨t', hf'.text, hlt⟩, hf'.piece, ?_⟩
  rw [hnet, pieceRead_net]
  exact congrArg Prod.snd hread

/-- A starving loop takes all the fuel there is. -/
theorem starving_forever (hf : Filling w t s) (h : Starving fd n w) (k : Nat) :
    ((Comp.loop .fuel (refillTurn fd n) () k).run w).1 = .error .fuel := by
  induction k generalizing w s with
  | zero => rfl
  | succ k ih =>
    obtain ⟨w', hr, hf', h'⟩ := starving_next hf h
    rw [Comp.loop_succ_ok (hr k)]
    exact ih hf' h'

end Starving

/-! ## Loops that end -/

/-- What the fragment loop uses up: the bytes to come, and then the room behind the text. -/
def fuelLeft (fd : Fd) (w : World) : Nat :=
  (w.net fd).total * (BUFSIZE + 1) + (BUFSIZE - ((cstr (w.mem .buf)).getD []).length)

section Ends

variable {fd : Fd} {w0 w w' : World} {i j : Nat × Nat} {d n k pos : Nat} {t s : List Byte}

theorem fuelLeft_eq (h : IsStr w Arr.buf.ptr t) :
    fuelLeft fd w = (w.net fd).total * (BUFSIZE + 1) + (BUFSIZE - t.length) := by
  have hc : cstr (w.mem .buf) = some t := h
  rw [fuelLeft, hc, Option.getD_some]

variable [Libc]

/-- A turn that goes on, of a loop that does not starve, uses something up. -/
theorem fuelLeft_lt (hf : Filling w t s) (hp : Chunks (w.net fd)) (hn : n < 2 ^ 64)
    (hs : ¬ Starving fd n w) (h : Comp.Next (refillTurn fd n) ((), w) ((), w')) :
    fuelLeft fd w' < fuelLeft fd w := by
  have hB : BUFSIZE = 4096 := rfl
  obtain ⟨hlt, c, s', hread, hcs, hf', hnet, -⟩ := refillTurn_next hf h
  have hshort : (t ++ s').length < BUFSIZE := hf'.buf ▸ hf'.text.length_lt rfl
  have hnet' : w'.net fd = ((w.net fd).read (subSize n s.length)).2 := by
    rw [hnet, pieceRead_net]
  have hcount : subSize n s.length = n - s.length :=
    subSize_of_le hn (Nat.le_of_lt (Nat.lt_of_le_of_lt hf.shorter hlt))
  have hshorter := hf.shorter
  rw [fuelLeft_eq hf.text, fuelLeft_eq hf'.text, hnet']
  rw [List.length_append] at hshort ⊢
  by_cases hpending : (w.net fd).pending = []
  · -- nothing comes, and the piece that is left is appended again
    rw [Peer.read_nil hpending]
    have hpeer : w.net fd = ⟨[], .eof⟩ := by
      rcases hw : w.net fd with ⟨pending, e⟩
      rw [hw] at hpending hread
      obtain rfl : pending = [] := hpending
      cases e with
      | eof => rfl
      | timeout => cases hread
    rw [hpeer] at hread
    obtain rfl : [] = c := Option.some.inj hread
    rw [splice_nil] at hcs
    obtain rfl : s = s' := Option.some.inj (hf.piece.symm.trans hcs)
    have hne : s ≠ [] := by
      rintro rfl
      exact hs ⟨⟨t, hf.text, hlt⟩, hf.piece, hpeer⟩
    have hpos : 0 < s.length := List.length_pos_iff.mpr hne
    omega
  · have htotal := @Chunks.total_lt _ (subSize n s.length) hp hpending (by omega)
    have hmul := Nat.mul_le_mul_right (BUFSIZE + 1) htotal
    rw [Nat.succ_mul] at hmul
    omega

theorem refillTurn_ends (hf : Filling w t s) :
    ((refillTurn fd n () k).run w).1 ≠ .error .fuel := by
  rcases refillTurn_cases fd n k hf with ⟨-, hr⟩ | ⟨-, hr | ⟨w1, hr⟩ |
    ⟨c, s', w1, -, -, hr, -⟩⟩
  · rw [hr]
    exact nofun
  · rw [hr]
    exact nofun
  · rw [hr]
    exact nofun
  · rw [hr]
    exact nofun

theorem readHead_ends (hw : Recv w) : ((readHead fd).run w).1 ≠ .error .fuel := by
  rcases hc : cstr (w.mem .buf) with _ | t
  · obtain ⟨v, hr⟩ := readHead_noText fd hc
    rw [hr]
    exact nofun
  · by_cases hfits : HeadFits (w.mem .buf) t
    · rcases readHead_fits fd hw hc hfits with ⟨d, n, v, hr, -⟩ | ⟨v, hr, -⟩
      · rw [hr]
        exact nofun
      · rw [hr]
        exact nofun
    · obtain ⟨v, hr⟩ := readHead_undefined fd hw hc hfits
      rw [hr]
      exact nofun

theorem finish_ends [Libc.CopiesForward] (hw : Recv w) (hs : IsStr w Arr.buf.ptr t)
    (hd : d < t.length) (hpos : pos ≤ BUFSIZE) : ((finish fd pos d n).run w).1 ≠ .error .fuel := by
  by_cases hfits : TailFits (w.mem .buf) t d n pos
  · rcases finish_fits fd hw hs hd hfits with ⟨p, v, hr, -⟩ | ⟨v, hr, -⟩
    · rw [hr]
      exact nofun
    · rw [hr]
      exact nofun
  · obtain ⟨v, hr⟩ := finish_undefined fd hw hs hd hpos hfits
    rw [hr]
    exact nofun

/-- A call that does not come to a starving state. -/
def Fed (fd : Fd) (w0 : World) : Prop := ∀ d n w, AtPiece fd w0 d n w → ¬ Starving fd n w

variable (h0 : (w0.mem .recvbuf).length = BUFSIZE) (hp : Chunks (w0.net fd)) (hfed : Fed fd w0)

include h0 hp hfed

/-- The fragment loop of a call that is fed ends. -/
theorem refill_ends [Libc.CopiesForward] (hpiece : AtPiece fd w0 d n w) :
    Comp.Ends .fuel (refill fd Arr.buf.ptr n) w := by
  have hacc : Acc (fun q p => Comp.Next (refillTurn fd n) p q) ((), w) := by
    refine Comp.acc_next (P := fun p => AtPiece fd w0 d n p.2) (fun p => fuelLeft fd p.2)
      (fun p q hpq hn => ?_) hpiece
    obtain ⟨⟨t, s, hf, -⟩, hlt⟩ := hpq.filled h0
    exact ⟨hpq.next hn, fuelLeft_lt hf (hpq.chunks h0 hp) hlt (hfed d n p.2 hpq) hn⟩
  have hloop : Comp.Ends .fuel (Comp.loop .fuel (refillTurn fd n) ()) w := by
    refine Comp.ends_loop (stable_refillTurn fd n) hacc fun q hq => ?_
    have hreached : AtPiece fd w0 d n q.2 := by
      obtain ⟨i, w1, w2, hhead, htext, hr, hreach⟩ := hpiece
      exact ⟨i, w1, w2, hhead, htext, hr, hreach.trans hq⟩
    obtain ⟨⟨t, s, hf, -⟩, -⟩ := hreached.filled h0
    exact Comp.finally_const.mpr (refillTurn_ends (k := 0) hf)
  exact Comp.finally_congr hloop 0 fun k _ => by rw [refill_eq]

/-- So does every turn. -/
theorem recvTurn_ends [Libc.CopiesForward] (hhead : AtHead fd w0 i w) : Comp.Ends .fuel
    (recvTurn fd i) w := by
  obtain ⟨hw, hpos⟩ := hhead.recv h0
  by_cases htext : (w.mem .buf).headD 0 = 0
  · refine ⟨0, fun k _ => ?_⟩
    rw [recvTurn_end hw htext]
    exact nofun
  · have hbody : Comp.Ends .fuel (turnBody fd i) w := by
      refine Comp.ends_bind (x := fun _ => readHead fd)
        (f := fun h k => refill fd Arr.buf.ptr h.2 k >>= fun _ => turnEnd fd i h.1 h.2)
        (Comp.stable_const _) (Comp.finally_const.mpr (readHead_ends hw)) fun h w1 hset => ?_
      have hr : (readHead fd).run w = (.ok (h.1, h.2), w1) := Comp.settles_const.mp hset
      refine Comp.ends_bind (f := fun _ _ => turnEnd fd i h.1 h.2) (stable_refill fd h.2)
        (refill_ends h0 hp hfed ⟨i, w, w1, hhead, htext, hr, .refl⟩) fun u w2 hset2 => ?_
      have htail : AtTail fd w0 i h.1 h.2 w2 := ⟨w, w1, hhead, htext, hr, hset2⟩
      obtain ⟨⟨t, s, hf, hd⟩, -⟩ := htail.filled h0
      refine Comp.finally_const.mpr fun hfuel => @finish_ends fd w2 h.1 h.2 i.1 t _ _ hf.toRecv hf.text
        (find_lt hd) hpos ?_
      rcases hfin : (finish fd i.1 h.1 h.2).run w2 with ⟨e | pos, w3⟩
      · rw [turnEnd, Comp.bind_error hfin] at hfuel
        exact congrArg Except.error (Except.error.inj hfuel)
      · rw [turnEnd, Comp.bind_ok hfin] at hfuel
        cases hfuel
    exact Comp.finally_congr hbody 0 fun k _ => (recvTurn_text hw htext).symm

/-- So does the call: every turn is further on in the destination. -/
theorem recvMessage_ends [Libc.CopiesForward] :
    Comp.Ends .fuel (fun k => recvMessage k fd Arr.recvbuf.ptr) w0 := by
  obtain ⟨b, w1, hr, -, -, -⟩ := recvStart_run fd h0
  cases b with
  | false =>
    refine ⟨0, fun k _ => ?_⟩
    beta_reduce
    rw [recvMessage_eq, Comp.bind_ok hr]
    exact nofun
  | true =>
    have hacc : Acc (fun q p => Comp.Next (recvTurn fd) p q) ((0, 0), w1) := by
      refine Comp.acc_next (P := fun p => AtHead fd w0 p.1 p.2) (fun p => BUFSIZE - p.1.1)
        (fun p q hpq hn => ?_) ⟨w1, hr, .refl⟩
      obtain ⟨hw, hpos⟩ := hpq.recv h0
      obtain ⟨-, hlt, hle⟩ := turned_of_next hw hpos hn
      obtain ⟨v, hstart, hreach⟩ := hpq
      exact ⟨⟨v, hstart, hreach.tail hn⟩, by omega⟩
    have hloop : Comp.Ends .fuel (Comp.loop .fuel (recvTurn fd) (0, 0)) w1 :=
      Comp.ends_loop (stable_recvTurn fd) hacc fun q hq => recvTurn_ends h0 hp hfed ⟨w1, hr, hq⟩
    exact Comp.finally_congr hloop 0 fun k _ => by
      rw [recvMessage_eq, Comp.bind_ok hr, if_pos rfl]

end Ends

/-! ## Calls that finish -/

/-- With enough fuel the call has returned or has ended the process. -/
def Finishes [Libc] (fd : Fd) (w0 : World) : Prop :=
  ∃ n, ∀ fuel, n ≤ fuel →
    (∃ v w', (recvMessage fuel fd Arr.recvbuf.ptr).run w0 = (.ok v, w')) ∨
      ∃ code w', (recvMessage fuel fd Arr.recvbuf.ptr).run w0 = (.error (.exit code), w')

section Finishes

variable [Libc] {fd : Fd} {w0 : World}

theorem Finishes.ends (h : Finishes fd w0) :
    Comp.Ends .fuel (fun fuel => recvMessage fuel fd Arr.recvbuf.ptr) w0 := by
  obtain ⟨m, hm⟩ := h
  refine ⟨m, fun k hk => ?_⟩
  beta_reduce
  rcases hm k hk with ⟨v, w', hr⟩ | ⟨code, w', hr⟩
  · rw [hr]
    exact nofun
  · rw [hr]
    exact nofun

/-- A call that ends has not come to a starving state. -/
theorem fed_of_ends [Libc.CopiesForward] (h0 : (w0.mem .recvbuf).length = BUFSIZE)
    (h : Comp.Ends .fuel (fun k => recvMessage k fd Arr.recvbuf.ptr) w0) : Fed fd w0 := by
  intro d n w hpiece hstarving
  obtain ⟨⟨t, s, hf, -⟩, -⟩ := hpiece.filled h0
  obtain ⟨i, w1, w2, hhead, htext, hr, hreach⟩ := hpiece
  have hw := (hhead.recv h0).1
  obtain ⟨v, hstart, hturns⟩ := hhead
  have hloop : Comp.Ends .fuel (Comp.loop .fuel (recvTurn fd) (0, 0)) v :=
    Comp.finally_congr h 0 fun k _ => by rw [recvMessage_eq, Comp.bind_ok hstart, if_pos rfl]
  have hturn : Comp.Ends .fuel (recvTurn fd i) w1 :=
    Comp.ends_turn (Comp.finally_reached hturns hloop)
  have hrest : Comp.Ends .fuel (fun k => refill fd Arr.buf.ptr n k >>= fun _ =>
      turnEnd fd i d n) w2 :=
    Comp.finally_congr hturn 0 fun k _ => by
      rw [recvTurn_text hw htext, turnBody, Comp.bind_ok hr]
  have hrefill : Comp.Ends .fuel (Comp.loop .fuel (refillTurn fd n) ()) w2 :=
    Comp.finally_congr (Comp.ends_bind_left hrest) 0 fun k _ => by rw [refill_eq]
  obtain ⟨m, hm⟩ := Comp.finally_reached hreach hrefill
  exact hm m (Nat.le_refl m) (starving_forever hf hstarving m)

/-- With a peer that sends chunks and goes away, a call ends exactly when it is fed; it ends by
    returning or by exiting exactly when its steps fit as well. -/
theorem receive_finishes_iff [Libc.CopiesForward] (h0 : (w0.mem .recvbuf).length = BUFSIZE)
    (hp : Chunks (w0.net fd)) :
    (Comp.Ends .fuel (fun fuel => recvMessage fuel fd Arr.recvbuf.ptr) w0 ↔ Fed fd w0) ∧
      (Finishes fd w0 ↔ StepsFit (fun _ => True) fd w0 ∧ Fed fd w0) := by
  refine ⟨⟨fed_of_ends h0, fun hfed => recvMessage_ends h0 hp hfed⟩, fun h => ?_, ?_⟩
  · have hends := h.ends
    obtain ⟨m, hm⟩ := h
    have hintact : Comp.Finally (Intact (fun _ => True) w0.log.length)
        (fun fuel => recvMessage fuel fd Arr.recvbuf.ptr) w0 := by
      refine ⟨m, fun k hk => ?_⟩
      beta_reduce
      rcases hm k hk with ⟨v, w', hr⟩ | ⟨code, w', hr⟩
      · exact intact_ok hr fun _ _ _ _ => trivial
      · exact intact_exit hr fun _ _ _ _ => trivial
    exact ⟨stepsFit_of_finally h0 hintact, fed_of_ends h0 hends⟩
  · rintro ⟨hfit, hfed⟩
    obtain ⟨m, hm⟩ := recvMessage_ends h0 hp hfed
    refine ⟨m, fun k hk => ?_⟩
    have hfuel := hm k hk
    have hundefined := (always_of_stepsFit h0 hfit trivial k).1
    beta_reduce at hfuel hundefined
    rcases hr : (recvMessage k fd Arr.recvbuf.ptr).run w0 with ⟨e | v, w'⟩
    · rw [hr] at hfuel hundefined
      cases e with
      | exit code => exact .inr ⟨code, w', rfl⟩
      | undefined => exact absurd rfl hundefined
      | fuel => exact absurd rfl hfuel
    · exact .inl ⟨v, w', rfl⟩

end Finishes

section Bytewise

attribute [local instance] Libc.bytewise

/-- Five bytes are announced, two come, and the stream ends. -/
def closedStream : World := receiving fun _ => ⟨[some (lit "5:ab")], .eof⟩

theorem closedStream_chunks : Chunks (closedStream.net .control) := by
  intro x hx
  rw [List.mem_singleton.mp hx]
  exact ⟨_, rfl, by decide⟩

theorem receive_finishes_demo :
    (Comp.Ends .fuel (fun fuel => recvMessage fuel .control Arr.recvbuf.ptr) closedStream ↔
      Fed .control closedStream) ∧
      (Finishes .control closedStream ↔
        StepsFit (fun _ => True) .control closedStream ∧ Fed .control closedStream) :=
  receive_finishes_iff (receiving_recvbuf _) closedStream_chunks

theorem run_of_fst {α : Type} {x : Run α} {w : World} {a : α} (h : (x.run w).1 = .ok a) :
    x.run w = (.ok a, (x.run w).2) := Prod.ext h rfl

/-- The fragment loop reads the end of the stream for ever. -/
theorem closedStream_not_finishes : ¬ Finishes .control closedStream := by
  intro h
  have h0 : (closedStream.mem .recvbuf).length = BUFSIZE := receiving_recvbuf _
  have hstart : (recvStart .control).run closedStream =
      (.ok true, ((recvStart .control).run closedStream).2) := run_of_fst (by decide +kernel)
  set w1 := ((recvStart .control).run closedStream).2 with hw1
  have hhead : (readHead .control).run w1 = (.ok (1, 5), ((readHead .control).run w1).2) :=
    run_of_fst (by decide +kernel)
  set w2 := ((readHead .control).run w1).2 with hw2
  refine fed_of_ends h0 h.ends 1 5 w2 ⟨(0, 0), w1, w2, ⟨w1, hstart, .refl⟩, by decide +kernel, hhead,
    .refl⟩ ⟨⟨lit "5:ab", ?_, by decide⟩, ?_, ?_⟩
  · unfold IsStr
    decide +kernel
  · unfold IsStr
    decide +kernel
  · obtain ⟨b, v, hr, -, hnet, -⟩ := recvStart_run .control h0
    cases hr.symm.trans hstart
    obtain ⟨t, -, -, hheaded⟩ := readHead_ok .control (AtHead.recv h0 ⟨w1, hstart, .refl⟩).1 hhead
    rw [hheaded.net, hnet, pieceRead_net]
    rfl

end Bytewise

end Grnvs.Ascii
