/-
  Sessions that do not end.

  The reads of a socket return chunks, and then 0 or -1 for ever (`Wired`); that each of them returns
  is assumed, which is not so on `sdC` while its peer is silent. Every call of the client leaves the
  sockets like this, and only receiving takes turns. A call of `recvMessage` that does not end comes
  to a starving state, and there it spins: it reads the end of the stream, and nothing else happens
  (`recvMessage_spins`). So a session ends, or it spins in this way in one of its calls
  (`hangs_iff`).
-/
import Grnvs.Ascii.Session
import Grnvs.Ascii.Starving
import Grnvs.Lib.Spin

namespace Grnvs.Ascii

open Bytes

/-! ## What the sockets return -/

/-- The sockets return chunks and end in a given way, and the received messages have their array. -/
structure Wired (ending : Fd → Ending) (w : World) : Prop where
  recvbuf : (w.mem .recvbuf).length = BUFSIZE
  chunks : ∀ fd, Chunks (w.net fd)
  ending : ∀ fd, (w.net fd).ending = ending fd

/-- `x` keeps the peers so, and runs out of fuel where `L` allows it. -/
abbrev Steady {α : Type} (ending : Fd → Ending) (L : Prop) (x : Run α) : Prop :=
  Comp.Carries (Wired ending) (fun e => e = .fuel → L) x

section Calls

variable {α : Type} {ending : Fd → Ending} {L : Prop} {w : World}

theorem Peer.read_ending (p : Peer) (count : Nat) : (p.read count).2.ending = p.ending := by
  rcases p with ⟨_ | ⟨_ | c, rest⟩, e⟩
  · rfl
  · rfl
  · by_cases hle : c.length ≤ count
    · rw [Peer.read_whole hle]
    · rw [Peer.read_cut (Nat.lt_of_not_le hle)]

theorem Wired.setArr (h : Wired ending w) {a : Arr} {l : List Byte}
    (hl : (w.mem a).length = BUFSIZE → l.length = BUFSIZE) : Wired ending (w.setArr a l) := by
  refine ⟨?_, h.chunks, h.ending⟩
  by_cases ha : .recvbuf = a
  · subst ha
    rw [World.setArr_mem]
    exact hl h.recvbuf
  · rw [World.setArr_mem_of_ne w l ha]
    exact h.recvbuf

/-- What a read leaves of the peers. -/
theorem Wired.read (h : Wired ending w) (fd : Fd) (count : Nat) :
    Wired ending (pieceRead fd count w) := by
  refine ⟨h.recvbuf, fun fd' => ?_, fun fd' => ?_⟩
  · by_cases hfd : fd' = fd
    · rw [hfd, pieceRead_net]
      exact (h.chunks fd).read count
    · rw [show (pieceRead fd count w).net fd' = w.net fd' from Function.update_of_ne hfd ..]
      exact h.chunks fd'
  · by_cases hfd : fd' = fd
    · rw [hfd, pieceRead_net, Peer.read_ending]
      exact h.ending fd
    · rw [show (pieceRead fd count w).net fd' = w.net fd' from Function.update_of_ne hfd ..]
      exact h.ending fd'

theorem steady_undefined : Steady ending L (undefined : Run α) :=
  Comp.carries_stop fun h => Stop.noConfusion h

theorem steady_exit (code : Int) : Steady ending L (exit code : Run α) :=
  Comp.carries_stop fun h => Stop.noConfusion h

theorem steady_note (e : Event) : Steady ending L (note e) :=
  Comp.carries_modify fun _ h => ⟨h.recvbuf, h.chunks, h.ending⟩

theorem steady_declare (a : Arr) : Steady ending L (declare a BUFSIZE) :=
  Comp.carries_modify fun _ h => h.setArr fun _ => zeros_length BUFSIZE

theorem steady_strAt (p : Ptr) : Steady ending L (strAt p) := by
  refine ⟨fun w hw => ?_⟩
  unfold strAt
  dsimp only
  cases cstr ((w.block p.blk).drop p.off) with
  | none => exact fun h => Stop.noConfusion h
  | some s => exact hw

theorem steady_charAt (p : Ptr) : Steady ending L (charAt p) := by
  refine ⟨fun w hw => ?_⟩
  unfold charAt
  dsimp only
  cases (w.block p.blk).drop p.off with
  | nil => exact fun h => Stop.noConfusion h
  | cons b bs => exact hw

theorem steady_store (p : Ptr) (bs : List Byte) : Steady ending L (store p bs) := by
  refine ⟨fun w hw => ?_⟩
  unfold store
  dsimp only
  cases p.blk with
  | lit s => exact fun h => Stop.noConfusion h
  | arr a =>
    by_cases hfits : p.off + bs.length ≤ (w.mem a).length
    · dsimp only
      rw [if_pos hfits]
      exact hw.setArr fun hlen => (splice_length hfits).trans hlen
    · dsimp only
      rw [if_neg hfits]
      exact fun h => Stop.noConfusion h

theorem steady_memset (p : Ptr) (n : Nat) : Steady ending L (memset p n) := steady_store _ _

theorem steady_strlen (p : Ptr) : Steady ending L (strlen p) :=
  (steady_strAt p).bind fun _ => Comp.carries_pure _

theorem steady_strchr (p : Ptr) (c : Byte) : Steady ending L (strchr p c) :=
  (steady_strAt p).bind fun _ => Comp.carries_pure _

theorem steady_readFd (fd : Fd) (p : Ptr) (count : Nat) : Steady ending L (readFd fd p count) := by
  refine ⟨fun w hw => ?_⟩
  have hread := hw.read fd count
  rcases hr : (w.net fd).read count with ⟨got, rest⟩
  rw [pieceRead, hr] at hread
  rw [readFd, Comp.gets_bind, hr]
  dsimp only
  rw [Comp.modify_bind]
  cases got with
  | none => exact hread
  | some bs =>
    have hstore : Steady ending L (do store p bs; pure (bs.length : Int)) :=
      (steady_store p bs).bind fun _ => Comp.carries_pure _
    exact hstore.closes _ hread

theorem steady_writeFd (fd : Fd) (p : Ptr) (count : Nat) : Steady ending L (writeFd fd p count) :=
  (Comp.carries_gets _).bind fun _ => Comp.carries_ite (steady_note _) steady_undefined

section Copies

variable [Libc]

theorem steady_copy (dst src : Ptr) (bs : List Byte) (written : Nat) :
    Steady ending L (copy dst src bs written) := by
  refine ⟨fun w hw => ?_⟩
  unfold copy
  dsimp only
  cases dst.blk with
  | lit s => exact fun h => Stop.noConfusion h
  | arr a =>
    by_cases hfits : dst.off + bs.length ≤ (w.mem a).length
    · dsimp only
      rw [if_pos hfits]
      cases hl : copied (w.mem a) dst src bs written with
      | none => exact fun h => Stop.noConfusion h
      | some l => exact hw.setArr fun hlen => (copied_length hl hfits).trans hlen
    · dsimp only
      rw [if_neg hfits]
      exact fun h => Stop.noConfusion h

theorem steady_strcpy (dst src : Ptr) : Steady ending L (strcpy dst src) :=
  (steady_strAt src).bind fun _ => steady_copy _ _ _ _

theorem steady_strcat (dst src : Ptr) : Steady ending L (strcat dst src) :=
  (steady_strlen dst).bind fun _ => steady_strcpy _ _

theorem steady_strncpy (dst src : Ptr) (n : Nat) : Steady ending L (strncpy dst src n) :=
  (Comp.carries_gets _).bind fun _ =>
    Comp.carries_ite ((steady_strAt _).bind fun _ => (steady_copy _ _ _ _).bind fun _ =>
      steady_store _ _) steady_undefined

end Copies

/-! ## The calls of the client -/

theorem steady_formatBroken (src : Ptr) : Steady ending L (formatBroken src) := by
  refine (steady_strchr _ _).bind fun i => ?_
  cases i with
  | none => exact Comp.carries_pure _
  | some i =>
    refine (steady_strchr _ _).bind fun j => ?_
    cases j with
    | none => exact Comp.carries_pure _
    | some j => exact Comp.carries_pure _

theorem steady_formatBrokenFull (src : Ptr) : Steady ending L (formatBrokenFull src) := by
  refine (steady_strchr _ _).bind fun i => ?_
  cases i with
  | none => exact Comp.carries_pure _
  | some i =>
    refine (steady_strchr _ _).bind fun j => ?_
    cases j with
    | none => exact Comp.carries_pure _
    | some j => exact Comp.carries_pure _

theorem steady_digitsBefore (src : Ptr) : Steady ending L (digitsBefore src) := by
  refine (steady_strchr _ _).bind fun i => ?_
  cases i with
  | none => exact steady_undefined
  | some i => exact Comp.carries_pure _

theorem steady_advance (c : Cursor) : Steady ending L (advance c) :=
  (Comp.carries_ite (Comp.carries_pure _)
    ((steady_strlen _).bind fun _ => Comp.carries_pure _)).bind fun _ => Comp.carries_pure _

theorem steady_accept (step : Step) (start : Ptr) : Steady ending L (accept step start) :=
  (steady_strAt _).bind fun _ => steady_note _

theorem steady_connectControl (env : Env) : Steady ending L (connectControl env) :=
  (Comp.carries_when (steady_exit _)).bind fun _ =>
    Comp.carries_when ((steady_note _).bind fun _ => steady_exit _)

theorem steady_closing :
    Steady ending L (do note (.close .control); note (.close .listening); exit 1 : Run Unit) :=
  (steady_note _).bind fun _ => (steady_note _).bind fun _ => steady_exit _

theorem steady_recvStart (fd : Fd) : Steady ending True (recvStart fd) := by
  refine (steady_memset _ _).bind fun _ => (steady_declare _).bind fun _ => ?_
  exact (steady_readFd _ _ _).bind fun _ => Comp.carries_pure _

variable [Libc]

theorem steady_writeNet (dst : Ptr) (n : Nat) (src : Ptr) :
    Steady ending L (writeNet dst n src) := by
  refine (steady_memset _ _).bind fun _ => (steady_strlen _).bind fun _ => ?_
  refine (Comp.carries_gets _).bind fun _ => Comp.carries_ite ?_ ?_
  · refine (steady_store _ _).bind fun _ => (steady_strcat _ _).bind fun _ => ?_
    exact (steady_strcat _ _).bind fun _ => Comp.carries_pure _
  · exact (steady_store _ _).bind fun _ => Comp.carries_pure _

theorem steady_sendMessage (fd : Fd) (m buf : Ptr) : Steady ending L (sendMessage fd m buf) :=
  (steady_writeNet _ _ _).bind fun _ => steady_writeFd _ _ _

theorem steady_checkMessage (fd : Fd) (expected actual : Ptr) :
    Steady ending L (checkMessage fd expected actual) := by
  refine (steady_strAt _).bind fun _ => (steady_strAt _).bind fun _ => ?_
  refine (steady_note _).bind fun _ => (steady_charAt _).bind fun _ => ?_
  refine Comp.carries_ite ?_ (Comp.carries_ite ?_ (Comp.carries_pure _))
  · exact (steady_strAt _).bind fun _ => steady_note _
  · refine (steady_declare _).bind fun _ => (steady_strcpy _ _).bind fun _ => ?_
    refine (steady_strcat _ _).bind fun _ => (steady_strcat _ _).bind fun _ => ?_
    refine (steady_strcat _ _).bind fun _ => (steady_strcat _ _).bind fun _ => ?_
    refine (steady_strcat _ _).bind fun _ => (steady_sendMessage _ _ _).bind fun _ => ?_
    exact (steady_strAt _).bind fun _ => (steady_note _).bind fun _ => steady_exit _

theorem steady_convert (dst : Ptr) (n : Nat) (src : Ptr) (d l m : Nat) :
    Steady ending L (convert dst n src d l m) :=
  Comp.carries_ite (Comp.carries_pure _) ((steady_strncpy _ _ _).bind fun _ =>
    (steady_store _ _).bind fun _ => Comp.carries_pure _)

theorem steady_copyOut (dst : Ptr) (pos : Nat) (next : Option Ptr) :
    Steady ending L (copyOut dst pos next) := by
  refine (steady_strcpy _ _).bind fun _ => (steady_strlen _).bind fun _ => ?_
  refine (steady_strcpy _ _).bind fun _ => Comp.Carries.bind ?_ fun _ => Comp.carries_pure _
  cases next with
  | none => exact steady_undefined
  | some p => exact steady_strcpy _ _

theorem steady_sendText (fd : Fd) (head : String) (tail : Ptr) :
    Steady ending L (sendText fd head tail) :=
  (steady_strcpy _ _).bind fun _ => (steady_strcat _ _).bind fun _ => steady_sendMessage _ _ _

theorem steady_checkPrefix (fd : Fd) (letter : Byte) (expected start : Ptr) :
    Steady ending L (checkPrefix fd letter expected start) := by
  refine (steady_charAt _).bind fun _ => Comp.carries_ite (steady_checkMessage _ _ _) ?_
  exact (steady_charAt _).bind fun _ => Comp.carries_when (steady_checkMessage _ _ _)

theorem steady_openData (env : Env) : Steady ending L (openData env) := by
  refine (Comp.carries_when (steady_exit _)).bind fun _ => ?_
  refine (Comp.carries_when steady_closing).bind fun _ => ?_
  refine (Comp.carries_when steady_closing).bind fun _ => ?_
  refine (steady_strcpy _ _).bind fun _ => (steady_store _ _).bind fun _ => ?_
  refine (steady_strcat _ _).bind fun _ => (steady_sendMessage _ _ _).bind fun _ => ?_
  exact Comp.carries_when steady_closing

/-! ## Receiving -/

theorem steady_refill (fd : Fd) (src : Ptr) (n fuel : Nat) :
    Steady ending True (refill fd src n fuel) := by
  induction fuel with
  | zero => exact Comp.carries_stop fun _ => trivial
  | succ fuel ih =>
    refine (steady_strlen _).bind fun _ => Comp.carries_ite ?_ (Comp.carries_pure _)
    refine (steady_strlen _).bind fun _ => (steady_readFd _ _ _).bind fun _ => ?_
    exact Comp.carries_ite (Comp.carries_pure _) ((steady_strcat _ _).bind fun _ => ih)

theorem steady_readNet (fuel : Nat) (dst : Ptr) (n : Nat) (src : Ptr) (fd : Fd) (l : Nat) :
    Steady ending True (readNet fuel dst n src fd l) := by
  refine (steady_formatBroken _).bind fun _ => ?_
  refine (Comp.carries_when (steady_checkMessage _ _ _)).bind fun _ => ?_
  refine (steady_charAt _).bind fun _ => ?_
  refine (Comp.carries_when (steady_checkMessage _ _ _)).bind fun _ => ?_
  refine (steady_digitsBefore _).bind fun _ => (steady_strAt _).bind fun _ => ?_
  refine (steady_declare _).bind fun _ => (steady_refill _ _ _ _).bind fun _ => ?_
  refine (steady_formatBrokenFull _).bind fun _ => ?_
  refine (Comp.carries_when (steady_checkMessage _ _ _)).bind fun _ => ?_
  exact steady_convert _ _ _ _ _ _

theorem steady_recvLoop (fd : Fd) (dst : Ptr) (fuel pos nets : Nat) :
    Steady ending True (recvLoop fd dst fuel pos nets) := by
  induction fuel generalizing pos nets with
  | zero => exact Comp.carries_stop fun _ => trivial
  | succ fuel ih =>
    refine (steady_charAt _).bind fun _ => Comp.carries_ite ?_ (Comp.carries_pure _)
    refine (steady_readNet _ _ _ _ _ _).bind fun _ => ?_
    exact (steady_copyOut _ _ _).bind fun _ => ih _ _

theorem steady_recvMessage (fd : Fd) (dst : Ptr) (fuel : Nat) :
    Steady ending True (recvMessage fuel fd dst) := by
  refine (steady_memset _ _).bind fun _ => (steady_declare _).bind fun _ => ?_
  refine (steady_readFd _ _ _).bind fun _ => ?_
  exact Comp.carries_ite (Comp.carries_pure _) (steady_recvLoop _ _ _ _ _)

/-! ## The parts of a call -/

theorem steady_readHead (fd : Fd) : Steady ending True (readHead fd) := by
  refine (steady_formatBroken _).bind fun _ => ?_
  refine (Comp.carries_when (steady_checkMessage _ _ _)).bind fun _ => ?_
  refine (steady_charAt _).bind fun _ => ?_
  refine (Comp.carries_when (steady_checkMessage _ _ _)).bind fun _ => ?_
  refine (steady_digitsBefore _).bind fun _ => (steady_strAt _).bind fun _ => ?_
  exact (steady_declare _).bind fun _ => Comp.carries_pure _

theorem steady_refillTurn (fd : Fd) (n : Nat) (u : Unit) (k : Nat) :
    Steady ending True (refillTurn fd n u k) := by
  refine (steady_strlen _).bind fun _ => Comp.carries_ite ?_ (Comp.carries_pure _)
  refine (steady_strlen _).bind fun _ => (steady_readFd _ _ _).bind fun _ => ?_
  exact Comp.carries_ite (Comp.carries_pure _) ((steady_strcat _ _).bind fun _ =>
    Comp.carries_pure _)

theorem steady_recvTurn (fd : Fd) (i : Nat × Nat) (k : Nat) :
    Steady ending True (recvTurn fd i k) := by
  refine (steady_charAt _).bind fun _ => Comp.carries_ite ?_ (Comp.carries_pure _)
  refine (steady_readNet _ _ _ _ _ _).bind fun _ => ?_
  exact (steady_copyOut _ _ _).bind fun _ => Comp.carries_pure _

/-- In front of every turn of the fragment loop the peers are as they were. -/
theorem AtPiece.wired {fd : Fd} {w0 : World} {d n : Nat} (hw : Wired ending w0)
    (h : AtPiece fd w0 d n w) : Wired ending w := by
  obtain ⟨i, w1, w2, ⟨v, hstart, hturns⟩, -, hhead, hreach⟩ := h
  have hv : Wired ending v := (steady_recvStart fd).ok hw hstart
  have hw1 : Wired ending w1 := Comp.carries_reached (steady_recvTurn fd) hturns hv
  have hw2 : Wired ending w2 := (steady_readHead fd).ok hw1 hhead
  exact Comp.carries_reached (steady_refillTurn fd n) hreach hw2

end Calls

/-! ## Spinning -/

section Spinning

variable {fd : Fd} {w0 w : World} {d n : Nat} {t s : List Byte}

variable [Libc]

theorem starving_spins (hf : Filling w t s) (h : Starving fd n w) (hn : n < 2 ^ 64) :
    Comp.Spins World.log (.read fd n (some [])) .fuel (Comp.loop .fuel (refillTurn fd n) ()) w := by
  refine Comp.spins_repeat (I := fun w => ∃ t s, Filling w t s ∧ Starving fd n w) ?_
    ⟨t, s, hf, h⟩
  rintro w ⟨t, s, hf, h⟩
  obtain ⟨w', hr, hf', h'⟩ := starving_next hf h
  refine ⟨w', hr, ⟨t, [], hf', h'⟩, ?_⟩
  obtain rfl : s = [] := Option.some.inj (hf.piece.symm.trans h.piece)
  obtain ⟨t', ht, hlt⟩ := h.text
  obtain rfl : t' = t := Option.some.inj (ht.symm.trans hf.text)
  have hlog := @refillTurn_log w fd n 0 t' [] _ hf hlt
  rw [hr 0, pieceRead_log, h.closed, List.length_nil, subSize_of_le hn (Nat.zero_le n)] at hlog
  exact hlog

/-- A call that comes to a starving state spins there. -/
theorem recvMessage_spins [Libc.CopiesForward] (h0 : (w0.mem .recvbuf).length = BUFSIZE)
    (hpiece : AtPiece fd w0 d n w)
    (h : Starving fd n w) : Comp.Spins World.log (.read fd n (some [])) .fuel
      (fun k => recvMessage k fd Arr.recvbuf.ptr) w0 := by
  obtain ⟨⟨t, s, hf, -⟩, hn⟩ := hpiece.filled h0
  obtain ⟨i, w1, w2, hhead, htext, hr, hreach⟩ := hpiece
  have hw := (hhead.recv h0).1
  obtain ⟨v, hstart, hturns⟩ := hhead
  have hrefill : Comp.Spins World.log (.read fd n (some [])) .fuel (refill fd Arr.buf.ptr n) w2 :=
    Comp.spins_congr (Comp.spins_reached hreach (starving_spins hf h hn)) 0 fun k _ => by
      rw [refill_eq]
  have hbody : Comp.Spins World.log (.read fd n (some [])) .fuel (turnBody fd i) w1 :=
    Comp.spins_congr (Comp.spins_bind_left (f := fun _ _ => turnEnd fd i d n) hrefill) 0
      fun k _ => by rw [turnBody, Comp.bind_ok hr]
  have hturn : Comp.Spins World.log (.read fd n (some [])) .fuel (recvTurn fd i) w1 :=
    Comp.spins_congr hbody 0 fun k _ => (recvTurn_text hw htext).symm
  exact Comp.spins_congr (Comp.spins_reached hturns (Comp.spins_turn hturn)) 0 fun k _ => by
    rw [recvMessage_eq, Comp.bind_ok hstart, if_pos rfl]

end Spinning

/-! ## The session -/

/-- A read of the end of a closed stream. -/
def EndRead (ending : Fd → Ending) (e : Event) : Prop :=
  ∃ fd n, e = .read fd n (some []) ∧ 0 < n ∧ ending fd = .eof

/-- Where the peers are so, `x` ends or reads the end of a stream for ever. -/
abbrev Live {α : Type} (ending : Fd → Ending) (x : Nat → Run α) : Prop :=
  Comp.Responsive (Wired ending) (EndRead ending) World.log .fuel x

section Live

variable {α : Type} {ending : Fd → Ending}

theorem Steady.live {x : Run α} (h : Steady ending False x) : Live ending fun _ => x :=
  h.responsive

theorem live_pure (a : α) : Live ending fun _ => (pure a : Run α) :=
  Steady.live (Comp.carries_pure a)

variable [Libc]

theorem live_recvMessage [Libc.CopiesForward]
    (fd : Fd) : Live ending fun k => recvMessage k fd Arr.recvbuf.ptr where
  stable := by
    simp only [recvMessage_eq]
    refine Comp.stable_bind (Comp.stable_const _) fun read => ?_
    exact Comp.stable_ite (Comp.stable_loop (stable_recvTurn fd) _) (Comp.stable_const _)
  comes w hw := by
    by_cases hfed : Fed fd w
    · exact .inl (recvMessage_ends hw.recvbuf (hw.chunks fd) hfed)
    · unfold Fed at hfed
      push Not at hfed
      obtain ⟨d, n, w', hpiece, hstarving⟩ := hfed
      refine .inr ⟨_, ⟨fd, n, rfl, ?_, ?_⟩, recvMessage_spins hw.recvbuf hpiece hstarving⟩
      · obtain ⟨t, -, hlt⟩ := hstarving.text
        omega
      · rw [← (hpiece.wired hw).ending fd, hstarving.closed]
  keeps k w a w' hw hr := (steady_recvMessage fd _ k).ok hw hr

theorem live_receive [Libc.CopiesForward] (fd : Fd)
    (c : Cursor) : Live ending fun k => receive k fd c :=
  Comp.responsive_ite (Comp.responsive_bind (live_recvMessage fd) fun _ => live_pure _)
    (live_pure c)

theorem live_controlVersion [Libc.CopiesForward] : Live ending controlVersion := by
  refine Comp.responsive_bind (steady_sendMessage _ _ _).live fun _ => ?_
  refine Comp.responsive_bind (live_recvMessage _) fun _ => ?_
  refine Comp.responsive_bind (steady_checkMessage _ _ _).live fun _ => ?_
  exact Comp.responsive_bind (steady_accept _ _).live fun _ => (steady_advance _).live

theorem live_controlToken [Libc.CopiesForward]
    (c : Cursor) : Live ending fun k => controlToken k c := by
  refine Comp.responsive_bind (steady_sendText _ _ _).live fun _ => ?_
  refine Comp.responsive_bind (live_receive _ _) fun _ => ?_
  refine Comp.responsive_bind (steady_checkPrefix _ _ _ _).live fun _ => ?_
  refine Comp.responsive_bind (steady_accept _ _).live fun _ => ?_
  exact Comp.responsive_bind (steady_strcpy _ _).live fun _ => (steady_advance _).live

theorem live_dataVersion [Libc.CopiesForward] : Live ending dataVersion := by
  refine Comp.responsive_bind (live_recvMessage _) fun _ => ?_
  refine Comp.responsive_bind (steady_checkMessage _ _ _).live fun _ => ?_
  exact Comp.responsive_bind (steady_accept _ _).live fun _ => (steady_advance _).live

theorem live_dataToken [Libc.CopiesForward] (c : Cursor) : Live ending fun k => dataToken k c := by
  refine Comp.responsive_bind (steady_sendText _ _ _).live fun _ => ?_
  refine Comp.responsive_bind (live_receive _ _) fun _ => ?_
  refine Comp.responsive_bind (steady_strcpy _ _).live fun _ => ?_
  refine Comp.responsive_bind (steady_strcat _ _).live fun _ => ?_
  refine Comp.responsive_bind (steady_checkMessage _ _ _).live fun _ => ?_
  exact Comp.responsive_bind (steady_accept _ _).live fun _ => (steady_advance _).live

theorem live_dataDtoken [Libc.CopiesForward]
    (c : Cursor) : Live ending fun k => dataDtoken k c := by
  refine Comp.responsive_bind (steady_sendText _ _ _).live fun _ => ?_
  refine Comp.responsive_bind (live_receive _ _) fun _ => ?_
  refine Comp.responsive_bind (steady_checkPrefix _ _ _ _).live fun _ => ?_
  refine Comp.responsive_bind (steady_accept _ _).live fun _ => ?_
  refine Comp.responsive_bind (steady_strcpy _ _).live fun _ => ?_
  refine Comp.responsive_bind (steady_advance _).live fun _ => ?_
  refine Comp.responsive_bind (steady_note _).live fun _ => ?_
  exact Comp.responsive_bind (steady_note _).live fun _ => live_pure _

theorem live_controlLength [Libc.CopiesForward]
    (c : Cursor) : Live ending fun k => controlLength k c := by
  refine Comp.responsive_bind (live_receive _ _) fun _ => ?_
  refine Comp.responsive_bind (steady_strcpy _ _).live fun _ => ?_
  refine Comp.responsive_bind (steady_strlen _).live fun _ => ?_
  refine Comp.responsive_bind (steady_store _ _).live fun _ => ?_
  refine Comp.responsive_bind (steady_checkMessage _ _ _).live fun _ => ?_
  exact Comp.responsive_bind (steady_accept _ _).live fun _ => (steady_advance _).live

theorem live_controlAck [Libc.CopiesForward]
    (c : Cursor) : Live ending fun k => controlAck k c := by
  refine Comp.responsive_bind (steady_sendText _ _ _).live fun _ => ?_
  refine Comp.responsive_bind (live_receive _ _) fun _ => ?_
  refine Comp.responsive_bind (steady_strcpy _ _).live fun _ => ?_
  refine Comp.responsive_bind (steady_checkMessage _ _ _).live fun _ => ?_
  refine Comp.responsive_bind (steady_accept _ _).live fun _ => ?_
  exact Comp.responsive_bind (steady_advance _).live fun _ => (steady_note _).live

/-- The array of the received messages is there from the first line on. -/
theorem session_comes [Libc.CopiesForward] (env : Env) {w : World}
    (hchunks : ∀ fd, Chunks (w.net fd)) (hending : ∀ fd, (w.net fd).ending = ending fd) :
    Comp.EndsOrSpins (EndRead ending) World.log .fuel (fun k => session k env) w := by
  have hdeclare : Comp.Ends .fuel (fun _ => declare .recvbuf BUFSIZE) w :=
    Comp.finally_const.mpr nofun
  refine Comp.endsOrSpins_bind (Comp.stable_const _) (.inl hdeclare) fun _ w' hset => ?_
  have hw' : Wired ending w' := by
    cases Comp.settles_const.mp hset
    refine ⟨?_, hchunks, hending⟩
    rw [World.setArr_mem, zeros_length]
  refine Comp.Responsive.comes ?_ w' hw'
  refine Comp.responsive_bind (steady_declare _).live fun _ => ?_
  refine Comp.responsive_bind (steady_declare _).live fun _ => ?_
  refine Comp.responsive_bind (steady_declare _).live fun _ => ?_
  refine Comp.responsive_bind (steady_connectControl env).live fun _ => ?_
  refine Comp.responsive_bind live_controlVersion fun c => ?_
  refine Comp.responsive_bind (live_controlToken c) fun _ => ?_
  refine Comp.responsive_bind (steady_openData env).live fun _ => ?_
  refine Comp.responsive_bind live_dataVersion fun c => ?_
  refine Comp.responsive_bind (live_dataToken c) fun c => ?_
  refine Comp.responsive_bind (live_dataDtoken c) fun c => ?_
  exact Comp.responsive_bind (live_controlLength c) fun c => live_controlAck c

end Live

/-- A session whose reads return chunks, and then 0 or -1 for ever, ends, or from some point on it
    does nothing but read the end of one closed stream, over and over. -/
theorem hangs_iff [Libc] [Libc.CopiesForward] (env : Env) (order : EvalOrder) (nick msg : List Byte)
    {net : Fd → Peer} (h : ∀ fd, Chunks (net fd)) :
    ¬ Comp.Ends .fuel (fun fuel => assignment4 fuel env) (start order nick msg net) ↔
      ∃ fd n, 0 < n ∧ (net fd).ending = .eof ∧
        Comp.Spins World.log (.read fd n (some [])) .fuel (fun fuel => assignment4 fuel env)
          (start order nick msg net) := by
  have hcomes : Comp.EndsOrSpins (EndRead fun fd => (net fd).ending) World.log .fuel
      (fun fuel => assignment4 fuel env) (start order nick msg net) := by
    unfold assignment4
    by_cases hparsed : env.addressParsed = true
    · simp only [if_pos hparsed]
      exact session_comes env h fun _ => rfl
    · simp only [if_neg hparsed]
      exact .inl (Comp.finally_const.mpr nofun)
  constructor
  · intro hnot
    obtain ⟨_, ⟨fd, n, rfl, hpos, heof⟩, hspins⟩ := hcomes.resolve_left hnot
    exact ⟨fd, n, hpos, heof, hspins⟩
  · rintro ⟨fd, n, -, -, hspins⟩
    exact hspins.not_ends

section Bytewise

attribute [local instance] Libc.bytewise

/-- The control peer closes in the middle of its first message; the others say nothing. -/
def halfMessage : Fd → Peer
  | .control => ⟨[some (lit "5:ab")], .eof⟩
  | .listening | .data => ⟨[], .timeout⟩

theorem halfMessage_chunks : ∀ fd, Chunks (halfMessage fd)
  | .control => fun x hx => ⟨_, List.mem_singleton.mp hx, by decide⟩
  | .listening | .data => fun _ hx => absurd hx List.not_mem_nil

theorem hangs_iff_halfMessage :
    ¬ Comp.Ends .fuel (fun fuel => assignment4 fuel (Env.working 8080))
        (start .before (lit "nick") (lit "hi") halfMessage) ↔
      ∃ fd n, 0 < n ∧ (halfMessage fd).ending = .eof ∧
        Comp.Spins World.log (.read fd n (some [])) .fuel
          (fun fuel => assignment4 fuel (Env.working 8080))
          (start .before (lit "nick") (lit "hi") halfMessage) :=
  hangs_iff (Env.working 8080) .before (lit "nick") (lit "hi") halfMessage_chunks

end Bytewise

end Grnvs.Ascii
