/-
  The cursor into a received batch.

  `Holds w c done unread`: `recvbuf` holds the batch `done ++ unread`, the count says how many
  messages are left and the cursor stands at the first of them. `advance` takes one message
  (`advance_run`), and `receive` reads from the socket only when nothing is left
  (`receive_keep`, `receive_batch`, together `receive_next`).

  What a socket still has to give is a `Supply` of batches.
-/
import Grnvs.Ascii.Batch

namespace Grnvs.Ascii

open Bytes Decimal Netstring

/-! ## What a call leaves alone -/

/-- Only the arrays in `A` changed, and the arrays of `assignment4` keep their size. -/
structure Frame (A : List Arr) (w w' : World) : Prop where
  mem : ∀ b, b ∉ A → w'.mem b = w.mem b
  size : ∀ b, b ≠ .buf → b ≠ .scratch → (w.mem b).length = BUFSIZE → (w'.mem b).length = BUFSIZE

theorem Frame.refl (w : World) : Frame [] w w := ⟨fun _ _ => rfl, fun _ _ _ h => h⟩

theorem Frame.trans {A B : List Arr} {w w' w'' : World} (h : Frame A w w')
    (h' : Frame B w' w'') : Frame (A ++ B) w w'' where
  mem b hb := by
    rw [List.mem_append, not_or] at hb
    exact (h'.mem b hb.2).trans (h.mem b hb.1)
  size b h1 h2 hb := h'.size b h1 h2 (h.size b h1 h2 hb)

theorem Frame.mono {A B : List Arr} {w w' : World} (h : Frame A w w') (hAB : ∀ a ∈ A, a ∈ B) :
    Frame B w w' where
  mem b hb := h.mem b fun hA => hb (hAB b hA)
  size := h.size

theorem frame_setArr {a : Arr} {l : List Byte} (w : World) (hl : l.length = BUFSIZE) :
    Frame [a] w (w.setArr a l) where
  mem b hb := World.setArr_mem_of_ne _ _ (by simpa using hb)
  size b _ _ hb := by
    by_cases h : b = a
    · subst h
      rw [World.setArr_mem, hl]
    · rw [World.setArr_mem_of_ne _ _ h, hb]

theorem frame_note (w : World) (e : Event) : Frame [] w (w.note e) :=
  ⟨fun _ _ => rfl, fun _ _ _ h => h⟩

theorem Frame.isStr {A : List Arr} {w w' : World} (h : Frame A w w') {p : Ptr} {s : List Byte}
    (hp : ∀ a, p.blk = .arr a → a ∉ A) (hs : IsStr w p s) : IsStr w' p s := by
  rcases p with ⟨_ | a, off⟩
  · exact hs
  · unfold IsStr World.block at hs ⊢
    dsimp only at hs ⊢
    rwa [h.mem a (hp a rfl)]

/-! ## The frames of a log -/

/-- What was written, in order. -/
def writes (log : List Event) : List (Fd × List Byte) :=
  log.filterMap fun
    | .write fd bytes => some (fd, bytes)
    | _ => none

@[simp] theorem writes_nil : writes [] = [] := rfl

theorem writes_append (l l' : List Event) : writes (l ++ l') = writes l ++ writes l' :=
  List.filterMap_append

@[simp] theorem writes_write (fd : Fd) (bs : List Byte) : writes [.write fd bs] = [(fd, bs)] := rfl

@[simp] theorem writes_read (fd : Fd) (n : Nat) (got : Option (List Byte)) :
    writes [.read fd n got] = [] := rfl

@[simp] theorem writes_check (fd : Fd) (want act : List Byte) :
    writes [.check fd want act] = [] := rfl

@[simp] theorem writes_accept (step : Step) (m : List Byte) : writes [.accept step m] = [] := rfl

@[simp] theorem writes_close (fd : Fd) : writes [.close fd] = [] := rfl

/-! ## The cursor -/

/-- `recvbuf` holds the batch `done ++ unread`, and the cursor stands in front of `unread`. -/
structure Holds (w : World) (c : Cursor) (done unread : List (List Byte)) : Prop where
  size : (w.mem .recvbuf).length = BUFSIZE
  plain : ∀ m ∈ done ++ unread, Plain m
  count : c.netStringsInBuf = unread.length
  start : c.startOfNetstring =
    if unread = [] then Arr.recvbuf.ptr else ⟨.arr .recvbuf, (strs done).length⟩
  layout : ∃ tail, w.mem .recvbuf = strs (done ++ unread) ++ tail

section Cursor

variable {w w' : World} {c : Cursor} {done unread : List (List Byte)} {m : List Byte}

/-- Before the first `recvMessage` nothing is unread. -/
theorem holds_empty (hsize : (w.mem .recvbuf).length = BUFSIZE) :
    Holds w ⟨0, Arr.recvbuf.ptr⟩ [] [] where
  size := hsize
  plain := fun _ h => by cases h
  count := rfl
  start := rfl
  layout := ⟨_, rfl⟩

theorem Holds.of_mem (h : Holds w c done unread) (hm : w'.mem .recvbuf = w.mem .recvbuf) :
    Holds w' c done unread where
  size := by rw [hm]; exact h.size
  plain := h.plain
  count := h.count
  start := h.start
  layout := by rw [hm]; exact h.layout

theorem Holds.frame {A : List Arr} (h : Holds w c done unread) (hf : Frame A w w')
    (hA : .recvbuf ∉ A) : Holds w' c done unread := h.of_mem (hf.mem _ hA)

theorem Holds.start_cons (h : Holds w c done (m :: unread)) :
    c.startOfNetstring = ⟨.arr .recvbuf, (strs done).length⟩ := by
  rw [h.start, if_neg (List.cons_ne_nil _ _)]

/-- A cursor at the front of a batch is the buffer itself. -/
theorem Holds.start_front (h : Holds w c [] unread) : c.startOfNetstring = Arr.recvbuf.ptr := by
  rw [h.start]
  split <;> rfl

/-- The string at the cursor is the first unread message. -/
theorem Holds.current (h : Holds w c done (m :: unread)) : IsStr w c.startOfNetstring m := by
  obtain ⟨tail, ht⟩ := h.layout
  refine isStr_iff.mpr ⟨(h.plain m (by simp)).nulFree, strs unread ++ tail, ?_⟩
  rw [h.start_cons, World.block_arr, ht, strs_append, strs_cons, List.append_assoc,
    List.drop_left]
  simp

/-- The string at the front of `recvbuf` is the first message of the batch. -/
theorem Holds.first {b : List (List Byte)} (h : Holds w c done unread)
    (hb : done ++ unread = m :: b) : IsStr w Arr.recvbuf.ptr m := by
  obtain ⟨tail, ht⟩ := h.layout
  refine isStr_iff.mpr ⟨(h.plain m (by rw [hb]; simp)).nulFree, strs b ++ tail, ?_⟩
  rw [Arr.ptr_blk, World.block_arr, Arr.ptr_off, List.drop_zero, ht, hb, strs_cons]
  simp

/-- `netStringsInBuf--` and `updateNets` take one message. -/
theorem advance_run (h : Holds w c done (m :: unread)) :
    ∃ c', (advance c).run w = (.ok c', w) ∧ Holds w c' (done ++ [m]) unread := by
  have hnum : c.netStringsInBuf - 1 = (unread.length : Int) := by
    rw [h.count, List.length_cons]
    omega
  have hlay : done ++ [m] ++ unread = done ++ m :: unread := by simp
  rcases unread with _ | ⟨m', rest⟩
  · refine ⟨⟨0, Arr.recvbuf.ptr⟩, ?_, h.size, by rw [hlay]; exact h.plain, rfl, rfl,
      by rw [hlay]; exact h.layout⟩
    have hup : (updateNets (c.netStringsInBuf - 1) c.startOfNetstring Arr.recvbuf.ptr).run w =
        (.ok Arr.recvbuf.ptr, w) := by
      unfold updateNets
      rw [if_pos (by rw [hnum]; rfl), Comp.pure_run]
    unfold advance
    rw [Comp.bind_ok hup, hnum, Comp.pure_run]
    rfl
  · refine ⟨⟨((m' :: rest).length : Int), ⟨.arr .recvbuf, (strs (done ++ [m])).length⟩⟩, ?_,
      h.size, by rw [hlay]; exact h.plain, rfl, by rw [if_neg (List.cons_ne_nil _ _)],
      by rw [hlay]; exact h.layout⟩
    have hstart : c.startOfNetstring + (m.length + 1) =
        ⟨.arr .recvbuf, (strs (done ++ [m])).length⟩ := by
      rw [h.start_cons]
      change (⟨.arr .recvbuf, (strs done).length + (m.length + 1)⟩ : Ptr) = _
      rw [strs_append, List.length_append, strs_cons, strs_nil, List.length_append,
        List.length_singleton]
    have hup : (updateNets (c.netStringsInBuf - 1) c.startOfNetstring Arr.recvbuf.ptr).run w =
        (.ok ⟨.arr .recvbuf, (strs (done ++ [m])).length⟩, w) := by
      rw [updateNets, if_neg (by rw [hnum, List.length_cons]; omega),
          Comp.bind_ok (strlen_run h.current),
        hstart, Comp.pure_run]
    unfold advance
    rw [Comp.bind_ok hup, hnum, Comp.pure_run]

end Cursor

/-! ## The next message -/

/-- A batch the client can receive. -/
structure Usable (fuel : Nat) (b : List (List Byte)) : Prop where
  ne_nil : b ≠ []
  plain : ∀ m ∈ b, Plain m
  fits : Fits b
  fuel : b.length < fuel

/-- The next reads of `fd` return the batches `bs`, one a read, and then `more`. -/
structure Supply (fuel : Nat) (w : World) (fd : Fd) (bs : List (List (List Byte)))
    (more : List (Option (List Byte))) : Prop where
  pending : (w.net fd).pending = bs.map (fun b => some (encs b)) ++ more
  usable : ∀ b ∈ bs, Usable fuel b

theorem Supply.of_net {fuel : Nat} {w w' : World} {fd : Fd} {bs : List (List (List Byte))}
    {more : List (Option (List Byte))} (h : Supply fuel w fd bs more) (hn : w'.net fd = w.net fd) :
    Supply fuel w' fd bs more := ⟨by rw [hn]; exact h.pending, h.usable⟩

/-- Receiving from `fd` touches three arrays, the one socket, and writes nothing. -/
structure Took (fd : Fd) (w w' : World) : Prop where
  frame : Frame [.recvbuf, .buf, .scratch] w w'
  net : ∀ sd, sd ≠ fd → w'.net sd = w.net sd
  writes : writes w'.log = writes w.log

theorem Received.took {fd : Fd} {got : Option (List Byte)} {p : Peer} {w w' : World}
    (h : Received .recvbuf fd got p w w') : Took fd w w' where
  frame := by
    refine ⟨fun b hb => ?_, fun b h1 h2 hb => ?_⟩
    · simp only [List.mem_cons, List.not_mem_nil, or_false, not_or] at hb
      exact h.mem b hb.1 hb.2.1 hb.2.2
    · by_cases hr : b = .recvbuf
      · rw [hr]
        exact h.size
      · rw [h.mem b hr h1 h2, hb]
  net sd hsd := by rw [h.net, Function.update_of_ne hsd]
  writes := by rw [h.log, writes_append, writes_read, List.append_nil]

section Receive

variable {w : World} {fd : Fd} {fuel : Nat} {c : Cursor} {done unread : List (List Byte)}
  {m : List Byte} {bs : List (List (List Byte))} {more : List (Option (List Byte))}

theorem Took.refl (fd : Fd) (w : World) : Took fd w w where
  frame := (Frame.refl w).mono fun _ h => by cases h
  net _ _ := rfl
  writes := rfl

variable [Libc]

/-- A message is left, so nothing is read. -/
theorem receive_keep (h : Holds w c done (m :: unread)) :
    (receive fuel fd c).run w = (.ok c, w) := by
  unfold receive
  rw [if_neg (by rw [h.count, List.length_cons]; omega), Comp.pure_run]

/-- `recvMessage` on the next batch. -/
theorem recvMessage_supply [Libc.CopiesForward] {b : List (List Byte)}
    (hsize : (w.mem .recvbuf).length = BUFSIZE) (hs : Supply fuel w fd (b :: bs) more) :
    ∃ w', (recvMessage fuel fd Arr.recvbuf.ptr).run w = (.ok (b.length : Int), w') ∧
      Holds w' ⟨b.length, Arr.recvbuf.ptr⟩ [] b ∧ Supply fuel w' fd bs more ∧ Took fd w w' := by
  have hb := hs.usable b (List.mem_cons_self ..)
  have ht := hb.fits.text
  have hread : (w.net fd).read BUFSIZE = (some (encs b),
      ⟨bs.map (fun b => some (encs b)) ++ more, (w.net fd).ending⟩) := by
    rw [show w.net fd = ⟨(w.net fd).pending, (w.net fd).ending⟩ from rfl, hs.pending]
    exact Peer.read_whole (Nat.le_of_lt ht)
  obtain ⟨w', tail, hrun, hrec, hmem⟩ :=
    recvMessage_batch _ (by decide) (by decide) hb.plain hb.fits
    hsize hread hb.fuel
  refine ⟨w', hrun, ⟨hrec.size, by simpa using hb.plain, rfl, ?_, ?_⟩, ⟨?_, ?_⟩, hrec.took⟩
  · rw [if_neg hb.ne_nil]
    rfl
  · exact ⟨_, by rw [List.nil_append, hmem, List.append_assoc]⟩
  · rw [hrec.net, Function.update_self]
  · exact fun x hx => hs.usable x (List.mem_cons_of_mem _ hx)

/-- Nothing is left, so the next batch is read. -/
theorem receive_batch [Libc.CopiesForward] {b : List (List Byte)} (h : Holds w c done [])
    (hs : Supply fuel w fd (b :: bs) more) :
    ∃ w' c', (receive fuel fd c).run w = (.ok c', w') ∧ Holds w' c' [] b ∧
      Supply fuel w' fd bs more ∧ Took fd w w' := by
  obtain ⟨w', hrun, hh, hs', ht⟩ := recvMessage_supply h.size hs
  refine ⟨w', ⟨b.length, Arr.recvbuf.ptr⟩, ?_, hh, hs', ht⟩
  unfold receive
  rw [if_pos (by rw [h.count]; rfl), Comp.bind_ok hrun, Comp.pure_run, h.start]
  rfl

/-- The next message of a socket stands at the cursor, wherever the batches begin and end. The
    batch it came in is the old one or the first of the supply. -/
theorem receive_next [Libc.CopiesForward] {q : List (List Byte)} (h : Holds w c done unread)
    (hs : Supply fuel w fd bs more) (hq : unread ++ bs.flatten = m :: q) :
    ∃ w' c' done' unread' bs', (receive fuel fd c).run w = (.ok c', w') ∧
      Holds w' c' done' (m :: unread') ∧ Supply fuel w' fd bs' more ∧ Took fd w w' ∧
      unread' ++ bs'.flatten = q ∧
      ((done' = done ∧ m :: unread' = unread ∧ bs' = bs) ∨
        (unread = [] ∧ done' = [] ∧ bs = (m :: unread') :: bs')) := by
  rcases unread with _ | ⟨x, u⟩
  · rcases bs with _ | ⟨b, bs⟩
    · cases hq
    · obtain ⟨w', c', hrun, hh, hs', ht⟩ := receive_batch h hs
      rcases b with _ | ⟨x, u⟩
      · exact absurd rfl (hs.usable [] (List.mem_cons_self ..)).ne_nil
      · simp only [List.nil_append, List.flatten_cons, List.cons_append, List.cons.injEq] at hq
        obtain ⟨rfl, hq⟩ := hq
        exact ⟨w', c', [], u, bs, hrun, hh, hs', ht, hq, .inr ⟨rfl, rfl, rfl⟩⟩
  · simp only [List.cons_append, List.cons.injEq] at hq
    obtain ⟨rfl, hq⟩ := hq
    exact ⟨w, c, done, u, bs, receive_keep h, h, hs, Took.refl fd w, hq, .inl ⟨rfl, rfl, rfl⟩⟩

end Receive

end Grnvs.Ascii
