/-
  The client's way through one batch.

  Of every message the client uses the string at the cursor, lowers `netStringsInBuf` and moves the
  cursor with `updateNets` (`visit`). From a cursor in front of a batch this comes to its messages
  one by one (`visit_run`, `visits_run`); behind the last one the cursor is at the buffer again and
  the next `receive` reads from the socket (`receive_reads`), not before (`receive_keep`).
-/
import Grnvs.Ascii.Cursor
import Grnvs.Ascii.Quiet

namespace Grnvs.Ascii

open Bytes Netstring

/-- A message of the protocol: a C string that is not empty. -/
structure Message where
  bytes : List Byte
  plain : Plain bytes
deriving DecidableEq

/-- The messages of a batch as byte strings. -/
def texts (ms : List Message) : List (List Byte) := ms.map Message.bytes

@[simp] theorem texts_length (ms : List Message) : (texts ms).length = ms.length :=
  List.length_map ..

theorem texts_plain (ms : List Message) : ∀ m ∈ texts ms, Plain m := by
  intro m hm
  obtain ⟨msg, -, rfl⟩ := List.mem_map.mp hm
  exact msg.plain

/-- Use the string at the cursor, then `netStringsInBuf--` and `updateNets`. -/
def visit (c : Cursor) : Run (List Byte × Cursor) := do
  let m ← strAt c.startOfNetstring
  let c ← advance c
  pure (m, c)

/-- `n` visits: the strings that were used, and the cursor behind them. -/
def visits : Nat → Cursor → Run (List (List Byte) × Cursor)
  | 0, c => pure ([], c)
  | n + 1, c => do
      let (m, c) ← visit c
      let (ms, c) ← visits n c
      pure (m :: ms, c)

section Visits

variable {w : World} {c : Cursor} {done unread : List (List Byte)} {m : List Byte}

theorem visit_run (h : Holds w c done (m :: unread)) :
    ∃ c', (visit c).run w = (.ok (m, c'), w) ∧ Holds w c' (done ++ [m]) unread := by
  obtain ⟨c', hrun, hholds⟩ := advance_run h
  refine ⟨c', ?_, hholds⟩
  unfold visit
  rw [Comp.bind_ok (strAt_run h.current), Comp.bind_ok hrun, Comp.pure_run]

theorem visits_run {ms : List (List Byte)} (h : Holds w c done (ms ++ unread)) :
    ∃ c', (visits ms.length c).run w = (.ok (ms, c'), w) ∧ Holds w c' (done ++ ms) unread := by
  induction ms generalizing c done with
  | nil => exact ⟨c, rfl, by rw [List.append_nil]; exact h⟩
  | cons m ms ih =>
    obtain ⟨c₁, hone, h₁⟩ := visit_run h
    obtain ⟨c₂, hrest, h₂⟩ := ih h₁
    refine ⟨c₂, ?_, by rw [List.append_assoc] at h₂; exact h₂⟩
    show (visits (ms.length + 1) c).run w = _
    unfold visits
    rw [Comp.bind_ok hone]
    show ((visits ms.length c₁ >>= fun r => pure (m :: r.1, r.2) : Run _).run w) = _
    rw [Comp.bind_ok hrest, Comp.pure_run]

/-! The next read. -/

theorem readFd_reads (fd : Fd) (p : Ptr) (n : Nat) (w : World) :
    ∃ got, w.log ++ [.read fd n got] <+: ((readFd fd p n).run w).2.log := by
  rcases hr : (w.net fd).read n with ⟨got, peer⟩
  refine ⟨got, ?_⟩
  unfold readFd
  rw [Comp.gets_bind, hr]
  refine List.IsPrefix.trans ?_ (log_bind (fun _ => ?_) w)
  · exact List.prefix_rfl
  · cases got with
    | none => exact grows_pure _
    | some bs => exact grows_bind (quiet_store _ _).grows fun _ => grows_pure _

/-- Nothing is left, so the first thing `receive` does outside the buffers is a read. -/
theorem receive_reads [Libc] (fuel : Nat) (fd : Fd) (h : Holds w c done []) :
    ∃ got es, ((receive fuel fd c).run w).2.log = w.log ++ .read fd BUFSIZE got :: es := by
  have hcount : c.netStringsInBuf = 0 := h.count
  obtain ⟨got, hread⟩ := readFd_reads fd Arr.buf.ptr BUFSIZE
    ((w.setArr .recvbuf (zeros BUFSIZE)).setArr .buf (zeros BUFSIZE))
  have hmsg : w.log ++ [.read fd BUFSIZE got] <+:
      ((recvMessage fuel fd Arr.recvbuf.ptr).run w).2.log := by
    unfold recvMessage
    rw [Comp.bind_ok (recvMessage_cleared h.size), Comp.bind_ok (declare_run _ _ _)]
    refine hread.trans (log_bind (fun _ => ?_) _)
    exact grows_ite (grows_pure _) (grows_recvLoop _ _ _ _ _)
  unfold receive
  rw [if_pos hcount]
  obtain ⟨es, hes⟩ := hmsg.trans (log_bind (fun nets =>
    grows_pure { c with netStringsInBuf := nets }) w)
  exact ⟨got, es, by rw [← hes, List.append_assoc]; rfl⟩

/-- **A batch is visited message by message**: behind the `recvMessage` that laid it out in one
    read, `j` visits have used its first `j` messages in order. The count is then what is left, and
    reading goes on exactly behind the last one, with the cursor at the buffer again. -/
theorem recvMessage_visits [Libc] [Libc.CopiesForward] {fuel : Nat} {fd : Fd}
    {ms : List Message} {e : Ending} {rest : List (Option (List Byte))}
    (hsize : (w.mem .recvbuf).length = BUFSIZE)
    (hlen : (encs (texts ms)).length ≤ 2048)
    (hnet : w.net fd = ⟨some (encs (texts ms)) :: rest, e⟩) (hfuel : ms.length < fuel) :
    ∃ w', (recvMessage fuel fd Arr.recvbuf.ptr).run w = (.ok (ms.length : Int), w') ∧
      w'.log = w.log ++ [.read fd BUFSIZE (some (encs (texts ms)))] ∧
      ∀ j ≤ ms.length, ∃ c, (visits j ⟨ms.length, Arr.recvbuf.ptr⟩).run w' =
          (.ok (texts (ms.take j), c), w') ∧
        c.netStringsInBuf = ms.length - j ∧
        (j < ms.length → ∀ k sd, (receive k sd c).run w' = (.ok c, w')) ∧
        (j = ms.length → c.startOfNetstring = Arr.recvbuf.ptr ∧ ∀ k sd, ∃ got es,
          ((receive k sd c).run w').2.log = w'.log ++ .read sd BUFSIZE got :: es) := by
  have hread : (w.net fd).read BUFSIZE = (some (encs (texts ms)), ⟨rest, e⟩) := by
    rw [hnet, Peer.read_whole (Nat.le_trans hlen (by decide))]
  obtain ⟨w', tail, hrun, hrec, hmem⟩ := recvMessage_batch fuel (by decide) (by decide)
    (texts_plain ms) (fits_of_length hlen) hsize hread (by rw [texts_length]; exact hfuel)
  rw [texts_length] at hrun
  refine ⟨w', hrun, hrec.log, fun j hj => ?_⟩
  have hsplit : texts (ms.take j) ++ texts (ms.drop j) = texts ms := by
    unfold texts
    rw [← List.map_append, List.take_append_drop]
  have hholds : Holds w' ⟨ms.length, Arr.recvbuf.ptr⟩ []
      (texts (ms.take j) ++ texts (ms.drop j)) := by
    rw [hsplit]
    refine ⟨hrec.size, texts_plain ms, by rw [texts_length], ?_, ?_⟩
    · split <;> rfl
    · exact ⟨_, by rw [hmem, List.append_assoc]; rfl⟩
  obtain ⟨c, hvisits, hc⟩ := visits_run hholds
  rw [texts_length, List.length_take, Nat.min_eq_left hj] at hvisits
  have hleft : (texts (ms.drop j)).length = ms.length - j := by
    rw [texts_length, List.length_drop]
  refine ⟨c, hvisits, ?_, fun hlt k sd => ?_, fun hjk => ?_⟩
  · rw [hc.count, hleft]
    omega
  · obtain ⟨m, unread, hm⟩ := List.exists_cons_of_length_pos (hleft ▸ Nat.sub_pos_of_lt hlt)
    rw [hm] at hc
    exact receive_keep hc
  · have hnil : texts (ms.drop j) = [] := List.length_eq_zero_iff.mp (by omega)
    rw [hnil] at hc
    exact ⟨hc.start, fun k sd => receive_reads k sd hc⟩

end Visits

section Bytewise

attribute [local instance] Libc.bytewise

/-- Two messages in one read. -/
def twoMessages : List Message := [⟨lit "S ab", by decide⟩, ⟨lit "S 7", by decide⟩]

theorem recvMessage_visits_two :
    ∃ w', (recvMessage 3 .control Arr.recvbuf.ptr).run
        (receiving fun _ => ⟨[some (encs (texts twoMessages))], .eof⟩) = (.ok 2, w') ∧
      w'.log = [.read .control BUFSIZE (some (encs (texts twoMessages)))] ∧
      ∀ j ≤ 2, ∃ c, (visits j ⟨2, Arr.recvbuf.ptr⟩).run w' =
          (.ok (texts (twoMessages.take j), c), w') ∧
        c.netStringsInBuf = 2 - j ∧
        (j < 2 → ∀ k sd, (receive k sd c).run w' = (.ok c, w')) ∧
        (j = 2 → c.startOfNetstring = Arr.recvbuf.ptr ∧ ∀ k sd, ∃ got es,
          ((receive k sd c).run w').2.log = w'.log ++ .read sd BUFSIZE got :: es) :=
  @recvMessage_visits _ _ _ _ _ twoMessages _ _ (receiving_recvbuf _) (by decide) rfl (by decide)

end Bytewise

end Grnvs.Ascii
