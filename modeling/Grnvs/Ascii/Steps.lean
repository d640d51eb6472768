/-
  The seven steps of the session, one by one.

  Every step sends what it has to send, takes the next message of its socket and checks it. An
  `Arrival` is the moment before the check: the frames are written and the message stands at the
  cursor. The `_arrives` lemmas bring each step there, whatever batches its message came in;
  `checked_same` and `checked_prefix` go on from there when the message is the expected one.
-/
import Grnvs.Ascii.Cursor

namespace Grnvs.Ascii

open Bytes Decimal Netstring

/-! ## Texts -/

section Text

variable {w : World} {a : Arr} {s t : List Byte} {src : Ptr}

variable [Libc]

/-- `strcpy` to the start of an array. -/
theorem strcpy_start (hs : IsStr w src s) (hsrc : src.blk ≠ .arr a)
    (h : s.length < (w.mem a).length) :
    ∃ l, (strcpy a.ptr src).run w = (.ok (), w.setArr a l) ∧ l.length = (w.mem a).length ∧
      cstr l = some s := by
  refine ⟨splice (w.mem a) 0 (s ++ [0]), strcpy_run hs hsrc (by omega),
    splice_length (by simp; omega), ?_⟩
  rw [splice_zero, List.append_assoc]
  exact cstr_terminated hs.nulFree _

/-- `strcat` onto a string at the start of an array. -/
theorem strcat_start (ht : IsStr w a.ptr t) (hs : IsStr w src s) (hsrc : src.blk ≠ .arr a)
    (h : t.length + s.length < (w.mem a).length) :
    ∃ l, (strcat a.ptr src).run w = (.ok (), w.setArr a l) ∧ l.length = (w.mem a).length ∧
      cstr l = some (t ++ s) := by
  obtain ⟨hn, r, hr⟩ := isStr_iff.mp ht
  simp only [Arr.ptr_blk, World.block_arr, Arr.ptr_off, List.drop_zero] at hr
  refine ⟨splice (w.mem a) t.length (s ++ [0]), ?_, splice_length (by simp; omega), ?_⟩
  · unfold strcat
    rw [Comp.bind_ok (strlen_run ht), Arr.ptr_add, strcpy_run hs hsrc (by omega)]
  · rw [splice, hr, List.take_left, List.append_assoc, List.append_assoc, List.singleton_append,
      ← List.append_assoc]
    exact cstr_terminated (nulFree_append.mpr ⟨hn, hs.nulFree⟩) _

/-- A text of two parts, as the client builds its messages in `text`. -/
theorem text_run (head : String) (hhead : NulFree (lit head)) (ht : IsStr w src t)
    (hsrc : src.blk ≠ .arr .text) (hsize : (w.mem .text).length = BUFSIZE)
    (hlen : (lit head).length + t.length < BUFSIZE) {α : Type} (k : Unit → Run α) :
    ∃ l, (do strcpy Arr.text.ptr (litPtr head); strcat Arr.text.ptr src >>= k : Run α).run w =
        (k ()).run (w.setArr .text l) ∧
      l.length = BUFSIZE ∧ cstr l = some (lit head ++ t) := by
  obtain ⟨l1, hr1, hl1, hc1⟩ :=
    strcpy_start (w := w) (a := .text) (isStr_lit hhead) (litPtr_apart _ _) (by omega)
  have hs1 : IsStr (w.setArr .text l1) Arr.text.ptr (lit head) := by
    simpa [IsStr] using hc1
  have ht1 : IsStr (w.setArr .text l1) src t := (isStr_setArr hsrc).mpr ht
  obtain ⟨l2, hr2, hl2, hc2⟩ := strcat_start hs1 ht1 hsrc (by rw [World.setArr_mem]; omega)
  rw [World.setArr_mem] at hl2
  refine ⟨l2, ?_, by omega, hc2⟩
  rw [Comp.bind_ok hr1, Comp.bind_ok hr2, setArr_setArr]

end Text

/-! ## The memory of the client -/

/-- The arrays of `assignment4` have their size, and the argument strings are there. -/
structure Client (nick msg : List Byte) (w : World) : Prop where
  sendbuf : (w.mem .sendbuf).length = BUFSIZE
  token : (w.mem .token).length = BUFSIZE
  text : (w.mem .text).length = BUFSIZE
  nick : IsStr w Arr.nick.ptr nick
  msg : IsStr w Arr.msg.ptr msg

theorem Client.frame {A : List Arr} {nick msg : List Byte} {w w' : World}
    (h : Client nick msg w) (hf : Frame A w w') (hn : .nick ∉ A) (hm : .msg ∉ A) :
    Client nick msg w' where
  sendbuf := hf.size _ (by decide) (by decide) h.sendbuf
  token := hf.size _ (by decide) (by decide) h.token
  text := hf.size _ (by decide) (by decide) h.text
  nick := hf.isStr (by rintro a ⟨⟩; exact hn) h.nick
  msg := hf.isStr (by rintro a ⟨⟩; exact hm) h.msg

/-- What a step sends before it receives. -/
structure Sent (w w' : World) (frames : List (Fd × List Byte)) : Prop where
  frame : Frame [.text, .sendbuf] w w'
  net : w'.net = w.net
  writes : writes w'.log = writes w.log ++ frames

theorem sent_nothing (w : World) : Sent w w [] where
  frame := (Frame.refl w).mono fun _ h => by cases h
  net := rfl
  writes := (List.append_nil _).symm

section Send

variable {nick msg : List Byte} {w : World} {fd : Fd} {src : Ptr} {t : List Byte}

variable [Libc]

variable (fd src) in
theorem sendMessage_sent (hs : IsStr w src t) (hsrc : src.blk ≠ .arr .sendbuf)
    (hsize : (w.mem .sendbuf).length = BUFSIZE) (hlen : t.length ≤ 4089) :
    ∃ w', (sendMessage fd src Arr.sendbuf.ptr).run w = (.ok (), w') ∧
      Sent w w' [(fd, enc t)] := by
  have hd := enc_length t
  have hd4 : (dec t.length).length ≤ 4 := dec_length_le (by decide) (by omega)
  have hB : BUFSIZE = 4096 := rfl
  refine ⟨_, sendMessage_run _ hs hsrc hsize hlen, ?_, rfl, ?_⟩
  · exact ((frame_setArr w (clean_length (by omega))).trans (frame_note _ _)).mono (by simp)
  · rw [World.note_log, World.setArr_log, writes_append, writes_write]

variable (fd) in
theorem sendText_sent (head : String) (hc : Client nick msg w) (hhead : NulFree (lit head))
    (ht : IsStr w src t) (h1 : src.blk ≠ .arr .text)
    (hlen : (lit head).length + t.length ≤ 4089) :
    ∃ w', (sendText fd head src).run w = (.ok (), w') ∧
      Sent w w' [(fd, enc (lit head ++ t))] := by
  have hB : BUFSIZE = 4096 := rfl
  obtain ⟨l, hr, hl, hcs⟩ := text_run _ hhead ht h1 hc.text (by omega)
    (fun _ => sendMessage fd Arr.text.ptr Arr.sendbuf.ptr)
  have hs : IsStr (w.setArr .text l) Arr.text.ptr (lit head ++ t) := by simpa [IsStr] using hcs
  obtain ⟨w', hr', hsent⟩ := sendMessage_sent fd _ hs (by decide)
    (by rw [World.setArr_mem_of_ne _ _ (by decide)]; exact hc.sendbuf)
    (by rw [List.length_append]; exact hlen)
  refine ⟨w', ?_, ?_, hsent.net, hsent.writes⟩
  · unfold sendText
    rw [hr, hr']
  · exact ((frame_setArr w hl).trans hsent.frame).mono (by simp)

end Send

/-! ## Arrivals -/

/-- The moment before a check: `sent` is written, and `m` stands at the cursor. `q` is what the
    socket still has. -/
structure Arrival (fuel : Nat) (fd : Fd) (w : World) (done unread : List (List Byte))
    (bs : List (List (List Byte))) (more : List (Option (List Byte))) (m : List Byte)
    (q : List (List Byte)) (sent : List (Fd × List Byte)) (w' : World) (c' : Cursor)
    (done' unread' : List (List Byte)) (bs' : List (List (List Byte))) : Prop where
  holds : Holds w' c' done' (m :: unread')
  supply : Supply fuel w' fd bs' more
  queue : unread' ++ bs'.flatten = q
  origin : (done' = done ∧ m :: unread' = unread ∧ bs' = bs) ∨
    (unread = [] ∧ done' = [] ∧ bs = (m :: unread') :: bs')
  frame : Frame [.text, .sendbuf, .recvbuf, .buf, .scratch] w w'
  net : ∀ sd, sd ≠ fd → w'.net sd = w.net sd
  writes : writes w'.log = writes w.log ++ sent

section Arrival

variable {fuel : Nat} {fd : Fd} {w w0 w' : World} {c c' : Cursor}
  {done unread done' unread' q : List (List Byte)} {bs bs' : List (List (List Byte))}
  {more : List (Option (List Byte))} {m nick msg : List Byte} {sent : List (Fd × List Byte)}

/-- A new text does not disturb an arrival. -/
theorem Arrival.setText {l : List Byte} (hl : l.length = BUFSIZE)
    (h : Arrival fuel fd w done unread bs more m q sent w' c' done' unread' bs') :
    Arrival fuel fd w done unread bs more m q sent (w'.setArr .text l) c' done' unread' bs' where
  holds := h.holds.of_mem (World.setArr_mem_of_ne _ _ (by decide))
  supply := h.supply.of_net rfl
  queue := h.queue
  origin := h.origin
  frame := (h.frame.trans (frame_setArr w' hl)).mono (by simp)
  net := h.net
  writes := h.writes

theorem Arrival.client (h : Arrival fuel fd w done unread bs more m q sent w' c' done' unread' bs')
    (hc : Client nick msg w) : Client nick msg w' := hc.frame h.frame (by decide) (by decide)

/-- An arrival after more has been sent. -/
theorem Arrival.after {frames : List (Fd × List Byte)} (h0 : Sent w w0 frames)
    (h : Arrival fuel fd w0 done unread bs more m q sent w' c' done' unread' bs') :
    Arrival fuel fd w done unread bs more m q (frames ++ sent) w' c' done' unread' bs' where
  holds := h.holds
  supply := h.supply
  queue := h.queue
  origin := h.origin
  frame := (h0.frame.trans h.frame).mono (by simp)
  net sd hsd := by rw [h.net sd hsd, h0.net]
  writes := by rw [h.writes, h0.writes, List.append_assoc]

variable [Libc]

/-- Receiving after sending. -/
theorem receive_arrives [Libc.CopiesForward] (h0 : Sent w w0 sent) (hh : Holds w c done unread)
    (hs : Supply fuel w fd bs more) (hq : unread ++ bs.flatten = m :: q) :
    ∃ w' c' done' unread' bs', (receive fuel fd c).run w0 = (.ok c', w') ∧
      Arrival fuel fd w done unread bs more m q sent w' c' done' unread' bs' := by
  obtain ⟨w', c', done', unread', bs', hr, hh', hs', ht, hq', ho⟩ := receive_next
    (hh.frame h0.frame (by decide)) (hs.of_net (by rw [h0.net])) hq
  exact ⟨w', c', done', unread', bs', hr, hh', hs', hq', ho,
    (h0.frame.trans ht.frame).mono (by simp),
    fun sd hsd => by rw [ht.net sd hsd, h0.net], by rw [ht.writes, h0.writes]⟩

/-- With an empty buffer `receive` is `recvMessage`. -/
theorem receive_first (h : (receive fuel fd ⟨0, Arr.recvbuf.ptr⟩).run w = (.ok c, w')) :
    ∃ n, (recvMessage fuel fd Arr.recvbuf.ptr).run w = (.ok n, w') ∧ c = ⟨n, Arr.recvbuf.ptr⟩ := by
  have h0 : (⟨0, Arr.recvbuf.ptr⟩ : Cursor).netStringsInBuf = 0 := by rfl
  unfold receive at h
  rw [if_pos h0] at h
  obtain ⟨n, w1, hr1, hr2⟩ := Comp.bind_eq_ok h
  simp only [Comp.pure_run, Prod.mk.injEq, Except.ok.injEq] at hr2
  obtain ⟨rfl, rfl⟩ := hr2
  exact ⟨n, hr1, rfl⟩

theorem controlVersion_arrives [Libc.CopiesForward] (hc : Client nick msg w)
    (hh : Holds w ⟨0, Arr.recvbuf.ptr⟩ done [])
    (hs : Supply fuel w .control bs more) (hq : bs.flatten = m :: q) :
    ∃ w' c' done' unread' bs', (controlVersion fuel).run w =
        (do checkMessage .control (litPtr "S GRNVS V:1.0") c'.startOfNetstring
            accept .controlVersion c'.startOfNetstring
            advance c' : Run Cursor).run w' ∧
      Arrival fuel .control w done [] bs more m q [(.control, enc (lit "C GRNVS V:1.0"))]
        w' c' done' unread' bs' := by
  obtain ⟨w0, hr0, h0⟩ := sendMessage_sent .control _ (isStr_lit (s := "C GRNVS V:1.0")
    (by decide)) (by simp [litPtr]) hc.sendbuf (by decide)
  obtain ⟨w', c', done', unread', bs', hr, ha⟩ := receive_arrives h0 hh hs hq
  obtain ⟨n, hr1, rfl⟩ := receive_first hr
  refine ⟨w', _, done', unread', bs', ?_, ha⟩
  unfold controlVersion
  rw [Comp.bind_ok hr0, Comp.bind_ok hr1]

theorem controlToken_arrives [Libc.CopiesForward] (hc : Client nick msg w) (hn : nick.length ≤ 4087)
    (hh : Holds w c done unread) (hs : Supply fuel w .control bs more)
    (hq : unread ++ bs.flatten = m :: q) :
    ∃ w' c' done' unread' bs', (controlToken fuel c).run w =
        (do checkPrefix .control 83 (litPtr "S <token>") c'.startOfNetstring
            accept .controlToken c'.startOfNetstring
            strcpy Arr.token.ptr (c'.startOfNetstring + 2)
            advance c' : Run Cursor).run w' ∧
      Arrival fuel .control w done unread bs more m q [(.control, enc (lit "C " ++ nick))]
        w' c' done' unread' bs' := by
  obtain ⟨w0, hr0, h0⟩ := sendText_sent .control "C " hc (by decide) hc.nick
    (by decide) (by have : (lit "C ").length = 2 := by decide
                    omega)
  obtain ⟨w', c', done', unread', bs', hr, ha⟩ := receive_arrives h0 hh hs hq
  refine ⟨w', c', done', unread', bs', ?_, ha⟩
  unfold controlToken
  rw [Comp.bind_ok hr0, Comp.bind_ok hr]

theorem dataVersion_arrives [Libc.CopiesForward] (hh : Holds w ⟨0, Arr.recvbuf.ptr⟩ done [])
    (hs : Supply fuel w .data bs more) (hq : bs.flatten = m :: q) :
    ∃ w' c' done' unread' bs', (dataVersion fuel).run w =
        (do checkMessage .data (litPtr "T GRNVS V:1.0") c'.startOfNetstring
            accept .dataVersion c'.startOfNetstring
            advance c' : Run Cursor).run w' ∧
      Arrival fuel .data w done [] bs more m q [] w' c' done' unread' bs' := by
  obtain ⟨w', c', done', unread', bs', hr, ha⟩ := receive_arrives (sent_nothing w) hh hs hq
  obtain ⟨n, hr1, rfl⟩ := receive_first hr
  refine ⟨w', _, done', unread', bs', ?_, ha⟩
  unfold dataVersion
  rw [Comp.bind_ok hr1]

theorem dataToken_arrives [Libc.CopiesForward] {token : List Byte} (hc : Client nick msg w)
    (hn : nick.length ≤ 4087) (htok : IsStr w Arr.token.ptr token) (htl : token.length ≤ 4087)
    (hh : Holds w c done unread) (hs : Supply fuel w .data bs more)
    (hq : unread ++ bs.flatten = m :: q) :
    ∃ w' c' done' unread' bs', (dataToken fuel c).run w =
        (do checkMessage .data Arr.text.ptr c'.startOfNetstring
            accept .dataToken c'.startOfNetstring
            advance c' : Run Cursor).run w' ∧
      Arrival fuel .data w done unread bs more m q [(.data, enc (lit "D " ++ nick))]
        w' c' done' unread' bs' ∧ IsStr w' Arr.text.ptr (lit "T " ++ token) := by
  have h2 : ∀ a b : Byte, [a, b].length = 2 := fun _ _ => rfl
  obtain ⟨w0, hr0, h0⟩ := sendText_sent .data "D " hc (by decide) hc.nick
    (by decide) (by have : (lit "D ").length = 2 := by decide
                    omega)
  obtain ⟨w1, c', done', unread', bs', hr, ha⟩ := receive_arrives h0 hh hs hq
  have hc1 := ha.client hc
  have htok1 : IsStr w1 Arr.token.ptr token := ha.frame.isStr (by rintro a ⟨⟩; decide) htok
  obtain ⟨l, hrt, hl, hcs⟩ := text_run "T " (by decide) htok1 (by decide) hc1.text
    (by have : (lit "T ").length = 2 := by decide
        have : BUFSIZE = 4096 := rfl
        omega)
    (fun _ => do
      checkMessage .data Arr.text.ptr c'.startOfNetstring
      accept .dataToken c'.startOfNetstring
      advance c')
  refine ⟨w1.setArr .text l, c', done', unread', bs', ?_, ha.setText hl, by simpa [IsStr] using hcs⟩
  unfold dataToken
  rw [Comp.bind_ok hr0, Comp.bind_ok hr, hrt]

theorem dataDtoken_arrives [Libc.CopiesForward] (hc : Client nick msg w) (hm : msg.length ≤ 4087)
    (hh : Holds w c done unread) (hs : Supply fuel w .data bs more)
    (hq : unread ++ bs.flatten = m :: q) :
    ∃ w' c' done' unread' bs', (dataDtoken fuel c).run w =
        (do checkPrefix .data 84 (litPtr "T <dtoken>") c'.startOfNetstring
            accept .dataDtoken c'.startOfNetstring
            strcpy Arr.token.ptr (Arr.recvbuf.ptr + 2)
            let c'' ← advance c'
            note (.close .listening)
            note (.close .data)
            pure c'' : Run Cursor).run w' ∧
      Arrival fuel .data w done unread bs more m q [(.data, enc (lit "D " ++ msg))]
        w' c' done' unread' bs' := by
  obtain ⟨w0, hr0, h0⟩ := sendText_sent .data "D " hc (by decide) hc.msg
    (by decide) (by have : (lit "D ").length = 2 := by decide
                    omega)
  obtain ⟨w', c', done', unread', bs', hr, ha⟩ := receive_arrives h0 hh hs hq
  refine ⟨w', c', done', unread', bs', ?_, ha⟩
  unfold dataDtoken
  rw [Comp.bind_ok hr0, Comp.bind_ok hr]

/-- The expected text of the length step. -/
theorem lengthText_run (hsize : (w.mem .text).length = BUFSIZE) (hmsg : IsStr w Arr.msg.ptr msg)
    (hlen : msg.length ≤ 4087) {α : Type} (k : Unit → Run α) :
    ∃ l, (do strcpy Arr.text.ptr (litPtr "S ")
             let len ← strlen Arr.msg.ptr
             store (Arr.text.ptr + 2) (dec len ++ [0]) >>= k : Run α).run w =
        (k ()).run (w.setArr .text l) ∧
      l.length = BUFSIZE ∧ cstr l = some (lit "S " ++ dec msg.length) := by
  have hB : BUFSIZE = 4096 := rfl
  have h2 : (lit "S ").length = 2 := by decide
  have hd4 : (dec msg.length).length ≤ 4 := dec_length_le (by decide) (by omega)
  have hr1 : (strcpy Arr.text.ptr (litPtr "S ")).run w =
      (.ok (), w.setArr .text (splice (w.mem .text) 0 (lit "S " ++ [0]))) :=
    strcpy_run (isStr_lit (by decide)) (litPtr_apart _ _) (by omega)
  set l1 := splice (w.mem .text) 0 (lit "S " ++ [0]) with hl1
  have hlen1 : l1.length = BUFSIZE := by
    rw [hl1, splice_length (by rw [List.length_append, h2, List.length_singleton]; omega), hsize]
  have hl1' : l1 = lit "S " ++ 0 :: (w.mem .text).drop 3 := by
    rw [hl1, splice_zero, List.append_assoc]
    rfl
  have hmsg1 : IsStr (w.setArr .text l1) Arr.msg.ptr msg := (isStr_setArr (by decide)).mpr hmsg
  have hst : (store (Arr.text.ptr + 2) (dec msg.length ++ [0])).run (w.setArr .text l1) =
      (.ok (), w.setArr .text (splice l1 2 (dec msg.length ++ [0]))) := by
    rw [Arr.ptr_add, store_run (by
      rw [World.setArr_mem, hlen1, List.length_append, List.length_singleton]; omega),
      World.setArr_mem, setArr_setArr]
  refine ⟨splice l1 2 (dec msg.length ++ [0]), ?_, ?_, ?_⟩
  · rw [Comp.bind_ok hr1, Comp.bind_ok (strlen_run hmsg1), Comp.bind_ok hst]
  · rw [splice_length (by rw [List.length_append, List.length_singleton]; omega), hlen1]
  · rw [splice, hl1', ← h2, List.take_left, List.append_assoc, List.append_assoc,
      List.singleton_append, ← List.append_assoc]
    exact cstr_terminated (nulFree_append.mpr ⟨by decide, dec_nulFree _⟩) _

theorem controlLength_arrives [Libc.CopiesForward] (hc : Client nick msg w) (hm : msg.length ≤ 4087)
    (hh : Holds w c done unread) (hs : Supply fuel w .control bs more)
    (hq : unread ++ bs.flatten = m :: q) :
    ∃ w' c' done' unread' bs', (controlLength fuel c).run w =
        (do checkMessage .control Arr.text.ptr c'.startOfNetstring
            accept .controlLength c'.startOfNetstring
            advance c' : Run Cursor).run w' ∧
      Arrival fuel .control w done unread bs more m q [] w' c' done' unread' bs' ∧
      IsStr w' Arr.text.ptr (lit "S " ++ dec msg.length) := by
  obtain ⟨w1, c', done', unread', bs', hr, ha⟩ := receive_arrives (sent_nothing w) hh hs hq
  have hc1 := ha.client hc
  obtain ⟨l, hrt, hl, hcs⟩ := lengthText_run hc1.text hc1.msg hm (fun _ => do
    checkMessage .control Arr.text.ptr c'.startOfNetstring
    accept .controlLength c'.startOfNetstring
    advance c')
  refine ⟨w1.setArr .text l, c', done', unread', bs', ?_, ha.setText hl, by simpa [IsStr] using hcs⟩
  unfold controlLength
  rw [Comp.bind_ok hr, hrt]

theorem controlAck_arrives [Libc.CopiesForward] {token : List Byte} (hc : Client nick msg w)
    (htok : IsStr w Arr.token.ptr token) (htl : token.length ≤ 4087)
    (hh : Holds w c done unread) (hs : Supply fuel w .control bs more)
    (hq : unread ++ bs.flatten = m :: q) :
    ∃ w' c' done' unread' bs', (controlAck fuel c).run w =
        (do checkMessage .control Arr.text.ptr c'.startOfNetstring
            accept .controlAck c'.startOfNetstring
            let _ ← advance c'
            note (.close .control) : Run Unit).run w' ∧
      Arrival fuel .control w done unread bs more m q [(.control, enc (lit "C " ++ token))]
        w' c' done' unread' bs' ∧ IsStr w' Arr.text.ptr (lit "S ACK") := by
  obtain ⟨w0, hr0, h0⟩ := sendText_sent .control "C " hc (by decide) htok
    (by decide) (by have : (lit "C ").length = 2 := by decide
                    omega)
  obtain ⟨w1, c', done', unread', bs', hr, ha⟩ := receive_arrives h0 hh hs hq
  have hc1 := ha.client hc
  obtain ⟨l, hrt, hl, hcs⟩ := strcpy_start (a := .text) (isStr_lit (w := w1) (s := "S ACK")
    (by decide)) (litPtr_apart _ _) (by rw [hc1.text]; decide)
  rw [hc1.text] at hl
  refine ⟨w1.setArr .text l, c', done', unread', bs', ?_, ha.setText hl, by simpa [IsStr] using hcs⟩
  unfold controlAck
  rw [Comp.bind_ok hr0, Comp.bind_ok hr, Comp.bind_ok hrt]

end Arrival

/-! ## Behind the check -/

/-- A passed check writes nothing and leaves the sockets; `A` says which arrays it touched. -/
structure Passed (A : List Arr) (w w' : World) : Prop where
  frame : Frame A w w'
  net : w'.net = w.net
  writes : writes w'.log = writes w.log

theorem Passed.trans {A B : List Arr} {w w' w'' : World} (h : Passed A w w')
    (h' : Passed B w' w'') : Passed (A ++ B) w w'' where
  frame := h.frame.trans h'.frame
  net := h'.net.trans h.net
  writes := h'.writes.trans h.writes

theorem passed_refl (w : World) : Passed [] w w := ⟨Frame.refl w, rfl, rfl⟩

theorem passed_note (w : World) {e : Event} (he : writes [e] = []) : Passed [] w (w.note e) where
  frame := frame_note w e
  net := rfl
  writes := by rw [World.note_log, writes_append, he, List.append_nil]

theorem passed_setArr {a : Arr} {l : List Byte} (w : World) (hl : l.length = BUFSIZE) :
    Passed [a] w (w.setArr a l) := ⟨frame_setArr w hl, rfl, rfl⟩

section Check

variable {w : World} {fd : Fd} {c : Cursor} {step : Step} {done unread : List (List Byte)}
  {m : List Byte} {expected start : Ptr} {letter : Byte}

variable (step) in
theorem accept_run (hs : IsStr w start m) :
    (accept step start).run w = (.ok (), w.note (.accept step m)) := by
  unfold accept
  rw [Comp.bind_ok (strAt_run hs), note_run]

variable [Libc]

variable (fd step) in
/-- The expected message passes. -/
theorem checked_then {α : Type} {k : Unit → Run α} (h : Holds w c done (m :: unread))
    (hx : IsStr w expected m) (hE : m.headD 0 ≠ letterE) :
    ∃ w', (do checkMessage fd expected c.startOfNetstring
              accept step c.startOfNetstring >>= k : Run α).run w = (k ()).run w' ∧
      Holds w' c done (m :: unread) ∧ Passed [] w w' := by
  refine ⟨(w.note (.check fd m m)).note (.accept step m), ?_, h.of_mem rfl,
    (passed_note w rfl).trans (passed_note _ rfl)⟩
  rw [Comp.bind_ok (checkMessage_same hx h.current hE),
    Comp.bind_ok (accept_run _ (isStr_note.mpr h.current))]

variable (fd step) in
/-- The expected message: the step is taken. -/
theorem checked_same (h : Holds w c done (m :: unread)) (hx : IsStr w expected m)
    (hE : m.headD 0 ≠ letterE) :
    ∃ c' w', (do checkMessage fd expected c.startOfNetstring
                 accept step c.startOfNetstring
                 advance c : Run Cursor).run w = (.ok c', w') ∧
      Holds w' c' (done ++ [m]) unread ∧ Passed [] w w' := by
  obtain ⟨w', hr, hh, hp⟩ := checked_then fd step (k := fun _ => advance c)
    h hx hE
  obtain ⟨c', hr', hh'⟩ := advance_run hh
  exact ⟨c', w', hr.trans hr', hh', hp⟩

/-- The last step, which closes the control connection. -/
theorem checked_controlAck (h : Holds w c done (m :: unread)) (hx : IsStr w expected m)
    (hE : m.headD 0 ≠ letterE) :
    ∃ w', (do checkMessage .control expected c.startOfNetstring
              accept .controlAck c.startOfNetstring
              let _ ← advance c
              note (.close .control) : Run Unit).run w = (.ok (), w') ∧ Passed [] w w' := by
  obtain ⟨w1, hr, hh, hp⟩ := checked_then .control .controlAck
    (k := fun _ => do let _ ← advance c; note (.close .control)) h hx hE
  obtain ⟨c', hr', _⟩ := advance_run hh
  refine ⟨w1.note (.close .control), ?_, hp.trans (passed_note _ rfl)⟩
  rw [hr, Comp.bind_ok hr', note_run]

/-- The first two bytes of a token message. -/
theorem checkPrefix_pass (hs : IsStr w start (letter :: 32 :: m)) :
    (checkPrefix fd letter expected start).run w = (.ok (), w) := by
  have hs1 : IsStr w (start + 1) (32 :: m) := IsStr.add (s := [letter]) hs
  unfold checkPrefix
  rw [Comp.bind_ok (charAt_run hs), List.headD_cons, if_neg (fun h => h rfl),
    Comp.bind_ok (charAt_run hs1), Comp.when_neg (fun h => h rfl), Comp.pure_run]

theorem checkPrefix_fail (hs : IsStr w start m) (hl : letter ≠ 0)
    (hm : m.take 2 ≠ [letter, 32]) :
    (checkPrefix fd letter expected start).run w = (checkMessage fd expected start).run w := by
  unfold checkPrefix
  rw [Comp.bind_ok (charAt_run hs)]
  by_cases h0 : m.headD 0 = letter
  · obtain ⟨t, rfl⟩ : ∃ t, m = letter :: t := by
      rcases m with _ | ⟨b, t⟩
      · exact absurd h0.symm hl
      · exact ⟨t, by rw [← h0, List.headD_cons]⟩
    have hs1 : IsStr w (start + 1) t := IsStr.add (s := [letter]) hs
    have h1 : t.headD 0 ≠ 32 := by
      rcases t with _ | ⟨b, t⟩
      · decide
      · intro h
        rw [List.headD_cons] at h
        exact hm (by rw [h]; rfl)
    rw [if_neg (fun h => h h0), Comp.bind_ok (charAt_run hs1), Comp.when_pos h1]
  · rw [if_pos h0]

/-- Copying a string of `recvbuf` to `token`. -/
theorem token_run {src : Ptr} (hsrc : src.blk = .arr .recvbuf)
    (hsize : (w.mem .recvbuf).length = BUFSIZE) (htok : (w.mem .token).length = BUFSIZE)
    (hs : IsStr w src m) :
    ∃ l, (strcpy Arr.token.ptr src).run w = (.ok (), w.setArr .token l) ∧
      l.length = BUFSIZE ∧ cstr l = some m := by
  have hl := hs.length_lt hsrc
  obtain ⟨l, hr, hl', hc⟩ := strcpy_start (a := .token) hs (by rw [hsrc]; decide) (by omega)
  exact ⟨l, hr, hl'.trans htok, hc⟩

/-- The token of the control connection is copied from the cursor. -/
theorem checked_controlToken (h : Holds w c done ((83 :: 32 :: m) :: unread))
    (htok : (w.mem .token).length = BUFSIZE) :
    ∃ c' w', (do checkPrefix .control 83 (litPtr "S <token>") c.startOfNetstring
                 accept .controlToken c.startOfNetstring
                 strcpy Arr.token.ptr (c.startOfNetstring + 2)
                 advance c : Run Cursor).run w = (.ok c', w') ∧
      Holds w' c' (done ++ [83 :: 32 :: m]) unread ∧ Passed [.token] w w' ∧
      IsStr w' Arr.token.ptr m := by
  set w1 := w.note (.accept .controlToken (83 :: 32 :: m)) with hw1
  have h1 : Holds w1 c done ((83 :: 32 :: m) :: unread) := h.of_mem rfl
  have hs2 : IsStr w1 (c.startOfNetstring + 2) m := IsStr.add (s := [83, 32]) h1.current
  obtain ⟨l, hr, hl, hc⟩ := token_run (by rw [h1.start_cons]; rfl) h1.size htok hs2
  have h2 : Holds (w1.setArr .token l) c done _ :=
    h1.of_mem (World.setArr_mem_of_ne _ _ (by decide))
  obtain ⟨c', hr', hh⟩ := advance_run h2
  refine ⟨c', _, ?_, hh, (passed_note w rfl).trans (passed_setArr _ hl), by simpa [IsStr] using hc⟩
  rw [Comp.bind_ok (checkPrefix_pass h.current), Comp.bind_ok (accept_run _ h.current), ← hw1,
    Comp.bind_ok hr, hr']

/-- The data token is copied from the front of the buffer, whatever stands there. -/
theorem checked_dataDtoken {t : List Byte} (h : Holds w c done ((84 :: 32 :: m) :: unread))
    (htok : (w.mem .token).length = BUFSIZE) (ht : IsStr w (Arr.recvbuf.ptr + 2) t) :
    ∃ c' w', (do checkPrefix .data 84 (litPtr "T <dtoken>") c.startOfNetstring
                 accept .dataDtoken c.startOfNetstring
                 strcpy Arr.token.ptr (Arr.recvbuf.ptr + 2)
                 let c'' ← advance c
                 note (.close .listening)
                 note (.close .data)
                 pure c'' : Run Cursor).run w = (.ok c', w') ∧
      Holds w' c' (done ++ [84 :: 32 :: m]) unread ∧ Passed [.token] w w' ∧
      IsStr w' Arr.token.ptr t := by
  set w1 := w.note (.accept .dataDtoken (84 :: 32 :: m)) with hw1
  have h1 : Holds w1 c done ((84 :: 32 :: m) :: unread) := h.of_mem rfl
  have hs2 : IsStr w1 (Arr.recvbuf.ptr + 2) t := isStr_note.mpr ht
  obtain ⟨l, hr, hl, hc⟩ := token_run rfl h1.size htok hs2
  have h2 : Holds (w1.setArr .token l) c done _ :=
    h1.of_mem (World.setArr_mem_of_ne _ _ (by decide))
  obtain ⟨c', hr', hh⟩ := advance_run h2
  set w2 := ((w1.setArr .token l).note (.close .listening)).note (.close .data) with hw2
  refine ⟨c', w2, ?_, hh.of_mem rfl, ?_, by simpa [IsStr, hw2] using hc⟩
  · rw [Comp.bind_ok (checkPrefix_pass h.current), Comp.bind_ok (accept_run _ h.current), ← hw1,
      Comp.bind_ok hr, Comp.bind_ok hr', Comp.bind_ok (note_run _ _),
      Comp.bind_ok (note_run _ _), Comp.pure_run]
  · exact ((passed_note w rfl).trans ((passed_setArr w1 hl).trans ((passed_note _ rfl).trans
      (passed_note _ rfl))))

variable (fd) in
/-- An unexpected message at the front of the buffer ends the client. -/
theorem checked_refuse {want : List Byte} (h : Holds w c [] (m :: unread))
    (hx : IsStr w expected want) (hE : m.headD 0 ≠ letterE) (hne : want ≠ m)
    (hxe : expected.blk ≠ .arr .errmsg) (hlen : want.length + m.length ≤ 4050) :
    ∃ w', (checkMessage fd expected c.startOfNetstring).run w = (.error (.exit (-1)), w') ∧
      writes w'.log = writes w.log ++ [(fd, enc (expectedText want m))] := by
  have hcur := h.current
  rw [h.start_front] at hcur
  obtain ⟨w', hr, hl⟩ := checkMessage_refuse fd hx hcur hE hne h.size hxe (by decide) (by omega)
  refine ⟨w', ?_, ?_⟩
  · rw [h.start_front, hr]
  · rw [hl, writes_append]
    rfl

variable (fd) in
/-- A token message without its prefix ends the client too. -/
theorem checked_refusePrefix {want : List Byte} (h : Holds w c [] (m :: unread))
    (hx : IsStr w expected want) (hl : letter ≠ 0) (hm : m.take 2 ≠ [letter, 32])
    (hE : m.headD 0 ≠ letterE) (hwant : want.take 2 = [letter, 32])
    (hxe : expected.blk ≠ .arr .errmsg) (hlen : want.length + m.length ≤ 4050) :
    ∃ w', (checkPrefix fd letter expected c.startOfNetstring).run w =
        (.error (.exit (-1)), w') ∧
      writes w'.log = writes w.log ++ [(fd, enc (expectedText want m))] := by
  have hne : want ≠ m := fun e => hm (e ▸ hwant)
  obtain ⟨w', hr, hw⟩ := checked_refuse fd h hx hE hne hxe hlen
  exact ⟨w', (checkPrefix_fail h.current hl hm).trans hr, hw⟩

end Check

end Grnvs.Ascii
