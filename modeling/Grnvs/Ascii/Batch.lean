/-
  A batch of netstrings in one read.

  `recvMessage` decodes in place: `readNet` writes the payload over the text it parses, the rest
  of the text is then moved to the front, and every message is written twice into the destination,
  the second copy being overwritten by the next message. `recvLoop_step` is one such turn,
  `recvLoop_batch` a whole batch: afterwards the destination holds the messages in order, each
  with its NUL, and the second copy of the last one behind them.

  A batch that does not fit the buffers (`Fits`) never comes back as messages
  (`recvMessage_batch_stuck`).
-/
import Grnvs.Ascii.Quiet

namespace Grnvs.Ascii

open Bytes Decimal Netstring

/-! ## One netstring -/

section ReadNet

variable {w : World} {fd : Fd} {m r junk : List Byte} {fuel messageLength : Nat}

variable (junk) in
/-- The text in `buf`. -/
theorem isStr_buf {t : List Byte} (hb : w.mem .buf = t ++ 0 :: junk) (ht : NulFree t) :
    IsStr w Arr.buf.ptr t := isStr_iff.mpr ⟨ht, junk, by simpa using hb⟩

theorem find_comma_enc (m r : List Byte) :
    ∃ j, find comma (enc m ++ r) = some j ∧ (dec m.length).length < j := by
  rw [enc_append]
  rcases hf : find comma (m ++ comma :: r) with _ | j
  · exact absurd (find_eq_none.mp hf) (by simp)
  · obtain ⟨a, b, hab, hna, rfl⟩ := find_eq_some.mp hf
    refine ⟨((dec m.length ++ [colon]) ++ a).length, ?_, by simp⟩
    rw [hab, show dec m.length ++ colon :: (a ++ comma :: b) =
      ((dec m.length ++ [colon]) ++ a) ++ comma :: b by simp]
    refine find_append ?_ b
    simp only [List.mem_append, List.mem_singleton, not_or]
    exact ⟨⟨comma_not_mem_dec _, by decide⟩, hna⟩

theorem find_colon_enc (m r : List Byte) :
    find colon (enc m ++ r) = some (dec m.length).length := by
  rw [enc_append]
  exact find_colon _ _

/-- The first `:` stands before the first `,`, and both are there. -/
def framed (t : List Byte) : Bool :=
  match find colon t, find comma t with
  | some i, some j => i < j
  | _, _ => false

theorem framed_iff {t : List Byte} :
    framed t = true ↔ ∃ i j, find colon t = some i ∧ find comma t = some j ∧ i < j := by
  unfold framed
  rcases find colon t with _ | i <;> rcases find comma t with _ | j <;> simp

theorem find_ne {t : List Byte} {i j : Nat} (hi : find colon t = some i)
    (hj : find comma t = some j) : i ≠ j := by
  rintro rfl
  obtain ⟨a, b, rfl, -, ha⟩ := find_eq_some.mp hi
  obtain ⟨a', b', h, -, ha'⟩ := find_eq_some.mp hj
  have h1 := (List.append_inj h (by omega)).2
  simp only [List.cons.injEq] at h1
  exact absurd h1.1 (by decide)

/-- The first format test lets a text pass that has no comma at all. -/
theorem formatBroken_run {p : Ptr} {t : List Byte} (hs : IsStr w p t) :
    ∃ b, (formatBroken p).run w = (.ok b, w) ∧
      (b = false ↔ ∃ i, find colon t = some i ∧ (framed t = true ∨ find comma t = none)) := by
  have h1 := strchr_run hs colon
  have h2 := strchr_run hs comma
  unfold formatBroken
  rw [Comp.bind_ok h1]
  rcases hi : find colon t with _ | i
  · exact ⟨true, rfl, by simp⟩
  · dsimp only
    rw [Comp.bind_ok h2]
    rcases hj : find comma t with _ | j
    · exact ⟨false, rfl, by simp⟩
    · refine ⟨decide (j < i), rfl, ?_⟩
      have := find_ne hi hj
      simp only [decide_eq_false_iff_not, framed, hi, hj, Option.some.injEq, exists_eq_left',
        decide_eq_true_eq, reduceCtorEq, or_false]
      omega

theorem formatBrokenFull_run {p : Ptr} {t : List Byte} (hs : IsStr w p t) :
    (formatBrokenFull p).run w = (.ok (!framed t), w) := by
  have h1 := strchr_run hs colon
  have h2 := strchr_run hs comma
  unfold formatBrokenFull
  rw [Comp.bind_ok h1]
  rcases hi : find colon t with _ | i
  · simp [framed, hi]
  · dsimp only
    rw [Comp.bind_ok h2]
    rcases hj : find comma t with _ | j
    · simp [framed, hi, hj]
    · have := find_ne hi hj
      have hb : decide (j < i) = !decide (i < j) := by
        by_cases h : i < j
        · simp [h, Nat.not_lt.mpr (Nat.le_of_lt h)]
        · simp [h, show j < i by omega]
      dsimp only
      rw [Comp.pure_run, hb, framed, hi, hj]

/-- Both format tests pass on a framed text. -/
theorem formatBroken_framed {p : Ptr} {t : List Byte} (hs : IsStr w p t) (ht : framed t = true) :
    (formatBroken p).run w = (.ok false, w) ∧ (formatBrokenFull p).run w = (.ok false, w) := by
  obtain ⟨b, hr, hb⟩ := formatBroken_run hs
  obtain ⟨i, j, hi, _⟩ := framed_iff.mp ht
  refine ⟨by rw [hr, hb.mpr ⟨i, hi, .inl ht⟩], ?_⟩
  rw [formatBrokenFull_run hs, ht]
  rfl

theorem framed_enc (m r : List Byte) : framed (enc m ++ r) = true := by
  obtain ⟨j, hj, hlt⟩ := find_comma_enc m r
  exact framed_iff.mpr ⟨_, j, find_colon_enc m r, hj, hlt⟩

/-- The announced length of a netstring. -/
theorem sizeOfLong_dec {n : Nat} (h : n ≤ BUFSIZE) : sizeOfLong (strtol (dec n)) = n := by
  have hB : BUFSIZE = 4096 := rfl
  rw [strtol_dec (by unfold longMax; omega), sizeOfLong]
  omega

variable [Libc]

/-- No refill when the text is at least as long as the announced payload. -/
theorem refill_enough {src : Ptr} {t : List Byte} {n : Nat} (hs : IsStr w src t)
    (h : n ≤ t.length) : (refill fd src n (fuel + 1)).run w = (.ok (), w) := by
  unfold refill
  rw [Comp.bind_ok (strlen_run hs), if_neg (by omega), Comp.pure_run]

variable (messageLength) in
/-- What `convert` leaves in `buf`: the payload, its NUL, and the old bytes behind. -/
theorem convert_run [Libc.CopiesForward] {t : List Byte} (digits : Nat) {n : Nat}
    (hb : w.mem .buf = t ++ 0 :: junk)
    (hlen : (w.mem .buf).length = BUFSIZE) (ht : NulFree t) (hd : digits + 1 ≤ t.length)
    (hn : n < BUFSIZE) (hml : n + messageLength ≤ BUFSIZE) :
    (convert Arr.buf.ptr BUFSIZE Arr.buf.ptr digits n messageLength).run w =
      (.ok (some ⟨.arr .buf, digits + n + 2⟩),
        w.setArr .buf ((t.drop (digits + 1)).take n ++ zeros (n - (t.length - (digits + 1))) ++
          0 :: (w.mem .buf).drop (n + 1))) := by
  have hB : BUFSIZE = 4096 := rfl
  set p := (t.drop (digits + 1)).take n ++ zeros (n - (t.length - (digits + 1))) with hp
  have hpl : p.length = n := by
    simp only [hp, List.length_append, List.length_take, List.length_drop, zeros_length]
    omega
  have hs : IsStr w (Arr.buf.ptr + (digits + 1)) (t.drop (digits + 1)) := by
    have h0 : IsStr w Arr.buf.ptr (t.take (digits + 1) ++ t.drop (digits + 1)) := by
      rw [List.take_append_drop]
      exact isStr_buf _ hb ht
    have := h0.add
    rwa [List.length_take, Nat.min_eq_left hd] at this
  have hcpy : (strncpy Arr.buf.ptr (Arr.buf.ptr + (digits + 1)) n).run w =
      (.ok (), w.setArr .buf (splice (w.mem .buf) 0 p)) := by
    rw [hp, ← List.length_drop]
    exact strncpy_forward hs (Nat.zero_le _) (by omega)
  have hsl : (splice (w.mem .buf) 0 p).length = BUFSIZE := by
    rw [splice_length (by omega), hlen]
  have hnul : (store (Arr.buf.ptr + n) [0]).run (w.setArr .buf (splice (w.mem .buf) 0 p)) =
      (.ok (), w.setArr .buf (p ++ 0 :: (w.mem .buf).drop (n + 1))) := by
    rw [Arr.ptr_add, store_run (by rw [World.setArr_mem, hsl, List.length_singleton]; omega),
      World.setArr_mem, setArr_setArr, splice_zero, ← hpl, splice_behind]
    simp
  unfold convert
  rw [if_neg (by rw [Nat.mod_eq_of_lt (by omega)]; omega), Comp.bind_ok hcpy, Comp.bind_ok hnul,
    Comp.pure_run, Arr.ptr_add]

variable (messageLength) in
/-- The payload is a string at the front of `buf`; behind its place nothing has changed. -/
theorem convert_parts [Libc.CopiesForward] {t : List Byte} (digits : Nat) {n : Nat}
    (hb : w.mem .buf = t ++ 0 :: junk)
    (hlen : (w.mem .buf).length = BUFSIZE) (ht : NulFree t) (hd : digits + 1 ≤ t.length)
    (hn : n < BUFSIZE) (hml : n + messageLength ≤ BUFSIZE) :
    ∃ l, (convert Arr.buf.ptr BUFSIZE Arr.buf.ptr digits n messageLength).run w =
        (.ok (some ⟨.arr .buf, digits + n + 2⟩), w.setArr .buf l) ∧ l.length = BUFSIZE ∧
      cstr l = some ((t.drop (digits + 1)).take n) ∧
      l.drop (digits + n + 2) = (w.mem .buf).drop (digits + n + 2) := by
  set p := (t.drop (digits + 1)).take n with hp
  set k := n - (t.length - (digits + 1)) with hk
  have hpl : (p ++ zeros k).length = n := by
    simp only [hp, hk, List.length_append, List.length_take, List.length_drop, zeros_length]
    omega
  have hz : ∀ r, zeros k ++ 0 :: r = 0 :: (zeros k ++ r) := fun r => by
    rw [← List.singleton_append, ← List.append_assoc, show [(0 : Byte)] = zeros 1 from rfl,
      ← zeros_add, Nat.add_comm, zeros_add]
    rfl
  refine ⟨_, convert_run _ _ hb hlen ht hd hn hml, ?_, ?_, ?_⟩
  · rw [List.length_append, hpl, List.length_cons, List.length_drop]
    omega
  · rw [List.append_assoc, hz]
    exact cstr_terminated ((ht.drop _).take _) _
  · have hoff : digits + n + 2 = (p ++ zeros k).length + (digits + 1 + 1) := by
      rw [hpl]
      omega
    change (p ++ zeros k ++ 0 :: (w.mem .buf).drop (n + 1)).drop (digits + n + 2) = _
    conv_lhs => rw [hoff]
    rw [← List.drop_drop, List.drop_left, List.drop_succ_cons, List.drop_drop,
      show n + 1 + (digits + 1) = digits + n + 2 by omega]

variable (fd fuel messageLength) in
/-- Once a text has passed the first tests, `readNet` reads its length and completes it. -/
theorem readNet_head {t : List Byte} {d : Nat} (hs : IsStr w Arr.buf.ptr t)
    (hf : (formatBroken Arr.buf.ptr).run w = (.ok false, w)) (hfirst : t.headD 0 ≠ 48)
    (hcolon : find colon t = some d) :
    (readNet fuel Arr.buf.ptr BUFSIZE Arr.buf.ptr fd messageLength).run w =
      (readRest fuel Arr.buf.ptr BUFSIZE Arr.buf.ptr fd d (sizeOfLong (strtol (t.take d)))
        messageLength).run w := by
  have hdig : (digitsBefore Arr.buf.ptr).run w = (.ok d, w) := by
    unfold digitsBefore
    rw [Comp.bind_ok (strchr_run hs colon), hcolon]
    rfl
  unfold readNet
  rw [Comp.bind_ok hf, Comp.when_neg (by decide), Comp.pure_bind_run,
    Comp.bind_ok (charAt_run hs), Comp.when_neg hfirst, Comp.pure_bind_run, Comp.bind_ok hdig,
    Comp.bind_ok (strAt_run hs)]

/-- It reads back a length that was printed. -/
theorem readNet_dec {n : Nat} {x : List Byte} (hs : IsStr w Arr.buf.ptr (dec n ++ colon :: x))
    (hpos : 0 < n) (hn : n ≤ BUFSIZE)
    (hf : (formatBroken Arr.buf.ptr).run w = (.ok false, w)) :
    (readNet fuel Arr.buf.ptr BUFSIZE Arr.buf.ptr fd messageLength).run w =
      (readRest fuel Arr.buf.ptr BUFSIZE Arr.buf.ptr fd (dec n).length n messageLength).run w := by
  rw [readNet_head _ _ _ hs hf (headD_dec_ne_zero hpos _) (find_colon n x), List.take_left,
    sizeOfLong_dec hn]

/-- `readNet` on a text that begins with a netstring reads its length. -/
theorem readNet_enc (hm : Plain m) (hr : NulFree r) (hb : w.mem .buf = (enc m ++ r) ++ 0 :: junk)
    (hlen : (w.mem .buf).length = BUFSIZE) :
    (readNet fuel Arr.buf.ptr BUFSIZE Arr.buf.ptr fd messageLength).run w =
      (readRest fuel Arr.buf.ptr BUFSIZE Arr.buf.ptr fd (dec m.length).length m.length
        messageLength).run w := by
  have ht : NulFree (enc m ++ r) := nulFree_append.mpr ⟨enc_nulFree hm.nulFree, hr⟩
  have hs : IsStr w Arr.buf.ptr (enc m ++ r) := isStr_buf _ hb ht
  have hl := enc_length m
  have hmB : m.length ≤ BUFSIZE := by
    rw [hb] at hlen
    simp only [List.length_append, List.length_cons] at hlen
    omega
  have hf := (formatBroken_framed hs (framed_enc m r)).1
  rw [enc_append] at hs
  exact readNet_dec hs (List.length_pos_iff.mpr hm.ne_nil) hmB hf

variable (fd messageLength) in
theorem readRest_no_fuel {d n : Nat} :
    Stuck (readRest 0 Arr.buf.ptr BUFSIZE Arr.buf.ptr fd d n messageLength) w :=
  stuck_of_ok (declare_run _ _ _) rfl (stuck_fuel _).bind

/-- A text that is already complete needs no refill. -/
theorem readRest_enough {t : List Byte} {d n : Nat} (hs : IsStr w Arr.buf.ptr t)
    (hn : n ≤ t.length)
    (hf : (formatBrokenFull Arr.buf.ptr).run (w.setArr .scratch (zeros BUFSIZE)) =
      (.ok false, w.setArr .scratch (zeros BUFSIZE))) :
    (readRest (fuel + 1) Arr.buf.ptr BUFSIZE Arr.buf.ptr fd d n messageLength).run w =
      (convert Arr.buf.ptr BUFSIZE Arr.buf.ptr d n messageLength).run
        (w.setArr .scratch (zeros BUFSIZE)) := by
  have hs1 : IsStr (w.setArr .scratch (zeros BUFSIZE)) Arr.buf.ptr t :=
    (isStr_setArr (by decide)).mpr hs
  unfold readRest
  rw [Comp.bind_ok (declare_run _ _ _), Comp.bind_ok (refill_enough hs1 hn), Comp.bind_ok hf,
    Comp.when_neg (by decide), Comp.pure_bind_run]

/-- `readNet` on a text that begins with a netstring comes to `convert`. -/
theorem readNet_enc_convert (hm : Plain m) (hr : NulFree r)
    (hb : w.mem .buf = (enc m ++ r) ++ 0 :: junk) (hlen : (w.mem .buf).length = BUFSIZE) :
    (readNet (fuel + 1) Arr.buf.ptr BUFSIZE Arr.buf.ptr fd messageLength).run w =
      (convert Arr.buf.ptr BUFSIZE Arr.buf.ptr (dec m.length).length m.length messageLength).run
        (w.setArr .scratch (zeros BUFSIZE)) := by
  have ht : NulFree (enc m ++ r) := nulFree_append.mpr ⟨enc_nulFree hm.nulFree, hr⟩
  have hs : IsStr w Arr.buf.ptr (enc m ++ r) := isStr_buf _ hb ht
  have hl := enc_length m
  have hs1 : IsStr (w.setArr .scratch (zeros BUFSIZE)) Arr.buf.ptr (enc m ++ r) :=
    (isStr_setArr (by decide)).mpr hs
  rw [readNet_enc hm hr hb hlen, readRest_enough hs (by
    simp only [List.length_append]; omega) (formatBroken_framed hs1 (framed_enc m r)).2]

variable (fd fuel messageLength) in
/-- The payload goes to the front of `buf`, and the text goes on behind the netstring. -/
theorem readNet_enc_fits [Libc.CopiesForward] (hm : Plain m) (hr : NulFree r)
    (hb : w.mem .buf = (enc m ++ r) ++ 0 :: junk) (hlen : (w.mem .buf).length = BUFSIZE)
    (hml : m.length + messageLength ≤ BUFSIZE) :
    (readNet (fuel + 1) Arr.buf.ptr BUFSIZE Arr.buf.ptr fd messageLength).run w =
      (.ok (some ⟨.arr .buf, (enc m).length⟩),
        (w.setArr .scratch (zeros BUFSIZE)).setArr .buf
          (m ++ 0 :: (w.mem .buf).drop (m.length + 1))) := by
  have ht : NulFree (enc m ++ r) := nulFree_append.mpr ⟨enc_nulFree hm.nulFree, hr⟩
  have hl := enc_length m
  have hb1 : (w.setArr .scratch (zeros BUFSIZE)).mem .buf = w.mem .buf :=
    World.setArr_mem_of_ne _ _ (by decide)
  have htl : (enc m ++ r).length < BUFSIZE := by
    rw [hb, List.length_append, List.length_cons] at hlen
    omega
  have hdrop : (enc m ++ r).drop ((dec m.length).length + 1) = m ++ comma :: r := by
    rw [enc_append, ← List.drop_drop, List.drop_left]
    rfl
  simp only [List.length_append] at htl
  have hconv := convert_run messageLength (dec m.length).length
    (w := w.setArr .scratch (zeros BUFSIZE)) (n := m.length) (hb1.trans hb) (by rw [hb1, hlen]) ht
    (by simp only [List.length_append]; omega) (by omega)
    hml
  rw [hdrop, List.take_left, hb1, Nat.sub_eq_zero_of_le (by
    simp only [List.length_append]; omega), zeros_zero, List.append_nil] at hconv
  rw [readNet_enc_convert hm hr hb hlen, hconv, hl]

end ReadNet

/-! ## The loop of `recvMessage` -/

/-- Messages as they stand in the destination: each followed by its NUL. -/
def strs (ms : List (List Byte)) : List Byte := (ms.map (· ++ [0])).flatten

@[simp] theorem strs_nil : strs [] = [] := rfl

theorem strs_cons (m : List Byte) (ms : List (List Byte)) :
    strs (m :: ms) = m ++ 0 :: strs ms := by
  simp [strs]

theorem strs_append (ms ms' : List (List Byte)) : strs (ms ++ ms') = strs ms ++ strs ms' := by
  simp [strs]

/-- Receiving into `a` touches `a`, `buf` and `scratch` only. -/
structure RecvFrame (a : Arr) (w w' : World) : Prop where
  mem : ∀ b, b ≠ a → b ≠ .buf → b ≠ .scratch → w'.mem b = w.mem b
  size : (w'.mem a).length = (w.mem a).length
  net : w'.net = w.net
  log : w'.log = w.log

theorem RecvFrame.trans {a : Arr} {w w' w'' : World} (h : RecvFrame a w w')
    (h' : RecvFrame a w' w'') : RecvFrame a w w'' where
  mem b h1 h2 h3 := (h'.mem b h1 h2 h3).trans (h.mem b h1 h2 h3)
  size := h'.size.trans h.size
  net := h'.net.trans h.net
  log := h'.log.trans h.log

/-- The destination has room for every message twice, the first one at `pos`. -/
def Room : Nat → List (List Byte) → Prop
  | _, [] => True
  | pos, m :: ms => pos + 2 * (m.length + 1) ≤ BUFSIZE ∧ Room (pos + (m.length + 1)) ms

theorem strs_length_le (ms : List (List Byte)) : (strs ms).length ≤ (encs ms).length := by
  induction ms with
  | nil => exact Nat.le_refl _
  | cons m ms ih =>
      have hl := enc_length m
      rw [strs_cons, encs_length_cons, List.length_append, List.length_cons]
      omega

/-- Room for twice the messages is enough. -/
theorem room_of_length {ms : List (List Byte)} {pos : Nat}
    (h : pos + 2 * (strs ms).length ≤ BUFSIZE) : Room pos ms := by
  induction ms generalizing pos with
  | nil => trivial
  | cons m ms ih =>
      rw [strs_cons, List.length_append, List.length_cons] at h
      exact ⟨by omega, ih (by omega)⟩

/-- A batch fits the buffers: its text and the NUL behind it into `buf`, its messages into the
    destination. -/
structure Fits (ms : List (List Byte)) : Prop where
  text : (encs ms).length < BUFSIZE
  room : Room 0 ms

/-- Half a buffer of netstrings always fits. -/
theorem fits_of_length {ms : List (List Byte)} (h : (encs ms).length ≤ 2048) : Fits ms where
  text := Nat.lt_of_le_of_lt h (by decide)
  room := by
    have hs := strs_length_le ms
    have hB : BUFSIZE = 4096 := rfl
    exact room_of_length (by omega)

section Loop

variable {w : World} {fd : Fd} {a : Arr} {m r junk : List Byte} {fuel pos nets : Nat}

variable [Libc]

variable (pos) in
/-- Behind `readNet`: the string `p` it left at the front of `buf` goes to the destination twice,
    and the text goes on with the string `r` at the place it returned. -/
theorem copyOut_run [Libc.CopiesForward] {p r : List Byte} {off : Nat} (ha : a ≠ .buf)
    (hp : IsStr w Arr.buf.ptr p) (hr : IsStr w ⟨.arr .buf, off⟩ r)
    (hlen : (w.mem .buf).length = BUFSIZE) (hsize : (w.mem a).length = BUFSIZE)
    (hroom : pos + 2 * (p.length + 1) ≤ BUFSIZE) :
    ∃ w' junk, (copyOut a.ptr pos (some ⟨.arr .buf, off⟩)).run w =
        (.ok (pos + (p.length + 1)), w') ∧
      RecvFrame a w w' ∧ w'.mem .buf = r ++ 0 :: junk ∧ (w'.mem .buf).length = BUFSIZE ∧
      (w'.mem a).take (pos + (p.length + 1)) = (w.mem a).take pos ++ p ++ [0] ∧
      ∃ tail, (w'.mem a).drop (pos + (p.length + 1)) = p ++ 0 :: tail := by
  -- the message twice in the destination
  set A2 := splice (w.mem a) pos (p ++ [0]) with hA2
  have hA2len : A2.length = BUFSIZE := by
    rw [hA2, splice_length (by simp only [List.length_append, List.length_singleton]; omega), hsize]
  set w2 := w.setArr a A2 with hw2
  have hba : ∀ o, (⟨.arr .buf, o⟩ : Ptr).blk ≠ .arr a := fun _ => by simpa using fun h => ha h.symm
  have hcpy1 : (strcpy (a.ptr + pos) Arr.buf.ptr).run w = (.ok (), w2) := by
    rw [Arr.ptr_add, strcpy_run hp (hba 0) (by omega)]
  have hm2 : IsStr w2 Arr.buf.ptr p := (isStr_setArr (hba 0)).mpr hp
  set A3 := splice A2 (pos + (p.length + 1)) (p ++ [0]) with hA3
  set w3 := w2.setArr a A3 with hw3
  have hcpy2 : (strcpy (a.ptr + (pos + (p.length + 1))) Arr.buf.ptr).run w2 = (.ok (), w3) := by
    have hA2' : w2.mem a = A2 := World.setArr_mem ..
    rw [Arr.ptr_add, strcpy_run hm2 (hba 0) (by rw [hA2']; omega), hA2']
  -- the rest of the text to the front
  have hbuf3 : w3.mem .buf = w.mem .buf := by
    rw [hw3, World.setArr_mem_of_ne _ _ (Ne.symm ha), hw2, World.setArr_mem_of_ne _ _ (Ne.symm ha)]
  have hr3 : IsStr w3 ⟨.arr .buf, off⟩ r := (isStr_setArr (hba _)).mpr ((isStr_setArr (hba _)).mpr hr)
  have hrl : r.length < BUFSIZE := hlen ▸ hr.length_lt rfl
  have hcpy3 : (strcpyFrom Arr.buf.ptr (some ⟨.arr .buf, off⟩)).run w3 =
      (.ok (), w3.setArr .buf (r ++ 0 :: (w.mem .buf).drop (r.length + 1))) := by
    rw [strcpyFrom, show Arr.buf.ptr = ⟨.arr .buf, 0⟩ from rfl,
      strcpy_forward hr3 (Nat.zero_le _), hbuf3, splice_zero]
    simp
  refine ⟨w3.setArr .buf (r ++ 0 :: (w.mem .buf).drop (r.length + 1)),
    (w.mem .buf).drop (r.length + 1), ?_, ?_, World.setArr_mem .., ?_, ?_, ?_⟩
  · rw [copyOut]
    dsimp only
    rw [Comp.bind_ok hcpy1, Comp.bind_ok (strlen_run hm2), Comp.bind_ok hcpy2, Comp.bind_ok hcpy3,
      Comp.pure_run]
  · refine ⟨fun b h1 h2 h3 => ?_, ?_, rfl, rfl⟩
    · rw [World.setArr_mem_of_ne _ _ h2, hw3, World.setArr_mem_of_ne _ _ h1, hw2,
        World.setArr_mem_of_ne _ _ h1]
    · rw [World.setArr_mem_of_ne _ _ ha, hw3, World.setArr_mem, hA3, splice_length (by
        simp only [List.length_append, List.length_singleton]; omega), hA2len, hsize]
  · rw [World.setArr_mem]
    simp only [List.length_append, List.length_cons, List.length_drop]
    omega
  · rw [World.setArr_mem_of_ne _ _ ha, hw3, World.setArr_mem, hA3, take_splice (by omega), hA2]
    have hpos : pos ≤ (w.mem a).length := by omega
    have := take_splice_end (p ++ [0]) hpos
    rwa [List.length_append, List.length_singleton, ← List.append_assoc] at this
  · refine ⟨A2.drop (pos + (p.length + 1) + (p ++ [0]).length), ?_⟩
    rw [World.setArr_mem_of_ne _ _ ha, hw3, World.setArr_mem, hA3, drop_splice (by omega)]
    simp

variable (fuel nets) in
/-- A turn whose two calls are known. -/
theorem recvLoop_turn {w1 w2 : World} {t : List Byte} {next : Option Ptr} {pos' : Nat}
    (hs : IsStr w Arr.buf.ptr t) (hne : t ≠ [])
    (hread : (readNet fuel Arr.buf.ptr BUFSIZE Arr.buf.ptr fd pos).run w = (.ok next, w1))
    (hcopy : (copyOut a.ptr pos next).run w1 = (.ok pos', w2)) :
    (recvLoop fd a.ptr (fuel + 1) pos nets).run w =
      (recvLoop fd a.ptr fuel pos' (nets + 1)).run w2 := by
  rw [recvLoop, Comp.bind_ok (charAt_run hs), if_pos (headD_ne_zero hs.nulFree hne),
    Comp.bind_ok hread,
    Comp.bind_ok hcopy]

variable (fd fuel nets) in
/-- One turn of the loop on a netstring that fits. -/
theorem recvLoop_step [Libc.CopiesForward] (ha : a ≠ .buf) (ha' : a ≠ .scratch) (hm : Plain m)
    (hr : NulFree r)
    (hb : w.mem .buf = (enc m ++ r) ++ 0 :: junk) (hlen : (w.mem .buf).length = BUFSIZE)
    (hsize : (w.mem a).length = BUFSIZE) (hroom : pos + 2 * (m.length + 1) ≤ BUFSIZE) :
    ∃ w' junk', (recvLoop fd a.ptr (fuel + 2) pos nets).run w =
        (recvLoop fd a.ptr (fuel + 1) (pos + (m.length + 1)) (nets + 1)).run w' ∧
      RecvFrame a w w' ∧ w'.mem .buf = r ++ 0 :: junk' ∧ (w'.mem .buf).length = BUFSIZE ∧
      (w'.mem a).take (pos + (m.length + 1)) = (w.mem a).take pos ++ m ++ [0] ∧
      ∃ tail, (w'.mem a).drop (pos + (m.length + 1)) = m ++ 0 :: tail := by
  have ht : NulFree (enc m ++ r) := nulFree_append.mpr ⟨enc_nulFree hm.nulFree, hr⟩
  have hs : IsStr w Arr.buf.ptr (enc m ++ r) := isStr_buf _ hb ht
  have hl := enc_length m
  have hbl : (enc m ++ r).length < BUFSIZE := by
    rw [hb, List.length_append, List.length_cons] at hlen
    omega
  simp only [List.length_append] at hbl
  -- the payload in `buf`
  set B1 := m ++ 0 :: (w.mem .buf).drop (m.length + 1) with hB1
  set w1 := (w.setArr .scratch (zeros BUFSIZE)).setArr .buf B1 with hw1
  have hread := readNet_enc_fits fd fuel pos hm hr hb hlen
    (by omega)
  rw [← hB1, ← hw1] at hread
  have hbuf1 : w1.mem .buf = B1 := World.setArr_mem ..
  have hB1len : B1.length = BUFSIZE := by
    simp only [hB1, List.length_append, List.length_cons, List.length_drop]
    omega
  have hB1drop : B1.drop (enc m).length = r ++ 0 :: junk := by
    have h1 : B1 = (m ++ [0]) ++ (w.mem .buf).drop (m.length + 1) := by simp [hB1]
    have h2 : (enc m).length = (m ++ [0]).length + ((dec m.length).length + 1) := by
      simp only [List.length_append, List.length_singleton]
      omega
    rw [h1, h2, ← List.drop_drop, List.drop_left, List.drop_drop,
      show m.length + 1 + ((dec m.length).length + 1) = (enc m).length by omega, hb,
      List.append_assoc, List.drop_left]
  have hA1 : w1.mem a = w.mem a := by
    rw [hw1, World.setArr_mem_of_ne _ _ ha, World.setArr_mem_of_ne _ _ ha']
  have hm1 : IsStr w1 Arr.buf.ptr m := isStr_buf _ hbuf1 hm.nulFree
  have hr1 : IsStr w1 ⟨.arr .buf, (enc m).length⟩ r :=
    isStr_iff.mpr ⟨hr, junk, by simpa [hbuf1] using hB1drop⟩
  have hne : enc m ++ r ≠ [] := fun h => by
    have := congrArg List.length h
    have := enc_length_pos m
    simp only [List.length_append, List.length_nil] at *
    omega
  obtain ⟨w', junk', hcopy, hfr, hrest⟩ := copyOut_run _ ha hm1 hr1 (by rw [hbuf1, hB1len])
    (by rw [hA1, hsize]) hroom
  rw [hA1] at hrest
  refine ⟨w', junk', recvLoop_turn _ _ hs hne hread hcopy, ⟨fun b h1 h2 h3 => ?_, ?_, ?_, ?_⟩,
    hrest⟩
  · rw [hfr.mem b h1 h2 h3, hw1, World.setArr_mem_of_ne _ _ h2, World.setArr_mem_of_ne _ _ h3]
  · rw [hfr.size, hA1]
  · rw [hfr.net]
    rfl
  · rw [hfr.log]
    rfl

variable (junk) in
/-- The empty text ends the loop. -/
theorem recvLoop_nil (hb : w.mem .buf = 0 :: junk) :
    (recvLoop fd a.ptr (fuel + 1) pos nets).run w = (.ok (nets : Int), w) := by
  have hs : IsStr w Arr.buf.ptr [] := isStr_buf _ (t := []) hb List.not_mem_nil
  rw [recvLoop, Comp.bind_ok (charAt_run hs), if_neg (by simp), Comp.pure_run]

end Loop

/-- A whole batch, received behind `pos`. `prev` is the second copy of the message before it. -/
theorem recvLoop_batch [Libc] [Libc.CopiesForward] (fd : Fd) {a : Arr} (ha : a ≠ .buf)
    (ha' : a ≠ .scratch) {ms : List (List Byte)} (hms : ∀ m ∈ ms, Plain m) {w : World}
    {junk prev tail : List Byte} {fuel pos : Nat} (nets : Nat) (hb : w.mem .buf = encs ms ++ 0 :: junk)
    (hlen : (w.mem .buf).length = BUFSIZE) (hsize : (w.mem a).length = BUFSIZE)
    (hprev : (w.mem a).drop pos = prev ++ 0 :: tail) (hroom : Room pos ms)
    (hfuel : ms.length < fuel) :
    ∃ w' tail', (recvLoop fd a.ptr fuel pos nets).run w = (.ok ((nets + ms.length : Nat) : Int), w')
      ∧ RecvFrame a w w' ∧ (w'.mem a).take pos = (w.mem a).take pos ∧
      (w'.mem a).drop pos = strs ms ++ ms.getLastD prev ++ 0 :: tail' := by
  induction ms generalizing w junk prev tail fuel pos nets with
  | nil =>
      obtain ⟨f, rfl⟩ : ∃ f, fuel = f + 1 := ⟨fuel - 1, by simp at hfuel; omega⟩
      refine ⟨w, tail, recvLoop_nil _ hb, ⟨fun _ _ _ _ => rfl, rfl, rfl, rfl⟩, rfl, ?_⟩
      simpa using hprev
  | cons m ms ih =>
      rw [List.length_cons] at hfuel
      obtain ⟨f, rfl⟩ : ∃ f, fuel = f + 2 := ⟨fuel - 2, by omega⟩
      have hfuel' : ms.length < f + 1 := by omega
      have hm : Plain m := hms m (List.mem_cons_self ..)
      have hms' : ∀ x ∈ ms, Plain x := fun x hx => hms x (List.mem_cons_of_mem _ hx)
      have hr : NulFree (encs ms) := encs_nulFree fun x hx => (hms' x hx).nulFree
      obtain ⟨w2, junk2, hrun, hfr, hb2, hlen2, htake, tail2, hdrop⟩ :=
        recvLoop_step fd f nets ha ha' hm hr (by rw [hb, encs_cons])
          hlen hsize hroom.1
      obtain ⟨w', tail', hrun', hfr', htake', hdrop'⟩ :=
        ih hms' (nets + 1) hb2 hlen2 (hfr.size.trans hsize) hdrop hroom.2 hfuel'
      have hpos : pos ≤ (w.mem a).length := by
        have := hroom.1
        omega
      have hwhole : w'.mem a =
          (w.mem a).take pos ++ (m ++ [0] ++ (strs ms ++ ms.getLastD m ++ 0 :: tail')) := by
        rw [← List.take_append_drop (pos + (m.length + 1)) (w'.mem a), htake', htake, hdrop']
        simp
      have hpl : ((w.mem a).take pos).length = pos := by simp [hpos]
      refine ⟨w', tail', ?_, hfr.trans hfr', ?_, ?_⟩
      · rw [hrun, hrun', List.length_cons, Nat.add_assoc, Nat.add_comm 1]
      · rw [hwhole, List.take_left' hpl]
      · rw [hwhole, List.drop_left' hpl, strs_cons, List.getLastD_cons]
        simp

/-- Receiving into `a` from `fd` read `got`, once, and leaves `p` for later reads. -/
structure Received (a : Arr) (fd : Fd) (got : Option (List Byte)) (p : Peer) (w w' : World) :
    Prop where
  mem : ∀ b, b ≠ a → b ≠ .buf → b ≠ .scratch → w'.mem b = w.mem b
  size : (w'.mem a).length = BUFSIZE
  net : w'.net = Function.update w.net fd p
  log : w'.log = w.log ++ [.read fd BUFSIZE got]

section RecvMessage

variable {w : World} {fd : Fd} {a : Arr} {fuel : Nat} {p : Peer}

/-- The destination and `buf` are cleared before the first read. -/
theorem recvMessage_cleared (hsize : (w.mem a).length = BUFSIZE) :
    (memset a.ptr BUFSIZE).run w = (.ok (), w.setArr a (zeros BUFSIZE)) := by
  unfold memset
  rw [store_start (by simp [hsize]), zeros_length, ← hsize, List.drop_length, List.append_nil]

/-- Behind the first read its text stands in `buf`, with zeros behind it. -/
theorem recvMessage_read {bs : List Byte} (ha : a ≠ .buf) (hsize : (w.mem a).length = BUFSIZE)
    (hread : (w.net fd).read BUFSIZE = (some bs, p)) (hbs : bs.length ≤ BUFSIZE) :
    ∃ w1, (do memset a.ptr BUFSIZE
              declare .buf BUFSIZE
              readFd fd Arr.buf.ptr BUFSIZE : Run Int).run w = (.ok (bs.length : Int), w1) ∧
      Received a fd (some bs) p w w1 ∧ w1.mem a = zeros BUFSIZE ∧ w1.mem .buf = clean bs := by
  set w0 := (w.setArr a (zeros BUFSIZE)).setArr .buf (zeros BUFSIZE) with hw0
  set w1 := (w0.setNet fd p).note (.read fd BUFSIZE (some bs)) with hw1
  have hbuf : w1.mem .buf = zeros BUFSIZE := by simp [hw1, hw0]
  have hsp : bs ++ (zeros BUFSIZE).drop bs.length = clean bs := by
    rw [drop_zeros]
    rfl
  have hrd : (readFd fd Arr.buf.ptr BUFSIZE).run w0 =
      (.ok (bs.length : Int), w1.setArr .buf (clean bs)) := by
    unfold readFd
    rw [Comp.gets_bind, show (w0.net fd).read BUFSIZE = (some bs, p) from hread]
    dsimp only
    rw [Comp.modify_bind, ← hw1, Comp.bind_ok (store_start (by
      rw [hbuf, zeros_length]; omega)), hbuf, hsp, Comp.pure_run]
  refine ⟨w1.setArr .buf (clean bs), ?_, ⟨fun b h1 h2 _ => ?_, ?_, ?_, ?_⟩, ?_,
    World.setArr_mem ..⟩
  · rw [Comp.bind_ok (recvMessage_cleared hsize), Comp.bind_ok (declare_run _ _ _), ← hw0, hrd]
  · rw [World.setArr_mem_of_ne _ _ h2, hw1, World.note_mem, World.setNet_mem, hw0,
      World.setArr_mem_of_ne _ _ h2, World.setArr_mem_of_ne _ _ h1]
  · rw [World.setArr_mem_of_ne _ _ ha, hw1, World.note_mem, World.setNet_mem, hw0,
      World.setArr_mem_of_ne _ _ ha, World.setArr_mem, zeros_length]
  · rfl
  · rfl
  · rw [World.setArr_mem_of_ne _ _ ha, hw1, World.note_mem, World.setNet_mem, hw0,
      World.setArr_mem_of_ne _ _ ha, World.setArr_mem]

variable [Libc]

variable (fuel) in
/-- When the first read returns, the loop follows. -/
theorem recvMessage_loop {w1 : World} {n : Nat}
    (h : (do memset a.ptr BUFSIZE
             declare .buf BUFSIZE
             readFd fd Arr.buf.ptr BUFSIZE : Run Int).run w = (.ok (n : Int), w1)) :
    (recvMessage fuel fd a.ptr).run w = (recvLoop fd a.ptr fuel 0 0).run w1 := by
  obtain ⟨_, _, h1, h⟩ := Comp.bind_eq_ok h
  obtain ⟨_, _, h2, h⟩ := Comp.bind_eq_ok h
  unfold recvMessage
  rw [Comp.bind_ok h1, Comp.bind_ok h2, Comp.bind_ok h, if_neg (by omega)]

variable (fuel) in
theorem recvMessage_chunk {bs : List Byte} (ha : a ≠ .buf) (hsize : (w.mem a).length = BUFSIZE)
    (hread : (w.net fd).read BUFSIZE = (some bs, p)) (hbs : bs.length ≤ BUFSIZE) :
    ∃ w1, (recvMessage fuel fd a.ptr).run w = (recvLoop fd a.ptr fuel 0 0).run w1 ∧
      Received a fd (some bs) p w w1 ∧ w1.mem a = zeros BUFSIZE ∧ w1.mem .buf = clean bs := by
  obtain ⟨w1, h, hrest⟩ := recvMessage_read ha hsize hread hbs
  exact ⟨w1, recvMessage_loop _ h, hrest⟩

variable (fuel) in
/-- A batch that fits, in one read: its messages in order, then the last one again. -/
theorem recvMessage_batch [Libc.CopiesForward] {ms : List (List Byte)} (ha : a ≠ .buf)
    (ha' : a ≠ .scratch)
    (hms : ∀ m ∈ ms, Plain m) (hfits : Fits ms) (hsize : (w.mem a).length = BUFSIZE)
    (hread : (w.net fd).read BUFSIZE = (some (encs ms), p)) (hfuel : ms.length < fuel) :
    ∃ w' tail, (recvMessage fuel fd a.ptr).run w = (.ok (ms.length : Int), w') ∧
      Received a fd (some (encs ms)) p w w' ∧
      w'.mem a = strs ms ++ ms.getLastD [] ++ 0 :: tail := by
  have ht := hfits.text
  obtain ⟨w1, hrun, hrec, hz, hbuf⟩ := recvMessage_chunk fuel ha hsize hread (by omega)
  obtain ⟨k, hk⟩ : ∃ k, BUFSIZE - (encs ms).length = k + 1 :=
    ⟨BUFSIZE - (encs ms).length - 1, by omega⟩
  have hbuf' : w1.mem .buf = encs ms ++ 0 :: zeros k := by rw [hbuf, clean, hk, zeros_succ]
  have hprev : (w1.mem a).drop 0 = [] ++ 0 :: zeros (BUFSIZE - 1) := by
    rw [hz]
    rfl
  obtain ⟨w', tail, hrun', hfr, _, hdrop⟩ := recvLoop_batch fd ha ha' hms 0 hbuf'
    (by rw [hbuf, clean_length (by omega)]) hrec.size hprev hfits.room hfuel
  refine ⟨w', tail, ?_, ⟨fun b h1 h2 h3 => ?_, ?_, ?_, ?_⟩, by simpa using hdrop⟩
  · rw [hrun, hrun', Nat.zero_add]
  · rw [hfr.mem b h1 h2 h3, hrec.mem b h1 h2 h3]
  · rw [hfr.size, hrec.size]
  · rw [hfr.net, hrec.net]
  · rw [hfr.log, hrec.log]

/-- Round trip over batches: what `sendMessage` writes for the messages of a batch, delivered by
    one `read`, comes back as the messages. -/
theorem recvMessage_roundTrip [Libc.CopiesForward] {ms : List (List Byte)} (ha : a ≠ .buf)
    (ha' : a ≠ .scratch) (hsize : (w.mem a).length = BUFSIZE) (hms : ∀ m ∈ ms, Plain m)
    (hlen : (encs ms).length ≤ 2048) {rest : List (Option (List Byte))} {e : Ending}
    (hnet : w.net fd = ⟨some (encs ms) :: rest, e⟩) (hfuel : ms.length < fuel) :
    (∀ m ∈ ms, ∀ (v : World) (sd : Fd) (src : Ptr) (b : Arr), IsStr v src m → src.blk ≠ .arr b →
      (v.mem b).length = BUFSIZE →
      (sendMessage sd src b.ptr).run v =
        (.ok (), (v.setArr b (clean (enc m))).note (.write sd (enc m)))) ∧
    ∃ w' tail, (recvMessage fuel fd a.ptr).run w = (.ok (ms.length : Int), w') ∧
      w'.log = w.log ++ [.read fd BUFSIZE (some (encs ms))] ∧ w'.net fd = ⟨rest, e⟩ ∧
      w'.mem a = strs ms ++ tail := by
  have hread : (w.net fd).read BUFSIZE = (some (encs ms), ⟨rest, e⟩) := by
    have hB : BUFSIZE = 4096 := rfl
    rw [hnet, Peer.read_whole (by omega)]
  obtain ⟨w', tail, hrun, hrec, hmem⟩ :=
    recvMessage_batch _ ha ha' hms (fits_of_length hlen) hsize hread hfuel
  refine ⟨fun m hm v sd src b hs hsb hb => sendMessage_run _ hs hsb hb ?_,
    w', ms.getLastD [] ++ 0 :: tail, hrun, hrec.log, ?_, ?_⟩
  · have h1 := enc_length m
    have h2 := encs_length_of_mem hm
    omega
  · rw [hrec.net, Function.update_self]
  · rw [hmem, List.append_assoc]

end RecvMessage

section Bytewise

attribute [local instance] Libc.bytewise

theorem recvMessage_roundTrip_two :
    ∃ w' tail, (recvMessage 3 .control Arr.recvbuf.ptr).run
        (receiving fun _ => ⟨[some (encs [lit "0:,", lit "E"])], .eof⟩) = (.ok 2, w') ∧
      w'.log = [.read .control BUFSIZE (some (encs [lit "0:,", lit "E"]))] ∧
      w'.net .control = ⟨[], .eof⟩ ∧ w'.mem .recvbuf = strs [lit "0:,", lit "E"] ++ tail := by
  have hplain : ∀ m ∈ [lit "0:,", lit "E"], Plain m := by decide
  exact And.right <| recvMessage_roundTrip (by decide) (by decide) (receiving_recvbuf _) hplain
    (by decide) rfl (by decide)

end Bytewise

end Grnvs.Ascii
