/-
  The texts `recvMessage` accepts.

  On a text in one read, with nothing behind it, the loop of `recvMessage` walks over the text: at
  each place the format tests either refuse it (`Refuses`), or it goes on behind as many bytes as
  the number before the first colon says, whatever the byte there is (`Hop`). So it takes exactly
  the netstrings only for batches of netstrings and for texts on which the walk stays inside the
  text and comes to a refused place (`Refused`): `recvMessage_grammar`.
-/
import Grnvs.Ascii.Fragments
import Grnvs.Ascii.Steps

namespace Grnvs.Ascii

open Bytes Decimal Netstring

/-! ## The walk over a text -/

/-- The tests of `readNet` refuse a text that begins with `0`, and one that is not framed, unless it
    is an error message, or literally the text it is compared with. -/
def Refuses (t : List Byte) : Prop :=
  t.headD 0 = 48 ∨
    (t.headD 0 ≠ letterE ∧ t ≠ lit "String in netstring format" ∧ framed t = false)

instance (t : List Byte) : Decidable (Refuses t) := inferInstanceAs (Decidable (_ ∨ _))

/-- The length a text announces before the colon at `i`. -/
def announced (t : List Byte) (i : Nat) : Nat := sizeOfLong (strtol (t.take i))

/-- The walk goes from `t` on to `r`, inside the text. -/
def Hop (t r : List Byte) : Prop :=
  ¬ Refuses t ∧ ∃ i, find colon t = some i ∧ i + announced t i + 2 ≤ t.length ∧
    r = t.drop (i + announced t i + 2)

/-- The walk comes to a refused place. -/
inductive Refused : List Byte → Prop where
  | here {t : List Byte} (hne : t ≠ []) (h : Refuses t) : Refused t
  | hop {t r : List Byte} (h : Hop t r) (hr : Refused r) : Refused t

/-- The walk does not leave the text. -/
inductive Stays : List Byte → Prop where
  | done : Stays []
  | here {t : List Byte} (h : Refuses t) : Stays t
  | hop {t r : List Byte} (h : Hop t r) (hr : Stays r) : Stays t

theorem Refused.stays {t : List Byte} (h : Refused t) : Stays t := by
  induction h with
  | here _ h => exact .here h
  | hop h _ ih => exact .hop h ih

theorem Hop.ne_nil {t r : List Byte} (h : Hop t r) : t ≠ [] := by
  obtain ⟨_, i, hi, _⟩ := h
  rintro rfl
  cases hi

theorem format_no_colon : find colon (lit "String in netstring format") = none := by decide

/-- A text with a colon that passes without being framed is an error message. -/
theorem error_of_not_framed {t : List Byte} {i : Nat} (ht : ¬ Refuses t)
    (hi : find colon t = some i) (hf : framed t = false) :
    t.headD 0 = letterE ∧ 2 ≤ t.length := by
  have hE : t.headD 0 = letterE := by
    by_contra hne
    refine ht (.inr ⟨hne, ?_, hf⟩)
    rintro rfl
    rw [format_no_colon] at hi
    cases hi
  refine ⟨hE, ?_⟩
  rcases t with _ | ⟨x, _ | ⟨y, rest⟩⟩
  · cases hi
  · obtain rfl : x = letterE := hE
    cases hi
  · simp

/-- The walk goes over a netstring as a whole. -/
theorem hop_enc {m r : List Byte} (hm : Plain m) (hl : m.length ≤ BUFSIZE) :
    Hop (enc m ++ r) r := by
  have hpos : 0 < m.length := List.length_pos_iff.mpr hm.ne_nil
  have hN := enc_length m
  have hann : announced (enc m ++ r) (dec m.length).length = m.length := by
    rw [announced, enc_append, List.take_left, sizeOfLong_dec hl]
  refine ⟨?_, _, find_colon_enc m r, ?_, ?_⟩
  · rintro (h | ⟨_, _, h⟩)
    · rw [enc_append] at h
      exact headD_dec_ne_zero hpos _ h
    · rw [framed_enc] at h
      cases h
  · rw [hann, List.length_append]
    omega
  · rw [hann, ← hN, List.drop_left]

theorem stays_encs {ms : List (List Byte)} (hms : ∀ m ∈ ms, Plain m)
    (hl : ∀ m ∈ ms, m.length ≤ BUFSIZE) : Stays (encs ms) := by
  induction ms with
  | nil => exact .done
  | cons m ms ih =>
      rw [encs_cons]
      exact .hop (hop_enc (hms m (List.mem_cons_self ..)) (hl m (List.mem_cons_self ..)))
        (ih (fun x hx => hms x (List.mem_cons_of_mem _ hx))
          fun x hx => hl x (List.mem_cons_of_mem _ hx))

/-! ## The head of the loop -/

/-- A socket on which every read fails. -/
structure Failing (p : Peer) : Prop where
  ending : p.ending = .timeout
  pending : ∀ x ∈ p.pending, x = none

theorem Failing.read {p : Peer} (h : Failing p) (n : Nat) :
    ∃ p', p.read n = (none, p') ∧ Failing p' := by
  rcases p with ⟨_ | ⟨x, xs⟩, e⟩
  · obtain rfl : e = .timeout := h.ending
    exact ⟨_, rfl, h⟩
  · obtain rfl : x = none := h.pending x (List.mem_cons_self ..)
    exact ⟨⟨xs, e⟩, rfl, h.ending, fun x hx => h.pending x (List.mem_cons_of_mem _ hx)⟩

/-- At the head of the loop: the text `t` in `buf`, `pos` bytes of the destination in use, and
    nothing more to read. -/
structure Head (a : Arr) (fd : Fd) (pos : Nat) (t : List Byte) (w : World) : Prop where
  text : ∃ junk, w.mem .buf = t ++ 0 :: junk
  nulFree : NulFree t
  buf : (w.mem .buf).length = BUFSIZE
  size : (w.mem a).length = BUFSIZE
  room : pos + t.length ≤ 2000
  failing : Failing (w.net fd)

/-- One error netstring was sent. -/
def SendsError (fd : Fd) (w w' : World) : Prop :=
  ∃ want act, writes w'.log = writes w.log ++ [(fd, enc (expectedText want act))]

theorem SendsError.after {fd : Fd} {w w0 w' : World} (h : SendsError fd w0 w')
    (h0 : writes w0.log = writes w.log) : SendsError fd w w' := by
  obtain ⟨want, act, h⟩ := h
  exact ⟨want, act, by rw [h, h0]⟩

section Head

variable {a : Arr} {fd : Fd} {pos fuel : Nat} {t r : List Byte} {w w' : World}

theorem Head.isStr (h : Head a fd pos t w) : IsStr w Arr.buf.ptr t := by
  obtain ⟨junk, hj⟩ := h.text
  exact isStr_buf _ hj h.nulFree

theorem Head.passed {A : List Arr} (h : Head a fd pos t w) (hp : Passed A w w') (hb : .buf ∉ A)
    (ha : a ∉ A) : Head a fd pos t w' where
  text := by rw [hp.frame.mem _ hb]; exact h.text
  nulFree := h.nulFree
  buf := by rw [hp.frame.mem _ hb]; exact h.buf
  size := by rw [hp.frame.mem _ ha]; exact h.size
  room := h.room
  failing := by rw [hp.net]; exact h.failing

variable [Libc]

/-- An error message passes every test. -/
theorem Head.check_error (h : Head a fd pos t w) (hE : t.headD 0 = letterE) (h2 : 2 ≤ t.length) :
    ∃ w', (checkMessage fd (litPtr "String in netstring format") Arr.buf.ptr).run w = (.ok (), w') ∧
      Passed [] w w' := by
  obtain ⟨x, y, why, rfl⟩ : ∃ x y why, t = x :: y :: why := by
    rcases t with _ | ⟨x, _ | ⟨y, why⟩⟩
    · exact absurd h2 (by simp)
    · exact absurd h2 (by simp)
    · exact ⟨x, y, why, rfl⟩
  have hs := h.isStr
  have hwhy : IsStr w (Arr.buf.ptr + 2) why := IsStr.add (s := [x, y]) hs
  exact ⟨_, checkMessage_error _ (isStr_lit (by decide)) hs hE hwhy,
    (passed_note w rfl).trans (passed_note _ rfl)⟩

/-- Any other text is refused with one error netstring. -/
theorem Head.check_refuse (h : Head a fd pos t w) (want : String) (hw : NulFree (lit want))
    (hwl : (lit want).length ≤ 26) (hE : t.headD 0 ≠ letterE) (hne : lit want ≠ t) :
    ∃ w', (checkMessage fd (litPtr want) Arr.buf.ptr).run w = (.error (.exit (-1)), w') ∧
      SendsError fd w w' := by
  have hroom := h.room
  obtain ⟨w', hr, hl⟩ := checkMessage_refuse fd (isStr_lit (w := w) hw) h.isStr hE hne h.buf
    (by simp [litPtr]) (by decide) (by omega)
  refine ⟨w', hr, lit want, t, ?_⟩
  rw [hl, writes_append]
  rfl

variable (fuel) in
/-- The first tests: whatever is not refused comes to its length. -/
theorem Head.tests (h : Head a fd pos t w) (ht : ¬ Refuses t) {i : Nat}
    (hi : find colon t = some i) :
    ∃ w', (readNet fuel Arr.buf.ptr BUFSIZE Arr.buf.ptr fd pos).run w =
        (readRest fuel Arr.buf.ptr BUFSIZE Arr.buf.ptr fd i (announced t i) pos).run w' ∧
      Passed [] w w' := by
  have hs := h.isStr
  have hfirst : t.headD 0 ≠ 48 := fun h0 => ht (.inl h0)
  obtain ⟨b, hr, hb⟩ := formatBroken_run hs
  rcases b with _ | _
  · exact ⟨w, readNet_head _ _ _ hs hr hfirst hi, passed_refl w⟩
  -- a comma before the colon: only an error message gets this far
  have hfr : framed t = false := by
    rcases hf : framed t with _ | _
    · rfl
    · exact absurd (hb.mpr ⟨i, hi, .inl hf⟩) (by decide)
  obtain ⟨hE, h2⟩ := error_of_not_framed ht hi hfr
  obtain ⟨w1, hc, hp⟩ := h.check_error hE h2
  have hs1 : IsStr w1 Arr.buf.ptr t := (h.passed hp (by simp) (by simp)).isStr
  have hdig : (digitsBefore Arr.buf.ptr).run w1 = (.ok i, w1) := by
    unfold digitsBefore
    rw [Comp.bind_ok (strchr_run hs1 colon), hi]
    rfl
  refine ⟨w1, ?_, hp⟩
  unfold readNet
  rw [Comp.bind_ok hr, Comp.when_pos rfl, Comp.bind_ok hc, Comp.bind_ok (charAt_run hs1),
    Comp.when_neg hfirst, Comp.pure_bind_run, Comp.bind_ok hdig, Comp.bind_ok (strAt_run hs1)]
  rfl

variable (fuel) in
/-- The refill finds nothing more to read. -/
theorem Head.refill (h : Head a fd pos t w) (hscr : w.mem .scratch = zeros BUFSIZE) (n : Nat) :
    ∃ w', (refill fd Arr.buf.ptr n (fuel + 1)).run w = (.ok (), w') ∧ Head a fd pos t w' ∧
      writes w'.log = writes w.log ∧ (n ≤ t.length → w' = w) := by
  by_cases hn : n ≤ t.length
  · exact ⟨w, refill_enough h.isStr hn, h, rfl, fun _ => rfl⟩
  · have hso : IsStr w Arr.scratch.ptr [] := by
      simpa [IsStr, hscr] using cstr_zeros (n := BUFSIZE) (by decide)
    obtain ⟨p, hp, hf⟩ := h.failing.read (subSize n 0)
    have hrd : (readFd fd Arr.scratch.ptr (subSize n ([] : List Byte).length)).run w =
        (.ok (-1), (w.setNet fd p).note (.read fd (subSize n 0) none)) := by
      unfold readFd
      rw [Comp.gets_bind, List.length_nil, hp]
      rfl
    refine ⟨(w.setNet fd p).note (.read fd (subSize n 0) none), ?_, ⟨h.text, h.nulFree, h.buf,
      h.size, h.room, by rwa [World.note_net, World.setNet_net]⟩, ?_, fun h => absurd h hn⟩
    · rw [Ascii.refill, Comp.bind_ok (strlen_run h.isStr), if_pos (by omega)]
      dsimp only
      rw [Comp.bind_ok (strlen_run hso), Comp.bind_ok hrd, if_pos (by decide), Comp.pure_run]
    · rw [World.note_log, writes_append, writes_read, List.append_nil, World.setNet_log]

variable (fuel) in
/-- The second test, made on the same text, lets through what the first ones let through, and
    with it `readNet` comes to `convert`. -/
theorem Head.rest (h : Head a fd pos t w) (ha : a ≠ .scratch) (ht : ¬ Refuses t) {i n : Nat}
    (hi : find colon t = some i) :
    ∃ w', (readRest (fuel + 1) Arr.buf.ptr BUFSIZE Arr.buf.ptr fd i n pos).run w =
        (convert Arr.buf.ptr BUFSIZE Arr.buf.ptr i n pos).run w' ∧ Head a fd pos t w' ∧
      writes w'.log = writes w.log := by
  have hp0 := passed_setArr (a := .scratch) (l := zeros BUFSIZE) w (zeros_length _)
  have h0 := h.passed hp0 (by decide) (by simpa using ha)
  obtain ⟨w1, hr, h1, hl, _⟩ := h0.refill fuel (World.setArr_mem ..) n
  have hl1 : writes w1.log = writes w.log := hl.trans hp0.writes
  have hfull := formatBrokenFull_run h1.isStr
  rcases hf : framed t with _ | _
  · -- without a comma only an error message gets this far
    obtain ⟨hE, h2⟩ := error_of_not_framed ht hi hf
    obtain ⟨w2, hc, hp⟩ := h1.check_error hE h2
    refine ⟨w2, ?_, h1.passed hp (by simp) (by simp), hp.writes.trans hl1⟩
    unfold readRest
    rw [Comp.bind_ok (declare_run _ _ _), Comp.bind_ok hr, Comp.bind_ok hfull, hf,
      Comp.when_pos (by decide), Comp.bind_ok hc]
  · refine ⟨w1, ?_, h1, hl1⟩
    unfold readRest
    rw [Comp.bind_ok (declare_run _ _ _), Comp.bind_ok hr, Comp.bind_ok hfull, hf,
      Comp.when_neg (by decide), Comp.pure_bind_run]

variable (fuel) in
/-- One hop: a turn of the loop that stays inside the text. -/
theorem Head.hop [Libc.CopiesForward] (h : Head a fd pos t w) (ha : a ≠ .buf) (ha' : a ≠ .scratch)
    (hop : Hop t r) :
    ∃ w1 w2 off pos', (readNet (fuel + 1) Arr.buf.ptr BUFSIZE Arr.buf.ptr fd pos).run w =
        (.ok (some ⟨.arr .buf, off⟩), w1) ∧ off ≤ t.length ∧
      (copyOut a.ptr pos (some ⟨.arr .buf, off⟩)).run w1 = (.ok pos', w2) ∧
      Head a fd pos' r w2 ∧ writes w2.log = writes w.log := by
  obtain ⟨ht, i, hi, hin, rfl⟩ := hop
  have hB : BUFSIZE = 4096 := rfl
  have hroom := h.room
  set n := announced t i with hn
  obtain ⟨w0, hr0, hp0⟩ := h.tests (fuel + 1) ht hi
  have h0 := h.passed hp0 (by simp) (by simp)
  obtain ⟨w1, hr1, h1, hl1⟩ := h0.rest fuel (n := n) ha' ht hi
  obtain ⟨junk, hj⟩ := h1.text
  obtain ⟨l, hconv, hll, hlp, hld⟩ := convert_parts pos i (n := n) hj
    h1.buf h.nulFree (by omega) (by omega) (by omega)
  set w2 := w1.setArr .buf l with hw2
  have hb2 : w2.mem .buf = l := World.setArr_mem ..
  have hp2 : IsStr w2 Arr.buf.ptr ((t.drop (i + 1)).take n) := by simpa [IsStr, hb2] using hlp
  have hpl : ((t.drop (i + 1)).take n).length = n := by
    rw [List.length_take, List.length_drop]
    omega
  have hr2 : IsStr w2 ⟨.arr .buf, i + n + 2⟩ (t.drop (i + n + 2)) := by
    refine isStr_iff.mpr ⟨h.nulFree.drop _, junk, ?_⟩
    rw [World.block_arr, hb2, hld, hj, List.drop_append_of_le_length hin]
  obtain ⟨w3, junk3, hcopy, hfr, hb3, hlen3, _⟩ := copyOut_run pos ha hp2 hr2
    (hb2 ▸ hll) (by rw [hw2, World.setArr_mem_of_ne _ _ ha, h1.size]) (by omega)
  refine ⟨w2, w3, i + n + 2, _, by rw [hr0, hr1, hconv], hin, hcopy, ⟨⟨junk3, hb3⟩,
    h.nulFree.drop _, hlen3, ?_, ?_, ?_⟩, ?_⟩
  · rw [hfr.size, hw2, World.setArr_mem_of_ne _ _ ha, h1.size]
  · rw [hpl, List.length_drop]
    omega
  · rw [hfr.net, hw2, World.setArr_net]
    exact h1.failing
  · rw [hfr.log, hw2, World.setArr_log, hl1, hp0.writes]

/-- The place `convert` returns. -/
theorem convert_eq_some {dest src p : Ptr} {n d l m : Nat}
    (h : (convert dest n src d l m).run w = (.ok (some p), w')) : p = src + (d + l + 2) := by
  unfold convert at h
  split at h
  · cases h
  · obtain ⟨_, _, _, h⟩ := Comp.bind_eq_ok h
    obtain ⟨_, _, _, h⟩ := Comp.bind_eq_ok h
    cases h
    rfl

variable (fuel) in
/-- A refused place: one error netstring and exit. -/
theorem Head.refuse (h : Head a fd pos t w) (ha : a ≠ .scratch) (hne : t ≠ []) (ht : Refuses t) :
    ∃ w', (readNet (fuel + 1) Arr.buf.ptr BUFSIZE Arr.buf.ptr fd pos).run w =
        (.error (.exit (-1)), w') ∧ SendsError fd w w' := by
  have hs := h.isStr
  have hE : t.headD 0 ≠ letterE := by
    rcases ht with h0 | h0
    · rw [h0]
      decide
    · exact h0.1
  have hfmt : lit "String in netstring format" ≠ t := by
    rintro rfl
    exact absurd ht (by decide)
  obtain ⟨b, hr, hb⟩ := formatBroken_run hs
  rcases b with _ | _
  rotate_left
  · obtain ⟨w', hc, hl⟩ := h.check_refuse _ (by decide) (by decide) hE hfmt
    refine ⟨w', ?_, hl⟩
    unfold readNet
    rw [Comp.bind_ok hr, Comp.when_pos rfl, Comp.bind_error hc]
  obtain ⟨i, hi, _⟩ := hb.mp rfl
  by_cases h48 : t.headD 0 = 48
  · have hzero : lit "no leading 0" ≠ t := by
      rintro rfl
      exact absurd h48 (by decide)
    obtain ⟨w', hc, hl⟩ := h.check_refuse "no leading 0" (by decide) (by decide) hE
      hzero
    refine ⟨w', ?_, hl⟩
    unfold readNet
    rw [Comp.bind_ok hr, Comp.when_neg (by decide), Comp.pure_bind_run,
      Comp.bind_ok (charAt_run hs), Comp.when_pos h48, Comp.bind_error hc]
  · -- a colon and no comma: the second test refuses the text
    have hf : framed t = false := (ht.resolve_left h48).2.2
    have hp0 := passed_setArr (a := .scratch) (l := zeros BUFSIZE) w (zeros_length _)
    have h0 := h.passed hp0 (by decide) (by simpa using ha)
    obtain ⟨w1, hr1, h1, hl1, _⟩ := h0.refill fuel (World.setArr_mem ..) (announced t i)
    have hfull := formatBrokenFull_run h1.isStr
    obtain ⟨w', hc, hl⟩ := h1.check_refuse _ (by decide) (by decide) hE hfmt
    refine ⟨w', ?_, hl.after (hl1.trans hp0.writes)⟩
    rw [readNet_head _ _ _ hs hr h48 hi, ← announced, readRest, Comp.bind_ok (declare_run _ _ _),
      Comp.bind_ok hr1,
      Comp.bind_ok hfull, hf, Comp.when_pos (by decide), Comp.bind_error hc]

variable (fuel) in
/-- Without a colon the number before it cannot be read. -/
theorem Head.no_colon (h : Head a fd pos t w) (ht : ¬ Refuses t) (hi : find colon t = none) :
    ∃ w', (readNet fuel Arr.buf.ptr BUFSIZE Arr.buf.ptr fd pos).run w = (.error .undefined, w') := by
  have hs := h.isStr
  have hfirst : t.headD 0 ≠ 48 := fun h0 => ht (.inl h0)
  have hf : framed t = false := by
    rcases hf : framed t with _ | _
    · rfl
    · obtain ⟨i, _, h1, _⟩ := framed_iff.mp hf
      rw [hi] at h1
      cases h1
  obtain ⟨b, hr, hb⟩ := formatBroken_run hs
  have htrue : b = true := by
    rcases b with _ | _
    · obtain ⟨i, h1, _⟩ := hb.mp rfl
      rw [hi] at h1
      cases h1
    · rfl
  subst htrue
  have hx := isStr_lit (w := w) (s := "String in netstring format") (by decide)
  -- what is behind the check
  have hback : ∀ w1, IsStr w1 Arr.buf.ptr t →
      (checkMessage fd (litPtr "String in netstring format") Arr.buf.ptr).run w = (.ok (), w1) →
      (readNet fuel Arr.buf.ptr BUFSIZE Arr.buf.ptr fd pos).run w = (.error .undefined, w1) := by
    intro w1 hs1 hc
    have hdig : (digitsBefore Arr.buf.ptr).run w1 = (.error .undefined, w1) := by
      unfold digitsBefore
      rw [Comp.bind_ok (strchr_run hs1 colon), hi]
      rfl
    unfold readNet
    rw [Comp.bind_ok hr, Comp.when_pos rfl, Comp.bind_ok hc, Comp.bind_ok (charAt_run hs1),
      Comp.when_neg hfirst, Comp.pure_bind_run, Comp.bind_error hdig]
  by_cases hE : t.headD 0 = letterE
  · rcases hwhy : cstr ((w.block (Arr.buf.ptr + 2).blk).drop (Arr.buf.ptr + 2).off) with _ | why
    · have hc : (checkMessage fd (litPtr "String in netstring format") Arr.buf.ptr).run w =
          (.error .undefined, w.note (.check fd (lit "String in netstring format") t)) := by
        unfold checkMessage
        rw [Comp.bind_ok (strAt_run hs), Comp.bind_ok (strAt_run hx), Comp.bind_ok (note_run _ _),
          Comp.bind_ok (charAt_run (isStr_note.mpr hs)), if_pos hE,
          Comp.bind_error (strAt_undefined (w := w.note (.check fd
            (lit "String in netstring format") t)) hwhy)]
      refine ⟨w.note (.check fd (lit "String in netstring format") t), ?_⟩
      unfold readNet
      rw [Comp.bind_ok hr, Comp.when_pos rfl, Comp.bind_error hc]
    · exact ⟨_, hback _ (isStr_note.mpr (isStr_note.mpr hs)) (checkMessage_error _ hx hs hE hwhy)⟩
  · obtain rfl : t = lit "String in netstring format" := by
      by_contra hne
      exact ht (.inr ⟨hE, hne, hf⟩)
    exact ⟨_, hback _ (isStr_note.mpr hs) (checkMessage_same hx hs hE)⟩

/-- Everywhere else the call does not exit, and when it returns a place, then one behind the text. -/
theorem Head.leave (h : Head a fd pos t w) (ha : a ≠ .scratch) (ht : ¬ Refuses t)
    (hno : ∀ r, ¬ Hop t r) {res : Except Stop (Option Ptr)} {w1 : World}
    (hr : (readNet fuel Arr.buf.ptr BUFSIZE Arr.buf.ptr fd pos).run w = (res, w1)) :
    (∀ c, res ≠ .error (.exit c)) ∧ ∀ p, res = .ok (some p) → t.length < p.off := by
  rcases hi : find colon t with _ | i
  · obtain ⟨w', hu⟩ := h.no_colon fuel ht hi
    rw [hu] at hr
    cases hr
    constructor
    · intro _ h
      cases h
    · intro _ h
      cases h
  obtain ⟨w0, hr0, hp0⟩ := h.tests fuel ht hi
  rw [hr0] at hr
  rcases fuel with _ | fuel
  · obtain ⟨e, w', hs, _, he⟩ := readRest_no_fuel fd pos (w := w0) (d := i)
      (n := announced t i)
    rw [hs] at hr
    cases hr
    constructor
    · intro c h
      exact he c (by injection h)
    · intro _ h
      cases h
  obtain ⟨w2, hr2, _, _⟩ := (h.passed hp0 (by simp) (by simp)).rest fuel
    (n := announced t i) ha ht hi
  rw [hr2] at hr
  have hq := (quiet_convert Arr.buf.ptr BUFSIZE Arr.buf.ptr i (announced t i) pos w2).2.2
  rw [hr] at hq
  refine ⟨hq, ?_⟩
  rintro p rfl
  have hp := convert_eq_some hr
  have hfar : ¬ i + announced t i + 2 ≤ t.length := fun hle =>
    hno _ ⟨ht, i, hi, hle, rfl⟩
  rw [hp, Ptr.add_off, Arr.ptr_off]
  omega

end Head

/-! ## The whole loop -/

/-- No turn of the loop goes on behind the end of its text. -/
def Within [Libc] (fd : Fd) (a : Arr) : Nat → Nat → World → Prop
  | 0, _, _ => True
  | fuel + 1, pos, w => ∀ t, IsStr w Arr.buf.ptr t → t ≠ [] → ∀ p w1,
      (readNet fuel Arr.buf.ptr BUFSIZE Arr.buf.ptr fd pos).run w = (.ok (some p), w1) →
      p.off ≤ t.length ∧ ∀ pos' w2, (copyOut a.ptr pos (some p)).run w1 = (.ok pos', w2) →
        Within fd a fuel pos' w2

section Loop

variable [Libc] {a : Arr} {fd : Fd} {pos nets fuel : Nat} {t : List Byte} {w w' : World}

theorem readNet_no_fuel {next : Option Ptr} :
    (readNet 0 Arr.buf.ptr BUFSIZE Arr.buf.ptr fd pos).run w ≠ (.ok next, w') := by
  intro h
  obtain ⟨_, _, _, h⟩ := Comp.bind_eq_ok h
  obtain ⟨_, _, _, h⟩ := Comp.bind_eq_ok h
  obtain ⟨_, _, _, h⟩ := Comp.bind_eq_ok h
  obtain ⟨_, _, _, h⟩ := Comp.bind_eq_ok h
  obtain ⟨_, _, _, h⟩ := Comp.bind_eq_ok h
  obtain ⟨_, w1, _, h⟩ := Comp.bind_eq_ok h
  obtain ⟨_, w2, hs, _⟩ := readRest_no_fuel fd pos (w := w1)
  rw [hs] at h
  cases h

/-- A walk that stays in the text is a loop that does. -/
theorem within_of_stays [Libc.CopiesForward] (ha : a ≠ .buf) (ha' : a ≠ .scratch) (ht : Stays t)
    (h : Head a fd pos t w) : Within fd a fuel pos w := by
  induction ht generalizing fuel pos w with
  | done =>
      rcases fuel with _ | fuel
      · trivial
      · intro t ht hne
        exact absurd (Option.some.inj (ht.symm.trans h.isStr)) hne
  | @here t href =>
      rcases fuel with _ | fuel
      · trivial
      intro t' ht hne p w1 hr
      obtain rfl : t' = t := Option.some.inj (ht.symm.trans h.isStr)
      rcases fuel with _ | fuel
      · exact absurd hr readNet_no_fuel
      · obtain ⟨w2, hr2, _⟩ := h.refuse fuel ha' hne href
        rw [hr2] at hr
        cases hr
  | @hop t r hop _ ih =>
      rcases fuel with _ | fuel
      · trivial
      intro t' ht hne p w1 hr
      obtain rfl : t' = t := Option.some.inj (ht.symm.trans h.isStr)
      rcases fuel with _ | fuel
      · exact absurd hr readNet_no_fuel
      obtain ⟨w2, w3, off, pos', hr2, hoff, hcopy, h3, _⟩ := h.hop fuel ha ha' hop
      rw [hr2] at hr
      cases hr
      refine ⟨hoff, fun pos2 w4 hc => ?_⟩
      rw [hcopy] at hc
      cases hc
      exact ih h3

variable (nets) in
/-- A walk that comes to a refused place ends in one error netstring and exit. -/
theorem recvLoop_refused [Libc.CopiesForward] (ha : a ≠ .buf) (ha' : a ≠ .scratch) (ht : Refused t)
    (h : Head a fd pos t w) (hfuel : t.length < fuel) :
    ∃ w', (recvLoop fd a.ptr fuel pos nets).run w = (.error (.exit (-1)), w') ∧
      SendsError fd w w' := by
  induction ht generalizing fuel pos nets w with
  | @here t hne href =>
      have hpos : 0 < t.length := List.length_pos_iff.mpr hne
      obtain ⟨f, rfl⟩ : ∃ f, fuel = f + 2 := ⟨fuel - 2, by omega⟩
      obtain ⟨w', hr, hl⟩ := h.refuse f ha' hne href
      refine ⟨w', ?_, hl⟩
      rw [recvLoop, Comp.bind_ok (charAt_run h.isStr), if_pos (headD_ne_zero h.nulFree hne),
        Comp.bind_error hr]
  | @hop t r hop _ ih =>
      have hpos : 0 < t.length := List.length_pos_iff.mpr hop.ne_nil
      obtain ⟨f, rfl⟩ : ∃ f, fuel = f + 2 := ⟨fuel - 2, by omega⟩
      obtain ⟨w1, w2, off, pos', hr, _, hcopy, h2, hl2⟩ := h.hop f ha ha' hop
      have hlen : r.length < f + 1 := by
        obtain ⟨_, i, _, hle, rfl⟩ := hop
        rw [List.length_drop]
        omega
      obtain ⟨w', hrun, hl⟩ := ih (nets + 1) h2 hlen
      exact ⟨w', (recvLoop_turn _ _ h.isStr hop.ne_nil hr hcopy).trans hrun, hl.after hl2⟩

/-- A loop that stays in the text and exits has come to a refused place. -/
theorem refused_of_exit [Libc.CopiesForward] (ha : a ≠ .buf) (ha' : a ≠ .scratch) {c : Int}
    (h : Head a fd pos t w)
    (hrun : (recvLoop fd a.ptr fuel pos nets).run w = (.error (.exit c), w'))
    (hin : Within fd a fuel pos w) : Refused t := by
  induction fuel generalizing pos nets t w with
  | zero => cases hrun
  | succ fuel ih =>
      by_cases hne : t = []
      · subst hne
        obtain ⟨junk, hj⟩ := h.text
        rw [recvLoop_nil _ hj] at hrun
        cases hrun
      by_cases href : Refuses t
      · exact .here hne href
      by_cases hhop : ∃ r, Hop t r
      · obtain ⟨r, hop⟩ := hhop
        rcases fuel with _ | fuel
        · rw [recvLoop, Comp.bind_ok (charAt_run h.isStr),
            if_pos (headD_ne_zero h.nulFree hne)] at hrun
          obtain ⟨i, hi, _⟩ := hop.2
          obtain ⟨w0, hr0, _⟩ := h.tests 0 href hi
          obtain ⟨e, w1, hs, _, he⟩ := readRest_no_fuel fd pos (w := w0)
            (d := i) (n := announced t i)
          rw [Comp.bind_error (hr0.trans hs)] at hrun
          cases hrun
          exact absurd rfl (he c)
        obtain ⟨w1, w2, off, pos', hr, _, hcopy, h2, _⟩ := h.hop fuel ha ha' hop
        rw [recvLoop_turn _ _ h.isStr hne hr hcopy] at hrun
        exact .hop hop (ih h2 hrun ((hin t h.isStr hne _ _ hr).2 _ _ hcopy))
      · -- nothing else exits
        rw [recvLoop, Comp.bind_ok (charAt_run h.isStr),
          if_pos (headD_ne_zero h.nulFree hne)] at hrun
        rcases hr : (readNet fuel Arr.buf.ptr BUFSIZE Arr.buf.ptr fd pos).run w with ⟨e | next, w1⟩
        · rw [Comp.bind_error hr] at hrun
          cases hrun
          exact absurd rfl ((h.leave ha' href (fun r hr => hhop ⟨r, hr⟩) hr).1 c)
        · rw [Comp.bind_ok hr] at hrun
          rcases next with _ | p
          · obtain ⟨e, w2, hs, _, he⟩ := copyOut_none a.ptr pos (w := w1)
            rw [Comp.bind_error hs] at hrun
            cases hrun
            exact absurd rfl (he c)
          · have h1 := (h.leave ha' href (fun r hr => hhop ⟨r, hr⟩) hr).2 p rfl
            have h2 := (hin t h.isStr hne p w1 hr).1
            omega

end Loop

/-! ## `recvMessage` -/

/-- `recvMessage` takes the text `s` exactly when it is a batch of netstrings: it returns their
    messages, it returns nothing else, it answers everything else with one error netstring and
    exits, and it never goes on behind the end of the text. -/
structure TakesNetstrings [Libc] (fuel : Nat) (fd : Fd) (a : Arr) (s : List Byte) (w : World) :
    Prop where
  accepts : ∀ ms, (∀ m ∈ ms, Plain m) → s = encs ms →
    ∃ w' tail, (recvMessage fuel fd a.ptr).run w = (.ok (ms.length : Int), w') ∧
      w'.mem a = strs ms ++ tail
  only : ∀ k w', (recvMessage fuel fd a.ptr).run w = (.ok k, w') →
    ∃ ms tail, (∀ m ∈ ms, Plain m) ∧ s = encs ms ∧ k = ms.length ∧ w'.mem a = strs ms ++ tail
  refuses : (¬ ∃ ms, (∀ m ∈ ms, Plain m) ∧ s = encs ms) →
    ∃ w', (recvMessage fuel fd a.ptr).run w = (.error (.exit (-1)), w') ∧ SendsError fd w w'
  within : ∀ n w1, (do memset a.ptr BUFSIZE
                       declare .buf BUFSIZE
                       readFd fd Arr.buf.ptr BUFSIZE : Run Int).run w = (.ok n, w1) →
    Within fd a fuel 0 w1

theorem length_le_encs (ms : List (List Byte)) : ms.length ≤ (encs ms).length := by
  induction ms with
  | nil => exact Nat.le_refl _
  | cons m ms ih =>
      have := enc_length_pos m
      rw [encs_length_cons, List.length_cons]
      omega

section RecvMessage

variable {a : Arr} {fd : Fd} {fuel : Nat} {s : List Byte} {w : World}
  {rest : List (Option (List Byte))}

variable (fd) in
/-- The first read brings the loop to its head. -/
theorem recvMessage_head (ha : a ≠ .buf) (hs : NulFree s) (hl : s.length ≤ 2000)
    (hsize : (w.mem a).length = BUFSIZE) (hnet : w.net fd = ⟨some s :: rest, .timeout⟩)
    (hrest : ∀ x ∈ rest, x = none) :
    ∃ w1, (do memset a.ptr BUFSIZE
              declare .buf BUFSIZE
              readFd fd Arr.buf.ptr BUFSIZE : Run Int).run w = (.ok (s.length : Int), w1) ∧
      Head a fd 0 s w1 ∧ writes w1.log = writes w.log := by
  have hB : BUFSIZE = 4096 := rfl
  have hread : (w.net fd).read BUFSIZE = (some s, ⟨rest, .timeout⟩) := by
    rw [hnet]
    exact Peer.read_whole (by omega)
  obtain ⟨w1, hfirst, hrec, _, hbuf⟩ := recvMessage_read ha hsize hread (by omega)
  obtain ⟨k, hk⟩ : ∃ k, BUFSIZE - s.length = k + 1 := ⟨BUFSIZE - s.length - 1, by omega⟩
  refine ⟨w1, hfirst, ⟨⟨zeros k, by rw [hbuf, clean, hk, zeros_succ]⟩, hs,
    by rw [hbuf, clean_length (by omega)], hrec.size, by omega, ?_⟩, ?_⟩
  · rw [hrec.net, Function.update_self]
    exact ⟨rfl, hrest⟩
  · rw [hrec.log, writes_append, writes_read, List.append_nil]

variable [Libc]

/-- With no more to read, `recvMessage` takes exactly the netstrings on the batches of netstrings
    and on the texts its walk refuses, and on no other. -/
theorem recvMessage_grammar [Libc.CopiesForward] (ha : a ≠ .buf) (ha' : a ≠ .scratch) (hne : s ≠ [])
    (hs : NulFree s) (hl : s.length ≤ 2000) (hsize : (w.mem a).length = BUFSIZE)
    (hnet : w.net fd = ⟨some s :: rest, .timeout⟩) (hrest : ∀ x ∈ rest, x = none)
    (hfuel : s.length < fuel) :
    TakesNetstrings fuel fd a s w ↔ (∃ ms, (∀ m ∈ ms, Plain m) ∧ s = encs ms) ∨ Refused s := by
  have hB : BUFSIZE = 4096 := rfl
  have hread : (w.net fd).read BUFSIZE = (some s, ⟨rest, .timeout⟩) := by
    rw [hnet]
    exact Peer.read_whole (by omega)
  obtain ⟨w1, hfirst, hhead, hlog⟩ := recvMessage_head _ ha hs hl hsize hnet hrest
  have hloop := recvMessage_loop fuel hfirst
  have hwithin : Stays s → ∀ n w2, (do memset a.ptr BUFSIZE
                                       declare .buf BUFSIZE
                                       readFd fd Arr.buf.ptr BUFSIZE : Run Int).run w = (.ok n, w2) →
      Within fd a fuel 0 w2 := fun hstay n w2 h2 => by
    rw [hfirst] at h2
    cases h2
    exact within_of_stays ha ha' hstay hhead
  constructor
  · intro h
    by_cases hbatch : ∃ ms, (∀ m ∈ ms, Plain m) ∧ s = encs ms
    · exact .inl hbatch
    · obtain ⟨w', hr, _⟩ := h.refuses hbatch
      rw [hloop] at hr
      exact .inr (refused_of_exit ha ha' hhead hr (h.within _ _ hfirst))
  · rintro (⟨ms, hms, rfl⟩ | href)
    · obtain ⟨w', tail, hr, _, hmem⟩ := recvMessage_batch fuel ha ha' hms
        (fits_of_length (by omega)) hsize hread (Nat.lt_of_le_of_lt (length_le_encs ms) hfuel)
      have hmem' : w'.mem a = strs ms ++ (ms.getLastD [] ++ 0 :: tail) := by
        rw [hmem, List.append_assoc]
      refine ⟨fun ms' _ heq => ?_, fun k w2 h2 => ?_, fun h => absurd ⟨ms, hms, rfl⟩ h,
        hwithin (stays_encs hms fun m hm => ?_)⟩
      · obtain rfl := encs_inj heq
        exact ⟨w', _, hr, hmem'⟩
      · rw [hr] at h2
        cases h2
        exact ⟨ms, _, hms, rfl, rfl, hmem'⟩
      · have h1 := enc_length m
        have h2 := encs_length_of_mem hm
        omega
    · obtain ⟨w', hr, hl2⟩ := recvLoop_refused 0 ha ha' href hhead hfuel
      have hr' := hloop.trans hr
      have hno : ¬ ∃ ms, (∀ m ∈ ms, Plain m) ∧ s = encs ms := by
        rintro ⟨ms, hms, rfl⟩
        obtain ⟨w2, tail, hr2, _⟩ := recvMessage_batch fuel ha ha' hms
          (fits_of_length (by omega)) hsize hread (Nat.lt_of_le_of_lt (length_le_encs ms) hfuel)
        rw [hr'] at hr2
        cases hr2
      refine ⟨fun ms hms heq => absurd ⟨ms, hms, heq⟩ hno, fun k w2 h2 => ?_, fun _ => ⟨w', hr',
        hl2.after hlog⟩, hwithin href.stays⟩
      rw [hr'] at h2
      cases h2

end RecvMessage

section Bytewise

attribute [local instance] Libc.bytewise

theorem recvMessage_grammar_refused :
    TakesNetstrings 7 .control .recvbuf (lit "2:ab,x")
      (receiving fun _ => ⟨[some (lit "2:ab,x")], .timeout⟩) :=
  (recvMessage_grammar (by decide) (by decide) (by decide) (by decide) (by decide)
    (receiving_recvbuf _) rfl (by simp) (by decide)).mpr
    (.inr (.hop (r := lit "x") ⟨by decide, 1, by decide, by decide, by decide⟩
      (.here (by decide) (by decide))))

/-- The byte behind the payload is not looked at: with a comma in the payload, an `x` may stand in
    the place of the final one. -/
theorem final_comma_unchecked :
    ¬ TakesNetstrings 5 .control .recvbuf (lit "1:,x")
      (receiving fun _ => ⟨[some (lit "1:,x")], .timeout⟩) := by
  intro h
  have hno : ¬ ∃ ms, (∀ m ∈ ms, Plain m) ∧ lit "1:,x" = encs ms := by
    rintro ⟨ms, _, heq⟩
    have h1 := encs_getLast? ms
    rw [← heq] at h1
    exact absurd (h1 (by rintro rfl; cases heq)) (by decide)
  obtain ⟨w1, hfirst, hhead, _⟩ := recvMessage_head .control (a := .recvbuf)
    (s := lit "1:,x") (by decide) (by decide) (by decide)
    (receiving_recvbuf fun _ => ⟨[some (lit "1:,x")], .timeout⟩) rfl (by simp)
  obtain ⟨w2, w3, off, pos', hr, _, hcopy, h3, _⟩ := hhead.hop 3 (by decide) (by decide)
    (r := []) ⟨by decide, 1, by decide, by decide, by decide⟩
  obtain ⟨junk, hj⟩ := h3.text
  have hrun := (recvMessage_loop 5 hfirst).trans
    (recvLoop_turn _ 0 hhead.isStr (by decide) hr hcopy)
  rw [recvLoop_nil _ hj] at hrun
  obtain ⟨w', hexit, _⟩ := h.refuses hno
  rw [hrun] at hexit
  cases hexit

end Bytewise

end Grnvs.Ascii
