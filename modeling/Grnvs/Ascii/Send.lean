/-
  What the sending half of the client does.

  `IsStr w p s`: at `p` stands the string `s`. `writeNet` and `sendMessage` build exactly the
  netstring of the string they are given, as long as it has at most 4089 bytes
  (`sendMessage_run`, for both evaluation orders of the length test), and `checkMessage` either
  returns, or sends one error netstring and exits (`checkMessage_same`, `checkMessage_error`,
  `checkMessage_refuse`).
-/
import Grnvs.Ascii.Client

namespace Grnvs.Ascii

open Bytes Decimal Netstring

/-! ## Strings in memory -/

/-- At `p` stands the string `s`. -/
def IsStr (w : World) (p : Ptr) (s : List Byte) : Prop :=
  cstr ((w.block p.blk).drop p.off) = some s

theorem isStr_iff {w : World} {p : Ptr} {s : List Byte} :
    IsStr w p s ↔ NulFree s ∧ ∃ r, (w.block p.blk).drop p.off = s ++ 0 :: r := cstr_eq_some

theorem IsStr.nulFree {w : World} {p : Ptr} {s : List Byte} (h : IsStr w p s) : NulFree s :=
  cstr_nulFree h

theorem strAt_run {w : World} {p : Ptr} {s : List Byte} (h : IsStr w p s) :
    (strAt p).run w = (.ok s, w) := by
  unfold IsStr at h
  simp [strAt, h]

theorem strAt_undefined {w : World} {p : Ptr}
    (h : cstr ((w.block p.blk).drop p.off) = none) : (strAt p).run w = (.error .undefined, w) := by
  simp [strAt, h]

theorem strlen_run {w : World} {p : Ptr} {s : List Byte} (h : IsStr w p s) :
    (strlen p).run w = (.ok s.length, w) := by
  unfold strlen
  rw [Comp.bind_ok (strAt_run h)]
  rfl

theorem strchr_run {w : World} {p : Ptr} {s : List Byte} (h : IsStr w p s) (c : Byte) :
    (strchr p c).run w = (.ok (find c s), w) := by
  unfold strchr
  rw [Comp.bind_ok (strAt_run h)]
  rfl

/-- The first byte of a string, NUL for the empty one. -/
theorem charAt_run {w : World} {p : Ptr} {s : List Byte} (h : IsStr w p s) :
    (charAt p).run w = (.ok (s.headD 0), w) := by
  obtain ⟨_, r, hr⟩ := isStr_iff.mp h
  rcases s with _ | ⟨b, s⟩ <;> simp [charAt, hr]

theorem isStr_lit {w : World} {s : String} (h : NulFree (lit s)) : IsStr w (litPtr s) (lit s) :=
  cstr_terminated h []

theorem isStr_setArr {w : World} {p : Ptr} {s l : List Byte} {a : Arr} (hp : p.blk ≠ .arr a) :
    IsStr (w.setArr a l) p s ↔ IsStr w p s := by
  rcases p with ⟨_ | b, off⟩
  · rfl
  · have hb : b ≠ a := fun h => hp (by rw [h])
    simp [IsStr, World.setArr_mem_of_ne _ _ hb]

theorem isStr_note {w : World} {p : Ptr} {s : List Byte} {e : Event} :
    IsStr (w.note e) p s ↔ IsStr w p s := by
  rcases p with ⟨_ | b, off⟩ <;> rfl

/-- A string that starts inside a longer one. -/
theorem IsStr.add {w : World} {p : Ptr} {s t : List Byte} (h : IsStr w p (s ++ t)) :
    IsStr w (p + s.length) t := by
  obtain ⟨hn, r, hr⟩ := isStr_iff.mp h
  refine isStr_iff.mpr ⟨hn.of_suffix, r, ?_⟩
  rw [Ptr.add_blk, Ptr.add_off, ← List.drop_drop, hr, List.append_assoc, List.drop_left]

/-- The NUL of a string stands in its array. -/
theorem IsStr.length_lt {w : World} {p : Ptr} {a : Arr} {m : List Byte} (hs : IsStr w p m)
    (hp : p.blk = .arr a) :
    m.length < (w.mem a).length := by
  obtain ⟨_, r, hr⟩ := isStr_iff.mp hs
  rw [hp, World.block_arr] at hr
  have := congrArg List.length hr
  simp only [List.length_drop, List.length_append, List.length_cons] at this
  omega

@[simp] theorem note_run (w : World) (e : Event) : (note e).run w = (.ok (), w.note e) := rfl

@[simp] theorem declare_run (w : World) (a : Arr) (n : Nat) :
    (declare a n).run w = (.ok (), w.setArr a (zeros n)) := rfl

/-! ## Stores -/

theorem store_run {w : World} {a : Arr} {off : Nat} {bs : List Byte}
    (h : off + bs.length ≤ (w.mem a).length) :
    (store ⟨.arr a, off⟩ bs).run w = (.ok (), w.setArr a (splice (w.mem a) off bs)) := by
  simp [store, h]

/-- A store at the start of an array. -/
theorem store_start {w : World} {a : Arr} {bs : List Byte} (h : bs.length ≤ (w.mem a).length) :
    (store a.ptr bs).run w = (.ok (), w.setArr a (bs ++ (w.mem a).drop bs.length)) := by
  rw [← splice_zero]
  exact store_run (by omega)

theorem store_undefined {w : World} {a : Arr} {off : Nat} {bs : List Byte}
    (h : (w.mem a).length < off + bs.length) :
    (store ⟨.arr a, off⟩ bs).run w = (.error .undefined, w) := by
  simp [store, Nat.not_le.mpr h]

theorem setArr_setArr (w : World) (a : Arr) (l l' : List Byte) :
    (w.setArr a l).setArr a l' = w.setArr a l' := by
  simp [World.setArr]

/-! ## Copies -/

theorem litPtr_apart (s : String) (a : Arr) : (litPtr s).blk ≠ .arr a := fun h => nomatch h

/-- Zeros behind the NUL of a string, or behind its end. -/
theorem take_terminated (s : List Byte) (n : Nat) :
    (s ++ [0]).take n ++ zeros (n - ((s ++ [0]).take n).length) =
      s.take n ++ zeros (n - s.length) := by
  rcases Nat.lt_or_ge s.length n with hlt | hle
  · obtain ⟨k, rfl⟩ : ∃ k, n = s.length + 1 + k := ⟨n - (s.length + 1), by omega⟩
    have hwhole : (s ++ [0]).take (s.length + 1 + k) = s ++ [0] :=
      List.take_of_length_le (by rw [List.length_append, List.length_singleton]; omega)
    have hk : s.length + 1 + k - (s ++ [0]).length = k := by
      rw [List.length_append, List.length_singleton]
      omega
    have hk1 : s.length + 1 + k - s.length = k + 1 := by omega
    rw [hwhole, hk, hk1, List.take_of_length_le (by omega), zeros_succ, List.append_assoc]
    rfl
  · have hcut : (s ++ [0]).take n = s.take n := List.take_append_of_le_length hle
    have hlen : n - (s.take n).length = n - s.length := by
      rw [List.length_take]
      omega
    rw [hcut, hlen]

section Copies

variable [Libc]

theorem copy_run {w : World} {a : Arr} {off written : Nat} {src : Ptr} {bs l : List Byte}
    (hcopied : copied (w.mem a) ⟨.arr a, off⟩ src bs written = some l)
    (h : off + bs.length ≤ (w.mem a).length) :
    (copy ⟨.arr a, off⟩ src bs written).run w = (.ok (), w.setArr a l) := by
  simp only [copy, if_pos h, hcopied]

theorem copy_undefined {w : World} {a : Arr} {off written : Nat} {src : Ptr} {bs : List Byte}
    (h : (w.mem a).length < off + bs.length) :
    (copy ⟨.arr a, off⟩ src bs written).run w = (.error .undefined, w) := by
  simp only [copy, if_neg (Nat.not_le.mpr h)]

theorem strcpy_run {w : World} {a : Arr} {off : Nat} {src : Ptr} {s : List Byte}
    (hs : IsStr w src s) (hsrc : src.blk ≠ .arr a)
    (h : off + (s.length + 1) ≤ (w.mem a).length) :
    (strcpy ⟨.arr a, off⟩ src).run w = (.ok (), w.setArr a (splice (w.mem a) off (s ++ [0]))) := by
  unfold strcpy
  rw [Comp.bind_ok (strAt_run hs), copy_run (copied_apart hsrc) (by simpa using h)]

/-- A string that moves to the front of its array. -/
theorem strcpy_forward [Libc.CopiesForward] {w : World} {a : Arr} {off k : Nat} {s : List Byte}
    (hs : IsStr w ⟨.arr a, k⟩ s) (hk : off ≤ k) :
    (strcpy ⟨.arr a, off⟩ ⟨.arr a, k⟩).run w =
      (.ok (), w.setArr a (splice (w.mem a) off (s ++ [0]))) := by
  obtain ⟨-, r, hr⟩ := isStr_iff.mp hs
  change (w.mem a).drop k = s ++ 0 :: r at hr
  have hlen := congrArg List.length hr
  rw [List.length_drop, List.length_append, List.length_cons] at hlen
  have hmoved : copied (w.mem a) ⟨.arr a, off⟩ ⟨.arr a, k⟩ (s ++ [0]) (s.length + 1) =
      some (splice (w.mem a) off (s ++ [0])) :=
    copied_forward hk (r := r) (by rw [hr, List.append_assoc]; rfl) (by dsimp only; omega)
  unfold strcpy
  rw [Comp.bind_ok (strAt_run hs), copy_run hmoved (by
    rw [List.length_append, List.length_singleton]
    omega)]

/-- A piece of a string, with zeros behind it, that moves to the front of its array. -/
theorem strncpy_forward [Libc.CopiesForward] {w : World} {a : Arr} {off k n : Nat} {s : List Byte}
    (hs : IsStr w ⟨.arr a, k⟩ s) (hk : off ≤ k) (h : off + n ≤ (w.mem a).length) :
    (strncpy ⟨.arr a, off⟩ ⟨.arr a, k⟩ n).run w =
      (.ok (), w.setArr a (splice (w.mem a) off (s.take n ++ zeros (n - s.length)))) := by
  obtain ⟨-, r, hr⟩ := isStr_iff.mp hs
  change (w.mem a).drop k = s ++ 0 :: r at hr
  have hlen := congrArg List.length hr
  rw [List.length_drop, List.length_append, List.length_cons] at hlen
  rw [← take_terminated]
  have hsource : (w.mem a).drop k = (s ++ [0]).take n ++ ((s ++ [0]).drop n ++ r) := by
    rw [hr, ← List.append_assoc, List.take_append_drop, List.append_assoc]
    rfl
  have hle : ((s ++ [0]).take n).length ≤ n := List.length_take_le n _
  unfold strncpy
  rw [Comp.gets_bind, if_pos (by exact h), Comp.bind_ok (strAt_run hs)]
  dsimp only
  generalize (s ++ [0]).take n = bs at *
  have hmoved : copied (w.mem a) ⟨.arr a, off⟩ ⟨.arr a, k⟩ bs n =
      some (splice (w.mem a) off bs) := copied_forward hk hsource (by dsimp only; omega)
  have hcopy := copy_run hmoved (by omega)
  have hzeros : (store (⟨.arr a, off + bs.length⟩ : Ptr) (zeros (n - bs.length))).run
      (w.setArr a (splice (w.mem a) off bs)) =
      (.ok (), w.setArr a (splice (w.mem a) off (bs ++ zeros (n - bs.length)))) := by
    rw [store_run (by
        rw [World.setArr_mem, splice_length (by omega), zeros_length]
        omega), World.setArr_mem, setArr_setArr, splice_splice (by omega)]
  rw [Comp.bind_ok hcopy]
  exact hzeros

end Copies

/-! ## Texts built in a fresh array -/

/-- An array of `BUFSIZE` bytes that holds the text `t` and zeros behind it. -/
def clean (t : List Byte) : List Byte := t ++ zeros (BUFSIZE - t.length)

theorem clean_length {t : List Byte} (h : t.length ≤ BUFSIZE) : (clean t).length = BUFSIZE := by
  simp [clean]
  omega

@[simp] theorem clean_nil : clean [] = zeros BUFSIZE := rfl

theorem cstr_clean {t : List Byte} (ht : NulFree t) (h : t.length < BUFSIZE) :
    cstr (clean t) = some t := by
  obtain ⟨k, hk⟩ : ∃ k, BUFSIZE - t.length = k + 1 := ⟨BUFSIZE - t.length - 1, by omega⟩
  rw [clean, hk, zeros_succ]
  exact cstr_terminated ht _

/-- Appending a string to a clean text leaves a clean text. -/
theorem splice_clean {t s : List Byte} (h : t.length + s.length < BUFSIZE) :
    splice (clean t) t.length (s ++ [0]) = clean (t ++ s) := by
  obtain ⟨k, hk⟩ : ∃ k, BUFSIZE = t.length + s.length + 1 + k :=
    ⟨BUFSIZE - (t.length + s.length + 1), by omega⟩
  have h1 : BUFSIZE - t.length = s.length + 1 + k := by omega
  have h2 : BUFSIZE - (t ++ s).length = 1 + k := by simp; omega
  rw [clean, clean, h1, h2, zeros_add, zeros_add 1 k, ← List.append_assoc,
    splice_replace (by simp)]
  simp [zeros]

theorem clean_splice {l s : List Byte} (h : l = zeros BUFSIZE) (hs : s.length < BUFSIZE) :
    splice l 0 (s ++ [0]) = clean s := by
  subst h
  exact splice_clean (t := []) (by simpa using hs)

theorem isStr_clean {w : World} {a : Arr} {t : List Byte} (hw : w.mem a = clean t)
    (ht : NulFree t) (h : t.length < BUFSIZE) : IsStr w a.ptr t := by
  unfold IsStr
  simpa [hw] using cstr_clean ht h

/-- One `strcat` onto a clean text. -/
theorem strcat_clean [Libc] {w : World} {a : Arr} {t s : List Byte} {src : Ptr} (ht : NulFree t)
    (hs : IsStr w src s) (hsrc : src.blk ≠ .arr a) (h : t.length + s.length < BUFSIZE) :
    (strcat a.ptr src).run (w.setArr a (clean t)) = (.ok (), w.setArr a (clean (t ++ s))) := by
  have hd : IsStr (w.setArr a (clean t)) a.ptr t :=
    isStr_clean (World.setArr_mem ..) ht (by omega)
  have hs' : IsStr (w.setArr a (clean t)) src s := (isStr_setArr hsrc).mpr hs
  have hlen : t.length + (s.length + 1) ≤ ((w.setArr a (clean t)).mem a).length := by
    rw [World.setArr_mem, clean_length (by omega)]
    omega
  unfold strcat
  rw [Comp.bind_ok (strlen_run hd)]
  have hp : a.ptr + t.length = ⟨.arr a, t.length⟩ := by rw [a.ptr_add]
  rw [hp, strcpy_run hs' hsrc hlen, World.setArr_mem, setArr_setArr, splice_clean h]

/-! ## `writeNet` and `sendMessage` -/

theorem countDigits_eq (n : Nat) : countDigits n = (dec n).length := by
  induction n using Nat.base_induction 10 (by decide) with
  | single m hm =>
      rw [dec_of_lt hm, countDigits, if_pos (by omega)]
      rfl
  | digit m k hk hm ih =>
      have h1 : (10 * m + k) / 10 = m := by omega
      rw [dec_append hm hk, List.length_append, ← ih, dec_of_lt hk, countDigits, h1,
        if_neg (by omega)]
      rfl

theorem dec_length_le {n k : Nat} (hk : 0 < k) (h : n < 10 ^ k) : (dec n).length ≤ k := by
  unfold dec
  rw [List.length_map]
  exact (Nat.length_toDigits_le_iff (by decide) hk).mpr h

/-- The length test of `writeNet` passes for every string that fits, in both evaluation orders. -/
theorem writeNet_test {len : Nat} (h : len ≤ 4089) (o : EvalOrder) :
    len < subSize BUFSIZE (digitsSeen o BUFSIZE len) := by
  have hd : ∀ n, n ≤ 4096 → countDigits n ≤ 4 := by
    intro n hn
    rw [countDigits_eq]
    exact dec_length_le (by decide) (by omega)
  have h1 := hd BUFSIZE (by decide)
  have h2 := hd len (by omega)
  cases o <;> simp only [subSize, digitsSeen, BUFSIZE] at * <;> omega

/-- An array after `memset`. -/
theorem memset_run {w : World} {a : Arr} (ha : (w.mem a).length = BUFSIZE) :
    (memset a.ptr BUFSIZE).run w = (.ok (), w.setArr a (clean [])) := by
  have hz : splice (w.mem a) 0 (zeros BUFSIZE) = clean [] := by
    rw [splice_zero, zeros_length, ← ha, List.drop_length]
    simp [ha]
  unfold memset
  rw [show a.ptr = ⟨.arr a, 0⟩ from rfl, store_run (by rw [zeros_length, ha]; omega), hz]

/-- A text written into an empty array. -/
theorem store_clean {w : World} {a : Arr} {t : List Byte} (h : t.length < BUFSIZE) :
    (store a.ptr (t ++ [0])).run (w.setArr a (clean [])) = (.ok (), w.setArr a (clean t)) := by
  rw [show a.ptr = ⟨.arr a, 0⟩ from rfl, store_run (by
      rw [World.setArr_mem, clean_length (by simp), List.length_append, List.length_singleton]
      omega), World.setArr_mem, setArr_setArr, clean_splice clean_nil h]

/-- `writeNet` leaves the netstring in `dest` and returns one less than its length. -/
theorem writeNet_run [Libc] {w : World} {a : Arr} {src : Ptr} {s : List Byte} (hs : IsStr w src s)
    (hsrc : src.blk ≠ .arr a) (ha : (w.mem a).length = BUFSIZE) (hlen : s.length ≤ 4089) :
    (writeNet a.ptr BUFSIZE src).run w =
      (.ok (s.length + (dec s.length).length + 1), w.setArr a (clean (enc s))) := by
  have hd4 : (dec s.length).length ≤ 4 := dec_length_le (by decide) (by omega)
  have hB : BUFSIZE = 4096 := rfl
  have hs1 : IsStr (w.setArr a (clean [])) src s := (isStr_setArr hsrc).mpr hs
  have hn1 : NulFree (dec s.length ++ [colon]) :=
    nulFree_append.mpr ⟨dec_nulFree _, by decide⟩
  unfold writeNet
  rw [Comp.bind_ok (memset_run ha), Comp.bind_ok (strlen_run hs1), Comp.gets_bind]
  rw [if_pos (writeNet_test hlen _), Comp.bind_ok (store_clean (by
      simp only [List.length_append, List.length_singleton]; omega)),
    Comp.bind_ok (strcat_clean hn1 hs hsrc (by
      simp only [List.length_append, List.length_singleton]; omega)),
    Comp.bind_ok (strcat_clean (nulFree_append.mpr ⟨hn1, hs.nulFree⟩) (isStr_lit (by decide))
      (by simp [litPtr]) (by
        simp only [List.length_append, List.length_singleton, lit, List.length_map]
        have : (",".toList).length = 1 := by decide
        omega))]
  have henc : dec s.length ++ [colon] ++ s ++ lit "," = enc s := by
    rw [show lit "," = [comma] from by decide]
    simp [enc]
  rw [henc, countDigits_eq]
  rfl

/-- `sendMessage` writes exactly the netstring of its string. -/
theorem sendMessage_run [Libc] {w : World} {a : Arr} (fd : Fd) {src : Ptr} {s : List Byte}
    (hs : IsStr w src s) (hsrc : src.blk ≠ .arr a) (ha : (w.mem a).length = BUFSIZE)
    (hlen : s.length ≤ 4089) :
    (sendMessage fd src a.ptr).run w =
      (.ok (), (w.setArr a (clean (enc s))).note (.write fd (enc s))) := by
  have hd4 : (dec s.length).length ≤ 4 := dec_length_le (by decide) (by omega)
  have hl := enc_length s
  have hB : BUFSIZE = 4096 := rfl
  unfold sendMessage
  rw [Comp.bind_ok (writeNet_run hs hsrc ha hlen)]
  have hcnt : s.length + (dec s.length).length + 1 + 1 = (enc s).length := by omega
  rw [hcnt, writeFd]
  rw [Comp.gets_bind]
  simp only [Arr.ptr_blk, Arr.ptr_off, World.block_arr, World.setArr_mem, List.drop_zero]
  rw [if_pos (by rw [clean_length (by omega)]; omega), note_run, clean, List.take_left]

/-! ## `checkMessage` -/

/-- The text of the client's own error message. -/
def expectedText (want act : List Byte) : List Byte :=
  lit "E " ++ lit "expected: \"" ++ want ++ lit "\" but received: \"" ++ act ++ lit "\""

theorem expectedText_length (want act : List Byte) :
    (expectedText want act).length = want.length + act.length + 31 := by
  have h1 : (lit "E ").length = 2 := by decide
  have h2 : (lit "expected: \"").length = 11 := by decide
  have h3 : (lit "\" but received: \"").length = 17 := by decide
  have h4 : (lit "\"").length = 1 := by decide
  simp only [expectedText, List.length_append, h1, h2, h3, h4]
  omega

theorem expectedText_nulFree {want act : List Byte} (hw : NulFree want) (ha : NulFree act) :
    NulFree (expectedText want act) := by
  simp only [expectedText, nulFree_append]
  exact ⟨⟨⟨⟨⟨by decide, by decide⟩, hw⟩, by decide⟩, ha⟩, by decide⟩

/-- What stands in the array before each of the pieces behind the first. -/
theorem expectedText_pieces {want act : List Byte} (hw : NulFree want) (ha : NulFree act) :
    NulFree (lit "E ") ∧ NulFree (lit "E " ++ lit "expected: \"") ∧
      NulFree (lit "E " ++ lit "expected: \"" ++ want) ∧
      NulFree (lit "E " ++ lit "expected: \"" ++ want ++ lit "\" but received: \"") ∧
      NulFree (lit "E " ++ lit "expected: \"" ++ want ++ lit "\" but received: \"" ++ act) := by
  have n5 := (nulFree_append.mp (expectedText_nulFree hw ha)).1
  have n4 := (nulFree_append.mp n5).1
  have n3 := (nulFree_append.mp n4).1
  have n2 := (nulFree_append.mp n3).1
  exact ⟨(nulFree_append.mp n2).1, n2, n3, n4, n5⟩

variable [Libc]

/-- The expected message: the check is noted and the client goes on. -/
theorem checkMessage_same {w : World} {fd : Fd} {expected actual : Ptr} {s : List Byte}
    (hx : IsStr w expected s) (ha : IsStr w actual s) (hE : s.headD 0 ≠ letterE) :
    (checkMessage fd expected actual).run w = (.ok (), w.note (.check fd s s)) := by
  unfold checkMessage
  rw [Comp.bind_ok (strAt_run ha), Comp.bind_ok (strAt_run hx), Comp.bind_ok (note_run _ _),
    Comp.bind_ok (charAt_run (isStr_note.mpr ha)), if_neg hE, if_neg (fun h => h rfl)]
  rfl

/-- An error message of the server: it is printed, and the client goes on all the same. -/
theorem checkMessage_error {w : World} (fd : Fd) {expected actual : Ptr} {want act why : List Byte}
    (hx : IsStr w expected want) (ha : IsStr w actual act) (hE : act.headD 0 = letterE)
    (hy : IsStr w (actual + 2) why) :
    (checkMessage fd expected actual).run w =
      (.ok (), (w.note (.check fd want act)).note (.print (lit "Error: " ++ why))) := by
  unfold checkMessage
  rw [Comp.bind_ok (strAt_run ha), Comp.bind_ok (strAt_run hx), Comp.bind_ok (note_run _ _),
    Comp.bind_ok (charAt_run (isStr_note.mpr ha)), if_pos hE,
    Comp.bind_ok (strAt_run (isStr_note.mpr hy)), note_run]

/-- What `checkMessage` does with any other message. -/
def refuse (fd : Fd) (expected actual : Ptr) : Run Unit := do
  declare .errmsg BUFSIZE
  strcpy Arr.errmsg.ptr (litPtr "E ")
  strcat Arr.errmsg.ptr (litPtr "expected: \"")
  strcat Arr.errmsg.ptr expected
  strcat Arr.errmsg.ptr (litPtr "\" but received: \"")
  strcat Arr.errmsg.ptr actual
  strcat Arr.errmsg.ptr (litPtr "\"")
  sendMessage fd Arr.errmsg.ptr actual
  let why ← strAt (Arr.errmsg.ptr + 2)
  note (.print (lit "Error: " ++ why))
  exit (-1)

theorem checkMessage_refuses {w : World} {fd : Fd} {expected actual : Ptr} {want act : List Byte}
    (hx : IsStr w expected want) (ha : IsStr w actual act) (hE : act.headD 0 ≠ letterE)
    (hne : want ≠ act) :
    (checkMessage fd expected actual).run w =
      (refuse fd expected actual).run (w.note (.check fd want act)) := by
  unfold checkMessage
  rw [Comp.bind_ok (strAt_run ha), Comp.bind_ok (strAt_run hx), Comp.bind_ok (note_run _ _),
    Comp.bind_ok (charAt_run (isStr_note.mpr ha)), if_neg hE, if_pos hne]
  rfl

/-- The error text begins in a fresh array. -/
theorem errmsg_start (w : World) :
    (strcpy Arr.errmsg.ptr (litPtr "E ")).run (w.setArr .errmsg (zeros BUFSIZE)) =
      (.ok (), w.setArr .errmsg (clean (lit "E "))) := by
  have hB : BUFSIZE = 4096 := rfl
  have h1 : (lit "E ").length = 2 := by decide
  rw [show Arr.errmsg.ptr = ⟨.arr .errmsg, 0⟩ from rfl, strcpy_run (isStr_lit (by decide))
    (litPtr_apart _ _) (by
    rw [World.setArr_mem, zeros_length]; omega), World.setArr_mem, setArr_setArr,
    clean_splice rfl (by omega)]

/-- The error text, piece by piece. -/
theorem errmsg_run {α : Type} {w : World} {expected actual : Ptr} {want act : List Byte}
    (hx : IsStr w expected want) (ha : IsStr w actual act) (hxe : expected.blk ≠ .arr .errmsg)
    (hae : actual.blk ≠ .arr .errmsg) (hlen : want.length + act.length + 31 < BUFSIZE)
    (k : Run α) :
    (do
      strcpy Arr.errmsg.ptr (litPtr "E ")
      strcat Arr.errmsg.ptr (litPtr "expected: \"")
      strcat Arr.errmsg.ptr expected
      strcat Arr.errmsg.ptr (litPtr "\" but received: \"")
      strcat Arr.errmsg.ptr actual
      strcat Arr.errmsg.ptr (litPtr "\"")
      k).run (w.setArr .errmsg (zeros BUFSIZE)) =
        k.run (w.setArr .errmsg (clean (expectedText want act))) := by
  have hB : BUFSIZE = 4096 := rfl
  have hlit : ∀ s : String, (litPtr s).blk ≠ .arr .errmsg := fun s => by simp [litPtr]
  have h1 : (lit "E ").length = 2 := by decide
  have h2 : (lit "expected: \"").length = 11 := by decide
  have h3 : (lit "\" but received: \"").length = 17 := by decide
  have h4 : (lit "\"").length = 1 := by decide
  obtain ⟨n1, n2, n3, n4, n5⟩ := expectedText_pieces hx.nulFree ha.nulFree
  rw [Comp.bind_ok (errmsg_start w),
    Comp.bind_ok (strcat_clean n1 (isStr_lit (by decide)) (hlit _) (by omega)),
    Comp.bind_ok (strcat_clean n2 hx hxe (by simp only [List.length_append]; omega)),
    Comp.bind_ok (strcat_clean n3 (isStr_lit (by decide)) (hlit _)
      (by simp only [List.length_append]; omega)),
    Comp.bind_ok (strcat_clean n4 ha hae (by simp only [List.length_append]; omega)),
    Comp.bind_ok (strcat_clean n5 (isStr_lit (by decide)) (hlit _)
      (by simp only [List.length_append]; omega))]
  rfl

/-- Any other message: one error netstring, a line on the terminal, and exit. -/
theorem checkMessage_refuse {w : World} (fd : Fd) {expected : Ptr} {a : Arr}
    {want act : List Byte} (hx : IsStr w expected want) (ha : IsStr w a.ptr act)
    (hE : act.headD 0 ≠ letterE) (hne : want ≠ act) (hsize : (w.mem a).length = BUFSIZE)
    (hxe : expected.blk ≠ .arr .errmsg) (hae : a ≠ .errmsg)
    (hlen : want.length + act.length ≤ 4058) :
    ∃ w', (checkMessage fd expected a.ptr).run w = (.error (.exit (-1)), w') ∧
      w'.log = w.log ++ [.check fd want act, .write fd (enc (expectedText want act)),
        .print (lit "Error: " ++ (expectedText want act).drop 2)] := by
  set w1 := w.note (.check fd want act) with hw1
  have hB : BUFSIZE = 4096 := rfl
  have hx1 : IsStr w1 expected want := isStr_note.mpr hx
  have ha1 : IsStr w1 a.ptr act := isStr_note.mpr ha
  have h1 : (lit "E ").length = 2 := by decide
  set text := expectedText want act with htext
  have htn : NulFree text := expectedText_nulFree hx.nulFree ha.nulFree
  have htl : text.length = want.length + act.length + 31 := expectedText_length want act
  set w2 := w1.setArr .errmsg (clean text) with hw2
  have hstr : IsStr w2 Arr.errmsg.ptr text :=
    isStr_clean (World.setArr_mem ..) htn (by omega)
  have hsz : (w2.mem a).length = BUFSIZE := by
    rw [hw2, World.setArr_mem_of_ne _ _ hae]
    exact hsize
  have hsend := sendMessage_run fd (a := a) hstr
    (by simpa using fun h => hae h.symm) hsz (by omega)
  set w3 := (w2.setArr a (clean (enc text))).note (.write fd (enc text)) with hw3
  have hstr3 : IsStr w3 Arr.errmsg.ptr text :=
    isStr_note.mpr ((isStr_setArr (by simpa using fun h => hae h.symm)).mpr hstr)
  have hsplit : text = lit "E " ++ text.drop 2 := by
    rw [htext, expectedText, List.append_assoc, List.append_assoc, List.append_assoc,
      List.append_assoc, ← h1, List.drop_left]
  have hy : IsStr w3 (Arr.errmsg.ptr + 2) (text.drop 2) := by
    have := IsStr.add (s := lit "E ") (t := text.drop 2) (hsplit ▸ hstr3)
    rwa [h1] at this
  refine ⟨w3.note (.print (lit "Error: " ++ text.drop 2)), ?_, ?_⟩
  · rw [checkMessage_refuses hx ha hE hne, refuse, ← hw1, Comp.bind_ok (declare_run _ _ _),
      errmsg_run hx1 ha1 hxe (by simpa using hae) (by omega), ← htext, ← hw2,
      Comp.bind_ok hsend, Comp.bind_ok (strAt_run hy), Comp.bind_ok (note_run _ _)]
    rfl
  · simp [hw3, hw2, hw1]

end Grnvs.Ascii
