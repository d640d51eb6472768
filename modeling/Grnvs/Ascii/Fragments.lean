/-
  A netstring in pieces.

  The refill loop of `readNet` counts the announced length against the whole text, and reads each
  further piece over the one before it in a buffer it never clears. What it puts together is
  `gather`: every piece laid over the piece before, until the text is as long as the payload.
  `recvMessage` returns the message exactly when this text is the netstring up to its last byte and
  shows a comma (`Reassembled`). For a payload without a comma that is a matter of the lengths of
  the pieces alone (`WellCut`).
-/
import Grnvs.Ascii.Batch
import Mathlib.Data.List.Chain

namespace Grnvs.Ascii

open Bytes Decimal Netstring

/-! ## What the refill loop gathers -/

/-- `c` written over the front of `old`. -/
def overlay (c old : List Byte) : List Byte := c ++ old.drop c.length

theorem overlay_nulFree {c old : List Byte} (hc : NulFree c) (ho : NulFree old) :
    NulFree (overlay c old) := nulFree_append.mpr ⟨hc, ho.drop _⟩

theorem overlay_length (c old : List Byte) :
    (overlay c old).length = max c.length old.length := by
  simp only [overlay, List.length_append, List.length_drop]
  omega

/-- A piece at least as long hides the old one. -/
theorem overlay_of_le {c old : List Byte} (h : old.length ≤ c.length) : overlay c old = c := by
  rw [overlay, List.drop_of_length_le h, List.append_nil]

/-- What the pieces `cs` add to a text of `len` bytes that is to hold `n`, when `old` is the piece
    before them. -/
def gather (n : Nat) : Nat → List Byte → List (List Byte) → List Byte
  | _, _, [] => []
  | len, old, c :: cs =>
      if len < n then
        let s := overlay (c.take (n - old.length)) old
        s ++ gather n (len + s.length) s cs
      else []

theorem gather_enough {n len : Nat} {old : List Byte} {cs : List (List Byte)} (h : n ≤ len) :
    gather n len old cs = [] := by
  cases cs with
  | nil => rfl
  | cons c cs => rw [gather, if_neg (by omega)]

/-- A piece is only read while the text is shorter than the payload. -/
theorem gather_lt_of_mem {n len : Nat} {old : List Byte} {cs : List (List Byte)} {b : Byte}
    (h : b ∈ gather n len old cs) : len < n := by
  by_contra hge
  rw [gather_enough (by omega)] at h
  cases h

/-- The text never grows to twice the payload. -/
theorem gather_length_lt {n len : Nat} (old : List Byte) (cs : List (List Byte))
    (ho : old.length ≤ n) (hl : len < n) :
    len + (gather n len old cs).length < 2 * n := by
  induction cs generalizing len old with
  | nil =>
      rw [gather, List.length_nil]
      omega
  | cons c cs ih =>
      rw [gather, if_pos hl]
      dsimp only
      set s := overlay (c.take (n - old.length)) old with hs
      have hsl : s.length ≤ n := by
        rw [hs, overlay_length, List.length_take]
        omega
      rw [List.length_append]
      by_cases hn : len + s.length < n
      · have := ih s hsl hn
        omega
      · rw [gather_enough (by omega), List.length_nil]
        omega

theorem gather_nulFree {n len : Nat} {old : List Byte} {cs : List (List Byte)} (ho : NulFree old)
    (hcs : ∀ c ∈ cs, NulFree c) : NulFree (gather n len old cs) := by
  induction cs generalizing len old with
  | nil => exact List.not_mem_nil
  | cons c cs ih =>
      have hs := overlay_nulFree ((hcs c (List.mem_cons_self ..)).take (n - old.length)) ho
      rw [gather]
      split
      · exact nulFree_append.mpr ⟨hs, ih hs fun x hx => hcs x (List.mem_cons_of_mem _ hx)⟩
      · exact List.not_mem_nil

section Refill

variable {w : World} {fd : Fd} {fuel n : Nat} {rest : List (Option (List Byte))} {e : Ending}

/-- Reading into `scratch` leaves what the piece does not reach. -/
theorem readFd_scratch {bs old : List Byte} {p : Peer} {count : Nat}
    (hread : (w.net fd).read count = (some bs, p)) (hmem : w.mem .scratch = clean old)
    (hbs : bs.length ≤ BUFSIZE) (hold : old.length ≤ BUFSIZE) :
    (readFd fd Arr.scratch.ptr count).run w = (.ok (bs.length : Int),
      ((w.setNet fd p).note (.read fd count (some bs))).setArr .scratch
        (clean (overlay bs old))) := by
  have hl : (overlay bs old).length = max bs.length old.length := overlay_length _ _
  have hsp : bs ++ (clean old).drop bs.length = clean (overlay bs old) := by
    rw [clean, clean, hl, overlay, List.drop_append, drop_zeros, List.append_assoc]
    congr 3
    omega
  unfold readFd
  rw [Comp.gets_bind, hread]
  dsimp only
  rw [Comp.modify_bind, Comp.bind_ok (store_start (by
    rw [World.note_mem, World.setNet_mem, hmem, clean_length hold]
    exact hbs)), World.note_mem, World.setNet_mem, hmem, hsp, Comp.pure_run]

variable [Libc]

variable (fuel) in
/-- A turn of the refill loop appends `scratch` whole, what was left of the piece before it
    included. -/
theorem refill_turn {t old bs : List Byte} {p : Peer} (hbuf : w.mem .buf = clean t)
    (hscr : w.mem .scratch = clean old) (ht : NulFree t) (ho : NulFree old)
    (hbs : NulFree bs) (hlt : t.length < n) (hon : old.length ≤ n) (hn : n < BUFSIZE)
    (hroom : t.length + (overlay bs old).length < BUFSIZE)
    (hread : (w.net fd).read (n - old.length) = (some bs, p)) :
    ∃ w', (refill fd Arr.buf.ptr n (fuel + 1)).run w = (refill fd Arr.buf.ptr n fuel).run w' ∧
      w'.mem .buf = clean (t ++ overlay bs old) ∧ w'.mem .scratch = clean (overlay bs old) ∧
      w'.net fd = p ∧ ∀ b, b ≠ .buf → b ≠ .scratch → w'.mem b = w.mem b := by
  have hB : BUFSIZE = 4096 := rfl
  have hs : IsStr w Arr.buf.ptr t := by simpa [IsStr, hbuf] using cstr_clean ht (by omega)
  have hso : IsStr w Arr.scratch.ptr old := by
    simpa [IsStr, hscr] using cstr_clean ho (by omega)
  have hcount : subSize n old.length = n - old.length := by
    unfold subSize
    omega
  have hsl : (overlay bs old).length = max bs.length old.length := overlay_length _ _
  have hsn : NulFree (overlay bs old) := overlay_nulFree hbs ho
  have hrd := readFd_scratch hread hscr (by omega) (by omega)
  set w1 := ((w.setNet fd p).note (.read fd (n - old.length) (some bs))).setArr .scratch
    (clean (overlay bs old)) with hw1
  have hb1 : w1.mem .buf = clean t := by
    rw [hw1, World.setArr_mem_of_ne _ _ (by decide), World.note_mem, World.setNet_mem, hbuf]
  have hs1 : IsStr w1 Arr.scratch.ptr (overlay bs old) := by
    simpa [IsStr, hw1] using cstr_clean hsn (by omega)
  have ht1 : IsStr w1 Arr.buf.ptr t := by simpa [IsStr, hb1] using cstr_clean ht (by omega)
  have hcat : (strcat Arr.buf.ptr Arr.scratch.ptr).run w1 =
      (.ok (), w1.setArr .buf (clean (t ++ overlay bs old))) := by
    unfold strcat
    rw [Comp.bind_ok (strlen_run ht1), Arr.ptr_add, strcpy_run hs1 (by decide) (by
      rw [hb1, clean_length (by omega)]
      omega), hb1, splice_clean (by omega)]
  refine ⟨w1.setArr .buf (clean (t ++ overlay bs old)), ?_, World.setArr_mem .., ?_, ?_, ?_⟩
  · rw [refill, Comp.bind_ok (strlen_run hs), if_pos hlt]
    dsimp only
    rw [Comp.bind_ok (strlen_run hso), hcount, Comp.bind_ok hrd, if_neg (by omega),
      Comp.bind_ok hcat]
  · rw [World.setArr_mem_of_ne _ _ (by decide), hw1, World.setArr_mem]
  · rw [World.setArr_net, hw1, World.setArr_net, World.note_net, World.setNet_net]
  · intro b h1 h2
    rw [World.setArr_mem_of_ne _ _ h1, hw1, World.setArr_mem_of_ne _ _ h2, World.note_mem,
      World.setNet_mem]

variable (fuel) in
/-- The refill loop on pieces that hold enough. -/
theorem refill_gather {cs : List (List Byte)} {t : List Byte} (old : List Byte)
    (hbuf : w.mem .buf = clean t)
    (hscr : w.mem .scratch = clean old) (hnet : w.net fd = ⟨cs.map some ++ rest, e⟩)
    (ht : NulFree t) (ho : NulFree old) (hcs : ∀ c ∈ cs, NulFree c) (hot : old.length ≤ t.length)
    (hn : n ≤ t.length + cs.flatten.length) (hn2 : 2 * n ≤ BUFSIZE) (htB : t.length < BUFSIZE)
    (hfuel : cs.length < fuel) :
    ∃ w', (refill fd Arr.buf.ptr n fuel).run w = (.ok (), w') ∧
      w'.mem .buf = clean (t ++ gather n t.length old cs) ∧
      ∀ b, b ≠ .buf → b ≠ .scratch → w'.mem b = w.mem b := by
  have hB : BUFSIZE = 4096 := rfl
  induction cs generalizing w t old fuel with
  | nil =>
      obtain ⟨f, rfl⟩ : ∃ f, fuel = f + 1 := ⟨fuel - 1, by simp at hfuel; omega⟩
      have hs : IsStr w Arr.buf.ptr t := by simpa [IsStr, hbuf] using cstr_clean ht htB
      refine ⟨w, refill_enough hs (by simpa using hn), ?_, fun _ _ _ => rfl⟩
      rw [gather, List.append_nil, hbuf]
  | cons c cs ih =>
      obtain ⟨f, rfl⟩ : ∃ f, fuel = f + 1 := ⟨fuel - 1, by simp at hfuel; omega⟩
      by_cases henough : n ≤ t.length
      · have hs : IsStr w Arr.buf.ptr t := by simpa [IsStr, hbuf] using cstr_clean ht htB
        refine ⟨w, refill_enough hs henough, ?_, fun _ _ _ => rfl⟩
        rw [gather_enough henough, List.append_nil, hbuf]
      -- one read, cut at the count
      obtain ⟨p, hread, hp⟩ : ∃ p,
          (w.net fd).read (n - old.length) = (some (c.take (n - old.length)), p) ∧
          (c.length ≤ n - old.length → p = ⟨cs.map some ++ rest, e⟩) := by
        rw [hnet, List.map_cons, List.cons_append]
        by_cases hle : c.length ≤ n - old.length
        · exact ⟨_, by rw [Peer.read_whole hle, List.take_of_length_le hle], fun _ => rfl⟩
        · exact ⟨_, Peer.read_cut (by omega), fun h => absurd h hle⟩
      have hcn : NulFree (c.take (n - old.length)) := (hcs c (List.mem_cons_self ..)).take _
      set s := overlay (c.take (n - old.length)) old with hs
      have hsl : s.length = max (min (n - old.length) c.length) old.length := by
        rw [hs, overlay_length, List.length_take]
      have hsn : NulFree s := overlay_nulFree hcn ho
      have htsl : (t ++ s).length = t.length + s.length := List.length_append
      have htn : NulFree (t ++ s) := nulFree_append.mpr ⟨ht, hsn⟩
      obtain ⟨w2, hstep, hbuf2, hscr2, hnet2, hmem2⟩ := refill_turn f hbuf hscr ht ho hcn
        (by omega) (by omega) (by omega) (by rw [← hs]; omega) hread
      rw [← hs] at hbuf2 hscr2
      have hg : t ++ gather n t.length old (c :: cs) =
          (t ++ s) ++ gather n (t ++ s).length s cs := by
        rw [gather, if_pos (by omega), List.append_assoc, List.length_append]
      rw [hg, hstep]
      by_cases hcut : c.length ≤ n - old.length
      · rw [List.flatten_cons, List.length_append] at hn
        obtain ⟨w', hr, hm, hf⟩ := ih f s hbuf2 hscr2 (hnet2.trans (hp hcut)) htn hsn
          (fun x hx => hcs x (List.mem_cons_of_mem _ hx))
          (by omega) (by omega) (by omega) (by simp at hfuel; omega)
        exact ⟨w', hr, hm, fun b h1 h2 => (hf b h1 h2).trans (hmem2 b h1 h2)⟩
      · -- a piece longer than the count completes the text
        obtain ⟨f', rfl⟩ : ∃ f', f = f' + 1 := ⟨f - 1, by simp at hfuel; omega⟩
        have hs2 : IsStr w2 Arr.buf.ptr (t ++ s) := by
          simpa [IsStr, hbuf2] using cstr_clean htn (by omega)
        refine ⟨w2, refill_enough hs2 (by omega), ?_, hmem2⟩
        rw [gather_enough (by omega), List.append_nil]
        exact hbuf2

end Refill

/-! ## Counting turns -/

/-- The result of the loop counts its turns. -/
theorem recvLoop_nets [Libc] {fd : Fd} {dst : Ptr} {fuel pos nets : Nat} {w w' : World} {v : Int}
    (h : (recvLoop fd dst fuel pos nets).run w = (.ok v, w')) : (nets : Int) ≤ v := by
  induction fuel generalizing pos nets w with
  | zero => cases h
  | succ fuel ih =>
      rw [recvLoop] at h
      obtain ⟨c, w1, _, h⟩ := Comp.bind_eq_ok h
      split at h
      · obtain ⟨_, _, _, h⟩ := Comp.bind_eq_ok h
        obtain ⟨_, _, _, h⟩ := Comp.bind_eq_ok h
        have := ih h
        omega
      · cases h
        exact Int.le_refl _

/-- A text that is left over counts at least once more. -/
theorem recvLoop_nets_succ [Libc] {fd : Fd} {dst : Ptr} {fuel pos nets : Nat} {w w' : World}
    {v : Int} {t : List Byte} (hs : IsStr w Arr.buf.ptr t) (hne : t ≠ [])
    (h : (recvLoop fd dst fuel pos nets).run w = (.ok v, w')) : (nets : Int) + 1 ≤ v := by
  rcases fuel with _ | fuel
  · cases h
  · rw [recvLoop, Comp.bind_ok (charAt_run hs), if_pos (headD_ne_zero hs.nulFree hne)] at h
    obtain ⟨_, _, _, h⟩ := Comp.bind_eq_ok h
    obtain ⟨_, _, _, h⟩ := Comp.bind_eq_ok h
    have := recvLoop_nets h
    omega

/-! ## One netstring in pieces -/

/-- What `readNet` puts together from the pieces. -/
def gathered (m c0 : List Byte) (cs : List (List Byte)) : List Byte :=
  c0 ++ gather m.length c0.length [] cs

/-- The length is in the first piece, and the text put together is the netstring up to its last
    byte, no longer than it, with a comma somewhere. -/
structure Reassembled (m c0 : List Byte) (cs : List (List Byte)) : Prop where
  start : (dec m.length).length < c0.length
  agrees : (dec m.length ++ colon :: m) <+: gathered m c0 cs
  size : (gathered m c0 cs).length ≤ (enc m).length
  closed : comma ∈ gathered m c0 cs

section Pieces

variable {w : World} {fd : Fd} {a : Arr} {m c0 : List Byte} {cs : List (List Byte)}
  {rest : List (Option (List Byte))} {e : Ending} {fuel : Nat}

variable (fd) in
/-- A text that begins with a digit is refused when it is not framed. -/
theorem check_format [Libc] {t : List Byte} (hs : IsStr w Arr.buf.ptr t)
    (hd : IsDigit (t.headD 0)) (hlen : t.length ≤ 4000) (hsize : (w.mem .buf).length = BUFSIZE) :
    ∃ e w', (checkMessage fd (litPtr "String in netstring format") Arr.buf.ptr).run w =
      (.error e, w') := by
  have hE : t.headD 0 ≠ letterE := fun h => absurd (h ▸ hd) (by decide)
  have hne : lit "String in netstring format" ≠ t := by
    rintro rfl
    exact absurd hd (by decide)
  obtain ⟨w', hr, _⟩ := checkMessage_refuse fd (isStr_lit (w := w)
    (s := "String in netstring format") (by decide)) hs hE hne hsize (by simp [litPtr]) (by decide)
    (by have : (lit "String in netstring format").length = 26 := by decide
        omega)
  exact ⟨_, w', hr⟩

variable (fd a fuel) in
/-- A first piece that ends inside the length is refused. -/
theorem recvLoop_short [Libc] (hb : w.mem .buf = clean c0) (hne : c0 ≠ []) (hlen : c0.length ≤ 4000)
    (hd : ∀ b ∈ c0, IsDigit b) (pos nets : Nat) :
    ∃ e w', (recvLoop fd a.ptr fuel pos nets).run w = (.error e, w') := by
  have hB : BUFSIZE = 4096 := rfl
  have hn : NulFree c0 := fun h => absurd (hd 0 h) (by decide)
  have hs : IsStr w Arr.buf.ptr c0 := by simpa [IsStr, hb] using cstr_clean hn (by omega)
  rcases fuel with _ | fuel
  · exact ⟨_, _, rfl⟩
  obtain ⟨b, hr, hbr⟩ := formatBroken_run hs
  have hcolon : find colon c0 = none :=
    find_eq_none.mpr fun h => absurd (hd colon h) (by decide)
  have htrue : b = true := by
    rcases b with _ | _
    · obtain ⟨i, hi, _⟩ := hbr.mp rfl
      rw [hcolon] at hi
      cases hi
    · rfl
  subst htrue
  obtain ⟨x, xs, rfl⟩ := List.exists_cons_of_ne_nil hne
  obtain ⟨e, w', hc⟩ := check_format fd hs (hd x (List.mem_cons_self ..)) hlen
    (by rw [hb, clean_length (by omega)])
  refine ⟨e, w', ?_⟩
  rw [recvLoop, Comp.bind_ok (charAt_run hs), if_pos (headD_ne_zero hn hne), readNet]
  refine Comp.bind_error ?_
  rw [Comp.bind_ok hr, Comp.when_pos rfl]
  exact Comp.bind_error hc

/-- Behind a length and its colon, a text is framed when it has a comma. -/
theorem framed_dec {n : Nat} {x : List Byte} :
    framed (dec n ++ colon :: x) = true ↔ comma ∈ dec n ++ colon :: x := by
  rw [framed_iff]
  constructor
  · rintro ⟨i, j, _, hj, _⟩
    by_contra h
    rw [find_eq_none.mpr h] at hj
    cases hj
  · intro h
    have hx : comma ∈ x := by
      rcases List.mem_append.mp h with h1 | h1
      · exact absurd h1 (comma_not_mem_dec n)
      · rcases List.mem_cons.mp h1 with h2 | h2
        · exact absurd h2 (by decide)
        · exact h2
    rcases hj : find comma (dec n ++ colon :: x) with _ | j
    · exact absurd h (find_eq_none.mp hj)
    · refine ⟨_, j, find_colon n x, rfl, ?_⟩
      obtain ⟨p, q, hpq, _, rfl⟩ := find_eq_some.mp hj
      by_contra hle
      -- the comma would stand in the length or be the colon
      have hget : (dec n ++ colon :: x)[p.length]? = some comma := by rw [hpq]; simp
      rcases Nat.lt_or_ge p.length (dec n).length with hlt | hge
      · rw [List.getElem?_append_left hlt] at hget
        exact comma_not_mem_dec n (List.mem_of_getElem? hget)
      · obtain hp : p.length = (dec n).length := by omega
        rw [hp, List.getElem?_append_right (Nat.le_refl _), Nat.sub_self] at hget
        exact absurd (Option.some.inj hget) (by decide)

/-! What the pieces add up to. -/

theorem gathered_length_le (m c0 : List Byte) (cs : List (List Byte)) :
    (gathered m c0 cs).length ≤ max c0.length (2 * m.length) := by
  rw [gathered, List.length_append]
  rcases Nat.lt_or_ge c0.length m.length with hlt | hge
  · have := gather_length_lt [] cs (Nat.zero_le _) hlt
    omega
  · rw [gather_enough hge, List.length_nil]
    omega

theorem gathered_nulFree (h : ∀ c ∈ c0 :: cs, NulFree c) : NulFree (gathered m c0 cs) :=
  nulFree_append.mpr ⟨h c0 (List.mem_cons_self ..),
    gather_nulFree List.not_mem_nil fun c hc => h c (List.mem_cons_of_mem _ hc)⟩

theorem gathered_dec (x : List Byte) :
    gathered m (dec m.length ++ colon :: x) cs = dec m.length ++ colon ::
      (x ++ gather m.length (dec m.length ++ colon :: x).length [] cs) := by
  rw [gathered, List.append_assoc, List.cons_append]

/-- A first piece that holds the length holds the colon too. -/
theorem first_piece {n : Nat} {r s : List Byte} (h : c0 ++ r = dec n ++ colon :: s)
    (hlen : (dec n).length < c0.length) : ∃ x, c0 = dec n ++ colon :: x ∧ x ++ r = s := by
  rcases List.append_eq_append_iff.mp h with ⟨l, hl, _⟩ | ⟨l, hl, hr⟩
  · have := congrArg List.length hl
    simp only [List.length_append] at this
    omega
  · rcases l with _ | ⟨b, x⟩
    · rw [List.append_nil] at hl
      exact absurd (congrArg List.length hl) (by omega)
    · rw [List.cons_append, List.cons.injEq] at hr
      exact ⟨x, by rw [hl, hr.1], hr.2.symm⟩

/-- A first piece that does not is digits. -/
theorem first_piece_digits {n : Nat} {r s : List Byte} (h : c0 ++ r = dec n ++ s)
    (hlen : c0.length ≤ (dec n).length) : ∀ b ∈ c0, IsDigit b := by
  have htake : c0 = (dec n).take c0.length := by
    have := congrArg (List.take c0.length) h
    rwa [List.take_left, List.take_append_of_le_length hlen] at this
  intro b hb
  rw [htake] at hb
  exact dec_digit _ _ (List.mem_of_mem_take hb)

/-- A first piece that holds the length passes the first test, complete or not. -/
theorem readNet_first_piece [Libc] {n : Nat} {x : List Byte} (hpos : 0 < n) (hn : n ≤ BUFSIZE)
    (hs : IsStr w Arr.buf.ptr (dec n ++ colon :: x)) :
    (readNet fuel Arr.buf.ptr BUFSIZE Arr.buf.ptr fd 0).run w =
      (readRest fuel Arr.buf.ptr BUFSIZE Arr.buf.ptr fd (dec n).length n 0).run w := by
  have hf : (formatBroken Arr.buf.ptr).run w = (.ok false, w) := by
    obtain ⟨b, hr, hbr⟩ := formatBroken_run hs
    rw [hr, hbr.mpr ⟨_, find_colon n x, ?_⟩]
    by_cases hcm : comma ∈ dec n ++ colon :: x
    · exact .inl (framed_dec.mpr hcm)
    · exact .inr (find_eq_none.mpr hcm)
  exact readNet_dec hs hpos hn hf

variable (fuel) in
/-- `readNet` on a first piece with the whole length puts the text together and tests it again. -/
theorem readNet_pieces [Libc] {x : List Byte} (hm : Plain m) (hl : m.length ≤ 2000)
    (hc0 : c0 = dec m.length ++ colon :: x) (hcat : x ++ cs.flatten = m ++ [comma])
    (hb : w.mem .buf = clean c0) (hnet : w.net fd = ⟨cs.map some ++ rest, e⟩)
    (hfuel : cs.length < fuel) :
    ∃ w1, w1.mem .buf = clean (gathered m c0 cs) ∧
      (∀ b, b ≠ .buf → b ≠ .scratch → w1.mem b = w.mem b) ∧
      (comma ∈ gathered m c0 cs →
        (readNet fuel Arr.buf.ptr BUFSIZE Arr.buf.ptr fd 0).run w =
          (convert Arr.buf.ptr BUFSIZE Arr.buf.ptr (dec m.length).length m.length 0).run w1) ∧
      (comma ∉ gathered m c0 cs →
        ∃ e w', (readNet fuel Arr.buf.ptr BUFSIZE Arr.buf.ptr fd 0).run w = (.error e, w')) := by
  have hB : BUFSIZE = 4096 := rfl
  have hpos : 0 < m.length := List.length_pos_iff.mpr hm.ne_nil
  have hmn := hm.nulFree
  have hall : NulFree (x ++ cs.flatten) := by
    rw [hcat]
    exact nulFree_append.mpr ⟨hmn, by decide⟩
  obtain ⟨hxn, hcsn⟩ := nulFree_append.mp hall
  have hc0n : NulFree c0 := by
    rw [hc0]
    exact nulFree_append.mpr ⟨dec_nulFree _, fun h => by
      rcases List.mem_cons.mp h with h | h
      · exact absurd h (by decide)
      · exact hxn h⟩
  have hcat' := congrArg List.length hcat
  simp only [List.length_append, List.length_singleton] at hcat'
  have hd4 : (dec m.length).length ≤ 4 := dec_length_le (by decide) (by omega)
  have hc0l : c0.length = (dec m.length).length + 1 + x.length := by
    rw [hc0, List.length_append, List.length_cons]
    omega
  have hs : IsStr w Arr.buf.ptr c0 := by simpa [IsStr, hb] using cstr_clean hc0n (by omega)
  have hhead : (readNet fuel Arr.buf.ptr BUFSIZE Arr.buf.ptr fd 0).run w =
      (readRest fuel Arr.buf.ptr BUFSIZE Arr.buf.ptr fd (dec m.length).length m.length 0).run w :=
    readNet_first_piece hpos (by omega) (hc0 ▸ hs)
  -- the refill
  set w0 := w.setArr .scratch (zeros BUFSIZE) with hw0
  have hb0 : w0.mem .buf = clean c0 := by rw [hw0, World.setArr_mem_of_ne _ _ (by decide), hb]
  obtain ⟨w1, hrun, hbuf, hmem⟩ := refill_gather fuel [] (w := w0) (n := m.length) (t := c0)
    hb0 (World.setArr_mem ..) (by rw [hw0, World.setArr_net, hnet]) hc0n List.not_mem_nil
    (fun c hc h => hcsn (List.mem_flatten.mpr ⟨c, hc, h⟩)) (Nat.zero_le _)
    (by omega) (by omega) (by omega) hfuel
  change w1.mem .buf = clean (gathered m c0 cs) at hbuf
  have hTl : (gathered m c0 cs).length ≤ 4000 := by
    have := gathered_length_le m c0 cs
    omega
  have hTn : NulFree (gathered m c0 cs) := gathered_nulFree fun c hc => by
    rcases List.mem_cons.mp hc with rfl | hc
    · exact hc0n
    · exact fun h => hcsn (List.mem_flatten.mpr ⟨c, hc, h⟩)
  have hs1 : IsStr w1 Arr.buf.ptr (gathered m c0 cs) := by
    simpa [IsStr, hbuf] using cstr_clean hTn (by omega)
  have hfull := formatBrokenFull_run hs1
  have hTeq : gathered m c0 cs = dec m.length ++ colon :: (x ++ gather m.length c0.length [] cs) := by
    rw [hc0, gathered_dec]
  have hrest : (readNet fuel Arr.buf.ptr BUFSIZE Arr.buf.ptr fd 0).run w =
      (do Comp.when ((!framed (gathered m c0 cs)) = true)
            (checkMessage fd (litPtr "String in netstring format") Arr.buf.ptr)
          convert Arr.buf.ptr BUFSIZE Arr.buf.ptr (dec m.length).length m.length 0 :
            Run (Option Ptr)).run w1 := by
    rw [hhead, readRest, Comp.bind_ok (declare_run _ _ _), Comp.bind_ok hrun, Comp.bind_ok hfull]
  refine ⟨w1, hbuf, fun b h1 h2 => ?_, fun hcm => ?_, fun hcm => ?_⟩
  · rw [hmem b h1 h2, hw0, World.setArr_mem_of_ne _ _ h2]
  · rw [hTeq] at hcm
    rw [hrest, hTeq, framed_dec.mpr hcm, Comp.when_neg (by decide), Comp.pure_bind_run]
  · have hfr : framed (gathered m c0 cs) = false := by
      rw [hTeq] at hcm ⊢
      exact Bool.eq_false_iff.mpr fun h => hcm (framed_dec.mp h)
    obtain ⟨e, w', hc⟩ := check_format fd hs1 (by rw [hTeq]; exact isDigit_headD_dec _ _) hTl
      (by rw [hbuf, clean_length (by omega)])
    exact ⟨e, w', by rw [hrest, hfr, Comp.when_pos (by decide), Comp.bind_error hc]⟩

variable (fd fuel) in
/-- The turn of the loop on the text put together: the destination gets what stands in the place of
    the payload, and what stands behind the netstring is left over. -/
theorem recvLoop_gathered [Libc] [Libc.CopiesForward] {w1 : World} {t y : List Byte} (ha : a ≠ .buf)
    (hs : IsStr w Arr.buf.ptr c0)
    (hne : c0 ≠ []) (hread : (readNet fuel Arr.buf.ptr BUFSIZE Arr.buf.ptr fd 0).run w =
      (convert Arr.buf.ptr BUFSIZE Arr.buf.ptr (dec m.length).length m.length 0).run w1)
    (hb : w1.mem .buf = clean t) (hz : w1.mem a = zeros BUFSIZE)
    (ht : t = dec m.length ++ colon :: y) (htn : NulFree t) (htB : t.length ≤ 4006)
    (hl : m.length ≤ 2000) :
    ∃ w' pos, (recvLoop fd a.ptr (fuel + 1) 0 0).run w = (recvLoop fd a.ptr fuel pos 1).run w' ∧
      IsStr w' a.ptr (y.take m.length) ∧
      ∃ junk, w'.mem .buf = t.drop (enc m).length ++ 0 :: junk := by
  have hB : BUFSIZE = 4096 := rfl
  have hd4 : (dec m.length).length ≤ 4 := dec_length_le (by decide) (by omega)
  have hoff : (enc m).length = (dec m.length).length + m.length + 2 := by
    have := enc_length m
    omega
  rw [hoff]
  set off := (dec m.length).length + m.length + 2
  have htl : t.length = (dec m.length).length + 1 + y.length := by
    rw [ht, List.length_append, List.length_cons]
    omega
  have hdrop : t.drop ((dec m.length).length + 1) = y := by
    rw [ht, ← List.drop_drop, List.drop_left]
    rfl
  obtain ⟨k, hk⟩ : ∃ k, BUFSIZE - t.length = k + 1 := ⟨BUFSIZE - t.length - 1, by omega⟩
  have hb' : w1.mem .buf = t ++ 0 :: zeros k := by rw [hb, clean, hk, zeros_succ]
  obtain ⟨l, hconv, hll, hlp, hldrop⟩ := convert_parts 0 (dec m.length).length (w := w1)
    (n := m.length) hb' (by rw [hb, clean_length (by omega)]) htn (by omega) (by omega) (by omega)
  rw [hdrop] at hlp
  set w2 := w1.setArr .buf l with hw2
  have hb2 : w2.mem .buf = l := World.setArr_mem ..
  have hp2 : IsStr w2 Arr.buf.ptr (y.take m.length) := by simpa [IsStr, hb2] using hlp
  have hr2 : IsStr w2 ⟨.arr .buf, off⟩ (t.drop off) := by
    refine isStr_iff.mpr ⟨htn.drop _, zeros (BUFSIZE - max t.length off - 1), ?_⟩
    have h2 : BUFSIZE - t.length - (off - t.length) = BUFSIZE - max t.length off - 1 + 1 := by
      omega
    rw [World.block_arr, hb2, hldrop, hb, clean, List.drop_append, drop_zeros, h2, zeros_succ]
  have hz2 : w2.mem a = zeros BUFSIZE := by rw [hw2, World.setArr_mem_of_ne _ _ ha, hz]
  have hyt : (y.take m.length).length ≤ m.length := List.length_take_le _ _
  obtain ⟨w', junk, hcopy, _, hbuf', _, htake, _⟩ := copyOut_run 0 ha hp2 hr2
    (hb2 ▸ hll) (by rw [hz2, zeros_length]) (by omega)
  refine ⟨w', _, recvLoop_turn fuel 0 hs hne (hread.trans hconv) hcopy, ?_, junk, hbuf'⟩
  have hyn : NulFree y := hdrop ▸ htn.drop _
  refine isStr_iff.mpr ⟨hyn.take _, (w'.mem a).drop (0 + ((y.take m.length).length + 1)), ?_⟩
  rw [Arr.ptr_blk, World.block_arr, Arr.ptr_off, List.drop_zero]
  conv_lhs => rw [← List.take_append_drop (0 + ((y.take m.length).length + 1)) (w'.mem a)]
  rw [htake]
  simp

/-- What stands in the place of the payload is the payload if the texts agree up to its end. -/
theorem take_eq_iff_prefix {d x y : List Byte} :
    y.take x.length = x ↔ (d ++ colon :: x) <+: (d ++ colon :: y) := by
  rw [List.prefix_append_right_inj, List.cons_prefix_cons]
  constructor
  · intro h
    exact ⟨rfl, h ▸ List.take_prefix _ _⟩
  · intro h
    obtain ⟨-, r, hr⟩ := h
    rw [← hr, List.take_left]

/-- The pieces of a netstring give back its message exactly when they are put together right. -/
theorem recvMessage_pieces [Libc] [Libc.CopiesForward] (ha : a ≠ .buf) (ha' : a ≠ .scratch)
    (hm : Plain m) (hl : m.length ≤ 2000) (hne : c0 ≠ []) (hcat : (c0 :: cs).flatten = enc m)
    (hsize : (w.mem a).length = BUFSIZE)
    (hnet : w.net fd = ⟨(c0 :: cs).map some ++ rest, e⟩) (hfuel : cs.length + 1 < fuel) :
    (∃ w', (recvMessage fuel fd a.ptr).run w = (.ok 1, w') ∧ IsStr w' a.ptr m) ↔
      Reassembled m c0 cs := by
  have hB : BUFSIZE = 4096 := rfl
  have hN := enc_length m
  have hd4 : (dec m.length).length ≤ 4 := dec_length_le (by decide) (by omega)
  have hcatl := congrArg List.length hcat
  rw [List.flatten_cons, List.length_append] at hcatl
  have hread : (w.net fd).read BUFSIZE = (some c0, ⟨cs.map some ++ rest, e⟩) := by
    rw [hnet, List.map_cons, List.cons_append]
    exact Peer.read_whole (by omega)
  obtain ⟨w1, hrun, hrec, hz, hbuf⟩ := recvMessage_chunk fuel ha hsize hread (by omega)
  obtain ⟨f, rfl⟩ : ∃ f, fuel = f + 1 := ⟨fuel - 1, by omega⟩
  have hcn : ∀ c ∈ c0 :: cs, NulFree c := fun c hc h =>
    enc_nulFree hm.nulFree (hcat ▸ List.mem_flatten.mpr ⟨c, hc, h⟩)
  have hsplit : c0 ++ cs.flatten = dec m.length ++ (colon :: (m ++ [comma])) := by
    rw [← List.flatten_cons, hcat]
    simp [enc]
  by_cases hstart : (dec m.length).length < c0.length
  rotate_left
  · -- the length is not complete
    obtain ⟨e, w', hr⟩ := recvLoop_short fd a (f + 1) hbuf hne (by omega)
      (first_piece_digits hsplit (by omega)) 0 0
    refine iff_of_false ?_ fun h => hstart h.start
    rintro ⟨w'', h, _⟩
    rw [hrun, hr] at h
    cases h
  obtain ⟨x, hc0, hx⟩ := first_piece hsplit hstart
  have hnet1 : w1.net fd = ⟨cs.map some ++ rest, e⟩ := by rw [hrec.net, Function.update_self]
  obtain ⟨w2, hbuf2, hmem2, hgood, hbad⟩ := readNet_pieces f (w := w1) hm hl hc0 hx hbuf
    hnet1 (by omega)
  have hTB := gathered_length_le m c0 cs
  have hTn := gathered_nulFree (m := m) hcn
  obtain ⟨y, hy⟩ : ∃ y, gathered m c0 cs = dec m.length ++ colon :: y :=
    ⟨_, by rw [hc0, gathered_dec]⟩
  set T := gathered m c0 cs with hT
  have hs1 : IsStr w1 Arr.buf.ptr c0 := by
    simpa [IsStr, hbuf] using cstr_clean (hcn c0 (List.mem_cons_self ..)) (by omega)
  by_cases hcm : comma ∈ T
  rotate_left
  · -- no comma: the second test refuses the text
    obtain ⟨e, w', hr⟩ := hbad hcm
    refine iff_of_false ?_ fun h => hcm h.closed
    rintro ⟨w'', h, _⟩
    rw [hrun, recvLoop, Comp.bind_ok (charAt_run hs1), if_pos (headD_ne_zero hs1.nulFree hne),
      Comp.bind_error hr] at h
    cases h
  have hagree : y.take m.length = m ↔ (dec m.length ++ colon :: m) <+: T := by
    rw [hy]
    exact take_eq_iff_prefix
  obtain ⟨w', pos, hturn, hfirst, junk, hbuf'⟩ := recvLoop_gathered fd f ha hs1 hne (hgood hcm)
    hbuf2 (by rw [hmem2 a ha ha', hz]) hy hTn (by omega) hl
  obtain ⟨g, rfl⟩ : ∃ g, f = g + 1 := ⟨f - 1, by omega⟩
  rw [hrun, hturn]
  by_cases hR : T.drop (enc m).length = []
  · -- one message came back: the question is which
    rw [hR, List.nil_append] at hbuf'
    rw [recvLoop_nil _ hbuf']
    constructor
    · rintro ⟨w'', h, hs⟩
      cases h
      have heq : y.take m.length = m := Option.some.inj (hfirst.symm.trans hs)
      exact ⟨hstart, hagree.mp heq, List.drop_eq_nil_iff.mp hR, hcm⟩
    · intro h
      exact ⟨w', rfl, (hagree.mpr h.agrees) ▸ hfirst⟩
  · -- more than one message came back
    refine iff_of_false ?_ fun h => hR (List.drop_of_length_le h.size)
    rintro ⟨w'', h, _⟩
    have := recvLoop_nets_succ (isStr_buf _ hbuf' (hTn.drop _)) hR h
    omega

end Pieces

/-! ## Payloads without a comma -/

/-- The first piece holds the whole length; behind it no piece is shorter than the one before, or
    too long to follow it into a buffer of the payload's size; and all but the last piece leave
    the text shorter than the payload. -/
structure WellCut (m c0 : List Byte) (cs : List (List Byte)) : Prop where
  start : (dec m.length).length < c0.length
  grows : List.IsChain (fun k l => k ≤ l ∧ k + l ≤ m.length) (0 :: cs.map List.length)
  short : cs ≠ [] → c0.length + cs.dropLast.flatten.length < m.length

section WellCut

variable {n len : Nat} {old : List Byte} {cs : List (List Byte)}

variable (old) in
/-- Pieces that grow are put together as they are. -/
theorem gather_of_grows
    (hg : List.IsChain (fun k l => k ≤ l ∧ k + l ≤ n) (old.length :: cs.map List.length))
    (hs : cs ≠ [] → len + cs.dropLast.flatten.length < n) : gather n len old cs = cs.flatten := by
  induction cs generalizing len old with
  | nil => rfl
  | cons c cs ih =>
      rw [List.map_cons, List.isChain_cons_cons] at hg
      have hc : overlay (c.take (n - old.length)) old = c := by
        rw [List.take_of_length_le (by omega), overlay_of_le hg.1.1]
      have hs' := hs (List.cons_ne_nil _ _)
      rw [gather, if_pos (by omega), hc, List.flatten_cons]
      dsimp only
      rw [ih c hg.2 fun hne => ?_]
      rw [List.dropLast_cons_of_ne_nil hne, List.flatten_cons, List.length_append] at hs'
      omega

/-- The last byte of a text stands at the end of its last part. -/
theorem append_eq_concat {c d x : List Byte} {b : Byte} (hd : d ≠ []) (h : c ++ d = x ++ [b]) :
    ∃ y, d = y ++ [b] ∧ x = c ++ y := by
  obtain ⟨y, b', rfl⟩ := (List.eq_nil_or_concat d).resolve_left hd
  rw [List.concat_eq_append, ← List.append_assoc] at h
  obtain ⟨hx, hb⟩ := List.append_inj' h rfl
  exact ⟨y, by rw [List.concat_eq_append, hb], hx.symm⟩

theorem flatten_ne_nil {c : List Byte} (h : ∀ d ∈ c :: cs, d ≠ []) : (c :: cs).flatten ≠ [] := by
  intro h0
  rw [List.flatten_cons] at h0
  exact h c (List.mem_cons_self ..) (List.append_eq_nil_iff.mp h0).1

variable (len old) in
/-- A text with the last comma of the stream holds the whole stream, and exactly the stream only
    when the pieces grow. -/
theorem grows_of_gather {x : List Byte} (hcs : ∀ c ∈ cs, c ≠ []) (hx : cs.flatten = x ++ [comma])
    (hxc : comma ∉ x) (ho : comma ∉ old) (hol : old.length ≤ len)
    (hg : comma ∈ gather n len old cs) :
    cs.flatten.length ≤ (gather n len old cs).length ∧
      ((gather n len old cs).length ≤ cs.flatten.length →
        List.IsChain (fun k l => k ≤ l ∧ k + l ≤ n) (old.length :: cs.map List.length) ∧
          (cs ≠ [] → len + cs.dropLast.flatten.length < n)) := by
  induction cs generalizing len old x with
  | nil => cases hg
  | cons c cs ih =>
      have hlt : len < n := gather_lt_of_mem hg
      rw [gather, if_pos hlt] at hg ⊢
      dsimp only at hg ⊢
      set s := overlay (c.take (n - old.length)) old with hs
      have hsl : s.length = max (min (n - old.length) c.length) old.length := by
        rw [hs, overlay_length, List.length_take]
      have hsc : comma ∈ s → comma ∈ c.take (n - old.length) := fun h => by
        rcases List.mem_append.mp h with h | h
        · exact h
        · exact absurd (List.mem_of_mem_drop h) ho
      rw [List.flatten_cons, List.length_append, List.length_append]
      rcases cs with _ | ⟨c', cs⟩
      · -- the last piece: its comma has been read
        rw [List.flatten_cons, List.flatten_nil, List.append_nil] at hx
        simp only [gather, List.append_nil, List.flatten_nil, List.length_nil, Nat.add_zero] at hg ⊢
        have hle : c.length ≤ n - old.length := by
          by_contra h
          have h1 := hsc hg
          rw [hx, List.take_append_of_le_length (by
            rw [hx, List.length_append, List.length_singleton] at h
            omega)] at h1
          exact hxc (List.mem_of_mem_take h1)
        have hpos : 0 < c.length := List.length_pos_iff.mpr (hcs c (List.mem_cons_self ..))
        refine ⟨by omega, fun h => ⟨?_, fun _ => by simpa using hlt⟩⟩
        simp only [List.map_cons, List.map_nil, List.isChain_cons_cons, List.isChain_singleton,
          and_true]
        omega
      · -- the comma comes later
        have hcs' : ∀ c ∈ c' :: cs, c ≠ [] := fun d hd => hcs d (List.mem_cons_of_mem _ hd)
        rw [List.flatten_cons] at hx
        obtain ⟨y, hy, hxy⟩ := append_eq_concat (flatten_ne_nil hcs') hx
        have hcc : comma ∉ c := fun h => hxc (by rw [hxy]; exact List.mem_append_left _ h)
        have hyc : comma ∉ y := fun h => hxc (by rw [hxy]; exact List.mem_append_right _ h)
        have hs0 : comma ∉ s := fun h => hcc (List.mem_of_mem_take (hsc h))
        have hg' : comma ∈ gather n (len + s.length) s (c' :: cs) :=
          (List.mem_append.mp hg).resolve_left hs0
        obtain ⟨h1, h2⟩ := ih (len + s.length) s hcs' hy hyc hs0 (by omega) hg'
        have hlt' : len + s.length < n := gather_lt_of_mem hg'
        refine ⟨by omega, fun h => ?_⟩
        have hsc : s = c := by
          rw [hs, List.take_of_length_le (by omega), overlay_of_le (by omega)]
        rw [hsc] at h1 h2 h hlt' hsl
        obtain ⟨hg1, hg2⟩ := h2 (by omega)
        refine ⟨List.isChain_cons_cons.mpr ⟨by omega, hg1⟩, fun _ => ?_⟩
        have := hg2 (List.cons_ne_nil _ _)
        rw [List.dropLast_cons_of_ne_nil (List.cons_ne_nil _ _), List.flatten_cons,
          List.length_append]
        omega

/-- Without a comma in the payload only the lengths of the pieces count. -/
theorem reassembled_iff_wellCut {m c0 : List Byte} (hm : comma ∉ m)
    (hne : ∀ c ∈ c0 :: cs, c ≠ []) (hcat : (c0 :: cs).flatten = enc m) :
    Reassembled m c0 cs ↔ WellCut m c0 cs := by
  have hN := congrArg List.length hcat
  rw [List.flatten_cons, List.length_append] at hN
  constructor
  · intro h
    rcases cs with _ | ⟨c, cs⟩
    · exact ⟨h.start, List.isChain_singleton _, fun h => absurd rfl h⟩
    -- the last byte of the last piece is the only comma
    have hne' : ∀ d ∈ c :: cs, d ≠ [] := fun d hd => hne d (List.mem_cons_of_mem _ hd)
    have henc : c0 ++ (c :: cs).flatten = (dec m.length ++ colon :: m) ++ [comma] := by
      rw [← List.flatten_cons, hcat]
      simp [enc]
    obtain ⟨x, hx, hpre⟩ := append_eq_concat (flatten_ne_nil hne') henc
    have hno : comma ∉ c0 ++ x := by
      rw [← hpre]
      intro h1
      rcases List.mem_append.mp h1 with h1 | h1
      · exact comma_not_mem_dec _ h1
      · rcases List.mem_cons.mp h1 with h2 | h2
        · exact absurd h2 (by decide)
        · exact hm h2
    have hg : comma ∈ gather m.length c0.length [] (c :: cs) :=
      (List.mem_append.mp h.closed).resolve_left fun h1 => hno (List.mem_append_left _ h1)
    have hsize := h.size
    rw [gathered, List.length_append] at hsize
    obtain ⟨h1, h2⟩ := grows_of_gather c0.length [] hne' hx
      (fun h1 => hno (List.mem_append_right _ h1)) List.not_mem_nil (Nat.zero_le _) hg
    obtain ⟨hg1, hg2⟩ := h2 (by omega)
    exact ⟨h.start, hg1, hg2⟩
  · intro h
    have hT : gathered m c0 cs = enc m := by
      rw [gathered, gather_of_grows [] h.grows h.short, ← List.flatten_cons, hcat]
    refine ⟨h.start, ?_, by rw [hT], by rw [hT]; simp [enc]⟩
    rw [hT, enc]
    exact List.prefix_append _ _

end WellCut

/-- A netstring in pieces comes back as its message exactly when the text that the pieces add up
    to is the netstring up to its last byte; without a comma in the payload, exactly when the
    pieces are cut well. -/
theorem recvMessage_fragments [Libc] [Libc.CopiesForward] {w : World} {fd : Fd} {a : Arr}
    (ha : a ≠ .buf) (ha' : a ≠ .scratch) {m c0 : List Byte} {cs : List (List Byte)} (hm : Plain m)
    (hl : m.length ≤ 2000) (hne : ∀ c ∈ c0 :: cs, c ≠ []) (hcat : (c0 :: cs).flatten = enc m)
    (hsize : (w.mem a).length = BUFSIZE) {rest : List (Option (List Byte))} {e : Ending}
    (hnet : w.net fd = ⟨(c0 :: cs).map some ++ rest, e⟩) {fuel : Nat}
    (hfuel : cs.length + 1 < fuel) :
    let returns := ∃ w', (recvMessage fuel fd a.ptr).run w = (.ok 1, w') ∧ IsStr w' a.ptr m
    (returns ↔ Reassembled m c0 cs) ∧ (comma ∉ m → (returns ↔ WellCut m c0 cs)) := by
  have h := recvMessage_pieces ha ha' hm hl (hne c0 (List.mem_cons_self ..)) hcat hsize hnet hfuel
  exact ⟨h, fun hc => h.trans (reassembled_iff_wellCut hc hne hcat)⟩

section Bytewise

attribute [local instance] Libc.bytewise

theorem recvMessage_fragments_hello :
    ∃ w', (recvMessage 3 .control Arr.recvbuf.ptr).run
        (receiving fun _ => ⟨[some (lit "5:h"), some (lit "ello,")], .eof⟩) = (.ok 1, w') ∧
      IsStr w' Arr.recvbuf.ptr (lit "hello") :=
  ((@recvMessage_fragments _ _ _ _ _ (by decide) (by decide) (lit "hello") (lit "5:h")
    [lit "ello,"] (by decide) (by decide) (by decide) (by decide) (receiving_recvbuf _) [] _ rfl _
    (by decide)).2 (by decide)).mpr
    ⟨by decide, by simp [lit], fun _ => by decide⟩

/-- The last comma in a read of its own is never read. -/
theorem comma_left_behind :
    ¬ ∃ w', (recvMessage 3 .control Arr.recvbuf.ptr).run
        (receiving fun _ => ⟨[some (lit "5:hello"), some (lit ",")], .eof⟩) = (.ok 1, w') ∧
      IsStr w' Arr.recvbuf.ptr (lit "hello") := by
  intro h
  have hr := (@recvMessage_pieces _ _ _ (lit "hello") (lit "5:hello") [lit ","] [] _ _ _ _
    (by decide) (by decide) (by decide) (by decide) (by decide) (by decide) (receiving_recvbuf _)
    rfl (by decide)).mp h
  exact absurd hr.closed (by decide)

end Bytewise

end Grnvs.Ascii
