/-
  One call of `recvMessage`, taken apart.

  Both loops are `Comp.loop`s (`refill_eq`, `recvLoop_eq`), and `readNet` is the tests in front of
  the fragment loop, the loop, and what is behind it (`readNet_eq`). For each part the condition
  under which it stays inside the arrays is given on the bytes it finds: `HeadFits`, `PieceFits`,
  `TailFits`. A part whose condition holds returns or exits, one whose condition fails is
  undefined.
-/
import Grnvs.Ascii.Outgoing
import Grnvs.Ascii.Calm
import Grnvs.Ascii.Fragments
import Grnvs.Lib.Fuel

namespace Grnvs.Ascii

open Bytes Decimal Netstring

/-! ## Undefined runs -/

/-- The run leaves its arrays. -/
def Undefined {α : Type} (x : Run α) (w : World) : Prop := ∃ w', x.run w = (.error .undefined, w')

/-- The log has grown, but by no read. -/
def SameReads (w w' : World) : Prop := ∃ es, w'.log = w.log ++ es ∧ NoRead es

theorem SameReads.refl (w : World) : SameReads w w :=
  ⟨[], (List.append_nil _).symm, fun _ _ _ => List.not_mem_nil⟩

theorem SameReads.of_log {w w' : World} (h : w'.log = w.log) : SameReads w w' :=
  ⟨[], by rw [h, List.append_nil], fun _ _ _ => List.not_mem_nil⟩

theorem SameReads.trans {w w' w'' : World} (h : SameReads w w') (h' : SameReads w' w'') :
    SameReads w w'' := by
  obtain ⟨es, hl, he⟩ := h
  obtain ⟨es', hl', he'⟩ := h'
  refine ⟨es ++ es', by rw [hl', hl, List.append_assoc], fun fd n got hm => ?_⟩
  rcases List.mem_append.mp hm with hm | hm
  · exact he fd n got hm
  · exact he' fd n got hm

section Undefined

variable {α β : Type} {x : Run α} {f : α → Run β} {w w1 : World}

theorem Undefined.bind (h : Undefined x w) : Undefined (x >>= f) w := by
  obtain ⟨w', hr⟩ := h
  exact ⟨w', Comp.bind_error hr⟩

theorem undefined_of_ok {a : α} (hx : x.run w = (.ok a, w1)) (h : Undefined (f a) w1) :
    Undefined (x >>= f) w := by
  obtain ⟨w', hr⟩ := h
  exact ⟨w', by rw [Comp.bind_ok hx, hr]⟩

theorem undefined_strAt {p : Ptr} (h : cstr ((w.block p.blk).drop p.off) = none) :
    Undefined (strAt p) w := ⟨w, strAt_undefined h⟩

variable [Libc]

/-- A text that grows by pieces ends in an undefined run when its last piece does, for each piece
    before has room or not. -/
theorem undefined_strcat {a : Arr} {src : Ptr} {t s : List Byte} {k : Run α} (ht : NulFree t)
    (hshort : t.length < BUFSIZE) (hs : IsStr w src s) (hsrc : src.blk ≠ .arr a)
    (hk : t.length + s.length < BUFSIZE → Undefined k (w.setArr a (clean (t ++ s)))) :
    Undefined (do strcat a.ptr src; k) (w.setArr a (clean t)) := by
  rcases Nat.lt_or_ge (t.length + s.length) BUFSIZE with h | h
  · exact undefined_of_ok (strcat_clean ht hs hsrc h) (hk h)
  · refine Undefined.bind ⟨_, strcat_overflows (isStr_clean (World.setArr_mem ..) ht hshort)
      ((isStr_setArr hsrc).mpr hs) ?_⟩
    rw [World.setArr_mem, clean_length (Nat.le_of_lt hshort)]
    exact h

end Undefined

theorem isStr_congr {w w' : World} {p : Ptr} {s : List Byte} (h : w'.mem = w.mem) :
    IsStr w' p s ↔ IsStr w p s := by
  rcases p with ⟨_ | a, off⟩
  · rfl
  · simp [IsStr, h]

/-! ## `checkMessage` on a text of any length -/

/-- `checkMessage` returns. -/
def LetsPass (want act : List Byte) : Prop := act.headD 0 = letterE ∨ want = act

/-- `checkMessage` stays inside the arrays, for a message at offset `off` of an array with the
    bytes `B`: the text behind an `E` ends in the array, and the refusal of any other message,
    which is built over the message, has room there. -/
def CheckFits (B : List Byte) (off : Nat) (want act : List Byte) : Prop :=
  if act.headD 0 = letterE then ∃ why, cstr (B.drop (off + 2)) = some why
  else want = act ∨ (off = 0 ∧ want.length + act.length ≤ 4058)

section Check

variable {w : World} {fd : Fd} {expected : Ptr} {a : Arr} {off : Nat} {want act : List Byte}

variable [Libc]

/-- No text of more than 4089 bytes is sent, and none from behind the start of an array. -/
theorem sendMessage_outside (fd : Fd) {src : Ptr} {s : List Byte} (hs : IsStr w src s)
    (hsrc : src.blk ≠ .arr a) (ha : (w.mem a).length = BUFSIZE) (hlen : s.length < BUFSIZE)
    (h : 0 < off ∨ 4090 ≤ s.length) : Undefined (sendMessage fd src ⟨.arr a, off⟩) w := by
  have hB : BUFSIZE = 4096 := rfl
  rcases Nat.eq_zero_or_pos off with rfl | hoff
  · change Undefined (sendMessage fd src a.ptr) w
    exact sendMessage_overflows fd hs hsrc ha (by omega) (by omega)
  · have hm : (memset ⟨.arr a, off⟩ BUFSIZE).run w = (.error .undefined, w) := by
      rw [memset, store_undefined (by
        rw [zeros_length, ha]
        omega)]
    refine ⟨w, ?_⟩
    unfold sendMessage writeNet
    exact Comp.bind_error (Comp.bind_error hm)

/-- A refusal that has no room. -/
theorem checkMessage_overflows (hx : IsStr w expected want) (ha : IsStr w ⟨.arr a, off⟩ act)
    (hE : act.headD 0 ≠ letterE) (hne : want ≠ act) (hsize : (w.mem a).length = BUFSIZE)
    (hxe : expected.blk ≠ .arr .errmsg) (hae : a ≠ .errmsg)
    (h : 0 < off ∨ 4058 < want.length + act.length) :
    Undefined (checkMessage fd expected ⟨.arr a, off⟩) w := by
  have hB : BUFSIZE = 4096 := rfl
  have hlit : ∀ s : String, (litPtr s).blk ≠ .arr .errmsg := fun s => by simp [litPtr]
  have h1 : (lit "E ").length = 2 := by decide
  obtain ⟨n1, n2, n3, n4, n5⟩ := expectedText_pieces hx.nulFree ha.nulFree
  set w1 := w.note (.check fd want act) with hw1
  have hx1 : IsStr w1 expected want := isStr_note.mpr hx
  have ha1 : IsStr w1 ⟨.arr a, off⟩ act := isStr_note.mpr ha
  have hane : (⟨.arr a, off⟩ : Ptr).blk ≠ .arr .errmsg := by simpa using hae
  unfold Undefined
  rw [checkMessage_refuses hx ha hE hne, ← hw1]
  refine undefined_of_ok (declare_run _ _ _) (undefined_of_ok (errmsg_start w1) ?_)
  refine undefined_strcat n1 (by omega) (isStr_lit (by decide)) (hlit _) fun r2 => ?_
  refine undefined_strcat n2 (by rwa [List.length_append]) hx1 hxe fun r3 => ?_
  refine undefined_strcat n3 (by rwa [List.length_append]) (isStr_lit (by decide)) (hlit _)
    fun r4 => ?_
  refine undefined_strcat n4 (by rwa [List.length_append]) ha1 hane fun r5 => ?_
  refine undefined_strcat n5 (by rwa [List.length_append]) (isStr_lit (by decide)) (hlit _)
    fun r6 => ?_
  -- the text is there, and does not go out
  have htn : NulFree (expectedText want act) := expectedText_nulFree hx.nulFree ha.nulFree
  have htl : (expectedText want act).length = want.length + act.length + 31 :=
    expectedText_length want act
  have hshort : (expectedText want act).length < BUFSIZE := by
    rwa [← List.length_append] at r6
  refine Undefined.bind (sendMessage_outside fd (s := expectedText want act)
    (isStr_clean (World.setArr_mem ..) htn hshort) (by simpa using fun h => hae h.symm) ?_ hshort
    (by omega))
  rw [World.setArr_mem_of_ne _ _ hae]
  exact hsize

variable (fd) in
/-- A check that fits and passes changes nothing but the log. -/
theorem checkMessage_passes (hx : IsStr w expected want) (ha : IsStr w ⟨.arr a, off⟩ act)
    (hfits : CheckFits (w.mem a) off want act) (hpass : LetsPass want act) :
    ∃ w', (checkMessage fd expected ⟨.arr a, off⟩).run w = (.ok (), w') ∧ w'.mem = w.mem ∧
      w'.net = w.net ∧ SameReads w w' := by
  by_cases hE : act.headD 0 = letterE
  · rw [CheckFits, if_pos hE] at hfits
    obtain ⟨why, hy⟩ := hfits
    have hwhy : IsStr w ((⟨.arr a, off⟩ : Ptr) + 2) why := hy
    refine ⟨_, checkMessage_error fd hx ha hE hwhy, rfl, rfl, ?_⟩
    exact ⟨[.check fd want act, .print (lit "Error: " ++ why)], by simp, by simp [NoRead]⟩
  · obtain rfl : want = act := hpass.resolve_left hE
    exact ⟨_, checkMessage_same hx ha hE, rfl, rfl, [.check fd want want], rfl, by simp [NoRead]⟩

variable (fd) in
/-- A check that fits and does not pass ends the process. -/
theorem checkMessage_exits (hx : IsStr w expected want) (ha : IsStr w ⟨.arr a, off⟩ act)
    (hsize : (w.mem a).length = BUFSIZE) (hxe : expected.blk ≠ .arr .errmsg) (hae : a ≠ .errmsg)
    (hfits : CheckFits (w.mem a) off want act) (hpass : ¬ LetsPass want act) :
    ∃ w', (checkMessage fd expected ⟨.arr a, off⟩).run w = (.error (.exit (-1)), w') ∧
      SameReads w w' := by
  have hE : act.headD 0 ≠ letterE := fun h => hpass (.inl h)
  have hne : want ≠ act := fun h => hpass (.inr h)
  rw [CheckFits, if_neg hE] at hfits
  obtain ⟨rfl, hlen⟩ := hfits.resolve_left hne
  rw [show (⟨.arr a, 0⟩ : Ptr) = a.ptr from rfl] at ha ⊢
  obtain ⟨w', hr, hl⟩ := checkMessage_refuse fd hx ha hE hne hsize hxe hae hlen
  exact ⟨w', hr, _, hl, by simp [NoRead]⟩

variable (fd) in
theorem checkMessage_undefined (hx : IsStr w expected want) (ha : IsStr w ⟨.arr a, off⟩ act)
    (hsize : (w.mem a).length = BUFSIZE) (hxe : expected.blk ≠ .arr .errmsg) (hae : a ≠ .errmsg)
    (hfits : ¬ CheckFits (w.mem a) off want act) :
    Undefined (checkMessage fd expected ⟨.arr a, off⟩) w := by
  by_cases hE : act.headD 0 = letterE
  · rw [CheckFits, if_pos hE] at hfits
    have ha1 : IsStr (w.note (.check fd want act)) ⟨.arr a, off⟩ act := isStr_note.mpr ha
    unfold checkMessage
    refine undefined_of_ok (strAt_run ha) (undefined_of_ok (strAt_run hx)
      (undefined_of_ok (note_run _ _) (undefined_of_ok (charAt_run ha1) ?_)))
    rw [if_pos hE]
    refine Undefined.bind (undefined_strAt ?_)
    rcases hc : cstr ((w.mem a).drop (off + 2)) with _ | why
    · exact hc
    · exact absurd ⟨why, hc⟩ hfits
  · rw [CheckFits, if_neg hE] at hfits
    refine checkMessage_overflows hx ha hE (fun h => hfits (.inl h)) hsize hxe hae ?_
    by_contra hcon
    exact hfits (.inr ⟨by omega, by omega⟩)

/-- `checkMessage` stays inside its arrays exactly where it fits. -/
theorem checkMessage_fits_iff (hx : IsStr w expected want) (ha : IsStr w ⟨.arr a, off⟩ act)
    (hsize : (w.mem a).length = BUFSIZE) (hxe : expected.blk ≠ .arr .errmsg) (hae : a ≠ .errmsg) :
    ((checkMessage fd expected ⟨.arr a, off⟩).run w).1 ≠ .error .undefined ↔
      CheckFits (w.mem a) off want act := by
  constructor
  · intro h
    by_contra hfits
    obtain ⟨w', hr⟩ := checkMessage_undefined fd hx ha hsize hxe hae hfits
    exact h (by rw [hr])
  · intro hfits
    by_cases hpass : LetsPass want act
    · obtain ⟨w', hr, -⟩ := checkMessage_passes fd hx ha hfits hpass
      rw [hr]
      exact nofun
    · obtain ⟨w', hr, -⟩ := checkMessage_exits fd hx ha hsize hxe hae hfits hpass
      rw [hr]
      exact nofun

end Check

/-! ## The parts of a receive -/

/-- `"String in netstring format"` -/
def formatText : List Byte := lit "String in netstring format"

/-- `"no leading 0"` -/
def zeroText : List Byte := lit "no leading 0"

section Parts

variable [Libc] {fd : Fd}

/-- Lines 121 to 139 of `readNet`, and the declaration of the array of the fragment loop: the
    number of digits, and the announced length. -/
def readHead (fd : Fd) : Run (Nat × Nat) := do
  let src := Arr.buf.ptr
  let broken ← formatBroken src
  Comp.when (broken = true) (checkMessage fd (litPtr "String in netstring format") src)
  let first ← charAt src
  Comp.when (first = 48) (checkMessage fd (litPtr "no leading 0") src)
  let digits ← digitsBefore src
  let txt ← strAt src
  declare .scratch BUFSIZE
  pure (digits, sizeOfLong (strtol (txt.take digits)))

/-- A turn of the fragment loop. -/
def refillTurn (fd : Fd) (strLength : Nat) (_ : Unit) (_ : Nat) : Run (Unit ⊕ Unit) := do
  let len ← strlen Arr.buf.ptr
  if strLength > len then do
    let old ← strlen Arr.scratch.ptr
    let n ← readFd fd Arr.scratch.ptr (subSize strLength old)
    if n < 0 then pure (.inr ())
    else do
      strcat Arr.buf.ptr Arr.scratch.ptr
      pure (.inl ())
  else pure (.inr ())

/-- Lines 152 to 164 of `readNet`. -/
def readTail (fd : Fd) (pos digits strLength : Nat) : Run (Option Ptr) := do
  let brokenFull ← formatBrokenFull Arr.buf.ptr
  Comp.when (brokenFull = true)
    (checkMessage fd (litPtr "String in netstring format") Arr.buf.ptr)
  convert Arr.buf.ptr BUFSIZE Arr.buf.ptr digits strLength pos

/-- A turn of `recvMessage`, with `message_length` and `nets`. -/
def recvTurn (fd : Fd) (i : Nat × Nat) (fuel : Nat) : Run ((Nat × Nat) ⊕ Int) := do
  let c ← charAt Arr.buf.ptr
  if c ≠ 0 then do
    let next ← readNet fuel Arr.buf.ptr BUFSIZE Arr.buf.ptr fd i.1
    let pos ← copyOut Arr.recvbuf.ptr i.1 next
    pure (.inl (pos, i.2 + 1))
  else pure (.inr i.2)

/-- What `recvMessage` does in front of its loop; `false` where the read fails. -/
def recvStart (fd : Fd) : Run Bool := do
  memset Arr.recvbuf.ptr BUFSIZE
  declare .buf BUFSIZE
  let ret ← readFd fd Arr.buf.ptr BUFSIZE
  pure (decide (0 ≤ ret))

theorem refill_eq (n fuel : Nat) :
    refill fd Arr.buf.ptr n fuel = Comp.loop .fuel (refillTurn fd n) () fuel := by
  induction fuel with
  | zero => rfl
  | succ fuel ih =>
    unfold refill Comp.loop refillTurn
    rw [bind_assoc]
    refine bind_congr fun len => ?_
    split
    · rw [bind_assoc]
      refine bind_congr fun old => ?_
      rw [bind_assoc]
      refine bind_congr fun r => ?_
      split
      · rfl
      · rw [bind_assoc, ih]
        rfl
    · rfl

theorem readNet_eq (fuel pos : Nat) :
    readNet fuel Arr.buf.ptr BUFSIZE Arr.buf.ptr fd pos = (do
      let h ← readHead fd
      refill fd Arr.buf.ptr h.2 fuel
      readTail fd pos h.1 h.2) := by
  simp only [readNet, readRest, readHead, readTail, bind_assoc, pure_bind]

theorem recvLoop_eq (fuel : Nat) (i : Nat × Nat) :
    recvLoop fd Arr.recvbuf.ptr fuel i.1 i.2 = Comp.loop .fuel (recvTurn fd) i fuel := by
  induction fuel generalizing i with
  | zero => rfl
  | succ fuel ih =>
    unfold recvLoop Comp.loop recvTurn
    rw [bind_assoc]
    refine bind_congr fun c => ?_
    split
    · rw [bind_assoc]
      refine bind_congr fun next => ?_
      rw [bind_assoc]
      refine bind_congr fun pos => ?_
      exact ih (pos, i.2 + 1)
    · rfl

theorem recvMessage_eq (fuel : Nat) :
    recvMessage fuel fd Arr.recvbuf.ptr = (do
      let read ← recvStart fd
      if read = true then Comp.loop .fuel (recvTurn fd) (0, 0) fuel else pure (-1)) := by
  unfold recvMessage recvStart
  simp only [bind_assoc, pure_bind, decide_eq_true_eq]
  refine bind_congr fun _ => bind_congr fun _ => bind_congr fun ret => ?_
  by_cases h : ret < 0
  · rw [if_pos h, if_neg (by omega)]
  · rw [if_neg h, if_pos (by omega)]
    exact recvLoop_eq fuel (0, 0)

end Parts

/-! ## The tests in front -/

/-- The two arrays of a receive. -/
structure Recv (w : World) : Prop where
  buf : (w.mem .buf).length = BUFSIZE
  recvbuf : (w.mem .recvbuf).length = BUFSIZE

/-- The first format test lets the text pass. -/
def Opens (t : List Byte) : Prop := colon ∈ t ∧ (framed t = true ∨ comma ∉ t)

/-- The first tests stay inside the arrays, for a text `t` in front of `B`. -/
structure HeadFits (B t : List Byte) : Prop where
  zero : Opens t → t.headD 0 = 48 → CheckFits B 0 zeroText t
  format : ¬ Opens t → CheckFits B 0 formatText t
  -- a text that the check lets pass is searched for its colon
  colon : ¬ Opens t → LetsPass formatText t → colon ∈ t

/-- What `readHead` leaves behind. -/
structure Headed (t : List Byte) (d n : Nat) (w w' : World) : Prop where
  buf : w'.mem .buf = w.mem .buf
  recvbuf : w'.mem .recvbuf = w.mem .recvbuf
  scratch : w'.mem .scratch = zeros BUFSIZE
  net : w'.net = w.net
  reads : SameReads w w'
  colonAt : find colon t = some d
  length : n = sizeOfLong (strtol (t.take d))

section Head

variable {w : World} {fd : Fd} {t : List Byte} {s : String}

theorem find_isSome {c : Byte} (h : c ∈ t) : ∃ i, find c t = some i := by
  rcases hf : find c t with _ | i
  · exact absurd h (find_eq_none.mp hf)
  · exact ⟨i, rfl⟩

theorem mem_of_find {c : Byte} {i : Nat} (h : find c t = some i) : c ∈ t := by
  by_contra hc
  rw [find_eq_none.mpr hc] at h
  cases h

theorem opens_iff :
    Opens t ↔ ∃ i, find colon t = some i ∧ (framed t = true ∨ find comma t = none) := by
  rw [find_eq_none]
  constructor
  · rintro ⟨h, h'⟩
    obtain ⟨i, hi⟩ := find_isSome h
    exact ⟨i, hi, h'⟩
  · rintro ⟨i, hi, h'⟩
    exact ⟨mem_of_find hi, h'⟩

theorem formatText_nulFree : NulFree formatText := by
  unfold formatText
  decide

theorem zeroText_nulFree : NulFree zeroText := by
  unfold zeroText
  decide

/-- A text that passes the check of the format does not begin with a zero. -/
theorem LetsPass.head_ne (h : LetsPass formatText t) : t.headD 0 ≠ 48 := by
  rcases h with h | rfl
  · rw [h]
    decide
  · decide

/-- The first test, as a condition on the text. -/
theorem formatBroken_opens {p : Ptr} (hs : IsStr w p t) :
    ∃ b, (formatBroken p).run w = (.ok b, w) ∧ (b = true ↔ ¬ Opens t) := by
  obtain ⟨b, hr, hb⟩ := formatBroken_run hs
  refine ⟨b, hr, ?_⟩
  rw [opens_iff, ← hb, Bool.not_eq_false]

theorem digitsBefore_run {p : Ptr} {d : Nat} (hs : IsStr w p t) (hd : find colon t = some d) :
    (digitsBefore p).run w = (.ok d, w) := by
  unfold digitsBefore
  rw [Comp.bind_ok (strchr_run hs colon), hd]
  rfl

theorem digitsBefore_undefined {p : Ptr} (hs : IsStr w p t) (hd : colon ∉ t) :
    Undefined (digitsBefore p) w := by
  unfold digitsBefore
  refine undefined_of_ok (strchr_run hs colon) ?_
  rw [find_eq_none.mpr hd]
  exact ⟨w, rfl⟩

variable [Libc]

variable (fd) in
/-- A test whose check fits returns, or ends the process. -/
theorem test_fits {c : Prop} [Decidable c] (hw : Recv w) (hs : IsStr w Arr.buf.ptr t)
    (hn : NulFree (lit s)) (hfits : c → CheckFits (w.mem .buf) 0 (lit s) t) :
    (∃ w', (Comp.when c (checkMessage fd (litPtr s) Arr.buf.ptr)).run w = (.ok (), w') ∧
      w'.mem = w.mem ∧ w'.net = w.net ∧ SameReads w w' ∧ (c → LetsPass (lit s) t)) ∨
    (c ∧ ¬ LetsPass (lit s) t ∧ ∃ w', (Comp.when c (checkMessage fd (litPtr s) Arr.buf.ptr)).run w =
      (.error (.exit (-1)), w') ∧ SameReads w w') := by
  rw [show Arr.buf.ptr = ⟨.arr .buf, 0⟩ from rfl] at hs ⊢
  by_cases hc : c
  · rw [Comp.when_pos hc]
    by_cases hpass : LetsPass (lit s) t
    · obtain ⟨w', hr, hm, hnet, hreads⟩ :=
        checkMessage_passes fd (isStr_lit hn) hs (hfits hc) hpass
      exact .inl ⟨w', hr, hm, hnet, hreads, fun _ => hpass⟩
    · exact .inr ⟨hc, hpass, checkMessage_exits fd (isStr_lit hn) hs hw.buf (by simp [litPtr])
        (by decide) (hfits hc) hpass⟩
  · rw [Comp.when_neg hc]
    exact .inl ⟨w, rfl, rfl, rfl, SameReads.refl w, fun h => absurd h hc⟩

variable (fd) in
theorem test_undefined {c : Prop} [Decidable c] (hw : Recv w) (hs : IsStr w Arr.buf.ptr t)
    (hn : NulFree (lit s)) (hc : c) (hfits : ¬ CheckFits (w.mem .buf) 0 (lit s) t) :
    Undefined (Comp.when c (checkMessage fd (litPtr s) Arr.buf.ptr)) w := by
  rw [Comp.when_pos hc]
  exact checkMessage_undefined fd (isStr_lit hn) hs hw.buf (by simp [litPtr]) (by decide) hfits

variable (fd) in
theorem readHead_fits (hw : Recv w) (hs : IsStr w Arr.buf.ptr t)
    (hfits : HeadFits (w.mem .buf) t) :
    (∃ d n w', (readHead fd).run w = (.ok (d, n), w') ∧ Headed t d n w w') ∨
      ∃ w', (readHead fd).run w = (.error (.exit (-1)), w') ∧ SameReads w w' := by
  obtain ⟨broken, hbr, hbroken⟩ := formatBroken_opens hs
  unfold readHead
  dsimp only
  rw [Comp.bind_ok hbr]
  rcases test_fits fd (c := broken = true) hw hs formatText_nulFree
    (fun h => hfits.format (hbroken.mp h)) with
      ⟨w1, hr1, hm1, hn1, hl1, hp1⟩ | ⟨-, -, w1, hr1, hl1⟩
  · have hw1 : Recv w1 := ⟨by rw [hm1]; exact hw.buf, by rw [hm1]; exact hw.recvbuf⟩
    have hs1 : IsStr w1 Arr.buf.ptr t := (isStr_congr hm1).mpr hs
    have hzero : t.headD 0 = 48 → Opens t := fun h => by
      by_contra ho
      exact (hp1 (hbroken.mpr ho)).head_ne h
    rw [Comp.bind_ok hr1, Comp.bind_ok (charAt_run hs1)]
    rcases test_fits fd (c := t.headD 0 = 48) hw1 hs1 zeroText_nulFree
      (fun h => by rw [hm1]; exact hfits.zero (hzero h) h)
      with ⟨w2, hr2, hm2, hn2, hl2, -⟩ | ⟨-, -, w2, hr2, hl2⟩
    · have hs2 : IsStr w2 Arr.buf.ptr t := (isStr_congr hm2).mpr hs1
      have hcolon : colon ∈ t := by
        by_cases ho : Opens t
        · exact ho.1
        · exact hfits.colon ho (hp1 (hbroken.mpr ho))
      obtain ⟨d, hd⟩ := find_isSome hcolon
      rw [Comp.bind_ok hr2, Comp.bind_ok (digitsBefore_run hs2 hd), Comp.bind_ok (strAt_run hs2),
        Comp.bind_ok (declare_run _ _ _), Comp.pure_run]
      refine .inl ⟨d, _, _, rfl, ?_, ?_, World.setArr_mem .., ?_, ?_, hd, rfl⟩
      · rw [World.setArr_mem_of_ne _ _ (by decide), hm2, hm1]
      · rw [World.setArr_mem_of_ne _ _ (by decide), hm2, hm1]
      · rw [World.setArr_net, hn2, hn1]
      · exact (hl1.trans hl2).trans (SameReads.of_log rfl)
    · rw [Comp.bind_error hr2]
      exact .inr ⟨w2, rfl, hl1.trans hl2⟩
  · rw [Comp.bind_error hr1]
    exact .inr ⟨w1, rfl, hl1⟩

variable (fd) in
theorem readHead_undefined (hw : Recv w) (hs : IsStr w Arr.buf.ptr t)
    (hfits : ¬ HeadFits (w.mem .buf) t) : Undefined (readHead fd) w := by
  obtain ⟨broken, hbr, hbroken⟩ := formatBroken_opens hs
  unfold readHead
  dsimp only
  refine undefined_of_ok hbr ?_
  by_cases ho : Opens t
  · -- the first test passes, the test for a zero does not
    have hskip : (Comp.when (broken = true)
        (checkMessage fd (litPtr "String in netstring format") Arr.buf.ptr)).run w =
        (.ok (), w) := by
      rw [Comp.when_neg (fun h => hbroken.mp h ho), Comp.pure_run]
    refine undefined_of_ok hskip (undefined_of_ok (charAt_run hs) (Undefined.bind ?_))
    have hzero : t.headD 0 = 48 ∧ ¬ CheckFits (w.mem .buf) 0 zeroText t := by
      by_contra hcon
      refine hfits ⟨fun _ h => ?_, fun h => absurd ho h, fun h => absurd ho h⟩
      by_contra hz
      exact hcon ⟨h, hz⟩
    exact test_undefined fd hw hs zeroText_nulFree hzero.1 hzero.2
  · by_cases hf : CheckFits (w.mem .buf) 0 formatText t
    · -- the check lets a text without a colon pass
      have hlost : LetsPass formatText t ∧ colon ∉ t := by
        by_contra hcon
        refine hfits ⟨fun h => absurd h ho, fun _ => hf, fun _ hp => ?_⟩
        by_contra hc
        exact hcon ⟨hp, hc⟩
      have hskip := checkMessage_passes fd (isStr_lit formatText_nulFree) hs hf hlost.1
      obtain ⟨w1, hr1, hm1, -, -⟩ := hskip
      have hs1 : IsStr w1 Arr.buf.ptr t := (isStr_congr hm1).mpr hs
      rw [← Comp.when_pos (hbroken.mpr ho) (checkMessage _ _ _)] at hr1
      refine undefined_of_ok hr1 (undefined_of_ok (charAt_run hs1) ?_)
      rw [Comp.when_neg hlost.1.head_ne]
      exact undefined_of_ok rfl (Undefined.bind (digitsBefore_undefined hs1 hlost.2))
    · exact Undefined.bind (test_undefined fd hw hs formatText_nulFree (hbroken.mpr ho) hf)

variable (fd) in
/-- An array without a NUL is no text. -/
theorem readHead_noText (h : cstr (w.mem .buf) = none) : Undefined (readHead fd) w :=
  Undefined.bind (Undefined.bind (Undefined.bind (undefined_strAt h)))

variable (fd) in
/-- What a return of `readHead` says. -/
theorem readHead_ok {d n : Nat} {w' : World} (hw : Recv w)
    (h : (readHead fd).run w = (.ok (d, n), w')) :
    ∃ t, IsStr w Arr.buf.ptr t ∧ HeadFits (w.mem .buf) t ∧ Headed t d n w w' := by
  rcases hc : cstr (w.mem .buf) with _ | t
  · obtain ⟨v, hr⟩ := readHead_noText fd hc
    cases hr.symm.trans h
  · have hs : IsStr w Arr.buf.ptr t := hc
    by_cases hfits : HeadFits (w.mem .buf) t
    · rcases readHead_fits fd hw hs hfits with ⟨d', n', v, hr, hhead⟩ | ⟨v, hr, -⟩
      · cases hr.symm.trans h
        exact ⟨t, hs, hfits, hhead⟩
      · cases hr.symm.trans h
    · obtain ⟨v, hr⟩ := readHead_undefined fd hw hs hfits
      cases hr.symm.trans h

end Head

/-! ## A turn of the fragment loop -/

/-- The text and the piece that stands in the array of the fragment loop. -/
structure Filling (w : World) (t s : List Byte) : Prop extends Recv w where
  scratch : (w.mem .scratch).length = BUFSIZE
  text : IsStr w Arr.buf.ptr t
  piece : IsStr w Arr.scratch.ptr s
  shorter : s.length ≤ t.length

/-- A turn stays inside the arrays: a text that is not complete gets a count with `q`, the bytes
    that come fit the array `S` of the piece `s`, and the string that stands there then fits
    behind the text `t`. -/
def PieceFits (q : Nat → Prop) (n : Nat) (peer : Peer) (S t s : List Byte) : Prop :=
  t.length < n → q (subSize n s.length) ∧
    ∀ c, (peer.read (subSize n s.length)).1 = some c → c.length ≤ BUFSIZE ∧
      ∃ s', cstr (splice S 0 c) = some s' ∧ t.length + s'.length < BUFSIZE

section Piece

variable {w : World} {fd : Fd} {n k : Nat} {t s c : List Byte}

/-- The announced length and the piece in the array give the count. -/
theorem subSize_of_le {a b : Nat} (ha : a < 2 ^ 64) (hb : b ≤ a) : subSize a b = a - b := by
  unfold subSize
  omega

/-- The read of a turn, put down in the log. -/
def pieceRead (fd : Fd) (count : Nat) (w : World) : World :=
  (w.setNet fd ((w.net fd).read count).2).note (.read fd count ((w.net fd).read count).1)

theorem readFd_fails {p : Ptr} {count : Nat} (h : ((w.net fd).read count).1 = none) :
    (readFd fd p count).run w = (.ok (-1), pieceRead fd count w) := by
  unfold readFd pieceRead
  rw [Comp.gets_bind]
  rcases hr : (w.net fd).read count with ⟨got, rest⟩
  rw [hr] at h
  obtain rfl : got = none := h
  rfl

theorem readFd_gets {a : Arr} {count : Nat} (h : ((w.net fd).read count).1 = some c)
    (hc : c.length ≤ (w.mem a).length) :
    (readFd fd a.ptr count).run w = (.ok (c.length : Int),
      (pieceRead fd count w).setArr a (splice (w.mem a) 0 c)) := by
  unfold readFd pieceRead
  rw [Comp.gets_bind]
  rcases hr : (w.net fd).read count with ⟨got, rest⟩
  rw [hr] at h
  obtain rfl : got = some c := h
  dsimp only
  rw [Comp.modify_bind, show a.ptr = ⟨.arr a, 0⟩ from rfl, Comp.bind_ok (store_run (by
    rw [World.note_mem, World.setNet_mem, Nat.zero_add]
    exact hc)), Comp.pure_run, World.note_mem, World.setNet_mem]

theorem readFd_undefined {a : Arr} {count : Nat} (h : ((w.net fd).read count).1 = some c)
    (hc : (w.mem a).length < c.length) :
    (readFd fd a.ptr count).run w = (.error .undefined, pieceRead fd count w) := by
  unfold readFd pieceRead
  rw [Comp.gets_bind]
  rcases hr : (w.net fd).read count with ⟨got, rest⟩
  rw [hr] at h
  obtain rfl : got = some c := h
  dsimp only
  rw [Comp.modify_bind, show a.ptr = ⟨.arr a, 0⟩ from rfl, Comp.bind_error (store_undefined (by
    rw [World.note_mem, World.setNet_mem, Nat.zero_add]
    exact hc))]

theorem pieceRead_log (fd : Fd) (count : Nat) (w : World) :
    (pieceRead fd count w).log = w.log ++ [.read fd count ((w.net fd).read count).1] := rfl

variable [Libc]

/-- `strcat` onto a text that the appended string has room behind. -/
theorem strcat_run {a : Arr} {src : Ptr} (ht : IsStr w a.ptr t) (hs : IsStr w src s)
    (hsrc : src.blk ≠ .arr a) (h : t.length + s.length < (w.mem a).length) :
    (strcat a.ptr src).run w =
        (.ok (), w.setArr a (splice (w.mem a) t.length (s ++ [0]))) ∧
      IsStr (w.setArr a (splice (w.mem a) t.length (s ++ [0]))) a.ptr (t ++ s) := by
  have hcopy : (strcat a.ptr src).run w =
      (.ok (), w.setArr a (splice (w.mem a) t.length (s ++ [0]))) := by
    unfold strcat
    rw [Comp.bind_ok (strlen_run ht), Arr.ptr_add, strcpy_run hs hsrc (by omega)]
  refine ⟨hcopy, ?_⟩
  have hblk : ∀ b, a.ptr.blk = .arr b → b ∈ [a] := fun b hb => by
    cases hb
    exact List.mem_singleton_self a
  exact (spec_strcat (fun _ => True) hblk hsrc).ok ⟨ht, hs⟩ hcopy

theorem refillTurn_done (hf : Filling w t s) (h : n ≤ t.length) :
    (refillTurn fd n () k).run w = (.ok (.inr ()), w) := by
  unfold refillTurn
  rw [Comp.bind_ok (strlen_run hf.text), if_neg (by omega), Comp.pure_run]

/-- A turn on a text that is not complete is its read and what follows. -/
theorem refillTurn_read (hf : Filling w t s) (h : t.length < n) :
    (refillTurn fd n () k).run w = (do
      let r ← readFd fd Arr.scratch.ptr (subSize n s.length)
      if r < 0 then pure (.inr ())
      else do
        strcat Arr.buf.ptr Arr.scratch.ptr
        pure (.inl ()) : Run (Unit ⊕ Unit)).run w := by
  unfold refillTurn
  rw [Comp.bind_ok (strlen_run hf.text), if_pos h, Comp.bind_ok (strlen_run hf.piece)]

theorem refillTurn_fails (hf : Filling w t s) (h : t.length < n)
    (hr : ((w.net fd).read (subSize n s.length)).1 = none) :
    (refillTurn fd n () k).run w = (.ok (.inr ()), pieceRead fd (subSize n s.length) w) := by
  rw [refillTurn_read hf h, Comp.bind_ok (readFd_fails hr), if_pos (by decide), Comp.pure_run]

theorem refillTurn_goes_on {s' : List Byte} (hf : Filling w t s) (h : t.length < n)
    (hr : ((w.net fd).read (subSize n s.length)).1 = some c) (hc : c.length ≤ BUFSIZE)
    (hs' : cstr (splice (w.mem .scratch) 0 c) = some s')
    (hroom : t.length + s'.length < BUFSIZE) :
    ∃ w', (refillTurn fd n () k).run w = (.ok (.inl ()), w') ∧ Filling w' (t ++ s') s' ∧
      w'.mem .scratch = splice (w.mem .scratch) 0 c ∧
      w'.net = (pieceRead fd (subSize n s.length) w).net ∧
      w'.log = (pieceRead fd (subSize n s.length) w).log := by
  set w1 := (pieceRead fd (subSize n s.length) w).setArr .scratch
    (splice (w.mem .scratch) 0 c) with hw1
  have hsl : (splice (w.mem .scratch) 0 c).length = BUFSIZE := by
    rw [splice_length (by rw [Nat.zero_add, hf.scratch]; exact hc), hf.scratch]
  have hbuf1 : w1.mem .buf = w.mem .buf := World.setArr_mem_of_ne _ _ (by decide)
  have ht1 : IsStr w1 Arr.buf.ptr t := (isStr_setArr (by decide)).mpr hf.text
  have hs1 : IsStr w1 Arr.scratch.ptr s' := by
    unfold IsStr
    rw [Arr.ptr_blk, World.block_arr, Arr.ptr_off, List.drop_zero, hw1, World.setArr_mem, hs']
  obtain ⟨hcat, hstr⟩ := strcat_run ht1 hs1 (by decide) (by rw [hbuf1, hf.buf]; exact hroom)
  set w2 := w1.setArr .buf (splice (w1.mem .buf) t.length (s' ++ [0])) with hw2
  have hscr : w2.mem .scratch = splice (w.mem .scratch) 0 c := by
    rw [hw2, World.setArr_mem_of_ne _ _ (by decide), hw1, World.setArr_mem]
  refine ⟨w2, ?_, ⟨⟨?_, ?_⟩, ?_, hstr, ?_, ?_⟩, hscr, rfl, rfl⟩
  · rw [refillTurn_read hf h, Comp.bind_ok (readFd_gets hr (by rw [hf.scratch]; exact hc)),
      if_neg (by omega), ← hw1, Comp.bind_ok hcat, Comp.pure_run]
  · rw [hw2, World.setArr_mem, splice_length (by
      rw [List.length_append, List.length_singleton, hbuf1, hf.buf]
      omega), hbuf1, hf.buf]
  · rw [hw2, World.setArr_mem_of_ne _ _ (by decide), hw1, World.setArr_mem_of_ne _ _ (by decide)]
    exact hf.recvbuf
  · rw [hscr, hsl]
  · exact (isStr_setArr (by decide)).mpr hs1
  · rw [List.length_append]
    omega

/-- A turn whose piece does not fit. -/
theorem refillTurn_undefined (hf : Filling w t s) (h : t.length < n)
    (hr : ((w.net fd).read (subSize n s.length)).1 = some c)
    (hfits : ¬ (c.length ≤ BUFSIZE ∧ ∃ s', cstr (splice (w.mem .scratch) 0 c) = some s' ∧
      t.length + s'.length < BUFSIZE)) :
    Undefined (refillTurn fd n () k) w := by
  unfold Undefined
  rw [refillTurn_read hf h]
  by_cases hc : c.length ≤ BUFSIZE
  · have hlen : c.length ≤ (w.mem .scratch).length := by
      rw [hf.scratch]
      exact hc
    refine undefined_of_ok (readFd_gets hr hlen) ?_
    rw [if_neg (by omega)]
    refine Undefined.bind ?_
    set w1 := (pieceRead fd (subSize n s.length) w).setArr .scratch
      (splice (w.mem .scratch) 0 c) with hw1
    have ht1 : IsStr w1 Arr.buf.ptr t := (isStr_setArr (by decide)).mpr hf.text
    have hscr : w1.mem .scratch = splice (w.mem .scratch) 0 c := World.setArr_mem ..
    have hbuf1 : w1.mem .buf = w.mem .buf := World.setArr_mem_of_ne _ _ (by decide)
    rcases hs' : cstr (splice (w.mem .scratch) 0 c) with _ | s'
    · unfold strcat strcpy
      refine undefined_of_ok (strlen_run ht1) (Undefined.bind (undefined_strAt ?_))
      rw [Arr.ptr_blk, World.block_arr, Arr.ptr_off, List.drop_zero, hscr, hs']
    · have hs1 : IsStr w1 Arr.scratch.ptr s' := by
        unfold IsStr
        rw [Arr.ptr_blk, World.block_arr, Arr.ptr_off, List.drop_zero, hscr, hs']
      refine ⟨w1, strcat_overflows ht1 hs1 ?_⟩
      rw [hbuf1, hf.buf]
      by_contra hcon
      exact hfits ⟨hc, s', hs', by omega⟩
  · exact Undefined.bind ⟨_, readFd_undefined hr (by rw [hf.scratch]; omega)⟩

/-- What a turn of the fragment loop can do. -/
theorem refillTurn_cases (fd : Fd) (n k : Nat) (hf : Filling w t s) :
    n ≤ t.length ∧ (refillTurn fd n () k).run w = (.ok (.inr ()), w) ∨
    t.length < n ∧ (
      (refillTurn fd n () k).run w = (.ok (.inr ()), pieceRead fd (subSize n s.length) w) ∨
      Undefined (refillTurn fd n () k) w ∨
      ∃ c s' w', ((w.net fd).read (subSize n s.length)).1 = some c ∧
        cstr (splice (w.mem .scratch) 0 c) = some s' ∧
        (refillTurn fd n () k).run w = (.ok (.inl ()), w') ∧ Filling w' (t ++ s') s' ∧
        w'.net = (pieceRead fd (subSize n s.length) w).net ∧
        w'.log = (pieceRead fd (subSize n s.length) w).log) := by
  rcases Nat.lt_or_ge t.length n with hlt | hge
  · refine .inr ⟨hlt, ?_⟩
    rcases hr : ((w.net fd).read (subSize n s.length)).1 with _ | c
    · exact .inl (refillTurn_fails hf hlt hr)
    · by_cases hfits : c.length ≤ BUFSIZE ∧ ∃ s', cstr (splice (w.mem .scratch) 0 c) = some s' ∧
        t.length + s'.length < BUFSIZE
      · obtain ⟨hc, s', hs', hroom⟩ := hfits
        obtain ⟨w', hrun, hf', -, hnet, hlog⟩ := refillTurn_goes_on hf hlt hr hc hs' hroom
        exact .inr (.inr ⟨c, s', w', rfl, hs', hrun, hf', hnet, hlog⟩)
      · exact .inr (.inl (refillTurn_undefined hf hlt hr hfits))
  · exact .inl ⟨hge, refillTurn_done hf hge⟩

/-- A turn on a text that is not complete reads once. -/
theorem refillTurn_log (hf : Filling w t s) (h : t.length < n) :
    ((refillTurn fd n () k).run w).2.log = (pieceRead fd (subSize n s.length) w).log := by
  rw [refillTurn_read hf h]
  rcases hr : ((w.net fd).read (subSize n s.length)).1 with _ | c
  · rw [Comp.bind_ok (readFd_fails hr), if_pos (by decide), Comp.pure_run]
  · by_cases hc : c.length ≤ (w.mem .scratch).length
    · rw [Comp.bind_ok (readFd_gets hr hc), if_neg (by omega)]
      have hq : Quiet (do strcat Arr.buf.ptr Arr.scratch.ptr; pure (.inl ()) : Run (Unit ⊕ Unit)) :=
        quiet_bind (quiet_strcat _ _) fun _ => quiet_pure _
      rw [(hq _).1, World.setArr_log]
    · rw [Comp.bind_error (readFd_undefined hr (by omega))]

end Piece

/-! ## What is behind the fragment loop -/

/-- The payload has its place at the front of the text and twice in the destination, and the text
    goes on in its array. -/
structure ConvertFits (B t : List Byte) (d n pos : Nat) : Prop where
  length : n < BUFSIZE
  room : n + pos ≤ BUFSIZE
  copies : pos + 2 * (((t.drop (d + 1)).take n).length + 1) ≤ BUFSIZE
  rest : ∃ r, cstr (B.drop (d + n + 2)) = some r

/-- The end of a turn stays inside the arrays. -/
structure TailFits (B t : List Byte) (d n pos : Nat) : Prop where
  format : framed t = false → CheckFits B 0 formatText t
  convert : framed t = true ∨ LetsPass formatText t → ConvertFits B t d n pos

/-- Behind the fragment loop: the second test, the conversion and the copies. -/
def finish [Libc] (fd : Fd) (pos digits strLength : Nat) : Run Nat := do
  let next ← readTail fd pos digits strLength
  copyOut Arr.recvbuf.ptr pos next

section Tail

variable {w : World} {fd : Fd} {t p : List Byte} {d n pos : Nat} {next : Option Ptr}

variable [Libc]

theorem undefined_strcpy {a : Arr} {off : Nat} {src : Ptr} {s : List Byte} {k : Run Nat}
    (hs : IsStr w src s) (hsrc : src.blk ≠ .arr a)
    (hk : off + (s.length + 1) ≤ (w.mem a).length →
      Undefined k (w.setArr a (splice (w.mem a) off (s ++ [0])))) :
    Undefined (do strcpy ⟨.arr a, off⟩ src; k) w := by
  rcases Nat.lt_or_ge (w.mem a).length (off + (s.length + 1)) with h | h
  · exact Undefined.bind ⟨w, strcpy_overflows hs (by omega)⟩
  · exact undefined_of_ok (strcpy_run hs hsrc h) (hk h)

/-- The copies do not fit, or the text does not go on. -/
theorem copyOut_undefined (hw : Recv w) (hp : IsStr w Arr.buf.ptr p)
    (h : pos + 2 * (p.length + 1) ≤ BUFSIZE → ∀ v : World, v.mem .buf = w.mem .buf →
      Undefined (strcpyFrom Arr.buf.ptr next) v) :
    Undefined (copyOut Arr.recvbuf.ptr pos next) w := by
  unfold copyOut
  dsimp only
  rw [Arr.ptr_add]
  refine undefined_strcpy hp (by decide) fun h1 => ?_
  set w1 := w.setArr .recvbuf (splice (w.mem .recvbuf) pos (p ++ [0])) with hw1
  have hp1 : IsStr w1 Arr.buf.ptr p := (isStr_setArr (by decide)).mpr hp
  have hl1 : (w1.mem .recvbuf).length = BUFSIZE := by
    rw [hw1, World.setArr_mem, splice_length (by
      rw [List.length_append, List.length_singleton]
      exact h1), hw.recvbuf]
  refine undefined_of_ok (strlen_run hp1) ?_
  rw [Arr.ptr_add]
  refine undefined_strcpy hp1 (by decide) fun h2 => ?_
  refine Undefined.bind (h (by omega) _ ?_)
  rw [World.setArr_mem_of_ne _ _ (by decide), hw1, World.setArr_mem_of_ne _ _ (by decide)]

/-- What `convert` leaves behind when it fits. -/
structure Converted (t : List Byte) (d n : Nat) (w w' : World) : Prop extends Recv w' where
  payload : IsStr w' Arr.buf.ptr ((t.drop (d + 1)).take n)
  behind : (w'.mem .buf).drop (d + n + 2) = (w.mem .buf).drop (d + n + 2)
  net : w'.net = w.net
  log : w'.log = w.log

theorem convert_fits [Libc.CopiesForward] (hw : Recv w) (hs : IsStr w Arr.buf.ptr t)
    (hd : d < t.length) (hn : n < BUFSIZE) (hroom : n + pos ≤ BUFSIZE) :
    ∃ w', (convert Arr.buf.ptr BUFSIZE Arr.buf.ptr d n pos).run w =
      (.ok (some ⟨.arr .buf, d + n + 2⟩), w') ∧ Converted t d n w w' := by
  obtain ⟨hfree, junk, hb⟩ := isStr_iff.mp hs
  obtain ⟨l, hr, hl, hc, hdrop⟩ := convert_parts pos d hb hw.buf hfree hd hn hroom
  refine ⟨_, hr, ⟨?_, ?_⟩, ?_, ?_, rfl, rfl⟩
  · rw [World.setArr_mem, hl]
  · rw [World.setArr_mem_of_ne _ _ (by decide)]
    exact hw.recvbuf
  · unfold IsStr
    rw [Arr.ptr_blk, World.block_arr, Arr.ptr_off, List.drop_zero, World.setArr_mem, hc]
  · rw [World.setArr_mem, hdrop]

/-- A payload without a place. -/
theorem convert_undefined [Libc.CopiesForward] (hw : Recv w) (hs : IsStr w Arr.buf.ptr t)
    (hd : d < t.length) (hpos : pos ≤ BUFSIZE) (hfits : ¬ ConvertFits (w.mem .buf) t d n pos) :
    Undefined (do
      let next ← convert Arr.buf.ptr BUFSIZE Arr.buf.ptr d n pos
      copyOut Arr.recvbuf.ptr pos next) w := by
  have hB : BUFSIZE = 4096 := rfl
  have hs1 : IsStr w (Arr.buf.ptr + (d + 1)) (t.drop (d + 1)) := by
    have h0 : IsStr w Arr.buf.ptr (t.take (d + 1) ++ t.drop (d + 1)) := by
      rw [List.take_append_drop]
      exact hs
    have := h0.add
    rwa [List.length_take, Nat.min_eq_left hd] at this
  by_cases hbig : (n + pos) % 2 ^ 64 > BUFSIZE
  · -- the pointer -1
    have hnone : (convert Arr.buf.ptr BUFSIZE Arr.buf.ptr d n pos).run w = (.ok none, w) := by
      rw [convert, if_pos hbig, Comp.pure_run]
    exact undefined_of_ok hnone (copyOut_undefined hw hs fun _ v _ => ⟨v, rfl⟩)
  · by_cases hlt : n < BUFSIZE
    · have hroom : n + pos ≤ BUFSIZE := by omega
      obtain ⟨w', hr, hc⟩ := convert_fits hw hs hd hlt hroom
      refine undefined_of_ok hr (copyOut_undefined hc.toRecv hc.payload fun hcopies v hv => ?_)
      refine Undefined.bind (undefined_strAt ?_)
      rw [World.block_arr, hv, hc.behind]
      rcases hrest : cstr ((w.mem .buf).drop (d + n + 2)) with _ | r
      · rfl
      · exact absurd ⟨hlt, hroom, hcopies, r, hrest⟩ hfits
    · refine Undefined.bind ?_
      unfold convert
      rw [if_neg hbig]
      rcases Nat.lt_or_ge BUFSIZE n with hgt | hle
      · have hcpy : (strncpy Arr.buf.ptr (Arr.buf.ptr + (d + 1)) n).run w =
            (.error .undefined, w) := by
          unfold strncpy
          rw [Comp.gets_bind, if_neg (by
            rw [Arr.ptr_blk, World.block_arr, Arr.ptr_off, hw.buf]
            omega)]
          rfl
        exact Undefined.bind ⟨w, hcpy⟩
      · -- the NUL of 4096 bytes
        have hlen : ((t.drop (d + 1)).take n ++
            zeros (n - (t.drop (d + 1)).length)).length = n := by
          simp only [List.length_append, List.length_take, List.length_drop, zeros_length]
          omega
        have hcpy : (strncpy Arr.buf.ptr (Arr.buf.ptr + (d + 1)) n).run w =
            (.ok (), w.setArr .buf (splice (w.mem .buf) 0 ((t.drop (d + 1)).take n ++
              zeros (n - (t.drop (d + 1)).length)))) := by
          rw [Arr.ptr_add] at hs1 ⊢
          exact strncpy_forward hs1 (Nat.zero_le _) (by rw [hw.buf]; omega)
        refine undefined_of_ok hcpy (Undefined.bind ?_)
        rw [Arr.ptr_add]
        refine ⟨_, store_undefined ?_⟩
        rw [World.setArr_mem, splice_length (by rw [hlen, hw.buf]; omega), hw.buf,
          List.length_singleton]
        omega

/-- What a turn leaves behind for the next. -/
structure Turned (pos pos' : Nat) (w w' : World) : Prop extends Recv w' where
  forward : pos < pos'
  inside : pos' ≤ BUFSIZE
  net : w'.net = w.net
  reads : SameReads w w'

variable (fd) in
/-- The end of `readNet` where it fits: the pointer returned points into the text, or the process
    ends. -/
theorem readTail_fits [Libc.CopiesForward] (hw : Recv w) (hs : IsStr w Arr.buf.ptr t)
    (hd : d < t.length) (hfits : TailFits (w.mem .buf) t d n pos) :
    (∃ w1 w', (readTail fd pos d n).run w = (.ok (some ⟨.arr .buf, d + n + 2⟩), w') ∧
      w1.mem = w.mem ∧ w1.net = w.net ∧ SameReads w w1 ∧ Converted t d n w1 w' ∧
      ConvertFits (w.mem .buf) t d n pos) ∨
      ∃ w', (readTail fd pos d n).run w = (.error (.exit (-1)), w') ∧ SameReads w w' := by
  unfold readTail
  rw [Comp.bind_ok (formatBrokenFull_run hs)]
  rcases test_fits fd (c := (!framed t) = true) hw hs formatText_nulFree
    (fun h => hfits.format (by simpa using h)) with
      ⟨w1, hr1, hm1, hn1, hl1, hp1⟩ | ⟨-, -, w1, hr1, hl1⟩
  · have hc : ConvertFits (w.mem .buf) t d n pos := by
      refine hfits.convert ?_
      rcases hframed : framed t with _ | _
      · exact .inr (hp1 (by rw [hframed]; rfl))
      · exact .inl rfl
    obtain ⟨w', hr, hconv⟩ := convert_fits (w := w1)
      ⟨by rw [hm1]; exact hw.buf, by rw [hm1]; exact hw.recvbuf⟩
      ((isStr_congr hm1).mpr hs) hd hc.length hc.room
    rw [Comp.bind_ok hr1, hr]
    exact .inl ⟨w1, w', rfl, hm1, hn1, hl1, hconv, hc⟩
  · rw [Comp.bind_error hr1]
    exact .inr ⟨w1, rfl, hl1⟩

variable (fd) in
theorem finish_fits [Libc.CopiesForward] (hw : Recv w) (hs : IsStr w Arr.buf.ptr t)
    (hd : d < t.length) (hfits : TailFits (w.mem .buf) t d n pos) :
    (∃ pos' w', (finish fd pos d n).run w = (.ok pos', w') ∧ Turned pos pos' w w') ∨
      ∃ w', (finish fd pos d n).run w = (.error (.exit (-1)), w') ∧ SameReads w w' := by
  unfold finish
  rcases readTail_fits fd hw hs hd hfits with ⟨w1, w2, hr, hm, hnet, hl, hconv, hc⟩ | ⟨w1, hr, hl⟩
  · rw [Comp.bind_ok hr]
    obtain ⟨r, hrest⟩ := hc.rest
    have hnext : IsStr w2 ⟨.arr .buf, d + n + 2⟩ r := by
      unfold IsStr
      rw [World.block_arr, hconv.behind, hm, hrest]
    obtain ⟨w3, junk, hcopy, hframe, -, hbuf, -, -⟩ := copyOut_run pos (a := .recvbuf) (by decide)
      hconv.payload hnext hconv.buf hconv.recvbuf hc.copies
    have hcopies := hc.copies
    refine .inl ⟨_, w3, hcopy, ⟨hbuf, ?_⟩, by omega, by omega, ?_, ?_⟩
    · rw [hframe.size, hconv.recvbuf]
    · rw [hframe.net, hconv.net, hnet]
    · exact hl.trans (SameReads.of_log (hframe.log.trans hconv.log))
  · rw [Comp.bind_error hr]
    exact .inr ⟨w1, rfl, hl⟩

variable (fd) in
theorem finish_undefined [Libc.CopiesForward] (hw : Recv w) (hs : IsStr w Arr.buf.ptr t)
    (hd : d < t.length) (hpos : pos ≤ BUFSIZE) (hfits : ¬ TailFits (w.mem .buf) t d n pos) :
    Undefined (finish fd pos d n) w := by
  have hbind : finish fd pos d n = (do
      let brokenFull ← formatBrokenFull Arr.buf.ptr
      Comp.when (brokenFull = true)
        (checkMessage fd (litPtr "String in netstring format") Arr.buf.ptr)
      let next ← convert Arr.buf.ptr BUFSIZE Arr.buf.ptr d n pos
      copyOut Arr.recvbuf.ptr pos next) := by
    simp only [finish, readTail, bind_assoc]
  rw [hbind]
  refine undefined_of_ok (formatBrokenFull_run hs) ?_
  by_cases hformat : framed t = false → CheckFits (w.mem .buf) 0 formatText t
  · have hlost : (framed t = true ∨ LetsPass formatText t) ∧
        ¬ ConvertFits (w.mem .buf) t d n pos := by
      by_contra hcon
      refine hfits ⟨hformat, fun h => ?_⟩
      by_contra hc
      exact hcon ⟨h, hc⟩
    rcases test_fits fd (c := (!framed t) = true) hw hs formatText_nulFree
      (fun h => hformat (by simpa using h)) with ⟨w1, hr1, hm1, -⟩ | ⟨hc, hpass, -⟩
    · refine undefined_of_ok hr1 (convert_undefined ?_ ((isStr_congr hm1).mpr hs) hd hpos ?_)
      · exact ⟨by rw [hm1]; exact hw.buf, by rw [hm1]; exact hw.recvbuf⟩
      · rw [hm1]
        exact hlost.2
    · -- a text that passes does not end the process
      exact absurd (hlost.1.resolve_left (by simpa using hc)) hpass
  · have hbad : framed t = false ∧ ¬ CheckFits (w.mem .buf) 0 formatText t := by
      by_contra hcon
      refine hformat fun h => ?_
      by_contra hc
      exact hcon ⟨h, hc⟩
    refine Undefined.bind (test_undefined fd hw hs formatText_nulFree ?_ hbad.2)
    rw [hbad.1]
    rfl

variable (fd) in
/-- What a return of `finish` says. -/
theorem finish_ok [Libc.CopiesForward] {pos' : Nat} {w' : World} (hw : Recv w)
    (hs : IsStr w Arr.buf.ptr t) (hd : d < t.length) (hpos : pos ≤ BUFSIZE)
    (h : (finish fd pos d n).run w = (.ok pos', w')) :
    TailFits (w.mem .buf) t d n pos ∧ Turned pos pos' w w' := by
  by_cases hfits : TailFits (w.mem .buf) t d n pos
  · rcases finish_fits fd hw hs hd hfits with ⟨p, v, hr, hturn⟩ | ⟨v, hr, -⟩
    · cases hr.symm.trans h
      exact ⟨hfits, hturn⟩
    · cases hr.symm.trans h
  · obtain ⟨v, hr⟩ := finish_undefined fd hw hs hd hpos hfits
    cases hr.symm.trans h

end Tail

/-! ## The first read -/

theorem Peer.read_length {p : Peer} {count : Nat} {c : List Byte}
    (h : (p.read count).1 = some c) : c.length ≤ count := by
  rcases p with ⟨_ | ⟨_ | bs, rest⟩, e⟩
  · cases e
    · obtain rfl : [] = c := Option.some.inj h
      exact Nat.zero_le _
    · cases h
  · cases h
  · by_cases hb : bs.length ≤ count
    · rw [Peer.read_whole hb] at h
      obtain rfl : bs = c := Option.some.inj h
      exact hb
    · rw [Peer.read_cut (Nat.lt_of_not_le hb)] at h
      obtain rfl : bs.take count = c := Option.some.inj h
      rw [List.length_take]
      exact Nat.min_le_left _ _

/-- In front of the loop nothing goes wrong: both arrays have room for what is read. -/
theorem recvStart_run {w : World} (fd : Fd) (h : (w.mem .recvbuf).length = BUFSIZE) :
    ∃ b w', (recvStart fd).run w = (.ok b, w') ∧ Recv w' ∧
      w'.net = (pieceRead fd BUFSIZE w).net ∧ w'.log = (pieceRead fd BUFSIZE w).log := by
  set w1 := (w.setArr .recvbuf (clean [])).setArr .buf (zeros BUFSIZE) with hw1
  have hbuf : (w1.mem .buf).length = BUFSIZE := by
    rw [hw1, World.setArr_mem, zeros_length]
  have hdst : (w1.mem .recvbuf).length = BUFSIZE := by
    rw [hw1, World.setArr_mem_of_ne _ _ (by decide), World.setArr_mem, clean_length (Nat.zero_le _)]
  unfold recvStart
  rw [Comp.bind_ok (memset_run h), Comp.bind_ok (declare_run _ _ _), ← hw1]
  rcases hr : ((w1.net fd).read BUFSIZE).1 with _ | c
  · rw [Comp.bind_ok (readFd_fails hr), Comp.pure_run]
    exact ⟨_, _, rfl, ⟨hbuf, hdst⟩, rfl, rfl⟩
  · have hc : c.length ≤ (w1.mem .buf).length := by
      rw [hbuf]
      exact Peer.read_length hr
    rw [Comp.bind_ok (readFd_gets hr hc), Comp.pure_run]
    refine ⟨_, _, rfl, ⟨?_, ?_⟩, rfl, rfl⟩
    · rw [World.setArr_mem, splice_length (by rw [Nat.zero_add]; exact hc), hbuf]
    · rw [World.setArr_mem_of_ne _ _ (by decide)]
      exact hdst

end Grnvs.Ascii
