/-
  What comes before what in a session, whatever the server sends.

  `checkMessage` lets an error message of the server pass, so the order of the protocol holds
  only for runs in which no checked message begins with an `E` (`NoError`). In every such run
  (`assignment4_obeys`) nothing of the protocol is sent behind a message that differed from the
  expected one, `D ` and the message of the user only behind the first four steps, and the echo of
  the data token only behind the confirmed length. With an error message the client goes on
  (`error_ignored`).
-/
import Grnvs.Ascii.Effects
import Grnvs.Ascii.Session

namespace Grnvs.Ascii

open Bytes Decimal Netstring

/-! ## The law -/

/-- No checked message was an error message of the server. -/
def NoError (log : List Event) : Prop :=
  ∀ fd want act, .check fd want act ∈ log → act.headD 0 ≠ letterE

/-- Every checked message was the expected one. -/
def AllMatched (log : List Event) : Prop := ∀ fd want act, .check fd want act ∈ log → act = want

/-- The first four messages of the server were the expected ones. -/
def FourMatched (log : List Event) : Prop :=
  ∃ t, .accept .controlVersion (lit "S GRNVS V:1.0") ∈ log ∧
    .accept .controlToken (lit "S " ++ t) ∈ log ∧
    .accept .dataVersion (lit "T GRNVS V:1.0") ∈ log ∧ .accept .dataToken (lit "T " ++ t) ∈ log

/-- The frame with the message of the user. When it is the same as the frame with the name, the
    second one is meant. -/
def UserMessage (nick msg : List Byte) (pre : List Event) (fd : Fd) (bs : List Byte) : Prop :=
  fd = .data ∧ bs = enc (lit "D " ++ msg) ∧ (nick ≠ msg ∨ .write .data bs ∈ pre)

/-- The echo of the data token: what is sent on the control connection behind the data step. -/
def Echo (pre : List Event) (fd : Fd) : Prop := fd = .control ∧ ∃ m, .accept .dataDtoken m ∈ pre

/-- What must have come before an event. -/
structure Permitted (nick msg : List Byte) (pre : List Event) (fd : Fd) (bs : List Byte) :
    Prop where
  matched : AllMatched pre
  message : UserMessage nick msg pre fd bs → FourMatched pre
  echo : Echo pre fd → .accept .controlLength (lit "S " ++ dec msg.length) ∈ pre

/-- Every message of the protocol was permitted when it was sent. -/
def Obeys (nick msg : List Byte) (log : List Event) : Prop :=
  ∀ pre fd bs post, log = pre ++ .write fd bs :: post → Protocol bs → Permitted nick msg pre fd bs

section Law

variable {nick msg : List Byte} {log es : List Event}

theorem shrinks_noError : Shrinks NoError := fun _ _ hp h fd want act hm =>
  h fd want act (hp.subset hm)

theorem obeys_nil : Obeys nick msg [] := by
  intro pre fd bs post h
  have := congrArg List.length h
  simp at this

/-- Other events than the messages of the protocol need no permission. -/
theorem Obeys.append (h : Obeys nick msg log) (he : ∀ fd bs, .write fd bs ∈ es → ¬ Protocol bs) :
    Obeys nick msg (log ++ es) := by
  intro pre fd bs post heq hp
  rcases List.append_eq_append_iff.mp heq with ⟨l, _, hr⟩ | ⟨l, hl, hr⟩
  · exact absurd hp (he fd bs (by rw [hr]; simp))
  · rcases l with _ | ⟨x, l⟩
    · rw [List.nil_append] at hr
      exact absurd hp (he fd bs (by rw [← hr]; simp))
    · rw [List.cons_append, List.cons.injEq] at hr
      exact h pre fd bs l (by rw [hl, hr.1]) hp

theorem Obeys.inner (h : Obeys nick msg log) (he : ∀ e ∈ es, Inner e) :
    Obeys nick msg (log ++ es) := h.append fun fd bs hm => he (.write fd bs) hm

/-- One frame more. -/
theorem Obeys.write (h : Obeys nick msg log) {fd : Fd} {bs : List Byte}
    (hp : Protocol bs → Permitted nick msg log fd bs) :
    Obeys nick msg (log ++ [.write fd bs]) := by
  intro pre fd' bs' post heq hbs
  rcases List.append_eq_append_iff.mp heq with ⟨l, hl, hr⟩ | ⟨l, hl, hr⟩
  · rcases l with _ | ⟨x, l⟩
    · simp only [List.nil_append, List.cons.injEq, Event.write.injEq] at hr
      obtain ⟨⟨rfl, rfl⟩, _⟩ := hr
      rw [List.append_nil] at hl
      exact hl ▸ hp hbs
    · have := congrArg List.length hr
      simp at this
  · rcases l with _ | ⟨x, l⟩
    · simp only [List.nil_append, List.cons.injEq, Event.write.injEq] at hr
      obtain ⟨⟨rfl, rfl⟩, _⟩ := hr
      rw [List.append_nil] at hl
      exact hl ▸ hp hbs
    · rw [List.cons_append, List.cons.injEq] at hr
      exact h pre fd' bs' l (by rw [hl, hr.1]) hbs

/-- Without error messages, inner events of a call that returned were all matched. -/
theorem AllMatched.append {α : Type} {a : α} (h : AllMatched log)
    (hh : Halts (.ok a : Except Stop α) es) (hno : NoError (log ++ es)) :
    AllMatched (log ++ es) := by
  intro fd want act hm
  rcases List.mem_append.mp hm with h1 | h1
  · exact h fd want act h1
  · by_contra hne
    obtain ⟨pre, post, hsplit⟩ := List.append_of_mem h1
    obtain ⟨⟨e, he⟩, _⟩ := hh pre fd want act post hsplit
      (hno fd want act (List.mem_append_right _ h1)) hne
    cases he

end Law

/-! ## Points of a session -/

/-- A fact about the log that inner events cannot change. -/
def InnerStable (I : List Event → Prop) : Prop :=
  ∀ log es, (∀ e ∈ es, Inner e) → I log → I (log ++ es)

/-- A point between two calls: the law holds so far, `strs` stand in their arrays, and `I` holds
    of the log. -/
structure Point (nick msg : List Byte) (strs : List (Arr × List Byte)) (I : List Event → Prop)
    (w : World) : Prop where
  obeys : Obeys nick msg w.log
  matched : AllMatched w.log
  strings : ∀ x ∈ strs, IsStr w x.1.ptr x.2
  inv : I w.log

/-- The runs without error messages. -/
abbrev Clean (w : World) : Prop := NoError w.log

theorem reflects_clean {α : Type} {x : Run α} (hx : Grows x) : Comp.Reflects Clean x :=
  hx.reflects shrinks_noError

section Points

variable {α : Type} {nick msg : List Byte} {S : List (Arr × List Byte)} {I I' : List Event → Prop}
  {A : List Arr} {P : World → Prop} {Q : α → World → Prop} {x : Run α} {fd : Fd}

variable (nick msg) in
/-- Inner calls keep a point. -/
theorem point_call (h : Spec A Inner P x Q) (hA : ∀ y ∈ S, y.1 ∉ A) (hI : InnerStable I) :
    Comp.Triple Clean (fun w => P w ∧ Point nick msg S I w) x
      (fun a w => Q a w ∧ Point nick msg S I w) fun w => Obeys nick msg w.log := by
  rintro w ⟨hw, hp⟩ hno
  obtain ⟨hd, hq⟩ := h w hw
  obtain ⟨es, hl, he, hh⟩ := hd.log
  have hob : Obeys nick msg (x.run w).2.log := hl ▸ hp.obeys.inner he
  constructor
  · intro a w' hr
    rw [hr] at hd hl hh hq hob
    refine ⟨hq a rfl, hob, ?_, fun y hy => hd.frame.isStr ?_ (hp.strings y hy), hl ▸ hI _ _ he hp.inv⟩
    · unfold Clean at hno
      rw [hr, hl] at hno
      exact hl ▸ hp.matched.append hh hno
    · rintro a ⟨⟩
      exact hA y hy
  · intro e w' hr
    rw [hr] at hob
    exact hob

variable (nick msg) in
/-- Inner calls of which nothing more is asked. -/
theorem point_tame (h : Tame A Inner x) (hA : ∀ y ∈ S, y.1 ∉ A) (hI : InnerStable I) :
    Comp.Triple Clean (Point nick msg S I) x (fun _ w => Point nick msg S I w)
      fun w => Obeys nick msg w.log :=
  (point_call nick msg h hA hI).mono (fun _ h => ⟨trivial, h⟩) (fun _ _ h => h.2) fun _ h => h

theorem text_only : ∀ a, Arr.text.ptr.blk = .arr a → a ∈ [Arr.text] := by
  rintro a ⟨⟩
  exact List.mem_singleton_self _

/-- The note of a taken step. -/
theorem point_accept (step : Step) {start : Ptr} {m : List Byte}
    (hI : ∀ log, I log → I' (log ++ [.accept step m])) :
    Comp.Triple Clean (fun w => IsStr w start m ∧ Point nick msg S I w) (accept step start)
      (fun _ w => IsStr w start m ∧ Point nick msg S I' w) fun w => Obeys nick msg w.log := by
  rintro w ⟨hs, hp⟩ _
  rw [accept_run _ hs]
  constructor
  · intro u w' h
    cases h
    refine ⟨isStr_note.mpr hs, ?_, ?_, fun y hy => isStr_note.mpr (hp.strings y hy), hI _ hp.inv⟩
    · exact hp.obeys.append (by simp)
    · intro fd want act hm
      rw [World.note_log] at hm
      rcases List.mem_append.mp hm with h1 | h1
      · exact hp.matched fd want act h1
      · simp at h1
  · intro e w' h
    cases h

/-- The note of a token step, whose message only has to begin right. -/
theorem point_acceptPrefix (I'' : List Byte → List Event → Prop) {step : Step} {start : Ptr}
    {letter : Byte}
    (hI : ∀ t log, I log → I'' t (log ++ [.accept step (letter :: 32 :: t)])) :
    Comp.Triple Clean
      (fun w => (∀ m, IsStr w start m → ∃ t, m = letter :: 32 :: t) ∧ Point nick msg S I w)
      (accept step start)
      (fun _ w => ∃ t, IsStr w start (letter :: 32 :: t) ∧ Point nick msg S (I'' t) w)
      fun w => Obeys nick msg w.log := by
  rintro w ⟨hpre, hp⟩ hno
  rcases hc : cstr ((w.block start.blk).drop start.off) with _ | m
  · have hr : (accept step start).run w = (.error .undefined, w) :=
      Comp.bind_error (strAt_undefined hc)
    rw [hr]
    constructor
    · intro u w' h
      cases h
    · intro e w' h
      cases h
      exact hp.obeys
  · obtain ⟨t, rfl⟩ := hpre m hc
    exact ((point_accept _ (hI t)).mono (fun _ h => h) (fun _ w h => ⟨t, h⟩) fun _ h => h) w
      ⟨hc, hp⟩ hno

variable [Libc]

variable (fd) in
/-- A sent message: one frame, the netstring or something that begins with a zero. -/
theorem sendMessage_log {w : World} {src : Ptr} {a : Arr} {s : List Byte}
    (hs : IsStr w src s) (hsrc : src.blk ≠ .arr a) :
    (∃ e w', (sendMessage fd src a.ptr).run w = (.error e, w') ∧ w'.log = w.log) ∨
      ∃ bs w', (sendMessage fd src a.ptr).run w = (.ok (), w') ∧ Frame [a] w w' ∧
        w'.log = w.log ++ [.write fd bs] ∧ (bs = enc s ∨ bs.head? = some 48) := by
  have hspec := writeNet_spec (fun _ => True) a.ptr rfl hsrc w hs
  have hlog := (quiet_writeNet a.ptr BUFSIZE src w).1
  unfold sendMessage
  rcases hr : (writeNet a.ptr BUFSIZE src).run w with ⟨e | n, w1⟩
  · rw [hr] at hlog
    exact .inl ⟨e, w1, Comp.bind_error hr, hlog⟩
  · rw [hr] at hlog hspec
    obtain ⟨hn, hstr⟩ := hspec.2 n rfl
    rw [Comp.bind_ok hr, writeFd, Comp.gets_bind]
    split
    · refine .inr ⟨_, _, note_run _ _, ?_, by rw [World.note_log, hlog], ?_⟩
      · exact (hspec.1.frame.trans (frame_note _ _)).mono (by simp)
      · rcases hstr with h | h
        · obtain ⟨_, r, hr⟩ := isStr_iff.mp h
          exact .inl (by rw [hr, hn, List.take_left])
        · obtain ⟨_, r, hr⟩ := isStr_iff.mp h
          exact .inr (by rw [hr]; rfl)
    · exact .inl ⟨_, w1, rfl, hlog⟩

/-- A point in front of a frame that is permitted becomes one behind it. -/
theorem point_sendMessage (src : Ptr) {s : List Byte} (hsrc : src.blk ≠ .arr .sendbuf)
    (hA : ∀ y ∈ S, y.1 ≠ .sendbuf)
    (hperm : ∀ log, I log → AllMatched log → Permitted nick msg log fd (enc s))
    (hI : ∀ log bs, (bs = enc s ∨ bs.head? = some 48) → I log → I' (log ++ [.write fd bs])) :
    Comp.Triple Clean (fun w => IsStr w src s ∧ Point nick msg S I w)
      (sendMessage fd src Arr.sendbuf.ptr) (fun _ w => Point nick msg S I' w)
      fun w => Obeys nick msg w.log := by
  rintro w ⟨hs, hp⟩ _
  rcases sendMessage_log fd hs hsrc with ⟨e, w', hr, hl⟩ | ⟨bs, w', hr, hf, hl, hbs⟩
  · rw [hr]
    constructor
    · intro a w'' h
      cases h
    · intro e' w'' h
      cases h
      exact hl ▸ hp.obeys
  · rw [hr]
    constructor
    · intro a w'' h
      cases h
      refine ⟨hl ▸ hp.obeys.write fun hprot => ?_, ?_, fun y hy => hf.isStr ?_ (hp.strings y hy),
        hl ▸ hI _ _ hbs hp.inv⟩
      · rcases hbs with rfl | h0
        · exact hperm _ hp.inv hp.matched
        · exact absurd hprot (not_protocol_zero h0)
      · rw [hl]
        intro fd' want act hm
        rcases List.mem_append.mp hm with h1 | h1
        · exact hp.matched fd' want act h1
        · simp at h1
      · rintro a ⟨⟩
        simpa using hA y hy
    · intro e' w'' h
      cases h

/-- A text of two parts, sent. -/
theorem point_sendText (head : String) {src : Ptr} {t : List Byte} (hhead : NulFree (lit head))
    (hsrc : src.blk ≠ .arr .text) (hA : ∀ y ∈ S, y.1 ≠ .sendbuf ∧ y.1 ≠ .text)
    (hperm : ∀ log, I log → AllMatched log → Permitted nick msg log fd (enc (lit head ++ t)))
    (hst : InnerStable I)
    (hI : ∀ log bs, (bs = enc (lit head ++ t) ∨ bs.head? = some 48) → I log →
      I' (log ++ [.write fd bs])) :
    Comp.Triple Clean (fun w => IsStr w src t ∧ Point nick msg S I w) (sendText fd head src)
      (fun _ w => Point nick msg S I' w) fun w => Obeys nick msg w.log := by
  have hsrc' : ∀ a, src.blk = .arr a → a ∉ [Arr.text] := fun a ha hm => by
    rw [List.mem_singleton] at hm
    exact hsrc (hm ▸ ha)
  have hS : ∀ y ∈ S, y.1 ∉ [Arr.text] := fun y hy => by simpa using (hA y hy).2
  have hcpy : Spec [.text] Inner (fun w => IsStr w src t) (strcpy Arr.text.ptr (litPtr head))
      fun _ w => IsStr w Arr.text.ptr (lit head) ∧ IsStr w src t :=
    ((spec_strcpy text_only (litPtr_apart _ _)).keeps hsrc').mono
      (fun _ h => ⟨isStr_lit hhead, h⟩) (fun _ _ h => h)
      (fun _ h => h) fun _ h => h
  refine Comp.triple_bind (point_call _ _ hcpy hS hst) (fun _ => ?_) fun _ =>
    reflects_clean (grows_bind (quiet_strcat _ _).grows fun _ => grows_sendMessage _ _ _)
  refine Comp.triple_bind (point_call _ _ (spec_strcat _ text_only hsrc) hS hst) (fun _ => ?_) fun _ =>
    reflects_clean (grows_sendMessage _ _ _)
  exact point_sendMessage _ (by decide) (fun y hy => (hA y hy).1) hperm hI

/-- A message passes its check only as the expected one. -/
theorem point_check {expected start : Ptr} {want : List Byte} (hstart : start.blk = .arr .recvbuf)
    (hexp : expected.blk ≠ .arr .errmsg) (hA : ∀ y ∈ S, y.1 ≠ .errmsg ∧ y.1 ≠ .recvbuf)
    (hI : InnerStable I) :
    Comp.Triple Clean (fun w => IsStr w expected want ∧ Point nick msg S I w)
      (checkMessage fd expected start) (fun _ w => IsStr w start want ∧ Point nick msg S I w)
      fun w => Obeys nick msg w.log := by
  have h := point_call nick msg (S := S) (checkMessage_spec fd want hstart (by decide) hexp)
    (fun y hy => by simpa using hA y hy) hI
  intro w hw hno
  obtain ⟨h1, h2⟩ := h w hw hno
  refine ⟨fun u w' hr => ?_, h2⟩
  obtain ⟨⟨act, hact, hm, hor⟩, hp⟩ := h1 u w' hr
  unfold Clean at hno
  rw [hr] at hno
  rcases hor with hE | rfl
  · exact absurd hE (hno fd want act hm)
  · exact ⟨hact, hp⟩

/-- A token message passes its check only with its prefix. -/
theorem point_checkPrefix {letter : Byte} {expected start : Ptr} (want : List Byte)
    (hstart : start.blk = .arr .recvbuf) (hexp : expected.blk ≠ .arr .errmsg)
    (hl : letter ≠ 0) (hwant : ∃ t, want = letter :: 32 :: t) (hx : ∀ w, IsStr w expected want)
    (hA : ∀ y ∈ S, y.1 ≠ .errmsg ∧ y.1 ≠ .recvbuf) (hI : InnerStable I) :
    Comp.Triple Clean (Point nick msg S I) (checkPrefix fd letter expected start)
      (fun _ w => (∀ m, IsStr w start m → ∃ t, m = letter :: 32 :: t) ∧ Point nick msg S I w)
      fun w => Obeys nick msg w.log := by
  obtain ⟨t, rfl⟩ := hwant
  have huniq : ∀ {w : World} {m m' : List Byte}, IsStr w start m → IsStr w start m' → m = m' :=
    fun h h' => Option.some.inj (h.symm.trans h')
  have hcheck : Comp.Triple Clean (Point nick msg S I) (checkMessage fd expected start)
      (fun _ w => (∀ m, IsStr w start m → ∃ t, m = letter :: 32 :: t) ∧ Point nick msg S I w)
      fun w => Obeys nick msg w.log :=
    (point_check hstart hexp hA hI).mono (fun w h => ⟨hx w, h⟩)
      (fun _ w h => ⟨fun m hm => ⟨t, huniq hm h.1⟩, h.2⟩) fun _ h => h
  intro w hp hno
  unfold checkPrefix at hno ⊢
  rcases hd : (w.block start.blk).drop start.off with _ | ⟨b0, rest⟩
  · have hc : (charAt start).run w = (.error .undefined, w) := by simp [charAt, hd]
    rw [Comp.bind_error hc]
    constructor
    · intro u w' h
      cases h
    · intro e w' h
      cases h
      exact hp.obeys
  have hc : (charAt start).run w = (.ok b0, w) := by simp [charAt, hd]
  rw [Comp.bind_ok hc] at hno ⊢
  by_cases h0 : b0 = letter
  · rw [if_neg (fun h => h h0)] at hno ⊢
    have hd1 : (w.block (start + 1).blk).drop (start + 1).off = rest := by
      rw [Ptr.add_blk, Ptr.add_off, ← List.drop_drop, hd]
      rfl
    rcases rest with _ | ⟨b1, rest⟩
    · have hc1 : (charAt (start + 1)).run w = (.error .undefined, w) := by
        simp only [charAt, hd1]
      rw [Comp.bind_error hc1]
      constructor
      · intro u w' h
        cases h
      · intro e w' h
        cases h
        exact hp.obeys
    have hc1 : (charAt (start + 1)).run w = (.ok b1, w) := by simp only [charAt, hd1]
    rw [Comp.bind_ok hc1] at hno ⊢
    by_cases h1 : b1 = 32
    · rw [Comp.when_neg (fun h => h h1)]
      constructor
      · intro u w' h
        cases h
        refine ⟨fun m hm => ?_, hp⟩
        obtain ⟨hn, r, hr⟩ := isStr_iff.mp hm
        rw [hd, h0, h1] at hr
        rcases m with _ | ⟨x, _ | ⟨y, m⟩⟩
        · exact absurd (List.cons.inj hr).1 hl
        · exact absurd (List.cons.inj (List.cons.inj hr).2).1 (by decide)
        · simp only [List.cons_append, List.cons.injEq] at hr
          exact ⟨m, by rw [hr.1, hr.2.1]⟩
      · intro e w' h
        cases h
    · rw [Comp.when_pos h1] at hno ⊢
      exact hcheck w hp hno
  · rw [if_pos h0] at hno ⊢
    exact hcheck w hp hno

end Points

/-! ## The steps -/

section Steps

variable {nick msg t : List Byte} {S : List (Arr × List Byte)} {I I' : List Event → Prop}
  {fuel : Nat}

/-- A cursor into `recvbuf`. -/
abbrev InBuffer (c : Cursor) : Prop := c.startOfNetstring.blk = .arr .recvbuf

/-- Strings that receiving and sending leave alone. -/
abbrev Apart (S : List (Arr × List Byte)) : Prop :=
  ∀ y ∈ S, y.1 ∉ [Arr.recvbuf, .sendbuf, .text, .buf, .scratch, .errmsg]

theorem Apart.sub (h : Apart S) {A : List Arr}
    (hA : ∀ a ∈ A, a ∈ [Arr.recvbuf, .sendbuf, .text, .buf, .scratch, .errmsg]) :
    ∀ y ∈ S, y.1 ∉ A := fun y hy hm => h y hy (hA _ hm)

theorem advance_point (c : Cursor) (hc : InBuffer c) (hI : InnerStable I) :
    Comp.Triple Clean (Point nick msg S I) (advance c)
      (fun c' w => InBuffer c' ∧ Point nick msg S I w) fun w => Obeys nick msg w.log := by
  have hspec : Spec [] Inner (fun _ => True) (advance c) fun c' _ => InBuffer c' := by
    refine spec_of_ok (tame_advance c) fun w c' w' _ hr => ?_
    unfold advance at hr
    obtain ⟨p, w1, hp, hr⟩ := Comp.bind_eq_ok hr
    cases hr
    unfold updateNets at hp
    split at hp
    · cases hp
      rfl
    · obtain ⟨n, w2, _, hp⟩ := Comp.bind_eq_ok hp
      cases hp
      exact hc
  exact (point_call _ _ hspec (fun _ _ => List.not_mem_nil) hI).mono (fun _ h => ⟨trivial, h⟩)
    (fun _ _ h => h) fun _ h => h

/-- The expected messages of `acc` have been taken; `data` and `dtoken` say whether a message of
    the protocol may have been sent on the data connection, and whether its token was taken. -/
structure Stage (acc : List Event) (data dtoken : Bool) (log : List Event) : Prop where
  taken : ∀ e ∈ acc, e ∈ log
  noData : data = false → ∀ bs, Protocol bs → .write .data bs ∉ log
  noDtoken : dtoken = false → ∀ m, .accept .dataDtoken m ∉ log

section Stage

variable {acc acc' log : List Event} {data dtoken : Bool} {fd : Fd} {bs : List Byte}

theorem stage_inner : InnerStable (Stage acc data dtoken) := fun log es he h =>
  ⟨fun e hm => List.mem_append_left _ (h.taken e hm),
    fun hd bs hp hm => by
      rcases List.mem_append.mp hm with h1 | h1
      · exact h.noData hd bs hp h1
      · exact he _ h1 hp,
    fun ht m hm => by
      rcases List.mem_append.mp hm with h1 | h1
      · exact h.noDtoken ht m h1
      · exact he _ h1⟩

theorem Stage.sub (h : Stage acc data dtoken log) (hsub : ∀ e ∈ acc', e ∈ acc) :
    Stage acc' data dtoken log := ⟨fun e hm => h.taken e (hsub e hm), h.noData, h.noDtoken⟩

theorem Stage.write_control (h : Stage acc data dtoken log) (bs : List Byte) :
    Stage acc data dtoken (log ++ [.write .control bs]) where
  taken e hm := List.mem_append_left _ (h.taken e hm)
  noData hd bs' hp hm := by
    rcases List.mem_append.mp hm with h1 | h1
    · exact h.noData hd bs' hp h1
    · simp at h1
  noDtoken ht m hm := by
    rcases List.mem_append.mp hm with h1 | h1
    · exact h.noDtoken ht m h1
    · simp at h1

theorem Stage.write_data (h : Stage acc data dtoken log) (bs : List Byte) :
    Stage acc true dtoken (log ++ [.write .data bs]) where
  taken e hm := List.mem_append_left _ (h.taken e hm)
  noData hd := by cases hd
  noDtoken ht m hm := by
    rcases List.mem_append.mp hm with h1 | h1
    · exact h.noDtoken ht m h1
    · simp at h1

theorem Stage.accept (step : Step) {m : List Byte} (h : Stage acc data dtoken log) :
    Stage (.accept step m :: acc) data (dtoken || step = .dataDtoken) (log ++ [.accept step m]) where
  taken e hm := by
    rcases List.mem_cons.mp hm with rfl | hm
    · simp
    · exact List.mem_append_left _ (h.taken e hm)
  noData hd bs' hp hm := by
    rcases List.mem_append.mp hm with h1 | h1
    · exact h.noData hd bs' hp h1
    · simp at h1
  noDtoken ht m' hm := by
    simp only [Bool.or_eq_false_iff, decide_eq_false_iff_not] at ht
    rcases List.mem_append.mp hm with h1 | h1
    · exact h.noDtoken ht.1 m' h1
    · simp only [List.mem_singleton, Event.accept.injEq] at h1
      exact ht.2 h1.1.symm

/-- Before the data token, every frame on the control connection is permitted. -/
theorem Stage.permits_control (h : Stage acc data false log) (hm : AllMatched log) :
    Permitted nick msg log .control bs where
  matched := hm
  message hu := by cases hu.1
  echo he := by
    obtain ⟨_, m, hm⟩ := he
    exact absurd hm (h.noDtoken rfl m)

/-- The name is permitted as long as nothing was sent on the data connection. -/
theorem Stage.permits_name (h : Stage acc false dtoken log) (hm : AllMatched log) :
    Permitted nick msg log .data (enc (lit "D " ++ nick)) where
  matched := hm
  message hu := by
    obtain ⟨_, heq, hor⟩ := hu
    have hinj : lit "D " ++ nick = lit "D " ++ msg :=
      enc_inj heq
    rcases hor with hne | hw
    · exact absurd (List.append_cancel_left hinj) hne
    · exact absurd hw (h.noData rfl _ ⟨nick, .inr rfl⟩)
  echo he := by cases he.1

/-- The message of the user is permitted behind the first four steps. -/
theorem Stage.permits_message (h : Stage acc data dtoken log) (hm : AllMatched log)
    (h4 : FourMatched acc) : Permitted nick msg log .data bs where
  matched := hm
  message _ := by
    obtain ⟨t, h1, h2, h3, h4⟩ := h4
    exact ⟨t, h.taken _ h1, h.taken _ h2, h.taken _ h3, h.taken _ h4⟩
  echo he := by cases he.1

/-- The echo is permitted behind the confirmed length. -/
theorem Stage.permits_echo (h : Stage acc data dtoken log) (hm : AllMatched log)
    (ha : .accept .controlLength (lit "S " ++ dec msg.length) ∈ acc) :
    Permitted nick msg log .control bs where
  matched := hm
  message hu := by cases hu.1
  echo _ := h.taken _ ha

end Stage

/-- The argument strings. -/
abbrev userStrs (nick msg : List Byte) : List (Arr × List Byte) := [(.nick, nick), (.msg, msg)]

theorem apart_user : Apart (userStrs nick msg) := by
  intro y hy
  simp only [List.mem_cons, List.not_mem_nil, or_false] at hy
  rcases hy with rfl | rfl <;> simp

theorem apart_token : Apart ((.token, t) :: userStrs nick msg) := by
  intro y hy
  rcases List.mem_cons.mp hy with rfl | hy
  · simp
  · exact apart_user y hy

theorem Apart.unsent (h : Apart S) : ∀ y ∈ S, y.1 ≠ .sendbuf ∧ y.1 ≠ .text := fun y hy => by
  have := h y hy
  simp only [List.mem_cons, not_or] at this
  exact ⟨this.2.1, this.2.2.1⟩

theorem Apart.unreceived (h : Apart S) : ∀ y ∈ S, y.1 ≠ .errmsg ∧ y.1 ≠ .recvbuf := fun y hy => by
  have := h y hy
  simp only [List.mem_cons, not_or] at this
  exact ⟨this.2.2.2.2.2.1, this.1⟩

/-- The messages taken by the first four steps. -/
def taken1 : List Event := [.accept .controlVersion (lit "S GRNVS V:1.0")]

def taken2 (t : List Byte) : List Event := .accept .controlToken (lit "S " ++ t) :: taken1

def taken3 (t : List Byte) : List Event :=
  .accept .dataVersion (lit "T GRNVS V:1.0") :: taken2 t

def taken4 (t : List Byte) : List Event := .accept .dataToken (lit "T " ++ t) :: taken3 t

theorem fourMatched_taken4 (t : List Byte) : FourMatched (taken4 t) :=
  ⟨t, by simp [taken4, taken3, taken2, taken1], by simp [taken4, taken3, taken2],
    by simp [taken4, taken3], by simp [taken4]⟩

variable [Libc]

/-- The front of a text is written. -/
theorem head_point (head : String) (hhead : NulFree (lit head)) (hS : Apart S) (hI : InnerStable I) :
    Comp.Triple Clean (Point nick msg S I) (strcpy Arr.text.ptr (litPtr head))
      (fun _ w => IsStr w Arr.text.ptr (lit head) ∧ Point nick msg S I w)
      fun w => Obeys nick msg w.log :=
  (point_call _ _ (spec_strcpy text_only (litPtr_apart _ _)) (hS.sub (by decide)) hI).mono
    (fun _ h => ⟨isStr_lit hhead, h⟩) (fun _ _ h => h) fun _ h => h

theorem receive_point (fd : Fd) (c : Cursor) (hc : InBuffer c) (hS : Apart S)
    (hI : InnerStable I) :
    Comp.Triple Clean (Point nick msg S I) (receive fuel fd c)
      (fun c' w => InBuffer c' ∧ Point nick msg S I w) fun w => Obeys nick msg w.log := by
  have hspec : Spec recvArrs Inner (fun _ => True) (receive fuel fd c) fun c' _ => InBuffer c' := by
    refine spec_of_ok (tame_receive fuel c) fun w c' w' _ hr => ?_
    unfold receive at hr
    split at hr
    · obtain ⟨n, w1, _, hr⟩ := Comp.bind_eq_ok hr
      cases hr
      exact hc
    · cases hr
      exact hc
  exact (point_call _ _ hspec (hS.sub (by decide)) hI).mono (fun _ h => ⟨trivial, h⟩)
    (fun _ _ h => h) fun _ h => h

/-- The end of a step that compares the whole message. -/
theorem tail_point {fd : Fd} {step : Step} {expected : Ptr} {want : List Byte} {c : Cursor}
    (hc : InBuffer c) (hexp : expected.blk ≠ .arr .errmsg) (hS : Apart S) (hI : InnerStable I)
    (hI' : InnerStable I') (hstep : ∀ log, I log → I' (log ++ [.accept step want])) :
    Comp.Triple Clean (fun w => IsStr w expected want ∧ Point nick msg S I w)
      (do checkMessage fd expected c.startOfNetstring
          accept step c.startOfNetstring
          advance c)
      (fun c' w => InBuffer c' ∧ Point nick msg S I' w) fun w => Obeys nick msg w.log := by
  refine Comp.triple_bind (point_check hc hexp (fun y hy => ?_) hI) (fun _ => ?_) fun _ =>
    reflects_clean (grows_bind (grows_accept _ _) fun _ => grows_advance _)
  · have := hS y hy
    simp only [List.mem_cons, not_or] at this
    exact ⟨this.2.2.2.2.2.1, this.1⟩
  · refine Comp.triple_bind (point_accept _ hstep) (fun _ => ?_) fun _ =>
      reflects_clean (grows_advance _)
    exact (advance_point c hc hI').mono (fun _ h => h.2) (fun _ _ h => h) fun _ h => h

/-! ### The steps one by one -/

theorem controlVersion_point :
    Comp.Triple Clean (Point nick msg (userStrs nick msg) (Stage [] false false))
      (controlVersion fuel)
      (fun c w => InBuffer c ∧ Point nick msg (userStrs nick msg) (Stage taken1 false false) w)
      fun w => Obeys nick msg w.log := by
  have hsent : Comp.Triple Clean (Point nick msg (userStrs nick msg) (Stage [] false false))
      (sendMessage .control (litPtr "C GRNVS V:1.0") Arr.sendbuf.ptr)
      (fun _ w => Point nick msg (userStrs nick msg) (Stage [] false false) w)
      fun w => Obeys nick msg w.log := fun w h =>
    point_sendMessage (litPtr "C GRNVS V:1.0") (s := lit "C GRNVS V:1.0")
      (by simp [litPtr]) (fun y hy => (apart_user.unsent y hy).1)
      (fun _ h hm => h.permits_control hm) (fun _ bs _ h => h.write_control bs) w
      ⟨isStr_lit (s := "C GRNVS V:1.0") (by decide), h⟩
  refine Comp.triple_bind hsent (fun _ => ?_) fun _ =>
    reflects_clean (grows_bind (grows_recvMessage _ _ _) fun nets =>
      grows_taken .control _ .controlVersion ⟨nets, Arr.recvbuf.ptr⟩)
  refine Comp.triple_bind (point_tame _ _ (tame_recvMessage fuel) (apart_user.sub (by decide))
    stage_inner) (fun nets => ?_) fun nets =>
    reflects_clean (grows_taken .control _ .controlVersion ⟨nets, Arr.recvbuf.ptr⟩)
  exact (tail_point (c := ⟨nets, Arr.recvbuf.ptr⟩) rfl (by simp [litPtr]) apart_user stage_inner
    stage_inner fun _ h => h.accept _).mono
    (fun _ h => ⟨isStr_lit (s := "S GRNVS V:1.0") (by decide), h⟩) (fun _ _ h => h) fun _ h => h

/-- What `token` holds after it was copied. -/
theorem copy_point {src : Ptr} (hsrc : src.blk = .arr .recvbuf) (hI : InnerStable I) :
    Comp.Triple Clean (fun w => IsStr w src t ∧ Point nick msg (userStrs nick msg) I w)
      (strcpy Arr.token.ptr src)
      (fun _ w => Point nick msg ((.token, t) :: userStrs nick msg) I w)
      fun w => Obeys nick msg w.log := by
  have htok : ∀ a, Arr.token.ptr.blk = .arr a → a ∈ [Arr.token] := by
    rintro a ⟨⟩
    exact List.mem_singleton_self _
  refine (point_call _ _ (spec_strcpy htok (by rw [hsrc]; decide)) (fun y hy => ?_) hI).mono
    (fun _ h => h) (fun _ w h => ⟨h.2.obeys, h.2.matched, fun y hy => ?_, h.2.inv⟩) fun _ h => h
  · simp only [List.mem_cons, List.not_mem_nil, or_false] at hy
    rcases hy with rfl | rfl <;> simp
  · rcases List.mem_cons.mp hy with rfl | hy
    · exact h.1
    · exact h.2.strings y hy

theorem controlToken_point {c : Cursor} (hc : InBuffer c) :
    Comp.Triple Clean (Point nick msg (userStrs nick msg) (Stage taken1 false false))
      (controlToken fuel c)
      (fun _ w => ∃ t, Point nick msg ((.token, t) :: userStrs nick msg)
        (Stage (taken2 t) false false) w) fun w => Obeys nick msg w.log := by
  have hsent : Comp.Triple Clean (Point nick msg (userStrs nick msg) (Stage taken1 false false))
      (sendText .control "C " Arr.nick.ptr)
      (fun _ w => Point nick msg (userStrs nick msg) (Stage taken1 false false) w)
      fun w => Obeys nick msg w.log := fun w h =>
    point_sendText "C " (t := nick) (by decide) (by decide) apart_user.unsent
      (fun _ h hm => h.permits_control hm) stage_inner (fun _ bs _ h => h.write_control bs) w
      ⟨h.strings (.nick, nick) (by simp), h⟩
  refine Comp.triple_bind hsent (fun _ => ?_) fun _ =>
    reflects_clean (grows_bind (grows_receive _ _ _) fun _ =>
      grows_bind (grows_checkPrefix _ _ _ _) fun _ => grows_bind (grows_accept _ _) fun _ =>
        grows_bind (quiet_strcpy _ _).grows fun _ => grows_advance _)
  refine Comp.triple_bind (receive_point .control c hc apart_user stage_inner) (fun c' => ?_)
    fun _ => reflects_clean (grows_bind (grows_checkPrefix _ _ _ _) fun _ =>
      grows_bind (grows_accept _ _) fun _ => grows_bind (quiet_strcpy _ _).grows fun _ =>
        grows_advance _)
  refine Comp.triple_fact fun hc' => ?_
  refine Comp.triple_bind (point_checkPrefix (lit "S <token>") hc' (by simp [litPtr])
    (by decide) ⟨lit "<token>", rfl⟩ (fun _ => isStr_lit (s := "S <token>") (by decide))
    apart_user.unreceived stage_inner) (fun _ => ?_) fun _ =>
    reflects_clean (grows_bind (grows_accept _ _) fun _ =>
      grows_bind (quiet_strcpy _ _).grows fun _ => grows_advance _)
  refine Comp.triple_bind (point_acceptPrefix (fun t => Stage (taken2 t) false false)
    fun t _ h => h.accept _) (fun _ => Comp.triple_exists fun t => ?_) fun _ =>
    reflects_clean (grows_bind (quiet_strcpy _ _).grows fun _ => grows_advance _)
  have hcopy : Comp.Triple Clean (fun w => IsStr w c'.startOfNetstring (83 :: 32 :: t) ∧
      Point nick msg (userStrs nick msg) (Stage (taken2 t) false false) w)
      (strcpy Arr.token.ptr (c'.startOfNetstring + 2))
      (fun _ w => Point nick msg ((.token, t) :: userStrs nick msg) (Stage (taken2 t) false false) w)
      fun w => Obeys nick msg w.log :=
    (copy_point (show (c'.startOfNetstring + 2).blk = .arr .recvbuf from hc') stage_inner).mono
      (fun _ h => ⟨IsStr.add (s := [83, 32]) h.1, h.2⟩) (fun _ _ h => h) fun _ h => h
  refine Comp.triple_bind hcopy (fun _ => ?_) fun _ => reflects_clean (grows_advance _)
  exact (advance_point c' hc' stage_inner).mono (fun _ h => h) (fun _ _ h => ⟨t, h.2⟩) fun _ h => h

/-- The set-up of the data connection: frames on the control connection only. -/
theorem openData_point {acc : List Event} {env : Env} (hS : Apart S) :
    Comp.Triple Clean (Point nick msg S (Stage acc false false)) (openData env)
      (fun _ w => Point nick msg S (Stage acc false false) w) fun w => Obeys nick msg w.log := by
  have hquit : ∀ {c : Prop} [Decidable c] {x : Run Unit}, Tame [] Inner x →
      Comp.Triple Clean (Point nick msg S (Stage acc false false)) (Comp.when c x)
        (fun _ w => Point nick msg S (Stage acc false false) w) fun w => Obeys nick msg w.log :=
    fun hx => point_tame _ _ (tame_when hx) (fun _ _ => List.not_mem_nil) stage_inner
  have hclose : Tame [] Inner
      (do note (.close .control); note (.close .listening); exit 1 : Run Unit) :=
    tame_bind (tame_note trivial (by simp [NoCheck])) fun _ =>
      tame_bind (tame_note trivial (by simp [NoCheck])) fun _ => spec_stop _
  have hsend : Grows (do
      sendMessage .control Arr.text.ptr Arr.sendbuf.ptr
      Comp.when (env.accepted = false)
        (do note (.close .control); note (.close .listening); exit 1)) :=
    grows_bind (grows_sendMessage _ _ _) fun _ => grows_when grows_closing
  have hport : Spec [.sendbuf] Inner (fun w => IsStr w Arr.text.ptr (lit "C "))
      (store Arr.sendbuf.ptr (dec env.port.toNat ++ [0]))
      fun _ w => IsStr w Arr.text.ptr (lit "C ") ∧ IsStr w Arr.sendbuf.ptr (dec env.port.toNat) :=
    ((spec_storeStr _ (P := fun _ => True) (dec_nulFree _) (by rintro a ⟨⟩; simp)).keeps
      (by rintro a ⟨⟩; simp)).mono (fun _ h => ⟨trivial, h⟩) (fun _ _ h => ⟨h.2, h.1⟩)
      (fun _ h => h) fun _ h => h
  have hSt : ∀ y ∈ S, y.1 ∉ [Arr.text] := hS.sub (by decide)
  have hSb : ∀ y ∈ S, y.1 ∉ [Arr.sendbuf] := hS.sub (by decide)
  have hstr : Grows (do
      strcat Arr.text.ptr Arr.sendbuf.ptr
      sendMessage .control Arr.text.ptr Arr.sendbuf.ptr
      Comp.when (env.accepted = false)
        (do note (.close .control); note (.close .listening); exit 1)) :=
    grows_bind (quiet_strcat _ _).grows fun _ => hsend
  have hrest : Grows (do
      strcpy Arr.text.ptr (litPtr "C ")
      store Arr.sendbuf.ptr (dec env.port.toNat ++ [0])
      strcat Arr.text.ptr Arr.sendbuf.ptr
      sendMessage .control Arr.text.ptr Arr.sendbuf.ptr
      Comp.when (env.accepted = false)
        (do note (.close .control); note (.close .listening); exit 1)) :=
    grows_bind (quiet_strcpy _ _).grows fun _ => grows_bind (quiet_store _ _).grows fun _ => hstr
  refine Comp.triple_bind (hquit (spec_stop _)) (fun _ => ?_) fun _ =>
    reflects_clean (grows_bind (grows_when grows_closing) fun _ =>
      grows_bind (grows_when grows_closing) fun _ => hrest)
  refine Comp.triple_bind (hquit hclose) (fun _ => ?_) fun _ =>
    reflects_clean (grows_bind (grows_when grows_closing) fun _ => hrest)
  refine Comp.triple_bind (hquit hclose) (fun _ => ?_) fun _ => reflects_clean hrest
  refine Comp.triple_bind (head_point "C " (by decide) hS stage_inner) (fun _ => ?_) fun _ =>
    reflects_clean (grows_bind (quiet_store _ _).grows fun _ => hstr)
  refine Comp.triple_bind (point_call _ _ hport hSb stage_inner) (fun _ => ?_) fun _ =>
    reflects_clean hstr
  refine Comp.triple_bind (point_call _ _ (spec_strcat _ text_only (by decide)) hSt stage_inner)
    (fun _ => ?_) fun _ =>
    reflects_clean hsend
  refine Comp.triple_bind (point_sendMessage _ (by decide) (fun y hy => (hS.unsent y hy).1)
    (fun _ h hm => h.permits_control hm) fun _ bs _ h => h.write_control bs) (fun _ => ?_) fun _ =>
    reflects_clean (grows_when grows_closing)
  exact hquit hclose

theorem dataVersion_point {acc : List Event} (hS : Apart S) :
    Comp.Triple Clean (Point nick msg S (Stage acc false false)) (dataVersion fuel)
      (fun c w => InBuffer c ∧ Point nick msg S
        (Stage (.accept .dataVersion (lit "T GRNVS V:1.0") :: acc) false false) w)
      fun w => Obeys nick msg w.log := by
  refine Comp.triple_bind (point_tame _ _ (tame_recvMessage fuel) (hS.sub (by decide))
    stage_inner) (fun nets => ?_) fun nets =>
    reflects_clean (grows_taken .data _ .dataVersion ⟨nets, Arr.recvbuf.ptr⟩)
  exact (tail_point (c := ⟨nets, Arr.recvbuf.ptr⟩) rfl (by simp [litPtr]) hS stage_inner
    stage_inner fun _ h => h.accept _).mono
    (fun _ h => ⟨isStr_lit (s := "T GRNVS V:1.0") (by decide), h⟩) (fun _ _ h => h) fun _ h => h

theorem dataToken_point {c : Cursor} (hc : InBuffer c) :
    Comp.Triple Clean
      (Point nick msg ((.token, t) :: userStrs nick msg) (Stage (taken3 t) false false))
      (dataToken fuel c)
      (fun c w => InBuffer c ∧ Point nick msg (userStrs nick msg) (Stage (taken4 t) true false) w)
      fun w => Obeys nick msg w.log := by
  have hS : Apart ((.token, t) :: userStrs nick msg) := apart_token
  have hsent : Comp.Triple Clean
      (Point nick msg ((.token, t) :: userStrs nick msg) (Stage (taken3 t) false false))
      (sendText .data "D " Arr.nick.ptr)
      (fun _ w => Point nick msg ((.token, t) :: userStrs nick msg)
        (Stage (taken3 t) true false) w) fun w => Obeys nick msg w.log := fun w h =>
    point_sendText "D " (t := nick) (by decide) (by decide) hS.unsent
      (fun _ h hm => h.permits_name hm) stage_inner (fun _ bs _ h => h.write_data bs) w
      ⟨h.strings (.nick, nick) (by simp), h⟩
  have hSt : ∀ y ∈ (Arr.token, t) :: userStrs nick msg, y.1 ∉ [Arr.text] := hS.sub (by decide)
  have htail : ∀ c' : Cursor, Grows (do
      checkMessage .data Arr.text.ptr c'.startOfNetstring
      accept .dataToken c'.startOfNetstring
      advance c') := fun _ =>
    grows_taken _ _ _ _
  refine Comp.triple_bind hsent (fun _ => ?_) fun _ =>
    reflects_clean (grows_bind (grows_receive _ _ _) fun _ =>
      grows_bind (quiet_strcpy _ _).grows fun _ => grows_bind (quiet_strcat _ _).grows fun _ =>
        htail _)
  refine Comp.triple_bind (receive_point .data c hc hS stage_inner) (fun c' => ?_)
    fun _ => reflects_clean (grows_bind (quiet_strcpy _ _).grows fun _ =>
      grows_bind (quiet_strcat _ _).grows fun _ => htail _)
  refine Comp.triple_fact fun hc' => ?_
  have hhead : Comp.Triple Clean
      (Point nick msg ((.token, t) :: userStrs nick msg) (Stage (taken3 t) true false))
      (strcpy Arr.text.ptr (litPtr "T "))
      (fun _ w => (IsStr w Arr.text.ptr (lit "T ") ∧ IsStr w Arr.token.ptr t) ∧
        Point nick msg ((.token, t) :: userStrs nick msg) (Stage (taken3 t) true false) w)
      fun w => Obeys nick msg w.log :=
    (head_point "T " (by decide) hS stage_inner).mono (fun _ h => h)
      (fun _ w h => ⟨⟨h.1, h.2.strings (.token, t) (by simp)⟩, h.2⟩) fun _ h => h
  refine Comp.triple_bind hhead (fun _ => ?_)
    fun _ => reflects_clean (grows_bind (quiet_strcat _ _).grows fun _ => htail _)
  refine Comp.triple_bind (point_call _ _ (spec_strcat _ text_only (by decide)) hSt stage_inner)
    (fun _ => ?_) fun _ =>
    reflects_clean (htail _)
  refine (tail_point hc' (by decide) hS stage_inner stage_inner fun _ h => h.accept _).mono
    (fun _ h => h) (fun _ _ h => ⟨h.1, h.2.obeys, h.2.matched, fun y hy => ?_, h.2.inv⟩) fun _ h => h
  exact h.2.strings y (List.mem_cons_of_mem _ hy)

/-- The token is copied from wherever `src` points. -/
theorem copy_point_any {src : Ptr} (hsrc : src.blk = .arr .recvbuf) (hI : InnerStable I) :
    Comp.Triple Clean (Point nick msg (userStrs nick msg) I) (strcpy Arr.token.ptr src)
      (fun _ w => ∃ t', Point nick msg ((.token, t') :: userStrs nick msg) I w)
      fun w => Obeys nick msg w.log := by
  intro w hp hno
  rcases hc : cstr ((w.block src.blk).drop src.off) with _ | t'
  · have hr : (strcpy Arr.token.ptr src).run w = (.error .undefined, w) :=
      Comp.bind_error (strAt_undefined hc)
    rw [hr]
    constructor
    · intro u w' h
      cases h
    · intro e w' h
      cases h
      exact hp.obeys
  · exact ((copy_point hsrc hI).mono (fun _ h => h) (fun _ w h => ⟨t', h⟩) fun _ h => h) w ⟨hc, hp⟩ hno

theorem dataDtoken_point {c : Cursor} (hc : InBuffer c) :
    Comp.Triple Clean (Point nick msg (userStrs nick msg) (Stage (taken4 t) true false))
      (dataDtoken fuel c)
      (fun c w => ∃ t', InBuffer c ∧ Point nick msg ((.token, t') :: userStrs nick msg)
        (Stage (taken4 t) true true) w) fun w => Obeys nick msg w.log := by
  have hsent : Comp.Triple Clean
      (Point nick msg (userStrs nick msg) (Stage (taken4 t) true false))
      (sendText .data "D " Arr.msg.ptr)
      (fun _ w => Point nick msg (userStrs nick msg) (Stage (taken4 t) true false) w)
      fun w => Obeys nick msg w.log := fun w h =>
    point_sendText "D " (t := msg) (by decide) (by decide) apart_user.unsent
      (fun _ h hm => h.permits_message hm (fourMatched_taken4 t)) stage_inner
      (fun _ bs _ h => h.write_data bs) w ⟨h.strings (.msg, msg) (by simp), h⟩
  have hend : ∀ c'' : Cursor, Grows (do
      note (.close .listening)
      note (.close .data)
      pure c'' : Run Cursor) := fun _ =>
    grows_bind (grows_note _) fun _ => grows_bind (grows_note _) fun _ => grows_pure _
  have hcopied : ∀ c' : Cursor, Grows (do
      strcpy Arr.token.ptr (Arr.recvbuf.ptr + 2)
      let c'' ← advance c'
      note (.close .listening)
      note (.close .data)
      pure c'' : Run Cursor) := fun _ =>
    grows_bind (quiet_strcpy _ _).grows fun _ => grows_bind (grows_advance _) fun _ => hend _
  refine Comp.triple_bind hsent (fun _ => ?_) fun _ =>
    reflects_clean (grows_bind (grows_receive _ _ _) fun _ =>
      grows_bind (grows_checkPrefix _ _ _ _) fun _ => grows_bind (grows_accept _ _) fun _ =>
        hcopied _)
  refine Comp.triple_bind (receive_point .data c hc apart_user stage_inner) (fun c' => ?_)
    fun _ => reflects_clean (grows_bind (grows_checkPrefix _ _ _ _) fun _ =>
      grows_bind (grows_accept _ _) fun _ => hcopied _)
  refine Comp.triple_fact fun hc' => ?_
  refine Comp.triple_bind (point_checkPrefix (lit "T <dtoken>") hc' (by simp [litPtr])
    (by decide) ⟨lit "<dtoken>", rfl⟩ (fun _ => isStr_lit (s := "T <dtoken>") (by decide))
    apart_user.unreceived stage_inner) (fun _ => ?_) fun _ =>
    reflects_clean (grows_bind (grows_accept _ _) fun _ => hcopied _)
  have haccept : Comp.Triple Clean
      (fun w => (∀ m, IsStr w c'.startOfNetstring m → ∃ t, m = 84 :: 32 :: t) ∧
        Point nick msg (userStrs nick msg) (Stage (taken4 t) true false) w)
      (accept .dataDtoken c'.startOfNetstring)
      (fun _ w => Point nick msg (userStrs nick msg) (Stage (taken4 t) true true) w)
      fun w => Obeys nick msg w.log :=
    (point_acceptPrefix (fun _ => Stage (taken4 t) true true) fun _ _ h =>
      (Stage.accept .dataDtoken h).sub fun e he => List.mem_cons_of_mem _ he).mono
      (fun _ h => h) (fun _ _ h => h.elim fun _ h => h.2) fun _ h => h
  refine Comp.triple_bind haccept (fun _ => ?_) fun _ => reflects_clean (hcopied _)
  have hsrc : (Arr.recvbuf.ptr + 2).blk = .arr .recvbuf := rfl
  refine Comp.triple_bind (copy_point_any hsrc stage_inner)
    (fun _ => Comp.triple_exists fun t' => ?_)
    fun _ => reflects_clean (grows_bind (grows_advance _) fun _ => hend _)
  refine Comp.triple_bind (advance_point c' hc' stage_inner) (fun c'' => ?_) fun _ =>
    reflects_clean (hend _)
  have hclose : ∀ fd, Comp.Triple Clean (fun w => InBuffer c'' ∧
      Point nick msg ((.token, t') :: userStrs nick msg) (Stage (taken4 t) true true) w)
      (note (.close fd))
      (fun _ w => InBuffer c'' ∧
        Point nick msg ((.token, t') :: userStrs nick msg) (Stage (taken4 t) true true) w)
      fun w => Obeys nick msg w.log := fun fd =>
    Comp.triple_fact fun hc'' => (point_tame _ _ (A := [])
      (tame_note (e := .close fd) trivial (by simp [NoCheck])) (fun _ _ => List.not_mem_nil)
      stage_inner).mono (fun _ h => h) (fun _ _ h => ⟨hc'', h⟩) fun _ h => h
  refine Comp.triple_bind (hclose .listening) (fun _ => ?_) fun _ =>
    reflects_clean (grows_bind (grows_note _) fun _ => grows_pure _)
  refine Comp.triple_bind (hclose .data) (fun _ => ?_) fun _ => reflects_clean (grows_pure _)
  exact (Comp.triple_pure c'').mono (fun w h => ⟨t', h⟩) (fun _ _ h => h) fun _ h => h

theorem controlLength_point {acc : List Event} {c : Cursor} (hc : InBuffer c) :
    Comp.Triple Clean
      (Point nick msg ((.token, t) :: userStrs nick msg) (Stage acc true true))
      (controlLength fuel c)
      (fun c w => InBuffer c ∧ Point nick msg ((.token, t) :: userStrs nick msg)
        (Stage (.accept .controlLength (lit "S " ++ dec msg.length) :: acc) true true) w)
      fun w => Obeys nick msg w.log := by
  set S := (Arr.token, t) :: userStrs nick msg with hSdef
  have hS : Apart S := apart_token
  have hSt : ∀ y ∈ S, y.1 ∉ [Arr.text] := hS.sub (by decide)
  have htail : ∀ c' : Cursor, Grows (do
      checkMessage .control Arr.text.ptr c'.startOfNetstring
      accept .controlLength c'.startOfNetstring
      advance c') := fun _ =>
    grows_taken _ _ _ _
  refine Comp.triple_bind (receive_point .control c hc hS stage_inner) (fun c' => ?_)
    fun _ => reflects_clean (grows_bind (quiet_strcpy _ _).grows fun _ =>
      grows_bind (quiet_strlen _).grows fun _ => grows_bind (quiet_store _ _).grows fun _ =>
        htail _)
  refine Comp.triple_fact fun hc' => ?_
  refine Comp.triple_bind (head_point "S " (by decide) hS stage_inner) (fun _ => ?_) fun _ =>
    reflects_clean (grows_bind (quiet_strlen _).grows fun _ => grows_bind (quiet_store _ _).grows fun _ => htail _)
  have hlen : Comp.Triple Clean
      (fun w => IsStr w Arr.text.ptr (lit "S ") ∧ Point nick msg S (Stage acc true true) w)
      (strlen Arr.msg.ptr)
      (fun n w => n = msg.length ∧ IsStr w Arr.text.ptr (lit "S ") ∧
        Point nick msg S (Stage acc true true) w) fun w => Obeys nick msg w.log := by
    intro w h _
    rw [strlen_run (h.2.strings (.msg, msg) (by simp [hSdef]))]
    constructor
    · intro n w' hr
      cases hr
      exact ⟨rfl, h⟩
    · intro e w' hr
      cases hr
  refine Comp.triple_bind hlen (fun n => Comp.triple_fact ?_) fun _ => reflects_clean
    (grows_bind (quiet_store _ _).grows fun _ => htail _)
  rintro rfl
  have h2 : Arr.text.ptr + 2 = Arr.text.ptr + (lit "S ").length := by
    rw [show (lit "S ").length = 2 from by decide]
  rw [h2]
  refine Comp.triple_bind (point_call _ _ (spec_storeEnd _ (dec_nulFree _) text_only) hSt stage_inner)
    (fun _ => ?_) fun _ => reflects_clean (htail _)
  exact tail_point hc' (by decide) hS stage_inner stage_inner fun _ h => h.accept _

theorem controlAck_point {acc : List Event} {c : Cursor} (hc : InBuffer c)
    (hacc : .accept .controlLength (lit "S " ++ dec msg.length) ∈ acc) :
    Comp.Triple Clean
      (Point nick msg ((.token, t) :: userStrs nick msg) (Stage acc true true))
      (controlAck fuel c) (fun _ w => Obeys nick msg w.log) fun w => Obeys nick msg w.log := by
  set S := (Arr.token, t) :: userStrs nick msg with hSdef
  have hS : Apart S := apart_token
  have hsent : Comp.Triple Clean (Point nick msg S (Stage acc true true))
      (sendText .control "C " Arr.token.ptr) (fun _ w => Point nick msg S (Stage acc true true) w)
      fun w => Obeys nick msg w.log := fun w h =>
    point_sendText "C " (t := t) (by decide) (by decide) hS.unsent
      (fun _ h hm => h.permits_echo hm hacc) stage_inner (fun _ bs _ h => h.write_control bs) w
      ⟨h.strings (.token, t) (by simp [hSdef]), h⟩
  have hend : ∀ c' : Cursor, Grows (do
      let _ ← advance c'
      note (.close .control) : Run Unit) := fun _ =>
    grows_bind (grows_advance _) fun _ => grows_note _
  have htail : ∀ c' : Cursor, Grows (do
      checkMessage .control Arr.text.ptr c'.startOfNetstring
      accept .controlAck c'.startOfNetstring
      let _ ← advance c'
      note (.close .control) : Run Unit) := fun _ =>
    grows_bind (grows_checkMessage _ _ _) fun _ => grows_bind (grows_accept _ _) fun _ => hend _
  refine Comp.triple_bind hsent (fun _ => ?_) fun _ => reflects_clean
    (grows_bind (grows_receive _ _ _) fun _ => grows_bind (quiet_strcpy _ _).grows fun _ => htail _)
  refine Comp.triple_bind (receive_point .control c hc hS stage_inner) (fun c' => ?_)
    fun _ => reflects_clean (grows_bind (quiet_strcpy _ _).grows fun _ => htail _)
  refine Comp.triple_fact fun hc' => ?_
  refine Comp.triple_bind (head_point "S ACK" (by decide) hS stage_inner) (fun _ => ?_) fun _ =>
    reflects_clean (htail _)
  refine Comp.triple_bind (point_check hc' (by decide) hS.unreceived stage_inner) (fun _ => ?_)
    fun _ => reflects_clean (grows_bind (grows_accept _ _) fun _ => hend _)
  refine Comp.triple_bind (point_accept .controlAck fun _ h => h.accept _) (fun _ => ?_)
    fun _ => reflects_clean (hend _)
  refine Comp.triple_bind ((advance_point c' hc' stage_inner).mono (fun _ h => h.2)
    (fun _ _ h => h.2) fun _ h => h) (fun _ => ?_) fun _ => reflects_clean (grows_note _)
  exact (point_tame _ _ (A := []) (tame_note (e := .close .control) trivial (by simp [NoCheck]))
    (fun _ _ => List.not_mem_nil) stage_inner).mono (fun _ h => h) (fun _ _ h => h.obeys)
    fun _ h => h

end Steps

/-! ## The whole client -/

section Whole

variable {nick msg : List Byte} {fuel : Nat} {env : Env}

variable [Libc]

/-- The connected client, from its first message on. -/
theorem protocol_point :
    Comp.Triple Clean (Point nick msg (userStrs nick msg) (Stage [] false false))
      (do let c ← controlVersion fuel
          let _ ← controlToken fuel c
          openData env
          let c ← dataVersion fuel
          let c ← dataToken fuel c
          let c ← dataDtoken fuel c
          let c ← controlLength fuel c
          controlAck fuel c)
      (fun _ w => Obeys nick msg w.log) fun w => Obeys nick msg w.log := by
  have g8 : ∀ c, Comp.Reflects Clean (controlLength fuel c >>= controlAck fuel) := fun _ =>
    Comp.reflects_bind (reflects_clean (grows_controlLength _ _)) fun _ =>
      reflects_clean (grows_controlAck _ _)
  have g7 : ∀ c, Comp.Reflects Clean (do
      let c ← dataDtoken fuel c
      let c ← controlLength fuel c
      controlAck fuel c) := fun _ =>
    Comp.reflects_bind (reflects_clean (grows_dataDtoken _ _)) g8
  have g6 : ∀ c, Comp.Reflects Clean (do
      let c ← dataToken fuel c
      let c ← dataDtoken fuel c
      let c ← controlLength fuel c
      controlAck fuel c) := fun _ =>
    Comp.reflects_bind (reflects_clean (grows_dataToken _ _)) g7
  have g5 : Comp.Reflects Clean (do
      let c ← dataVersion fuel
      let c ← dataToken fuel c
      let c ← dataDtoken fuel c
      let c ← controlLength fuel c
      controlAck fuel c) := Comp.reflects_bind (reflects_clean (grows_dataVersion _)) g6
  have g4 : Comp.Reflects Clean (do
      openData env
      let c ← dataVersion fuel
      let c ← dataToken fuel c
      let c ← dataDtoken fuel c
      let c ← controlLength fuel c
      controlAck fuel c) := Comp.reflects_bind (reflects_clean (grows_openData _)) fun _ => g5
  refine Comp.triple_bind controlVersion_point (fun c1 => ?_) fun _ =>
    Comp.reflects_bind (reflects_clean (grows_controlToken _ _)) fun _ => g4
  refine Comp.triple_fact fun hc1 => ?_
  refine Comp.triple_bind (controlToken_point hc1) (fun _ => ?_) fun _ => g4
  refine Comp.triple_exists fun t => ?_
  refine Comp.triple_bind (openData_point apart_token) (fun _ => ?_) fun _ => g5
  refine Comp.triple_bind (dataVersion_point apart_token) (fun c4 => ?_) g6
  refine Comp.triple_fact fun hc4 => ?_
  refine Comp.triple_bind (dataToken_point hc4) (fun c5 => ?_) g7
  refine Comp.triple_fact fun hc5 => ?_
  refine Comp.triple_bind (dataDtoken_point hc5) (fun c6 => ?_) g8
  refine Comp.triple_exists fun t' => Comp.triple_fact fun hc6 => ?_
  refine Comp.triple_bind (controlLength_point hc6) (fun c7 => ?_) fun _ =>
    reflects_clean (grows_controlAck _ _)
  refine Comp.triple_fact fun hc7 => ?_
  exact controlAck_point hc7 (List.mem_cons_self ..)

/-- The protocol never takes an event back. -/
theorem reflects_protocol : Comp.Reflects Clean (do
    let c ← controlVersion fuel
    let _ ← controlToken fuel c
    openData env
    let c ← dataVersion fuel
    let c ← dataToken fuel c
    let c ← dataDtoken fuel c
    let c ← controlLength fuel c
    controlAck fuel c) :=
  Comp.reflects_bind (reflects_clean (grows_controlVersion _)) fun _ =>
    Comp.reflects_bind (reflects_clean (grows_controlToken _ _)) fun _ =>
    Comp.reflects_bind (reflects_clean (grows_openData _)) fun _ =>
    Comp.reflects_bind (reflects_clean (grows_dataVersion _)) fun _ =>
    Comp.reflects_bind (reflects_clean (grows_dataToken _ _)) fun _ =>
    Comp.reflects_bind (reflects_clean (grows_dataDtoken _ _)) fun _ =>
    Comp.reflects_bind (reflects_clean (grows_controlLength _ _)) fun _ =>
    reflects_clean (grows_controlAck _ _)

/-- In every run without an error message, whatever else the server sends and wherever the run
    ends: the client sends a message of the protocol only while every checked message was the
    expected one, the message of the user only behind the first four steps, and the echo of the
    data token only behind the confirmed length. -/
theorem assignment4_obeys (hn : NulFree nick) (hm : NulFree msg) (order : EvalOrder)
    (net : Fd → Peer) :
    let log := ((assignment4 fuel env).run (start order nick msg net)).2.log
    NoError log → Obeys nick msg log := by
  intro log hno
  rcases hparsed : env.addressParsed with _ | _
  · have hrun : (assignment4 fuel env).run (start order nick msg net) =
        (.ok (), start order nick msg net) := by
      unfold assignment4
      rw [if_neg (by rw [hparsed]; decide)]
      rfl
    have hlog : log = [] := congrArg (fun r => r.2.log) hrun
    exact hlog ▸ obeys_nil
  obtain ⟨w, hrun, hc, _, _, hlog⟩ := session_declared env hparsed order net fuel hn hm
  have hpoint : Point nick msg (userStrs nick msg) (Stage [] false false) w := by
    refine ⟨hlog ▸ obeys_nil, ?_, ?_, ?_, fun _ _ _ => ?_, fun _ _ => ?_⟩
    · simp [AllMatched, hlog]
    · intro x hx
      simp only [List.mem_cons, List.not_mem_nil, or_false] at hx
      rcases hx with rfl | rfl
      · exact hc.nick
      · exact hc.msg
    · exact List.forall_mem_nil _
    · simp [hlog]
    · simp [hlog]
  have hconn : Comp.Triple Clean (Point nick msg (userStrs nick msg) (Stage [] false false))
      (connectControl env)
      (fun _ w => Point nick msg (userStrs nick msg) (Stage [] false false) w)
      fun w => Obeys nick msg w.log := by
    have hspec : Tame [] Inner (connectControl env) :=
      tame_bind (tame_when (spec_stop _)) fun _ => tame_when
        (tame_bind (tame_note trivial (by simp [NoCheck])) fun _ => spec_stop _)
    exact (point_call _ _ hspec (fun _ _ => List.not_mem_nil) stage_inner).mono
      (fun _ h => ⟨trivial, h⟩) (fun _ _ h => h.2) fun _ h => h
  have hend : Comp.Triple Clean (Point nick msg (userStrs nick msg) (Stage [] false false))
      (do connectControl env
          let c ← controlVersion fuel
          let _ ← controlToken fuel c
          openData env
          let c ← dataVersion fuel
          let c ← dataToken fuel c
          let c ← dataDtoken fuel c
          let c ← controlLength fuel c
          controlAck fuel c)
      (fun _ w => Obeys nick msg w.log) fun w => Obeys nick msg w.log := by
    refine Comp.triple_bind hconn (fun _ => ?_) (fun _ => ?_)
    · exact protocol_point
    · exact reflects_protocol
  change NoError ((assignment4 fuel env).run (start order nick msg net)).2.log at hno
  change Obeys nick msg ((assignment4 fuel env).run (start order nick msg net)).2.log
  rw [hrun] at hno ⊢
  exact hend.final hpoint hno

end Whole

/-! ## The first message -/

section First

variable {nick msg m t : List Byte} {fuel : Nat} {w : World} {rest : List (Option (List Byte))}
  {e : Ending}

theorem mem_writes {log : List Event} {fd : Fd} {bs : List Byte} (h : (fd, bs) ∈ writes log) :
    .write fd bs ∈ log := by
  obtain ⟨ev, hev, heq⟩ := List.mem_filterMap.mp h
  cases ev <;> simp_all

variable [Libc]

/-- Up to the first check: one frame, one read. -/
theorem controlVersion_first [Libc.CopiesForward] (hc : Client nick msg w)
    (hsize : (w.mem .recvbuf).length = BUFSIZE)
    (hnet : w.net .control = ⟨some (enc m) :: rest, e⟩) (hm : Plain m) (hl : m.length ≤ 1000)
    (hfuel : 2 ≤ fuel) :
    ∃ w', (controlVersion fuel).run w =
        (do checkMessage .control (litPtr "S GRNVS V:1.0") Arr.recvbuf.ptr
            accept .controlVersion Arr.recvbuf.ptr
            advance ⟨1, Arr.recvbuf.ptr⟩ : Run Cursor).run w' ∧
      Holds w' ⟨1, Arr.recvbuf.ptr⟩ [] [m] ∧ Client nick msg w' ∧
      w'.log = w.log ++ [.write .control (enc (lit "C GRNVS V:1.0")),
        .read .control BUFSIZE (some (enc m))] := by
  have hrun := sendMessage_run .control (isStr_lit (w := w) (s := "C GRNVS V:1.0")
    (by decide)) (by simp [litPtr]) hc.sendbuf (by decide)
  set w0 := (w.setArr .sendbuf (clean (enc (lit "C GRNVS V:1.0")))).note
    (.write .control (enc (lit "C GRNVS V:1.0"))) with hw0
  have hsize0 : (w0.mem .recvbuf).length = BUFSIZE := by
    rw [hw0, World.note_mem, World.setArr_mem_of_ne _ _ (by decide), hsize]
  have husable := usable_single hfuel hm hl
  have henc : encs [m] = enc m := by simp [encs]
  have ht := husable.fits.text
  have hread : (w0.net .control).read BUFSIZE = (some (encs [m]), ⟨rest, e⟩) := by
    rw [show w0.net .control = w.net .control from rfl, hnet, henc]
    exact Peer.read_whole (by rw [← henc]; exact Nat.le_of_lt ht)
  obtain ⟨w', tail, hr, hrec, hmem⟩ := recvMessage_batch _ (a := .recvbuf) (by decide) (by decide)
    husable.plain husable.fits hsize0 hread husable.fuel
  refine ⟨w', ?_, ⟨hrec.size, husable.plain, rfl, rfl, ⟨[m].getLastD [] ++ 0 :: tail, ?_⟩⟩, ?_, ?_⟩
  · rw [List.length_singleton, show ((1 : Nat) : Int) = 1 from rfl] at hr
    unfold controlVersion
    rw [Comp.bind_ok hrun, Comp.bind_ok hr]
  · rw [List.nil_append, hmem, List.append_assoc]
  · refine (hc.frame (A := [.sendbuf]) ?_ (by decide) (by decide)).frame hrec.took.frame
      (by decide) (by decide)
    exact ((frame_setArr w (clean_length (by decide))).trans (frame_note _ _)).mono (by simp)
  · rw [hrec.log, hw0, World.note_log, World.setArr_log, List.append_assoc, henc]
    rfl

/-- An error message as the first message: the client sends its name all the same. -/
theorem error_then_name [Libc.CopiesForward] (hnick : NulFree nick) (hnl : nick.length ≤ 4087)
    (hmsg : NulFree msg)
    (hm : Plain (lit "E " ++ t)) (hl : (lit "E " ++ t).length ≤ 1000) (hfuel : 2 ≤ fuel)
    (order : EvalOrder) {port : UInt16} {net : Fd → Peer}
    (hnet : net .control = ⟨some (enc (lit "E " ++ t)) :: rest, e⟩) :
    ¬ Obeys nick msg ((assignment4 fuel (Env.working port)).run (start order nick msg net)).2.log := by
  obtain ⟨w, hrun, hc, hsize, hwn, hlog⟩ := session_start order net fuel port hnick hmsg
  obtain ⟨w1, hr1, hh1, hc1, hl1⟩ := controlVersion_first hc hsize (by rw [hwn, hnet]) hm hl hfuel
  rw [hlog, List.nil_append] at hl1
  have hstr := hh1.current
  have hwhy : IsStr w1 (Arr.recvbuf.ptr + 2) t := IsStr.add (s := lit "E ") hstr
  set m := lit "E " ++ t with hmdef
  -- the check passes, the step is taken
  have hcheck := checkMessage_error .control (isStr_lit (w := w1) (s := "S GRNVS V:1.0")
    (by decide)) hstr (by rw [hmdef]; simp [lit, letterE]) hwhy
  set w2 := (w1.note (.check .control (lit "S GRNVS V:1.0") m)).note
    (.print (lit "Error: " ++ t)) with hw2
  have hacc := accept_run .controlVersion (isStr_note.mpr (isStr_note.mpr hstr) : IsStr w2 _ _)
  set w3 := w2.note (.accept .controlVersion m) with hw3
  have hh1' : Holds w3 _ _ _ := hh1.of_mem rfl
  obtain ⟨c3, hadv, hh3⟩ := advance_run hh1'
  -- the name follows
  have hc3 : Client nick msg w3 := hc1.frame (A := [])
    (((frame_note w1 _).trans (frame_note _ _)).trans (frame_note _ _)) (by simp) (by simp)
  obtain ⟨w4, hsent, hsent'⟩ := sendText_sent .control "C " hc3 (by decide) hc3.nick
    (by decide) (by have : (lit "C ").length = 2 := by decide
                    omega)
  have hversion : (controlVersion fuel).run w = (.ok c3, w3) := by
    rw [hr1, Comp.bind_ok hcheck, Comp.bind_ok hacc, hadv]
  have hgrow : w4.log <+: ((controlToken fuel c3).run w3).2.log := by
    have h := log_bind (x := sendText .control "C " Arr.nick.ptr) (fun _ =>
      grows_bind (grows_receive fuel .control c3) fun c => grows_bind
      (grows_checkPrefix .control 83 (litPtr "S <token>") c.startOfNetstring) fun _ => grows_bind
      (grows_accept .controlToken c.startOfNetstring) fun _ => grows_bind
      (quiet_strcpy Arr.token.ptr (c.startOfNetstring + 2)).grows fun _ => grows_advance c) w3
    rw [hsent] at h
    exact h
  have hrest : ((controlToken fuel c3).run w3).2.log <+:
      ((assignment4 fuel (Env.working port)).run (start order nick msg net)).2.log := by
    rw [hrun, Comp.bind_ok hversion]
    refine log_bind (fun _ => ?_) w3
    refine grows_bind (grows_openData _) fun _ => ?_
    refine grows_bind (grows_dataVersion _) fun _ => ?_
    refine grows_bind (grows_dataToken _ _) fun _ => ?_
    refine grows_bind (grows_dataDtoken _ _) fun _ => ?_
    exact grows_bind (grows_controlLength _ _) fun _ => grows_controlAck _ _
  have hname := grows_sendText .control "C " Arr.nick.ptr w3
  rw [hsent] at hname
  obtain ⟨es, hes⟩ := hname
  obtain ⟨post, hpost⟩ := hgrow.trans hrest
  have hw := hsent'.writes
  rw [← hes, writes_append] at hw
  have hmem : Event.write .control (enc (lit "C " ++ nick)) ∈ es :=
    mem_writes (by rw [List.append_cancel_left hw]; exact List.mem_singleton_self _)
  obtain ⟨es1, es2, rfl⟩ := List.append_of_mem hmem
  intro hob
  have hmatched := (hob (w3.log ++ es1) .control _ (es2 ++ post) (by rw [← hpost, ← hes]; simp)
    ⟨nick, .inl rfl⟩).matched .control (lit "S GRNVS V:1.0") m (by simp [hw3, hw2])
  exact absurd (hmdef.symm.trans hmatched) (by simp [lit])

/-- A server that does not know the version gets one error frame, and the run is over. -/
theorem wrong_version [Libc.CopiesForward] (hnick : NulFree nick) (hmsg : NulFree msg)
    (hm : Plain m) (hl : m.length ≤ 1000) (hE : m.headD 0 ≠ letterE) (hne : lit "S GRNVS V:1.0" ≠ m)
    (hfuel : 2 ≤ fuel) (order : EvalOrder) {port : UInt16} {net : Fd → Peer}
    (hnet : net .control = ⟨some (enc m) :: rest, e⟩) :
    ((assignment4 fuel (Env.working port)).run (start order nick msg net)).2.log =
      [.write .control (enc (lit "C GRNVS V:1.0")), .read .control BUFSIZE (some (enc m)),
        .check .control (lit "S GRNVS V:1.0") m,
        .write .control (enc (expectedText (lit "S GRNVS V:1.0") m)),
        .print (lit "Error: " ++ (expectedText (lit "S GRNVS V:1.0") m).drop 2)] := by
  obtain ⟨w, hrun, hc, hsize, hwn, hlog⟩ := session_start order net fuel port hnick hmsg
  obtain ⟨w1, hr1, hh1, _, hl1⟩ := controlVersion_first hc hsize (by rw [hwn, hnet]) hm hl hfuel
  obtain ⟨w2, hr2, hl2⟩ := checkMessage_refuse .control (isStr_lit (w := w1)
    (s := "S GRNVS V:1.0") (by decide)) hh1.current hE hne hh1.size (by simp [litPtr]) (by decide)
    (by have : (lit "S GRNVS V:1.0").length = 13 := by decide
        omega)
  rw [hrun, Comp.bind_error (hr1.trans (Comp.bind_error hr2)), hl2, hl1, hlog]
  rfl

end First

section Bytewise

attribute [local instance] Libc.bytewise

/-- A server whose only message is `m`. -/
def saysOnce (m : List Byte) : Fd → Peer := fun _ => ⟨[some (enc m)], .timeout⟩

theorem assignment4_obeys_wrongVersion :
    let log := ((assignment4 2 (Env.working 8080)).run (start .before (lit "nick") (lit "hi")
      (saysOnce (lit "S GRNVS V:2.0")))).2.log
    log.length = 5 ∧ Obeys (lit "nick") (lit "hi") log := by
  have hlog := @wrong_version (lit "nick") (lit "hi") (lit "S GRNVS V:2.0") _ _ _ _ _
    (by decide) (by decide) (by decide) (by decide) (by decide) (by decide) (Nat.le_refl 2) .before
    8080 (saysOnce (lit "S GRNVS V:2.0")) rfl
  have hno : NoError ((assignment4 2 (Env.working 8080)).run (start .before (lit "nick")
      (lit "hi") (saysOnce (lit "S GRNVS V:2.0")))).2.log := by
    rw [hlog]
    intro fd want act h
    simp only [List.mem_cons, List.not_mem_nil, or_false, reduceCtorEq, false_or,
      Event.check.injEq] at h
    rw [h.2.2]
    decide
  exact ⟨by rw [hlog]; rfl,
    assignment4_obeys (by decide) (by decide) .before (saysOnce (lit "S GRNVS V:2.0")) hno⟩

/-- The server answers the first frame with an error message, and the client sends its name. -/
theorem error_ignored :
    ¬ Obeys (lit "nick") (lit "hi") ((assignment4 2 (Env.working 8080)).run
      (start .before (lit "nick") (lit "hi") (saysOnce (lit "E no")))).2.log :=
  error_then_name (t := lit "no") (by decide) (by decide) (by decide) (by decide) (by decide)
    (Nat.le_refl 2) .before (by rfl)

end Bytewise

end Grnvs.Ascii
