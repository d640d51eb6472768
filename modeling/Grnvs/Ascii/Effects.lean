/-
  What a call may do, whatever the server sends.

  `Does A allow r w w'`: from `w` to `w'` only the arrays in `A` changed, only events that `allow`
  permits were appended to the log, and a message that failed its check was followed by nothing
  but the reply to it (`Halts`). `Spec A allow P x Q` says this of every run of `x` that starts
  with `P`, and that `Q` holds when it returns.

  The receiving half of the client writes nothing but its own error messages
  (`recvMessage_spec`, `checkMessage_spec`), and no error message looks like a message of the
  protocol (`written_error`).
-/
import Grnvs.Ascii.Steps

namespace Grnvs.Ascii

open Bytes Decimal Netstring

/-! ## Messages of the protocol -/

/-- The netstring of a `C` or a `D` message. -/
def Protocol (bs : List Byte) : Prop := ∃ t, bs = enc (lit "C " ++ t) ∨ bs = enc (lit "D " ++ t)

/-- A frame whose payload begins with another letter is no message of the protocol. -/
theorem not_protocol_enc {m : List Byte} (h1 : m.head? ≠ some 67) (h2 : m.head? ≠ some 68) :
    ¬ Protocol (enc m) := by
  rintro ⟨t, h | h⟩
  · exact h1 (by rw [enc_inj h]; rfl)
  · exact h2 (by rw [enc_inj h]; rfl)

/-- Neither is a frame that begins with a zero. -/
theorem not_protocol_zero {bs : List Byte} (h : bs.head? = some 48) : ¬ Protocol bs := by
  have hne : ∀ m, m ≠ [] → (enc m).head? ≠ some 48 := by
    intro m hm hh
    have h0 := headD_dec_ne_zero (List.length_pos_iff.mpr hm) (colon :: (m ++ [comma]))
    obtain ⟨t, ht⟩ := List.head?_eq_some_iff.mp hh
    rw [← List.append_nil (enc m), enc_append] at ht
    rw [ht] at h0
    exact h0 rfl
  rintro ⟨t, rfl | rfl⟩
  · exact hne _ (by rw [show lit "C " = [67, 32] from by decide]; exact List.cons_ne_nil _ _) h
  · exact hne _ (by rw [show lit "D " = [68, 32] from by decide]; exact List.cons_ne_nil _ _) h

/-! ## Effects -/

/-- The events of a call that sends no message of the protocol and takes no step. -/
def Inner : Event → Prop
  | .accept _ _ => False
  | .write _ bs => ¬ Protocol bs
  | _ => True

/-- A message that differs from the expected one, and is no error message, ends the run: nothing
    but the reply comes after it. -/
def Halts {α : Type} (r : Except Stop α) (es : List Event) : Prop :=
  ∀ pre fd want act post, es = pre ++ .check fd want act :: post → act.headD 0 ≠ letterE →
    act ≠ want → (∃ e, r = .error e) ∧ ∀ ev ∈ post, Inner ev

/-- Events without a check. -/
def NoCheck (es : List Event) : Prop := ∀ fd want act, .check fd want act ∉ es

theorem halts_of_noCheck {α : Type} {r : Except Stop α} {es : List Event} (h : NoCheck es) :
    Halts r es := by
  rintro pre fd want act post rfl
  exact absurd (by simp) (h fd want act)

theorem halts_nil {α : Type} {r : Except Stop α} : Halts r [] :=
  halts_of_noCheck fun _ _ _ => List.not_mem_nil

theorem halts_append {α β : Type} {a : α} {r : Except Stop β} {es es' : List Event}
    (h : Halts (.ok a : Except Stop α) es) (h' : Halts r es') : Halts r (es ++ es') := by
  intro pre fd want act post heq hE hne
  rcases List.append_eq_append_iff.mp heq with ⟨l, hl, hr⟩ | ⟨l, hl, hr⟩
  · exact h' l fd want act post hr hE hne
  · rcases l with _ | ⟨x, l⟩
    · exact h' [] fd want act post hr.symm hE hne
    · rw [List.cons_append, List.cons.injEq] at hr
      obtain ⟨rfl, _⟩ := hr
      obtain ⟨⟨e, he⟩, _⟩ := h pre fd want act l hl hE hne
      cases he

/-- A halt is a matter of the events, not of the value returned. -/
theorem Halts.error {α β : Type} {e : Stop} {es : List Event}
    (h : Halts (.error e : Except Stop α) es) : Halts (.error e : Except Stop β) es :=
  fun pre fd want act post heq hE hne => ⟨⟨e, rfl⟩, (h pre fd want act post heq hE hne).2⟩

structure Does {α : Type} (A : List Arr) (allow : Event → Prop) (r : Except Stop α)
    (w w' : World) : Prop where
  frame : Frame A w w'
  log : ∃ es, w'.log = w.log ++ es ∧ (∀ e ∈ es, allow e) ∧ Halts r es

/-- Every run of `x` from a world with `P` does what `A` and `allow` permit, and ends in `Q` if it
    returns. -/
def Spec {α : Type} (A : List Arr) (allow : Event → Prop) (P : World → Prop) (x : Run α)
    (Q : α → World → Prop) : Prop :=
  ∀ w, P w → Does A allow (x.run w).1 w (x.run w).2 ∧ ∀ a, (x.run w).1 = .ok a → Q a (x.run w).2

/-- A spec that says nothing about the value. -/
abbrev Tame {α : Type} (A : List Arr) (allow : Event → Prop) (x : Run α) : Prop :=
  Spec A allow (fun _ => True) x fun _ _ => True

section Rules

variable {α β : Type} {A : List Arr} {allow : Event → Prop} {P P' : World → Prop}
  {Q Q' : α → World → Prop} {x : Run α}

theorem does_refl {r : Except Stop α} (w : World) : Does A allow r w w where
  frame := (Frame.refl w).mono (List.forall_mem_nil _)
  log := ⟨[], (List.append_nil _).symm, List.forall_mem_nil _, halts_nil⟩

theorem Spec.mono {B : List Arr} {allow' : Event → Prop} (h : Spec A allow P x Q)
    (hP : ∀ w, P' w → P w) (hQ : ∀ a w, Q a w → Q' a w) (hA : ∀ a ∈ A, a ∈ B)
    (hallow : ∀ e, allow e → allow' e) : Spec B allow' P' x Q' := by
  intro w hw
  obtain ⟨hd, hq⟩ := h w (hP w hw)
  obtain ⟨es, hl, he, hh⟩ := hd.log
  exact ⟨⟨hd.frame.mono hA, es, hl, fun e hm => hallow e (he e hm), hh⟩, fun a ha => hQ _ _ (hq a ha)⟩

theorem Spec.tame (h : Spec A allow (fun _ => True) x Q) : Tame A allow x :=
  h.mono (fun _ h => h) (fun _ _ _ => trivial) (fun _ h => h) fun _ h => h

theorem Tame.spec (h : Tame A allow x) : Spec A allow P x fun _ _ => True :=
  h.mono (fun _ _ => trivial) (fun _ _ h => h) (fun _ h => h) fun _ h => h

/-- The postcondition of a run that returned. -/
theorem Spec.ok (h : Spec A allow P x Q) {w w' : World} {a : α} (hw : P w)
    (hr : x.run w = (.ok a, w')) : Q a w' := by
  have := (h w hw).2 a
  rw [hr] at this
  exact this rfl

/-- What a call may do, and what it returns with, proved apart. -/
theorem spec_of_ok (ht : Tame A allow x)
    (hq : ∀ w a w', P w → x.run w = (.ok a, w') → Q a w') : Spec A allow P x Q := fun w hw =>
  ⟨(ht w trivial).1, fun a ha => hq w a _ hw (Prod.ext ha rfl)⟩

/-- A fact about the values so far. -/
theorem spec_fact {c : Prop} (h : c → Spec A allow P x Q) :
    Spec A allow (fun w => c ∧ P w) x Q := fun w hw => h hw.1 w hw.2

theorem spec_pure (a : α) : Spec A allow (Q a) (pure a : Run α) Q := fun w hw =>
  ⟨does_refl w, fun b hb => by cases hb; exact hw⟩

theorem tame_pure (a : α) : Tame A allow (pure a : Run α) := fun w _ =>
  ⟨does_refl w, fun _ _ => trivial⟩

theorem spec_stop (e : Stop) : Spec A allow P (Comp.stop e : Run α) Q := fun w _ =>
  ⟨does_refl w, fun _ h => by cases h⟩

theorem tame_gets (f : World → α) : Tame A allow (Comp.gets f : Run α) := fun w _ =>
  ⟨does_refl w, fun _ _ => trivial⟩

/-- Two calls in sequence. -/
theorem spec_bind {R : β → World → Prop} {f : α → Run β} (hx : Spec A allow P x Q)
    (hf : ∀ a, Spec A allow (Q a) (f a) R) : Spec A allow P (x >>= f) R := by
  intro w hw
  obtain ⟨hd, hq⟩ := hx w hw
  obtain ⟨es, hl, he, hh⟩ := hd.log
  rcases hr : x.run w with ⟨e | a, w1⟩
  · rw [hr] at hd hl hh
    rw [Comp.bind_error hr]
    exact ⟨⟨hd.frame, es, hl, he, hh.error⟩, fun _ h => by cases h⟩
  · rw [hr] at hd hl hh hq
    obtain ⟨hd', hq'⟩ := hf a w1 (hq a rfl)
    obtain ⟨es', hl', he', hh'⟩ := hd'.log
    rw [Comp.bind_ok hr]
    refine ⟨⟨(hd.frame.trans hd'.frame).mono (by simp), es ++ es', ?_, ?_, halts_append hh hh'⟩, hq'⟩
    · rw [hl', hl, List.append_assoc]
    · intro ev hev
      rcases List.mem_append.mp hev with h | h
      · exact he ev h
      · exact he' ev h

theorem tame_bind {f : α → Run β} (hx : Tame A allow x) (hf : ∀ a, Tame A allow (f a)) :
    Tame A allow (x >>= f) := spec_bind hx fun a => (hf a).spec

theorem tame_ite {c : Prop} [Decidable c] {x y : Run α} (hx : Tame A allow x)
    (hy : Tame A allow y) : Tame A allow (if c then x else y) := by
  split
  · exact hx
  · exact hy

theorem tame_when {c : Prop} [Decidable c] {x : Run Unit} (hx : Tame A allow x) :
    Tame A allow (Comp.when c x) := tame_ite hx (tame_pure ())

theorem tame_note {e : Event} (he : allow e) (hc : NoCheck [e]) : Tame A allow (note e) := by
  refine fun w _ => ⟨⟨(frame_note w e).mono (List.forall_mem_nil _), [e], rfl, ?_,
    halts_of_noCheck hc⟩, fun _ _ => trivial⟩
  simpa using he

/-! ## Calls that only touch memory -/

theorem spec_strAt (p : Ptr) :
    Spec A allow (fun _ => True) (strAt p) fun s w => IsStr w p s := by
  intro w _
  simp only [strAt]
  split
  · rename_i s hs
    exact ⟨does_refl w, fun a ha => by cases ha; exact hs⟩
  · exact ⟨does_refl w, fun a ha => by cases ha⟩

theorem tame_strAt (p : Ptr) : Tame A allow (strAt p) := (spec_strAt p).tame

theorem tame_charAt (p : Ptr) : Tame A allow (charAt p) := by
  intro w _
  simp only [charAt]
  split <;> exact ⟨does_refl w, fun _ _ => trivial⟩

theorem tame_declare {a : Arr} (ha : a ∈ A) : Tame A allow (declare a BUFSIZE) := by
  refine fun w _ => ⟨⟨(frame_setArr w (zeros_length _)).mono ?_, [], (List.append_nil _).symm,
    List.forall_mem_nil _, halts_nil⟩, fun _ _ => trivial⟩
  simpa using ha

/-- What keeps the size of an array keeps the size of every array. -/
theorem frame_resized {w : World} {a : Arr} {l : List Byte} (h : l.length = (w.mem a).length) :
    Frame [a] w (w.setArr a l) where
  mem b hb := World.setArr_mem_of_ne _ _ (by simpa using hb)
  size b _ _ hb := by
    by_cases hba : b = a
    · subst hba
      rw [World.setArr_mem, h, hb]
    · rw [World.setArr_mem_of_ne _ _ hba, hb]

theorem tame_store {p : Ptr} {bs : List Byte} (hp : ∀ a, p.blk = .arr a → a ∈ A) :
    Tame A allow (store p bs) := by
  intro w _
  simp only [store]
  split
  · exact ⟨does_refl w, fun _ _ => trivial⟩
  · rename_i a ha
    split
    · rename_i hfit
      refine ⟨⟨(frame_resized (splice_length hfit)).mono ?_, [], (List.append_nil _).symm,
        List.forall_mem_nil _, halts_nil⟩, fun _ _ => trivial⟩
      simpa using hp a ha
    · exact ⟨does_refl w, fun _ _ => trivial⟩

theorem tame_strlen (p : Ptr) : Tame A allow (strlen p) :=
  tame_bind (tame_strAt p) fun _ => tame_pure _

theorem tame_strchr (p : Ptr) (c : Byte) : Tame A allow (strchr p c) :=
  tame_bind (tame_strAt p) fun _ => tame_pure _

section Into

variable {dst src : Ptr} (hdst : ∀ a, dst.blk = .arr a → a ∈ A)
include hdst

variable (allow) in
theorem tame_memset (n : Nat) : Tame A allow (memset dst n) := tame_store hdst

variable [Libc]

theorem tame_copy {bs : List Byte} {written : Nat} : Tame A allow (copy dst src bs written) := by
  intro w _
  simp only [copy]
  split
  · exact ⟨does_refl w, fun _ _ => trivial⟩
  · rename_i a ha
    split
    · rename_i hfit
      split
      · rename_i l hl
        refine ⟨⟨(frame_resized (copied_length hl hfit)).mono ?_, [], (List.append_nil _).symm,
          List.forall_mem_nil _, halts_nil⟩, fun _ _ => trivial⟩
        simpa using hdst a ha
      · exact ⟨does_refl w, fun _ _ => trivial⟩
    · exact ⟨does_refl w, fun _ _ => trivial⟩

theorem tame_strcpy : Tame A allow (strcpy dst src) :=
  tame_bind (tame_strAt src) fun _ => tame_copy hdst

theorem tame_strcat : Tame A allow (strcat dst src) := by
  refine tame_bind (tame_strlen dst) fun d => ?_
  have hadd : ∀ a, (dst + d).blk = .arr a → a ∈ A := hdst
  exact tame_strcpy hadd

theorem tame_strncpy (n : Nat) : Tame A allow (strncpy dst src n) :=
  tame_bind (tame_gets _) fun _ =>
    tame_ite (tame_bind (tame_strAt _) fun _ => tame_bind (tame_copy hdst) fun _ =>
      tame_store hdst) (spec_stop _)

theorem tame_writeNet (n : Nat) : Tame A allow (writeNet dst n src) :=
  tame_bind (tame_memset _ hdst n) fun _ => tame_bind (tame_strlen _) fun _ =>
    tame_bind (tame_gets _) fun _ => tame_ite
      (tame_bind (tame_store hdst) fun _ => tame_bind (tame_strcat hdst) fun _ =>
        tame_bind (tame_strcat hdst) fun _ => tame_pure _)
      (tame_bind (tame_store hdst) fun _ => tame_pure _)

end Into

/-! ## Strings that are copied -/

/-- What depends on other arrays stays. -/
theorem Spec.keeps {p : Ptr} {s : List Byte} (h : Spec A allow P x Q)
    (hp : ∀ a, p.blk = .arr a → a ∉ A) :
    Spec A allow (fun w => P w ∧ IsStr w p s) x fun a w => Q a w ∧ IsStr w p s := by
  intro w hw
  obtain ⟨hd, hq⟩ := h w hw.1
  exact ⟨hd, fun a ha => ⟨hq a ha, hd.frame.isStr hp hw.2⟩⟩

/-- What has been logged stays in the log. -/
theorem Spec.logged {e : Event} (h : Spec A allow P x Q) :
    Spec A allow (fun w => P w ∧ e ∈ w.log) x fun a w => Q a w ∧ e ∈ w.log := by
  intro w hw
  obtain ⟨hd, hq⟩ := h w hw.1
  obtain ⟨es, hl, _⟩ := hd.log
  exact ⟨hd, fun a ha => ⟨hq a ha, by rw [hl]; exact List.mem_append_left _ hw.2⟩⟩

theorem store_eq_ok {w w' : World} {p : Ptr} {bs : List Byte} {u : Unit}
    (h : (store p bs).run w = (.ok u, w')) :
    ∃ a, p.blk = .arr a ∧ p.off + bs.length ≤ (w.mem a).length ∧
      w' = w.setArr a (splice (w.mem a) p.off bs) := by
  simp only [store] at h
  split at h
  · cases h
  · rename_i a ha
    split at h
    · rename_i hfit
      cases h
      exact ⟨a, ha, hfit, rfl⟩
    · cases h

variable (allow) in
/-- A string stored with its NUL. -/
theorem spec_storeStr {p : Ptr} {s : List Byte} (hs : NulFree s)
    (hp : ∀ a, p.blk = .arr a → a ∈ A) :
    Spec A allow P (store p (s ++ [0])) fun _ w => IsStr w p s := by
  refine spec_of_ok (tame_store hp) fun w u w' _ hr => ?_
  obtain ⟨a, ha, hfit, rfl⟩ := store_eq_ok hr
  unfold IsStr
  rw [ha, World.block_arr, World.setArr_mem, drop_splice (by omega), List.append_assoc]
  exact cstr_terminated hs _

variable (allow) in
/-- A string appended with its NUL. -/
theorem spec_storeEnd {p : Ptr} {s t : List Byte} (hs : NulFree s)
    (hp : ∀ a, p.blk = .arr a → a ∈ A) :
    Spec A allow (fun w => IsStr w p t) (store (p + t.length) (s ++ [0]))
      fun _ w => IsStr w p (t ++ s) := by
  refine spec_of_ok (tame_store hp) fun w u w' ht hr => ?_
  obtain ⟨a, ha, hfit, rfl⟩ := store_eq_ok hr
  rw [Ptr.add_blk] at ha
  rw [Ptr.add_off] at hfit ⊢
  obtain ⟨hn, r, hr⟩ := isStr_iff.mp ht
  rw [ha, World.block_arr] at hr
  unfold IsStr
  rw [ha, World.block_arr, World.setArr_mem, drop_splice_add (by omega), hr, splice, List.take_left,
    List.append_assoc, List.append_assoc, List.singleton_append, ← List.append_assoc]
  exact cstr_terminated (nulFree_append.mpr ⟨hn, hs⟩) _

variable [Libc]

theorem spec_strcpy {dst src : Ptr} {s : List Byte} (hdst : ∀ a, dst.blk = .arr a → a ∈ A)
    (hsrc : src.blk ≠ dst.blk) :
    Spec A allow (fun w => IsStr w src s) (strcpy dst src) fun _ w => IsStr w dst s := by
  intro w hs
  have h := spec_storeStr allow (P := fun _ => True) hs.nulFree hdst w trivial
  unfold strcpy
  rw [Comp.bind_ok (strAt_run hs), copy_apart hsrc]
  exact h

variable (allow) in
theorem spec_strcat {dst src : Ptr} {s t : List Byte} (hdst : ∀ a, dst.blk = .arr a → a ∈ A)
    (hsrc : src.blk ≠ dst.blk) :
    Spec A allow (fun w => IsStr w dst t ∧ IsStr w src s) (strcat dst src)
      fun _ w => IsStr w dst (t ++ s) := by
  rintro w ⟨ht, hs⟩
  have h := spec_storeEnd allow hs.nulFree hdst w ht
  have hsrc' : src.blk ≠ (dst + t.length).blk := hsrc
  unfold strcat
  rw [Comp.bind_ok (strlen_run ht), strcpy, Comp.bind_ok (strAt_run hs), copy_apart hsrc']
  exact h

/-! ## What is written -/

variable {fd : Fd} {dst src : Ptr} {a : Arr} {s : List Byte}

variable (allow dst) in
/-- `writeNet` leaves the netstring of `src`, or `0:` when the string is too long. -/
theorem writeNet_spec (hdst : dst.blk = .arr a) (hsrc : src.blk ≠ .arr a) :
    Spec [a] allow (fun w => IsStr w src s) (writeNet dst BUFSIZE src) fun n w =>
      n + 1 = (enc s).length ∧ (IsStr w dst (enc s) ∨ IsStr w dst (lit "0:")) := by
  have hA : ∀ b, dst.blk = .arr b → b ∈ [a] := fun b hb => by
    rw [hdst] at hb
    cases hb
    exact List.mem_singleton_self _
  have hS : ∀ b, src.blk = .arr b → b ∉ [a] := fun b hb h => by
    rw [List.mem_singleton] at h
    exact hsrc (h ▸ hb)
  have hl := enc_length s
  have hlen : s.length + countDigits s.length + 1 + 1 = (enc s).length := by
    rw [countDigits_eq]
    omega
  have henc : dec s.length ++ [colon] ++ s ++ lit "," = enc s := by
    rw [show lit "," = [comma] from by decide]
    simp [enc]
  have hpre : NulFree (dec s.length ++ [colon]) := nulFree_append.mpr ⟨dec_nulFree _, by decide⟩
  refine spec_of_ok (tame_writeNet hA BUFSIZE) fun w n w' hw hr => ?_
  unfold writeNet at hr
  obtain ⟨_, w1, hr1, hr⟩ := Comp.bind_eq_ok hr
  have hs1 : IsStr w1 src s := (((tame_memset allow hA BUFSIZE).keeps hS).ok
    ⟨trivial, hw⟩ hr1).2
  rw [Comp.bind_ok (strlen_run hs1), Comp.gets_bind] at hr
  split at hr
  · obtain ⟨_, w2, hr2, hr⟩ := Comp.bind_eq_ok hr
    have h2 := ((spec_storeStr allow (P := fun _ => True) hpre hA).keeps hS).ok
      ⟨trivial, hs1⟩ hr2
    obtain ⟨_, w3, hr3, hr⟩ := Comp.bind_eq_ok hr
    have h3 := (spec_strcat allow hA (by rw [hdst]; exact hsrc)).ok h2 hr3
    obtain ⟨_, w4, hr4, hr⟩ := Comp.bind_eq_ok hr
    have h4 := (spec_strcat allow hA (by rw [hdst]; exact litPtr_apart _ _)).ok
      ⟨h3, isStr_lit (by decide)⟩ hr4
    cases hr
    exact ⟨hlen, .inl (henc ▸ h4)⟩
  · obtain ⟨_, w2, hr2, hr⟩ := Comp.bind_eq_ok hr
    have h2 := (spec_storeStr allow (P := fun _ => True) (s := lit "0:") (by decide)
      hA).ok trivial hr2
    cases hr
    exact ⟨hlen, .inr h2⟩

/-- `sendMessage` writes one frame: the netstring, or something that begins with a zero. -/
theorem sendMessage_spec (hdst : dst.blk = .arr a) (hsrc : src.blk ≠ .arr a) :
    Spec [a] (fun e => ∃ bs, e = .write fd bs ∧ (bs = enc s ∨ bs.head? = some 48))
      (fun w => IsStr w src s) (sendMessage fd src dst) fun _ _ => True := by
  refine spec_bind (writeNet_spec _ _ hdst hsrc) fun n w hw => ?_
  obtain ⟨hn, hstr⟩ := hw
  unfold writeFd
  rw [Comp.gets_bind]
  split
  · refine tame_note ⟨_, rfl, ?_⟩ (by simp [NoCheck]) w trivial
    rcases hstr with h | h
    · obtain ⟨_, r, hr⟩ := isStr_iff.mp h
      exact .inl (by rw [hr, hn, List.take_left])
    · obtain ⟨_, r, hr⟩ := isStr_iff.mp h
      exact .inr (by rw [hr]; rfl)
  · exact ⟨does_refl w, fun _ _ => trivial⟩

/-! ## The check -/

omit [Libc] in
variable (P') in
/-- A check, and what comes after it: when that does not return for a message that differs, it is
    the end of the run. -/
theorem spec_check {want act : List Byte} {y : Run α}
    (hP : ∀ w, P w → P' (w.note (.check fd want act)))
    (hy : Spec A Inner P' y Q)
    (hQ : ∀ u w, Q u w → act.headD 0 = letterE ∨ act = want) :
    Spec A Inner P (note (.check fd want act) >>= fun _ => y) Q := by
  intro w hw
  obtain ⟨hd, hq⟩ := hy _ (hP w hw)
  obtain ⟨es, hl, he, hh⟩ := hd.log
  rw [Comp.bind_ok (note_run _ _)]
  refine ⟨⟨((frame_note w _).trans hd.frame).mono (by simp), .check fd want act :: es, ?_, ?_, ?_⟩,
    hq⟩
  · rw [hl, World.note_log, List.append_assoc]
    rfl
  · simpa [Inner] using he
  · intro pre fd' want' act' post heq hE hne
    rcases pre with _ | ⟨x, pre⟩
    · simp only [List.nil_append, List.cons.injEq, Event.check.injEq] at heq
      obtain ⟨⟨_, rfl, rfl⟩, rfl⟩ := heq
      refine ⟨?_, he⟩
      rcases hr : (y.run (w.note (.check fd want act))).1 with e | u
      · exact ⟨e, rfl⟩
      · rcases hQ u _ (hq u hr) with h | h
        · exact absurd h hE
        · exact absurd h hne
    · rw [List.cons_append, List.cons.injEq] at heq
      exact hh pre fd' want' act' post heq.2 hE hne

/-- The reply to an unexpected message, which ends the run. -/
theorem refuse_spec {expected actual : Ptr} {want act : List Byte}
    (hact : actual.blk = .arr a) (ha : a ≠ .errmsg) (hexp : expected.blk ≠ .arr .errmsg) :
    Spec [.errmsg, a] Inner (fun w => IsStr w expected want ∧ IsStr w actual act)
      (refuse fd expected actual) fun _ _ => False := by
  set K : World → Prop := fun w => IsStr w expected want ∧ IsStr w actual act with hK
  have hE : ∀ b, Arr.errmsg.ptr.blk = .arr b → b ∈ [Arr.errmsg] := by
    rintro b ⟨⟩
    exact List.mem_singleton_self _
  have hne : ∀ {p : Ptr}, p.blk ≠ .arr .errmsg → ∀ b, p.blk = .arr b → b ∉ [Arr.errmsg] := by
    intro p hp b hb hm
    rw [List.mem_singleton] at hm
    exact hp (hm ▸ hb)
  have hacte : actual.blk ≠ .arr .errmsg := by
    rw [hact]
    simpa using ha
  -- a call that touches only the error text keeps both messages
  have hkeep : ∀ {P : World → Prop} {Q : Unit → World → Prop} {x : Run Unit},
      Spec [.errmsg] Inner P x Q → Spec [.errmsg, a] Inner (fun w => P w ∧ K w) x
        fun u w => Q u w ∧ K w := fun hx =>
    ((hx.keeps (hne hexp)).keeps (hne hacte)).mono (fun _ h => ⟨⟨h.1, h.2.1⟩, h.2.2⟩)
      (fun _ _ h => ⟨h.1.1, h.1.2, h.2⟩) (by simp) fun _ h => h
  have happ : ∀ {t s : List Byte} {src : Ptr}, src.blk ≠ .arr .errmsg →
      (∀ w, K w → IsStr w src s) → Spec [.errmsg, a] Inner
        (fun w => IsStr w Arr.errmsg.ptr t ∧ K w) (strcat Arr.errmsg.ptr src)
        fun _ w => IsStr w Arr.errmsg.ptr (t ++ s) ∧ K w := fun hsrc hs =>
    (hkeep (spec_strcat _ hE hsrc)).mono (fun w h => ⟨⟨h.1, hs w h.2⟩, h.2⟩) (fun _ _ h => h)
      (fun _ h => h) fun _ h => h
  have hlit : ∀ (s : String), NulFree (lit s) → ∀ w, K w → IsStr w (litPtr s) (lit s) :=
    fun _ hs _ _ => isStr_lit hs
  have hblk : ∀ s : String, (litPtr s).blk ≠ .arr .errmsg := fun s => by simp [litPtr]
  refine spec_bind ((hkeep (tame_declare (List.mem_singleton_self _))).mono
    (fun _ h => ⟨trivial, h⟩) (fun _ _ h => h) (fun _ h => h) fun _ h => h) fun _ => ?_
  refine spec_bind ((hkeep (spec_strcpy (s := lit "E ") hE (litPtr_apart _ _))).mono
    (fun w h => ⟨hlit _ (by decide) w h.2, h.2⟩) (fun _ _ h => h) (fun _ h => h) fun _ h => h)
    fun _ => ?_
  refine spec_bind (happ (hblk _) (hlit _ (by decide))) fun _ => ?_
  refine spec_bind (happ hexp fun _ h => h.1) fun _ => ?_
  refine spec_bind (happ (hblk _) (hlit _ (by decide))) fun _ => ?_
  refine spec_bind (happ hacte fun _ h => h.2) fun _ => ?_
  refine spec_bind (happ (hblk _) (hlit _ (by decide))) fun _ => ?_
  refine spec_bind (Q := fun _ _ => True) ((sendMessage_spec hact
    (by simpa using fun h => ha h.symm)).mono
    (fun _ h => h.1) (fun _ _ _ => trivial) (by simp) ?_) fun _ => ?_
  · -- the reply begins with an E
    rintro e ⟨bs, rfl, rfl | hbs⟩
    · exact not_protocol_enc (by simp [lit]) (by simp [lit])
    · exact not_protocol_zero hbs
  · exact spec_bind (tame_strAt _) fun _ => spec_bind (tame_note trivial (by simp [NoCheck]))
      fun _ => spec_stop _

variable (fd) in
/-- `checkMessage` returns only with the expected message or an error message. -/
theorem checkMessage_spec {expected actual : Ptr} (want : List Byte) (hact : actual.blk = .arr a)
    (ha : a ≠ .errmsg) (hexp : expected.blk ≠ .arr .errmsg) :
    Spec [.errmsg, a] Inner (fun w => IsStr w expected want) (checkMessage fd expected actual)
      fun _ w => ∃ act, IsStr w actual act ∧ .check fd want act ∈ w.log ∧
        (act.headD 0 = letterE ∨ act = want) := by
  unfold checkMessage
  refine spec_bind (Q := fun act w => IsStr w actual act ∧ IsStr w expected want)
    (((spec_strAt (A := []) actual).keeps fun _ _ => List.not_mem_nil).mono (fun _ h => ⟨trivial, h⟩)
      (fun _ _ h => h) (List.forall_mem_nil _) fun _ h => h) fun act => ?_
  refine spec_bind (Q := fun want' w => want' = want ∧ IsStr w actual act ∧ IsStr w expected want)
    (fun w hw => ?_) fun want' => spec_fact ?_
  · rw [strAt_run hw.2]
    exact ⟨does_refl w, fun _ h => by cases h; exact ⟨rfl, hw⟩⟩
  rintro rfl
  refine Spec.mono (P := fun w => IsStr w actual act ∧ IsStr w expected want')
    (Q := fun _ w => (IsStr w actual act ∧ .check fd want' act ∈ w.log) ∧
      (act.headD 0 = letterE ∨ act = want'))
    (spec_check (fun w => (IsStr w actual act ∧ IsStr w expected want') ∧
      .check fd want' act ∈ w.log) (fun w h => ⟨⟨isStr_note.mpr h.1, isStr_note.mpr h.2⟩, ?_⟩) ?_
      fun _ _ h => h.2) (fun _ h => h) (fun _ w h => ⟨act, h.1.1, h.1.2, h.2⟩) (fun _ h => h)
      fun _ h => h
  · simp
  refine spec_bind (Q := fun first w => first = act.headD 0 ∧
    (IsStr w actual act ∧ IsStr w expected want') ∧ .check fd want' act ∈ w.log)
    (fun w hw => ?_) fun first => spec_fact ?_
  · rw [charAt_run hw.1.1]
    exact ⟨does_refl w, fun _ h => by cases h; exact ⟨rfl, hw⟩⟩
  rintro rfl
  split
  · rename_i hE
    -- an error message is printed, and the client goes on
    have hprint : Tame [] Inner (do
        let why ← strAt (actual + 2)
        note (.print (lit "Error: " ++ why))) :=
      tame_bind (tame_strAt _) fun _ => tame_note trivial (by simp [NoCheck])
    exact (hprint.keeps fun _ _ => List.not_mem_nil).logged.mono (fun _ h => ⟨⟨trivial, h.1.1⟩, h.2⟩)
      (fun _ _ h => ⟨⟨h.1.2, h.2⟩, .inl hE⟩) (List.forall_mem_nil _) fun _ h => h
  · split
    · exact (refuse_spec hact ha hexp).mono (fun _ h => ⟨h.1.2, h.1.1⟩) (fun _ _ h => h.elim)
        (fun _ h => h) fun _ h => h
    · rename_i hne
      exact (spec_pure (Q := fun _ w => (IsStr w actual act ∧ .check fd want' act ∈ w.log) ∧
        (act.headD 0 = letterE ∨ act = want')) ()).mono
        (fun _ h => ⟨⟨h.1.1, h.2⟩, .inr (not_not.mp hne).symm⟩) (fun _ _ h => h) (fun _ h => h)
        fun _ h => h

end Rules

/-! ## Receiving -/

/-- The arrays that receiving works with. -/
def recvArrs : List Arr := [.errmsg, .buf, .scratch, .recvbuf]

theorem blk_mem {p : Ptr} {a : Arr} (hp : p.blk = .arr a) (ha : a ∈ recvArrs) :
    ∀ b, p.blk = .arr b → b ∈ recvArrs := fun b hb => by
  rw [hp] at hb
  cases hb
  exact ha

section Receiving

variable {fd : Fd} {p : Ptr}

theorem tame_readFd {n : Nat} (hp : ∀ a, p.blk = .arr a → a ∈ recvArrs) :
    Tame recvArrs Inner (readFd fd p n) := by
  unfold readFd
  refine tame_bind (tame_gets _) fun got => ?_
  rcases got with ⟨got, rest⟩
  refine tame_bind (x := Comp.modify _) (fun w _ => ⟨⟨⟨fun _ _ => rfl, fun _ _ _ h => h⟩,
    [.read fd n got], rfl, by simp [Inner], halts_of_noCheck (by simp [NoCheck])⟩,
    fun _ _ => trivial⟩) fun _ => ?_
  rcases got with _ | bs
  · exact tame_pure _
  · exact tame_bind (tame_store hp) fun _ => tame_pure _

theorem tame_formatBroken : Tame recvArrs Inner (formatBroken p) := by
  refine tame_bind (tame_strchr _ _) fun i => ?_
  rcases i with _ | i
  · exact tame_pure _
  · refine tame_bind (tame_strchr _ _) fun j => ?_
    rcases j with _ | j <;> exact tame_pure _

theorem tame_formatBrokenFull : Tame recvArrs Inner (formatBrokenFull p) := by
  refine tame_bind (tame_strchr _ _) fun i => ?_
  rcases i with _ | i
  · exact tame_pure _
  · refine tame_bind (tame_strchr _ _) fun j => ?_
    rcases j with _ | j <;> exact tame_pure _

theorem tame_digitsBefore : Tame recvArrs Inner (digitsBefore p) := by
  refine tame_bind (tame_strchr _ _) fun i => ?_
  rcases i with _ | i
  · exact spec_stop _
  · exact tame_pure _

theorem tame_advance {A : List Arr} {allow : Event → Prop} (c : Cursor) :
    Tame A allow (advance c) :=
  tame_bind (tame_ite (tame_pure _) (tame_bind (tame_strlen _) fun _ => tame_pure _)) fun _ =>
    tame_pure _

variable [Libc]

theorem tame_checkBuf {s : String} (hs : NulFree (lit s)) :
    Tame recvArrs Inner (checkMessage fd (litPtr s) Arr.buf.ptr) :=
  (checkMessage_spec _ (lit s) (a := .buf) rfl (by decide) (by simp [litPtr])).mono
    (fun _ _ => isStr_lit hs) (fun _ _ _ => trivial) (by simp [recvArrs]) fun _ h => h

theorem tame_refill (n fuel : Nat) : Tame recvArrs Inner (refill fd Arr.buf.ptr n fuel) := by
  induction fuel with
  | zero => exact spec_stop _
  | succ fuel ih =>
      unfold refill
      refine tame_bind (tame_strlen _) fun _ => tame_ite ?_ (tame_pure _)
      refine tame_bind (tame_strlen _) fun _ =>
        tame_bind (tame_readFd (blk_mem (a := .scratch) rfl (by decide))) fun _ => ?_
      exact tame_ite (tame_pure _)
        (tame_bind (tame_strcat (blk_mem (a := .buf) rfl (by decide))) fun _ => ih)

theorem tame_convert (src : Ptr) (d n l : Nat) :
    Tame recvArrs Inner (convert Arr.buf.ptr BUFSIZE src d n l) :=
  tame_ite (tame_pure _) (tame_bind (tame_strncpy (blk_mem (a := .buf) rfl (by decide)) _) fun _ =>
    tame_bind (tame_store (blk_mem (a := .buf) rfl (by decide))) fun _ => tame_pure _)

theorem tame_readRest (fuel d n l : Nat) :
    Tame recvArrs Inner (readRest fuel Arr.buf.ptr BUFSIZE Arr.buf.ptr fd d n l) :=
  tame_bind (tame_declare (by decide)) fun _ => tame_bind (tame_refill _ _) fun _ =>
    tame_bind tame_formatBrokenFull fun _ => tame_bind (tame_when (tame_checkBuf (by decide)))
      fun _ => tame_convert _ _ _ _

theorem tame_readNet (fuel l : Nat) :
    Tame recvArrs Inner (readNet fuel Arr.buf.ptr BUFSIZE Arr.buf.ptr fd l) :=
  tame_bind tame_formatBroken fun _ => tame_bind (tame_when (tame_checkBuf (by decide))) fun _ =>
    tame_bind (tame_charAt _) fun _ => tame_bind (tame_when (tame_checkBuf (by decide))) fun _ =>
      tame_bind tame_digitsBefore fun _ => tame_bind (tame_strAt _) fun _ => tame_readRest _ _ _ _

theorem tame_copyOut (pos : Nat) (next : Option Ptr) :
    Tame recvArrs Inner (copyOut Arr.recvbuf.ptr pos next) := by
  refine tame_bind (tame_strcpy (blk_mem (a := .recvbuf) rfl (by decide))) fun _ => ?_
  refine tame_bind (tame_strlen _) fun _ => ?_
  refine tame_bind (tame_strcpy (blk_mem (a := .recvbuf) rfl (by decide))) fun _ => ?_
  refine tame_bind ?_ fun _ => tame_pure _
  rcases next with _ | next
  · exact spec_stop _
  · exact tame_strcpy (blk_mem (a := .buf) rfl (by decide))

theorem tame_recvLoop (fuel pos nets : Nat) :
    Tame recvArrs Inner (recvLoop fd Arr.recvbuf.ptr fuel pos nets) := by
  induction fuel generalizing pos nets with
  | zero => exact spec_stop _
  | succ fuel ih =>
      unfold recvLoop
      refine tame_bind (tame_charAt _) fun _ => tame_ite ?_ (tame_pure _)
      exact tame_bind (tame_readNet _ _) fun _ => tame_bind (tame_copyOut _ _) fun _ => ih _ _

theorem tame_recvMessage (fuel : Nat) :
    Tame recvArrs Inner (recvMessage fuel fd Arr.recvbuf.ptr) :=
  tame_bind (tame_memset _ (blk_mem (a := .recvbuf) rfl (by decide)) _) fun _ =>
    tame_bind (tame_declare (by decide)) fun _ =>
      tame_bind (tame_readFd (blk_mem (a := .buf) rfl (by decide))) fun _ =>
        tame_ite (tame_pure _) (tame_recvLoop _ _ _)

theorem tame_receive (fuel : Nat) (c : Cursor) : Tame recvArrs Inner (receive fuel fd c) :=
  tame_ite (tame_bind (tame_recvMessage _) fun _ => tame_pure _) (tame_pure _)

end Receiving

end Grnvs.Ascii
