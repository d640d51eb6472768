/-
  Calls that leave the log alone.

  A `Quiet` call reads and writes memory only: whatever the world, it appends nothing to the log,
  leaves the sockets as they are, and does not exit (it may still be stopped by an access C leaves
  undefined). `Stuck x w` says that `x` started in `w` is stopped in this way.

  Every call of the client at most appends to the log (`Grows`), the whole client included.
-/
import Grnvs.Ascii.Send

namespace Grnvs.Ascii

open Bytes

/-- Whatever the world, `x` keeps log and sockets and does not exit. -/
def Quiet {α : Type} (x : Run α) : Prop :=
  ∀ w, (x.run w).2.log = w.log ∧ (x.run w).2.net = w.net ∧
    ∀ c, (x.run w).1 ≠ .error (.exit c)

/-- `x`, started in `w`, is stopped without a trace in the log. -/
def Stuck {α : Type} (x : Run α) (w : World) : Prop :=
  ∃ e w', x.run w = (.error e, w') ∧ w'.log = w.log ∧ ∀ c, e ≠ .exit c

theorem quiet_pure {α : Type} (a : α) : Quiet (pure a : Run α) := fun _ =>
  ⟨rfl, rfl, fun _ h => by cases h⟩

theorem quiet_undefined {α : Type} : Quiet (undefined : Run α) := fun _ =>
  ⟨rfl, rfl, fun _ h => by cases h⟩

theorem quiet_gets {α : Type} (f : World → α) : Quiet (Comp.gets f : Run α) := fun _ =>
  ⟨rfl, rfl, fun _ h => by cases h⟩

theorem quiet_declare (a : Arr) (n : Nat) : Quiet (declare a n) := fun _ =>
  ⟨rfl, rfl, fun _ h => by cases h⟩

theorem quiet_bind {α β : Type} {x : Run α} {f : α → Run β} (hx : Quiet x)
    (hf : ∀ a, Quiet (f a)) : Quiet (x >>= f) := by
  intro w
  obtain ⟨hl, hn, he⟩ := hx w
  rcases hr : x.run w with ⟨e | a, w1⟩
  · rw [hr] at hl hn he
    rw [Comp.bind_error hr]
    exact ⟨hl, hn, fun c h => he c (by injection h with h; exact congrArg _ h)⟩
  · rw [hr] at hl hn
    obtain ⟨hl', hn', he'⟩ := hf a w1
    rw [Comp.bind_ok hr]
    exact ⟨hl'.trans hl, hn'.trans hn, he'⟩

theorem quiet_ite {α : Type} {c : Prop} [Decidable c] {x y : Run α} (hx : Quiet x)
    (hy : Quiet y) : Quiet (if c then x else y) := by
  split
  · exact hx
  · exact hy

theorem quiet_strAt (p : Ptr) : Quiet (strAt p) := by
  intro w
  simp only [strAt]
  split <;> exact ⟨rfl, rfl, fun _ h => by cases h⟩

theorem quiet_charAt (p : Ptr) : Quiet (charAt p) := by
  intro w
  simp only [charAt]
  split <;> exact ⟨rfl, rfl, fun _ h => by cases h⟩

theorem quiet_store (p : Ptr) (bs : List Byte) : Quiet (store p bs) := by
  intro w
  simp only [store]
  split
  · exact ⟨rfl, rfl, fun _ h => by cases h⟩
  · split <;> exact ⟨rfl, rfl, fun _ h => by cases h⟩

theorem quiet_strlen (p : Ptr) : Quiet (strlen p) :=
  quiet_bind (quiet_strAt p) fun _ => quiet_pure _

theorem quiet_strchr (p : Ptr) (c : Byte) : Quiet (strchr p c) :=
  quiet_bind (quiet_strAt p) fun _ => quiet_pure _

theorem quiet_memset (p : Ptr) (n : Nat) : Quiet (memset p n) := quiet_store _ _

theorem quiet_copy [Libc] (dst src : Ptr) (bs : List Byte) (written : Nat) :
    Quiet (copy dst src bs written) := by
  intro w
  simp only [copy]
  split
  · exact ⟨rfl, rfl, fun _ h => by cases h⟩
  · split
    · split <;> exact ⟨rfl, rfl, fun _ h => by cases h⟩
    · exact ⟨rfl, rfl, fun _ h => by cases h⟩

theorem quiet_strcpy [Libc] (dst src : Ptr) : Quiet (strcpy dst src) :=
  quiet_bind (quiet_strAt src) fun _ => quiet_copy _ _ _ _

theorem quiet_strcat [Libc] (dst src : Ptr) : Quiet (strcat dst src) :=
  quiet_bind (quiet_strlen dst) fun _ => quiet_strcpy _ _

theorem quiet_strncpy [Libc] (dst src : Ptr) (n : Nat) : Quiet (strncpy dst src n) :=
  quiet_bind (quiet_gets _) fun _ =>
    quiet_ite (quiet_bind (quiet_strAt _) fun _ => quiet_bind (quiet_copy _ _ _ _) fun _ =>
      quiet_store _ _) quiet_undefined

theorem quiet_convert [Libc] (dst : Ptr) (n : Nat) (src : Ptr) (d l m : Nat) :
    Quiet (convert dst n src d l m) :=
  quiet_ite (quiet_pure _)
    (quiet_bind (quiet_strncpy _ _ _) fun _ => quiet_bind (quiet_store _ _) fun _ => quiet_pure _)

theorem quiet_strcpyFrom [Libc] (dst : Ptr) (src : Option Ptr) : Quiet (strcpyFrom dst src) := by
  cases src with
  | none => exact quiet_undefined
  | some p => exact quiet_strcpy dst p

theorem quiet_copyOut [Libc] (dst : Ptr) (pos : Nat) (next : Option Ptr) : Quiet
    (copyOut dst pos next) :=
  quiet_bind (quiet_strcpy _ _) fun _ => quiet_bind (quiet_strlen _) fun _ =>
    quiet_bind (quiet_strcpy _ _) fun _ => quiet_bind (quiet_strcpyFrom _ _) fun _ => quiet_pure _

theorem quiet_updateNets (num : Int) (cur buf : Ptr) : Quiet (updateNets num cur buf) :=
  quiet_ite (quiet_pure _) (quiet_bind (quiet_strlen _) fun _ => quiet_pure _)

theorem quiet_advance (c : Cursor) : Quiet (advance c) :=
  quiet_bind (quiet_updateNets _ _ _) fun _ => quiet_pure _

theorem quiet_writeNet [Libc] (dest : Ptr) (n : Nat) (src : Ptr) : Quiet (writeNet dest n src) :=
  quiet_bind (quiet_memset _ _) fun _ => quiet_bind (quiet_strlen _) fun _ =>
    quiet_bind (quiet_gets _) fun _ => quiet_ite
      (quiet_bind (quiet_store _ _) fun _ => quiet_bind (quiet_strcat _ _) fun _ =>
        quiet_bind (quiet_strcat _ _) fun _ => quiet_pure _)
      (quiet_bind (quiet_store _ _) fun _ => quiet_pure _)

theorem stuck_undefined {α : Type} (w : World) : Stuck (undefined : Run α) w :=
  ⟨.undefined, w, rfl, rfl, fun _ h => by cases h⟩

theorem stuck_fuel {α : Type} (w : World) : Stuck (Comp.stop .fuel : Run α) w :=
  ⟨.fuel, w, rfl, rfl, fun _ h => by cases h⟩

theorem Stuck.bind {α β : Type} {x : Run α} {f : α → Run β} {w : World} (h : Stuck x w) :
    Stuck (x >>= f) w := by
  obtain ⟨e, w', hr, hl, he⟩ := h
  exact ⟨e, w', Comp.bind_error hr, hl, he⟩

/-- A quiet call followed by something that gets stuck. -/
theorem Quiet.stuck {α β : Type} {x : Run α} {f : α → Run β} {w : World} (hx : Quiet x)
    (hf : ∀ a w', x.run w = (.ok a, w') → Stuck (f a) w') : Stuck (x >>= f) w := by
  obtain ⟨hl, _, he⟩ := hx w
  rcases hr : x.run w with ⟨e | a, w1⟩
  · rw [hr] at hl he
    exact ⟨e, w1, Comp.bind_error hr, hl, fun c h => he c (by rw [h])⟩
  · rw [hr] at hl
    obtain ⟨e, w', hr', hl', he'⟩ := hf a w1 hr
    exact ⟨e, w', by rw [Comp.bind_ok hr]; exact hr', hl'.trans hl, he'⟩

/-- A known run keeps `Stuck` when it keeps the log. -/
theorem stuck_of_ok {α β : Type} {x : Run α} {f : α → Run β} {w w1 : World} {a : α}
    (hr : x.run w = (.ok a, w1)) (hl : w1.log = w.log) (hf : Stuck (f a) w1) :
    Stuck (x >>= f) w := by
  obtain ⟨e, w', hr', hl', he'⟩ := hf
  exact ⟨e, w', by rw [Comp.bind_ok hr]; exact hr', hl'.trans hl, he'⟩

/-- The pointer -1 cannot be copied from. -/
theorem copyOut_none [Libc] (dst : Ptr) (pos : Nat) {w : World} : Stuck (copyOut dst pos none) w :=
  (quiet_strcpy _ _).stuck fun _ _ _ => (quiet_strlen _).stuck fun _ _ _ =>
    (quiet_strcpy _ _).stuck fun _ _ _ => (stuck_undefined _).bind

/-! ## The log only grows -/

/-- Whatever the world, `x` only appends to the log. -/
def Grows {α : Type} (x : Run α) : Prop := ∀ w, w.log <+: (x.run w).2.log

section Grows

variable {α β : Type} {x y : Run α}

theorem Quiet.grows (h : Quiet x) : Grows x := fun w => ⟨[], by rw [List.append_nil, (h w).1]⟩

theorem grows_pure (a : α) : Grows (pure a : Run α) := (quiet_pure a).grows

theorem grows_stop (e : Stop) : Grows (Comp.stop e : Run α) := fun _ => List.prefix_rfl

/-- What follows a call only adds to its log. -/
theorem log_bind {f : α → Run β} (hf : ∀ a, Grows (f a)) (w : World) :
    (x.run w).2.log <+: ((x >>= f).run w).2.log := by
  rcases hx : x.run w with ⟨e | a, w'⟩
  · have hsame : ((x >>= f).run w).2.log = w'.log := by rw [Comp.bind_error hx]
    exact hsame.symm ▸ List.prefix_rfl
  · rw [Comp.bind_ok hx]
    exact hf a w'

theorem grows_bind {f : α → Run β} (hx : Grows x) (hf : ∀ a, Grows (f a)) : Grows (x >>= f) :=
  fun w => (hx w).trans (log_bind hf w)

theorem grows_ite {c : Prop} [Decidable c] (hx : Grows x) (hy : Grows y) :
    Grows (if c then x else y) := by
  split
  · exact hx
  · exact hy

theorem grows_when {c : Prop} [Decidable c] {x : Run Unit} (hx : Grows x) :
    Grows (Comp.when c x) := grows_ite hx (grows_pure ())

theorem grows_note (e : Event) : Grows (note e) := fun _ => List.prefix_append _ _

theorem grows_readFd (fd : Fd) (p : Ptr) (n : Nat) : Grows (readFd fd p n) := by
  refine grows_bind (quiet_gets _).grows fun got => ?_
  rcases got with ⟨got, rest⟩
  refine grows_bind (fun w => List.prefix_append _ _) fun _ => ?_
  rcases got with _ | bs
  · exact grows_pure _
  · exact grows_bind (quiet_store _ _).grows fun _ => grows_pure _

theorem grows_writeFd (fd : Fd) (p : Ptr) (n : Nat) : Grows (writeFd fd p n) :=
  grows_bind (quiet_gets _).grows fun _ => grows_ite (grows_note _) (grows_stop _)

/-- A condition on the log that a longer log can only lose. -/
def Shrinks (G : List Event → Prop) : Prop := ∀ l l', l <+: l' → G l' → G l

theorem Grows.reflects {G : List Event → Prop} (hx : Grows x) (hG : Shrinks G) :
    Comp.Reflects (fun w : World => G w.log) x := fun w h => hG _ _ (hx w) h

theorem quiet_formatBroken (src : Ptr) : Quiet (formatBroken src) := by
  refine quiet_bind (quiet_strchr _ _) fun i => ?_
  rcases i with _ | i
  · exact quiet_pure _
  · refine quiet_bind (quiet_strchr _ _) fun j => ?_
    rcases j with _ | j <;> exact quiet_pure _

theorem quiet_formatBrokenFull (src : Ptr) : Quiet (formatBrokenFull src) := by
  refine quiet_bind (quiet_strchr _ _) fun i => ?_
  rcases i with _ | i
  · exact quiet_pure _
  · refine quiet_bind (quiet_strchr _ _) fun j => ?_
    rcases j with _ | j <;> exact quiet_pure _

theorem quiet_digitsBefore (src : Ptr) : Quiet (digitsBefore src) := by
  refine quiet_bind (quiet_strchr _ _) fun i => ?_
  rcases i with _ | i
  · exact quiet_undefined
  · exact quiet_pure _

theorem grows_accept (step : Step) (start : Ptr) : Grows (accept step start) :=
  grows_bind (quiet_strAt _).grows fun _ => grows_note _

theorem grows_advance (c : Cursor) : Grows (advance c) := (quiet_advance c).grows

theorem grows_exit (code : Int) : Grows (exit code : Run α) := grows_stop _

theorem grows_closing : Grows (do
    note (.close .control)
    note (.close .listening)
    exit 1 : Run Unit) :=
  grows_bind (grows_note _) fun _ => grows_bind (grows_note _) fun _ => grows_exit _

variable [Libc]

theorem grows_sendMessage (fd : Fd) (m buf : Ptr) : Grows (sendMessage fd m buf) :=
  grows_bind (quiet_writeNet _ _ _).grows fun _ => grows_writeFd _ _ _

theorem grows_checkMessage (fd : Fd) (expected actual : Ptr) :
    Grows (checkMessage fd expected actual) := by
  refine grows_bind (quiet_strAt _).grows fun _ => grows_bind (quiet_strAt _).grows fun _ => ?_
  refine grows_bind (grows_note _) fun _ => grows_bind (quiet_charAt _).grows fun _ => ?_
  refine grows_ite (grows_bind (quiet_strAt _).grows fun _ => grows_note _)
    (grows_ite ?_ (grows_pure _))
  refine grows_bind (quiet_declare _ _).grows fun _ => ?_
  refine grows_bind (quiet_strcpy _ _).grows fun _ => ?_
  refine grows_bind (quiet_strcat _ _).grows fun _ => grows_bind (quiet_strcat _ _).grows fun _ => ?_
  refine grows_bind (quiet_strcat _ _).grows fun _ => grows_bind (quiet_strcat _ _).grows fun _ => ?_
  refine grows_bind (quiet_strcat _ _).grows fun _ => grows_bind (grows_sendMessage _ _ _) fun _ => ?_
  exact grows_bind (quiet_strAt _).grows fun _ => grows_bind (grows_note _) fun _ => grows_stop _

theorem grows_refill (fd : Fd) (src : Ptr) (n fuel : Nat) : Grows (refill fd src n fuel) := by
  induction fuel with
  | zero => exact grows_stop _
  | succ fuel ih =>
      unfold refill
      refine grows_bind (quiet_strlen _).grows fun _ => grows_ite ?_ (grows_pure _)
      refine grows_bind (quiet_strlen _).grows fun _ => grows_bind (grows_readFd _ _ _) fun _ => ?_
      exact grows_ite (grows_pure _) (grows_bind (quiet_strcat _ _).grows fun _ => ih)

theorem grows_readNet (fuel : Nat) (dest : Ptr) (n : Nat) (src : Ptr) (fd : Fd) (l : Nat) :
    Grows (readNet fuel dest n src fd l) :=
  grows_bind (quiet_formatBroken _).grows fun _ =>
    grows_bind (grows_when (grows_checkMessage _ _ _)) fun _ =>
      grows_bind (quiet_charAt _).grows fun _ =>
        grows_bind (grows_when (grows_checkMessage _ _ _)) fun _ =>
          grows_bind (quiet_digitsBefore _).grows fun _ => grows_bind (quiet_strAt _).grows fun _ =>
            grows_bind (quiet_declare _ _).grows fun _ => grows_bind (grows_refill _ _ _ _) fun _ =>
              grows_bind (quiet_formatBrokenFull _).grows fun _ =>
                grows_bind (grows_when (grows_checkMessage _ _ _)) fun _ =>
                  (quiet_convert _ _ _ _ _ _).grows

theorem grows_recvLoop (fd : Fd) (dst : Ptr) (fuel pos nets : Nat) :
    Grows (recvLoop fd dst fuel pos nets) := by
  induction fuel generalizing pos nets with
  | zero => exact grows_stop _
  | succ fuel ih =>
      unfold recvLoop
      refine grows_bind (quiet_charAt _).grows fun _ => grows_ite ?_ (grows_pure _)
      exact grows_bind (grows_readNet _ _ _ _ _ _) fun _ =>
        grows_bind (quiet_copyOut _ _ _).grows fun _ => ih _ _

theorem grows_recvMessage (fuel : Nat) (fd : Fd) (dst : Ptr) : Grows (recvMessage fuel fd dst) :=
  grows_bind (quiet_memset _ _).grows fun _ => grows_bind (quiet_declare _ _).grows fun _ =>
    grows_bind (grows_readFd _ _ _) fun _ => grows_ite (grows_pure _) (grows_recvLoop _ _ _ _ _)

theorem grows_receive (fuel : Nat) (fd : Fd) (c : Cursor) : Grows (receive fuel fd c) :=
  grows_ite (grows_bind (grows_recvMessage _ _ _) fun _ => grows_pure _) (grows_pure _)

theorem grows_sendText (fd : Fd) (head : String) (tail : Ptr) : Grows (sendText fd head tail) :=
  grows_bind (quiet_strcpy _ _).grows fun _ => grows_bind (quiet_strcat _ _).grows fun _ =>
    grows_sendMessage _ _ _

theorem grows_checkPrefix (fd : Fd) (letter : Byte) (expected start : Ptr) :
    Grows (checkPrefix fd letter expected start) :=
  grows_bind (quiet_charAt _).grows fun _ => grows_ite (grows_checkMessage _ _ _)
    (grows_bind (quiet_charAt _).grows fun _ => grows_when (grows_checkMessage _ _ _))

/-- The end of a step whose message is fixed. -/
theorem grows_taken (fd : Fd) (expected : Ptr) (step : Step) (c : Cursor) : Grows (do
    checkMessage fd expected c.startOfNetstring
    accept step c.startOfNetstring
    advance c) :=
  grows_bind (grows_checkMessage _ _ _) fun _ => grows_bind (grows_accept _ _) fun _ =>
    grows_advance _

theorem grows_controlVersion (fuel : Nat) : Grows (controlVersion fuel) :=
  grows_bind (grows_sendMessage _ _ _) fun _ => grows_bind (grows_recvMessage _ _ _) fun _ =>
    grows_taken .control _ .controlVersion ⟨_, Arr.recvbuf.ptr⟩

theorem grows_controlToken (fuel : Nat) (c : Cursor) : Grows (controlToken fuel c) :=
  grows_bind (grows_sendText _ _ _) fun _ => grows_bind (grows_receive _ _ _) fun _ =>
    grows_bind (grows_checkPrefix _ _ _ _) fun _ => grows_bind (grows_accept _ _) fun _ =>
      grows_bind (quiet_strcpy _ _).grows fun _ => grows_advance _

theorem grows_openData (env : Env) : Grows (openData env) :=
  grows_bind (grows_when (grows_exit _)) fun _ => grows_bind (grows_when grows_closing) fun _ =>
    grows_bind (grows_when grows_closing) fun _ => grows_bind (quiet_strcpy _ _).grows fun _ =>
      grows_bind (quiet_store _ _).grows fun _ => grows_bind (quiet_strcat _ _).grows fun _ =>
        grows_bind (grows_sendMessage _ _ _) fun _ => grows_when grows_closing

theorem grows_dataVersion (fuel : Nat) : Grows (dataVersion fuel) :=
  grows_bind (grows_recvMessage _ _ _) fun _ =>
    grows_taken .data _ .dataVersion ⟨_, Arr.recvbuf.ptr⟩

theorem grows_dataToken (fuel : Nat) (c : Cursor) : Grows (dataToken fuel c) :=
  grows_bind (grows_sendText _ _ _) fun _ => grows_bind (grows_receive _ _ _) fun _ =>
    grows_bind (quiet_strcpy _ _).grows fun _ => grows_bind (quiet_strcat _ _).grows fun _ =>
      grows_taken _ _ _ _

theorem grows_dataDtoken (fuel : Nat) (c : Cursor) : Grows (dataDtoken fuel c) :=
  grows_bind (grows_sendText _ _ _) fun _ => grows_bind (grows_receive _ _ _) fun _ =>
    grows_bind (grows_checkPrefix _ _ _ _) fun _ => grows_bind (grows_accept _ _) fun _ =>
      grows_bind (quiet_strcpy _ _).grows fun _ => grows_bind (grows_advance _) fun _ =>
        grows_bind (grows_note _) fun _ => grows_bind (grows_note _) fun _ => grows_pure _

theorem grows_controlLength (fuel : Nat) (c : Cursor) : Grows (controlLength fuel c) :=
  grows_bind (grows_receive _ _ _) fun _ => grows_bind (quiet_strcpy _ _).grows fun _ =>
    grows_bind (quiet_strlen _).grows fun _ => grows_bind (quiet_store _ _).grows fun _ =>
      grows_taken _ _ _ _

theorem grows_controlAck (fuel : Nat) (c : Cursor) : Grows (controlAck fuel c) :=
  grows_bind (grows_sendText _ _ _) fun _ => grows_bind (grows_receive _ _ _) fun _ =>
    grows_bind (quiet_strcpy _ _).grows fun _ => grows_bind (grows_checkMessage _ _ _) fun _ =>
      grows_bind (grows_accept _ _) fun _ => grows_bind (grows_advance _) fun _ => grows_note _

end Grows

end Grnvs.Ascii
