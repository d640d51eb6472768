/-
  Interrupted calls of `grnvs_read`.

  `Served` says what a call is for: after an interruption it waits again, what it returns is 0 for a
  budget that is used up and otherwise the length of what its last `read` has delivered. The loop
  goes back through one test, which looks at `len`; before the first `read` nothing has been
  assigned to it. So a signal during the first wait can end the call with whatever `len` holds
  (`grnvs_read_faithful`).
-/
import Grnvs.Stats.Course

namespace Grnvs.Stats

open Bytes

/-- A call that waits with `time` and returns a value, or exits (`none`). -/
inductive Served (maxlen : Nat) : World → Option Timespec → Option Int → World → Prop where
  | timedOut {w : World} {t : Timespec} {e : Nat} :
      w.kernel.select w.selects (some t) = (e, .timedOut) →
      Served maxlen w (some t) (some 0) (w.waited e)
  | delivered {w : World} {time : Option Timespec} {e : Nat} {bs : List Byte} :
      w.kernel.select w.selects time = (e, .ready) → w.kernel.read w.reads = .bytes bs →
      Served maxlen w time (some (bs.take maxlen).length) ((w.waited e).took (bs.take maxlen))
  | waitFailed {w : World} {time : Option Timespec} {e n : Nat} (text : String) :
      w.kernel.select w.selects time = (e, .failed (.other n)) →
      Served maxlen w time none ((w.waited e).printed (.stderr text))
  | readFailed {w : World} {time : Option Timespec} {e n : Nat} (text : String) :
      w.kernel.select w.selects time = (e, .ready) →
      w.kernel.read w.reads = .failed (.other n) →
      Served maxlen w time none ((w.waited e).tried.printed (.stderr text))
  | waitAgain {w w' : World} {time : Option Timespec} {e : Nat} {v : Option Int} :
      w.kernel.select w.selects time = (e, .failed .eintr) →
      Served maxlen (w.waited e) (w.left time e) v w' → Served maxlen w time v w'
  | readAgain {w w' : World} {time : Option Timespec} {e : Nat} {v : Option Int} :
      w.kernel.select w.selects time = (e, .ready) →
      w.kernel.read w.reads = .failed .eintr →
      Served maxlen (w.waited e).tried (w.left time e) v w' → Served maxlen w time v w'

section Served

variable {maxlen : Nat} {w w' : World} {time time' : Option Timespec} {len v : Int}
  {es : List Nat} {en : Ending} {o : Option Int}

theorem Served.selects_lt (h : Served maxlen w time o w') : w.selects < w'.selects := by
  induction h with
  | timedOut _ | delivered _ _ | waitFailed _ _ | readFailed _ _ _ => exact Nat.lt_succ_self _
  | waitAgain _ _ ih | readAgain _ _ _ ih => exact Nat.lt_of_succ_lt ih

/-- A value that is served is 0, after a wait that timed out, or the result of the last `read`,
    which was made in this call. -/
theorem Served.value (h : Served maxlen w time (some v) w') :
    v = 0 ∧ (∃ t, (w'.kernel.select (w'.selects - 1) (some t)).2 = .timedOut) ∨
      ∃ bs, w.reads < w'.reads ∧ w'.kernel.read (w'.reads - 1) = .bytes bs ∧
        v = (bs.take maxlen).length := by
  generalize ho : some v = o at h
  induction h with
  | @timedOut w t e hsel =>
    cases ho
    refine .inl ⟨rfl, t, ?_⟩
    change (w.kernel.select w.selects (some t)).2 = _
    rw [hsel]
  | @delivered w time e bs hsel hread =>
    cases ho
    exact .inr ⟨bs, Nat.lt_succ_self _, hread, rfl⟩
  | waitFailed _ _ | readFailed _ _ _ => cases ho
  | waitAgain _ _ ih => exact ih ho
  | readAgain _ _ _ ih =>
    rcases ih ho with h | ⟨bs, hlt, hrest⟩
    · exact .inl h
    · exact .inr ⟨bs, Nat.lt_of_succ_lt hlt, hrest⟩

/-! ## The loop -/

/-- What an ending hands to the caller. -/
def Ending.value : Ending → Option Int
  | .timedOut => some 0
  | .delivered bs => some bs.length
  | .cut len => some len
  | .failed => none

/-- With a negative `len` the test goes back to the wait, whatever was interrupted. -/
theorem Course.served_of_neg (h : Course maxlen w time len es en w' time') (hlen : len < 0) :
    Served maxlen w time en.value w' := by
  induction h with
  | timedOut hsel => exact .timedOut hsel
  | delivered hsel hread => exact .delivered hsel hread
  | cut _ h0 => omega
  | waitFailed hsel => exact .waitFailed _ hsel
  | readFailed hsel hread => exact .readFailed _ hsel hread
  | waitAgain hsel _ _ ih => exact .waitAgain hsel (ih hlen)
  | readAgain hsel hread _ ih => exact .readAgain hsel hread (ih (by decide))

/-- Whatever `len` holds, only a signal during the first wait shows it. -/
theorem Course.served (h : Course maxlen w time len es en w' time')
    (hfirst : ¬ ((w.kernel.select w.selects time).2 = .failed .eintr ∧ 0 ≤ len)) :
    Served maxlen w time en.value w' := by
  cases h with
  | timedOut hsel => exact .timedOut hsel
  | delivered hsel hread => exact .delivered hsel hread
  | cut hsel h0 => exact absurd ⟨by rw [hsel], h0⟩ hfirst
  | waitFailed hsel => exact .waitFailed _ hsel
  | readFailed hsel hread => exact .readFailed _ hsel hread
  | waitAgain hsel hlen hc => exact .waitAgain hsel (hc.served_of_neg hlen)
  | readAgain hsel hread hc => exact .readAgain hsel hread (hc.served_of_neg (by decide))

/-- A call that ends with its first wait interrupted has served nothing. -/
theorem not_served {e : Nat} (hsel : w.kernel.select w.selects time = (e, .failed .eintr))
    (hone : w'.selects = w.selects + 1) : ¬ Served maxlen w time o w' := by
  intro h
  cases h with
  | timedOut hsel' | delivered hsel' _ | waitFailed _ hsel' | readFailed _ hsel' _
  | readAgain hsel' _ _ =>
    rw [hsel] at hsel'
    cases hsel'
  | waitAgain _ hs =>
    have hlt : w.selects + 1 < w'.selects := hs.selects_lt
    omega

end Served

/-! ## The call -/

/-- Every call of `grnvs_read` in `w` serves its caller, for any number of turns; a closed socket is
    refused, and with no budget the answer is 0. -/
structure Faithful (maxlen : Nat) (timeout : Option Nat) (w : World) : Prop where
  returns : ∀ fuel v left w', (grnvs_read fuel maxlen timeout).run w = (.ok (v, left), w') →
    timeout = some 0 ∧ v = 0 ∨ Served maxlen w (timeout.map timespecmset) (some v) w'
  exits : ∀ fuel code w', (grnvs_read fuel maxlen timeout).run w = (.error (.exit code), w') →
    w.ifindex < 0 ∨ Served maxlen w (timeout.map timespecmset) none w'

section Call

/-- `grnvs_read` serves its caller, unless the first wait is interrupted and the uninitialised `len`
    is not negative. -/
theorem grnvs_read_faithful (maxlen : Nat) (timeout : Option Nat) (w : World) :
    Faithful maxlen timeout w ↔
      ¬ (0 ≤ w.ifindex ∧ timeout ≠ some 0 ∧
        (w.kernel.select w.selects (timeout.map timespecmset)).2 = .failed .eintr ∧
        0 ≤ w.kernel.len w.selects) := by
  constructor
  · rintro h ⟨hopen, ht, hfirst, hlen⟩
    obtain ⟨e, hsel⟩ : ∃ e, w.kernel.select w.selects (timeout.map timespecmset) =
        (e, .failed .eintr) := ⟨_, Prod.ext rfl hfirst⟩
    have hrun : (grnvs_read 1 maxlen timeout).run w = _ :=
      (grnvs_read_open hopen ht).trans (Course.run (.cut hsel hlen) (Nat.le_refl 1))
    rcases h.returns _ _ _ _ hrun with ⟨h0, -⟩ | hs
    · exact ht h0
    · exact not_served hsel rfl hs
  · intro h
    constructor
    · intro fuel v left w' hrun
      rcases grnvs_read_course hrun (fun why he => by cases he) with
        ⟨-, hr⟩ | ⟨ht, hr⟩ | ⟨hopen, ht, es, en, time', hc, hr⟩
      · cases hr
      · cases hr
        exact .inl ⟨ht, rfl⟩
      · have hs := hc.served fun hfirst => h ⟨hopen, ht, hfirst⟩
        cases en with
        | timedOut | delivered _ | cut _ =>
          cases hr
          exact .inr hs
        | failed => cases hr
    · intro fuel code w' hrun
      rcases grnvs_read_course hrun (fun why he => ⟨code, by cases he; rfl⟩) with
        ⟨hclosed, -⟩ | ⟨-, hr⟩ | ⟨hopen, ht, es, en, time', hc, hr⟩
      · exact .inl hclosed
      · cases hr
      · have hs := hc.served fun hfirst => h ⟨hopen, ht, hfirst⟩
        cases en with
        | timedOut | delivered _ | cut _ => cases hr
        | failed => exact .inr hs

end Call

/-- A system in which a signal comes during the first wait, and `len` holds a 5. -/
def kernelSignal : Kernel where
  hwaddr := [2, 0, 0, 0, 0, 1]
  idle _ := 0
  select n _ := if n = 0 then (1000, .failed .eintr) else (0, .timedOut)
  read _ := .failed (.other 11)
  len _ := 5
  full _ := false
  fresh _ := ⟨0, 0, 0, none⟩
  strerror _ := ""

/-- The call returns the 5, and nothing has been read. -/
theorem signal_invents :
    (∃ w', (grnvs_read 1 1514 (some 10000)).run (opened kernelSignal) = (.ok (5, some 9999), w') ∧
      w'.reads = (opened kernelSignal).reads) ∧ ¬ Faithful 1514 (some 10000) (opened kernelSignal) :=
  ⟨⟨_, rfl, rfl⟩, fun h =>
    (grnvs_read_faithful 1514 (some 10000) (opened kernelSignal)).mp h
      ⟨by decide, by decide, rfl, by decide⟩⟩

end Grnvs.Stats
