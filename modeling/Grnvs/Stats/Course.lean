/-
  The courses a call of `grnvs_read` can take.

  A `Course` is what the system answers in one call, turn by turn: each turn waits once, and reads
  once if there is something to read. `Course.run` and `readLoop_course` say that the loop does just
  that. The waits of a course are what its clock readings differ in; what they leave of the budget
  is a matter of integers (`Course.left_ns`), as long as no conversion loses anything.
-/
import Grnvs.Stats.Read
import Mathlib

namespace Grnvs.Stats

open Bytes

/-! ## One turn -/

/-- The world after a wait of `e` ns. -/
def World.waited (w : World) (e : Nat) : World :=
  { w with clock := w.clock + w.kernel.idle w.selects + e, selects := w.selects + 1 }

/-- `time` after a wait of `e` ns. -/
def World.left (w : World) (time : Option Timespec) (e : Nat) : Option Timespec :=
  time.map fun t =>
    timespecsub t (timespecsub (reading (w.clock + w.kernel.idle w.selects + e))
      (reading (w.clock + w.kernel.idle w.selects)))

/-- The world after a `read` that has failed. -/
def World.tried (w : World) : World := { w with reads := w.reads + 1 }

/-- The world after a `read` that has put `bs` into `recbuffer`. -/
def World.took (w : World) (bs : List Byte) : World :=
  { w with reads := w.reads + 1, recbuffer := splice w.recbuffer 0 bs }

def World.printed (w : World) (o : Output) : World := { w with out := w.out ++ [o] }

section Turn

variable {w : World} {time : Option Timespec} {e maxlen : Nat} {ret : Selected}

theorem waitFor_eq (hsel : w.kernel.select w.selects time = (e, ret)) (hret : ret ≠ .blocked) :
    (waitFor time).run w = (.ok (ret, w.left time e), w.waited e) := by
  have hpselect : (pselect time).run { w with clock := w.clock + w.kernel.idle w.selects } =
      (.ok ret, w.waited e) :=
    pselect_run (w := { w with clock := w.clock + w.kernel.idle w.selects }) hsel hret
  cases time with
  | none =>
    rw [waitFor, pass, Comp.modify_bind, Comp.bind_ok hpselect]
    rfl
  | some t =>
    rw [waitFor, pass, Comp.modify_bind, clock_gettime, Comp.gets_bind, Comp.bind_ok hpselect,
      Comp.gets_bind]
    rfl

theorem waitFor_blocked (hsel : w.kernel.select w.selects time = (e, .blocked)) :
    (waitFor time).run w = (.error .blocked, w.waited e) := by
  have hpselect : (pselect time).run { w with clock := w.clock + w.kernel.idle w.selects } =
      (.error .blocked, w.waited e) := by
    rw [pselect, Comp.gets_bind]
    dsimp only
    rw [hsel, Comp.modify_bind, if_pos rfl]
    rfl
  cases time with
  | none =>
    rw [waitFor, pass, Comp.modify_bind, Comp.bind_error hpselect]
  | some t =>
    rw [waitFor, pass, Comp.modify_bind, clock_gettime, Comp.gets_bind, Comp.bind_error hpselect]

variable (e) in
theorem read_took {bs : List Byte} (h : w.kernel.read w.reads = .bytes bs) :
    (read maxlen).run (w.waited e) =
      (.ok (.ok (bs.take maxlen).length), (w.waited e).took (bs.take maxlen)) :=
  read_run (w := w.waited e) h maxlen

variable (e) in
theorem read_tried {n : Errno} (h : w.kernel.read w.reads = .failed n) :
    (read maxlen).run (w.waited e) = (.ok (.error n), (w.waited e).tried) := by
  have h' : (w.waited e).kernel.read (w.waited e).reads = .failed n := h
  rw [read, Comp.gets_bind, h']
  rfl

end Turn

/-! ## A whole call -/

/-- How the loop ends: `cut` is the end by the test after `continue`, which looks at what `len` has
    held before. -/
inductive Ending where
  | timedOut
  | delivered (bs : List Byte)
  | cut (len : Int)
  | failed
deriving DecidableEq, Repr

/-- What the call returns with `time` left, or its exit. -/
def Ending.result (time : Option Timespec) : Ending → Except Stop (Int × Option Nat)
  | .timedOut => .ok (0, some 0)
  | .delivered bs => .ok (bs.length, time.map remaining)
  | .cut len => .ok (len, time.map remaining)
  | .failed => .error (.exit (-1))

/-- The loop started in a world with `time` and `len` makes the waits of the list, and ends with the
    world and the `time` at the end. -/
inductive Course (maxlen : Nat) :
    World → Option Timespec → Int → List Nat → Ending → World → Option Timespec → Prop where
  | timedOut {w : World} {t : Timespec} {len : Int} {e : Nat} :
      w.kernel.select w.selects (some t) = (e, .timedOut) →
      Course maxlen w (some t) len [e] .timedOut (w.waited e) (w.left (some t) e)
  | delivered {w : World} {time : Option Timespec} {len : Int} {e : Nat} {bs : List Byte} :
      w.kernel.select w.selects time = (e, .ready) → w.kernel.read w.reads = .bytes bs →
      Course maxlen w time len [e] (.delivered (bs.take maxlen))
        ((w.waited e).took (bs.take maxlen)) (w.left time e)
  | cut {w : World} {time : Option Timespec} {len : Int} {e : Nat} :
      w.kernel.select w.selects time = (e, .failed .eintr) → 0 ≤ len →
      Course maxlen w time len [e] (.cut len) (w.waited e) (w.left time e)
  | waitFailed {w : World} {time : Option Timespec} {len : Int} {e n : Nat} :
      w.kernel.select w.selects time = (e, .failed (.other n)) →
      Course maxlen w time len [e] .failed
        ((w.waited e).printed
          (.stderr ("pselect() failed: " ++ w.kernel.strerror (.other n) ++ "\n")))
        (w.left time e)
  | readFailed {w : World} {time : Option Timespec} {len : Int} {e n : Nat} :
      w.kernel.select w.selects time = (e, .ready) →
      w.kernel.read w.reads = .failed (.other n) →
      Course maxlen w time len [e] .failed
        ((w.waited e).tried.printed
          (.stderr ("read() failed: " ++ w.kernel.strerror (.other n) ++ "\n")))
        (w.left time e)
  | waitAgain {w w' : World} {time time' : Option Timespec} {len : Int} {e : Nat} {es : List Nat}
      {en : Ending} : w.kernel.select w.selects time = (e, .failed .eintr) → len < 0 →
      Course maxlen (w.waited e) (w.left time e) len es en w' time' →
      Course maxlen w time len (e :: es) en w' time'
  | readAgain {w w' : World} {time time' : Option Timespec} {len : Int} {e : Nat} {es : List Nat}
      {en : Ending} : w.kernel.select w.selects time = (e, .ready) →
      w.kernel.read w.reads = .failed .eintr →
      Course maxlen (w.waited e).tried (w.left time e) (-1) es en w' time' →
      Course maxlen w time len (e :: es) en w' time'

section Loop

variable {maxlen fuel e : Nat} {w w' : World} {time time' : Option Timespec} {len : Int}
  {es : List Nat} {en : Ending} {r : Except Stop (Int × Option Nat)}

/-- One turn in which there is something to read. -/
theorem readLoop_ready (hsel : w.kernel.select w.selects time = (e, .ready)) :
    (readLoop maxlen (fuel + 1) time len).run w =
      (do match ← read maxlen with
          | .ok n => pure ((n : Int), (w.left time e).map remaining)
          | .error n =>
              if n = .eintr then readLoop maxlen fuel (w.left time e) (-1)
              else do
                let strerror ← Comp.gets fun w => w.kernel.strerror
                print (.stderr ("read() failed: " ++ strerror n ++ "\n"))
                Comp.stop (.exit (-1)) : Run (Int × Option Nat)).run (w.waited e) := by
  rw [readLoop]
  exact Comp.bind_ok (waitFor_eq hsel (by decide))

theorem readLoop_failed {n : Errno} (hsel : w.kernel.select w.selects time = (e, .failed n)) :
    (readLoop maxlen (fuel + 1) time len).run w =
      (if n = .eintr then
        if 0 > len then readLoop maxlen fuel (w.left time e) len
        else pure (len, (w.left time e).map remaining)
      else do
        let strerror ← Comp.gets fun w => w.kernel.strerror
        print (.stderr ("pselect() failed: " ++ strerror n ++ "\n"))
        Comp.stop (.exit (-1)) : Run (Int × Option Nat)).run (w.waited e) := by
  rw [readLoop, Comp.bind_ok (waitFor_eq hsel (by intro h; cases h))]

/-- The loop follows its course. -/
theorem Course.run (h : Course maxlen w time len es en w' time') (hfuel : es.length ≤ fuel) :
    (readLoop maxlen fuel time len).run w = (en.result time', w') := by
  induction h generalizing fuel with
  | timedOut hsel =>
    obtain ⟨fuel, rfl⟩ : ∃ n, fuel = n + 1 := ⟨fuel - 1, by simp at hfuel; omega⟩
    rw [readLoop, Comp.bind_ok (waitFor_eq hsel (by decide))]
    rfl
  | delivered hsel hread =>
    obtain ⟨fuel, rfl⟩ : ∃ n, fuel = n + 1 := ⟨fuel - 1, by simp at hfuel; omega⟩
    rw [readLoop_ready hsel, Comp.bind_ok (read_took _ hread)]
    rfl
  | cut hsel hlen =>
    obtain ⟨fuel, rfl⟩ : ∃ n, fuel = n + 1 := ⟨fuel - 1, by simp at hfuel; omega⟩
    rw [readLoop_failed hsel, if_pos rfl, if_neg (by omega)]
    rfl
  | waitFailed hsel =>
    obtain ⟨fuel, rfl⟩ : ∃ n, fuel = n + 1 := ⟨fuel - 1, by simp at hfuel; omega⟩
    rw [readLoop_failed hsel, if_neg (by intro h; cases h)]
    rfl
  | readFailed hsel hread =>
    obtain ⟨fuel, rfl⟩ : ∃ n, fuel = n + 1 := ⟨fuel - 1, by simp at hfuel; omega⟩
    rw [readLoop_ready hsel, Comp.bind_ok (read_tried _ hread)]
    rfl
  | waitAgain hsel hlen _ ih =>
    obtain ⟨fuel, rfl⟩ : ∃ n, fuel = n + 1 := ⟨fuel - 1, by simp at hfuel; omega⟩
    rw [readLoop_failed hsel, if_pos rfl, if_pos hlen, ih (by simpa using hfuel)]
  | readAgain hsel hread _ ih =>
    obtain ⟨fuel, rfl⟩ : ∃ n, fuel = n + 1 := ⟨fuel - 1, by simp at hfuel; omega⟩
    rw [readLoop_ready hsel, Comp.bind_ok (read_tried _ hread)]
    exact ih (by simpa using hfuel)

/-- A loop that returns or exits has taken a course. -/
theorem readLoop_course (hrun : (readLoop maxlen fuel time len).run w = (r, w')) :
    r = .error .fuel ∨ r = .error .blocked ∨ r = .error .undefined ∨
      ∃ es en time', Course maxlen w time len es en w' time' ∧ r = en.result time' := by
  induction fuel generalizing w time len with
  | zero =>
    cases hrun
    exact .inl rfl
  | succ fuel ih =>
    rcases hsel : w.kernel.select w.selects time with ⟨e, ret⟩
    cases ret with
    | blocked =>
      rw [readLoop, Comp.bind_error (waitFor_blocked hsel)] at hrun
      cases hrun
      exact .inr (.inl rfl)
    | timedOut =>
      rw [readLoop, Comp.bind_ok (waitFor_eq hsel (by decide))] at hrun
      cases time with
      | none =>
        cases hrun
        exact .inr (.inr (.inl rfl))
      | some t =>
        cases hrun
        exact .inr (.inr (.inr ⟨_, _, _, .timedOut hsel, rfl⟩))
    | failed n =>
      rw [readLoop_failed hsel] at hrun
      cases n with
      | other n =>
        rw [if_neg (by intro h; cases h)] at hrun
        cases hrun
        exact .inr (.inr (.inr ⟨_, _, _, .waitFailed hsel, rfl⟩))
      | eintr =>
        rw [if_pos rfl] at hrun
        by_cases hlen : 0 > len
        · rw [if_pos hlen] at hrun
          rcases ih hrun with h | h | h | ⟨es, en, time', hc, hr⟩
          · exact .inl h
          · exact .inr (.inl h)
          · exact .inr (.inr (.inl h))
          · exact .inr (.inr (.inr ⟨_, _, _, .waitAgain hsel hlen hc, hr⟩))
        · rw [if_neg hlen] at hrun
          cases hrun
          exact .inr (.inr (.inr ⟨_, _, _, .cut hsel (by omega), rfl⟩))
    | ready =>
      rw [readLoop_ready hsel] at hrun
      rcases hread : w.kernel.read w.reads with bs | n
      · rw [Comp.bind_ok (read_took e hread)] at hrun
        cases hrun
        exact .inr (.inr (.inr ⟨_, _, _, .delivered hsel hread, rfl⟩))
      · rw [Comp.bind_ok (read_tried e hread)] at hrun
        cases n with
        | other n =>
          cases hrun
          exact .inr (.inr (.inr ⟨_, _, _, .readFailed hsel hread, rfl⟩))
        | eintr =>
          rcases ih hrun with h | h | h | ⟨es, en, time', hc, hr⟩
          · exact .inl h
          · exact .inr (.inl h)
          · exact .inr (.inr (.inl h))
          · exact .inr (.inr (.inr ⟨_, _, _, .readAgain hsel hread hc, hr⟩))

end Loop

section Call

variable {maxlen fuel : Nat} {timeout : Option Nat} {w : World}

theorem grnvs_read_closed (hclosed : w.ifindex < 0) :
    (grnvs_read fuel maxlen timeout).run w = (.error (.exit (-1)),
      w.printed (.stderr "tried to read from closed socket, aborting\n")) := by
  rw [grnvs_read, Comp.gets_bind, Comp.gets_bind, if_pos hclosed]
  rfl

theorem grnvs_read_open (hopen : 0 ≤ w.ifindex) (ht : timeout ≠ some 0) :
    (grnvs_read fuel maxlen timeout).run w =
      (readLoop maxlen fuel (timeout.map timespecmset) (w.kernel.len w.selects)).run w := by
  rw [grnvs_read, Comp.gets_bind, Comp.gets_bind, if_neg (by omega), if_neg ht]

/-- A call that returns or exits has been refused, had no budget, or has taken a course. -/
theorem grnvs_read_course {w' : World} {r : Except Stop (Int × Option Nat)}
    (hrun : (grnvs_read fuel maxlen timeout).run w = (r, w'))
    (hend : ∀ why, r = .error why → ∃ code, why = .exit code) :
    w.ifindex < 0 ∧ r = .error (.exit (-1)) ∨ timeout = some 0 ∧ r = .ok (0, some 0) ∨
      0 ≤ w.ifindex ∧ timeout ≠ some 0 ∧ ∃ es en time',
        Course maxlen w (timeout.map timespecmset) (w.kernel.len w.selects) es en w' time' ∧
          r = en.result time' := by
  by_cases hclosed : w.ifindex < 0
  · rw [grnvs_read_closed hclosed] at hrun
    exact .inl ⟨hclosed, (congrArg Prod.fst hrun).symm⟩
  have hopen : 0 ≤ w.ifindex := by omega
  by_cases ht : timeout = some 0
  · rw [ht, grnvs_read_spent fuel maxlen hopen] at hrun
    exact .inr (.inl ⟨ht, (congrArg Prod.fst hrun).symm⟩)
  rw [grnvs_read_open hopen ht] at hrun
  rcases readLoop_course hrun with hr | hr | hr | hc
  · obtain ⟨code, h⟩ := hend _ hr
    cases h
  · obtain ⟨code, h⟩ := hend _ hr
    cases h
  · obtain ⟨code, h⟩ := hend _ hr
    cases h
  · exact .inr (.inr ⟨hopen, ht, hc⟩)

end Call

/-! ## What the waits leave -/

section Time

variable {maxlen e : Nat} {w w' : World} {time time' : Option Timespec} {t : Timespec} {len : Int}
  {es : List Nat} {en : Ending}

/-- A wait of `e` ns takes `e` ns, for every `e`. -/
theorem left_ns (w : World) (ht : t.Normal) (e : Nat) :
    ∃ t', w.left (some t) e = some t' ∧ t'.Normal ∧ t'.ns = t.ns - e := by
  refine ⟨_, rfl, timespecsub_normal ht (timespecsub_normal (reading_normal _) (reading_normal _)),
    ?_⟩
  rw [timespecsub_ns, timespecsub_ns, reading_ns, reading_ns]
  omega

/-- The waits of a course add up. -/
theorem Course.left_ns (h : Course maxlen w time len es en w' time') (htime : time = some t)
    (ht : t.Normal) : ∃ t', time' = some t' ∧ t'.Normal ∧ t'.ns = t.ns - es.sum := by
  induction h generalizing t with
  | timedOut _ | delivered _ _ | cut _ _ | waitFailed _ | readFailed _ _ =>
    cases htime
    simpa using Stats.left_ns _ ht _
  | waitAgain _ _ _ ih | readAgain _ _ _ ih =>
    cases htime
    obtain ⟨t1, h1, hn1, hns1⟩ := Stats.left_ns _ ht _
    obtain ⟨t', h', hn', hns'⟩ := ih h1 hn1
    refine ⟨t', h', hn', ?_⟩
    rw [hns', hns1, List.sum_cons]
    omega

end Time

/-- A socket that has been opened, with nothing read yet. -/
def opened (k : Kernel) : World where
  kernel := k
  ifindex := 2
  clock := 0
  selects := 0
  reads := 0
  recbuffer := []
  mymac := []
  heap _ := none
  mallocs := 0
  freed := []
  out := []

end Grnvs.Stats
