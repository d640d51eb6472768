/-
  The time a call of `grnvs_read` takes from its budget.

  As long as the waits fit, `time` holds the exact rest and `*timeout` its whole milliseconds
  (`grnvs_read_accounts`). The clock is read after `pselect`, so a wait can run over; then the rest
  is negative and comes back as an `unsigned int` near 2^32, and the next call may wait longer than
  this one (`timeout_grows`). `grnvs_read_bounded_iff` says when a call does not do that, and
  `receives_antitone` that ethstats waits less and less while no call does.
-/
import Grnvs.Stats.Budget
import Grnvs.Stats.Course

namespace Grnvs.Stats

open Bytes

/-! ## While the budget lasts -/

/-- Turns that wait, find something to read, and are interrupted when they read it. -/
inductive Turns : World → Timespec → List Nat → World → Timespec → Prop where
  | nil {w : World} {t : Timespec} : Turns w t [] w t
  | turn {w w' : World} {t t1 t' : Timespec} {e : Nat} {es : List Nat} :
      w.kernel.select w.selects (some t) = (e, .ready) →
      w.kernel.read w.reads = .failed .eintr → w.left (some t) e = some t1 →
      Turns (w.waited e).tried t1 es w' t' → Turns w t (e :: es) w' t'

/-- `time` is a normalised number of nanoseconds, the exact rest of `T` milliseconds after the waits
    `es`, and `*timeout` is its whole milliseconds. -/
structure Accounted (T : Nat) (es : List Nat) (time : Timespec) : Prop where
  nsec : 0 ≤ time.tv_nsec ∧ time.tv_nsec < 1000000000
  sec : 0 ≤ time.tv_sec
  rest : time.tv_sec * 1000000000 + time.tv_nsec = T * 1000000 - es.sum
  timeout : remaining time = (T * 1000000 - es.sum) / 1000000
  le : remaining time ≤ T
  close : T * 1000000 - es.sum < (remaining time + 1) * 1000000

section Account

variable {T e maxlen : Nat} {w w1 : World} {t t1 : Timespec} {es : List Nat} {bs : List Byte}

theorem Turns.ns (h : Turns w t es w1 t1) (ht : t.Normal) :
    t1.Normal ∧ t1.ns = t.ns - es.sum := by
  induction h with
  | nil => exact ⟨ht, by simp⟩
  | turn _ _ hleft _ ih =>
    obtain ⟨t2, h2, hn2, hns2⟩ := left_ns _ ht _
    obtain rfl := Option.some.inj (hleft.symm.trans h2)
    obtain ⟨hn, hns⟩ := ih hn2
    refine ⟨hn, ?_⟩
    rw [hns, hns2, List.sum_cons]
    omega

/-- The turns of an interrupted call, followed by a course. -/
theorem Turns.course {en : Ending} {w2 : World} {t2 : Option Timespec} {len : Int} {fs : List Nat}
    (h : Turns w t es w1 t1)
    (hc : ∀ len, Course maxlen w1 (some t1) len fs en w2 t2) :
    Course maxlen w (some t) len (es ++ fs) en w2 t2 := by
  induction h generalizing len with
  | nil => exact hc len
  | turn hsel hread hleft _ ih => exact .readAgain hsel hread (hleft ▸ ih hc)

/-- Normalised time with the exact number of nanoseconds. -/
theorem accounted (hlt : T < 4294967296) (hsum : es.sum ≤ T * 1000000) (ht : t.Normal)
    (hns : t.ns = T * 1000000 - es.sum) : Accounted T es t := by
  have hn : t.ns = (T * 1000000 - es.sum : Nat) := by omega
  have hr : remaining t = (T * 1000000 - es.sum) / 1000000 := remaining_eq ht hn (by omega)
  obtain ⟨h1, h2⟩ := ht
  rw [Timespec.ns] at hns
  exact ⟨⟨h1, h2⟩, by omega, hns, hr, by omega, by omega⟩

/-- `grnvs_read` takes exactly the waits from its budget: after every interrupted turn, and after the
    turn that reads. -/
theorem grnvs_read_accounts (maxlen : Nat) (hT : 1 ≤ T) (hlt : T < 4294967296)
    (hopen : 0 ≤ w.ifindex) (h : Turns w (timespecmset T) es w1 t1)
    (hsum : es.sum ≤ T * 1000000) :
    Accounted T es t1 ∧
      ∀ e bs, w1.kernel.select w1.selects (some t1) = (e, .ready) →
        w1.kernel.read w1.reads = .bytes bs → (es ++ [e]).sum ≤ T * 1000000 →
        ∃ t2, w1.left (some t1) e = some t2 ∧ Accounted T (es ++ [e]) t2 ∧
          ∀ fuel, es.length < fuel → (grnvs_read fuel maxlen (some T)).run w =
            (.ok ((bs.take maxlen).length, some (remaining t2)),
              (w1.waited e).took (bs.take maxlen)) := by
  obtain ⟨hn, hns⟩ := h.ns (timespecmset_normal T)
  rw [timespecmset_ns] at hns
  refine ⟨accounted hlt hsum hn hns, ?_⟩
  intro e bs hsel hread hall
  obtain ⟨t2, h2, hn2, hns2⟩ := left_ns w1 hn e
  have hpos : ¬ (some T = some 0) := by
    rw [Option.some.injEq]
    omega
  refine ⟨t2, h2, accounted hlt hall hn2 ?_, ?_⟩
  · rw [hns2, hns, List.sum_append, List.sum_singleton]
    omega
  · intro fuel hfuel
    have hcourse : Course maxlen w (some (timespecmset T)) (w.kernel.len w.selects) (es ++ [e])
        (.delivered (bs.take maxlen)) ((w1.waited e).took (bs.take maxlen))
        (w1.left (some t1) e) := h.course fun _ => .delivered hsel hread
    rw [grnvs_read, Comp.gets_bind, Comp.gets_bind, if_neg (by omega), if_neg hpos,
      Option.map_some, hcourse.run (by rw [List.length_append, List.length_singleton]; omega), h2]
    rfl

end Account

/-- A system in which every wait takes 1.5 ms and the first `read` is interrupted. -/
def kernelRetry : Kernel where
  hwaddr := [2, 0, 0, 0, 0, 1]
  idle _ := 0
  select _ _ := (1500000, .ready)
  read n := if n = 0 then .failed .eintr else .bytes [1, 2]
  len _ := 0
  full _ := false
  fresh _ := ⟨0, 0, 0, none⟩
  strerror _ := ""

theorem grnvs_read_accounts_retry :
    Accounted 10 [1500000] ⟨0, 8500000⟩ ∧
      ∀ e bs, (1500000, Selected.ready) = (e, .ready) → Received.bytes [1, 2] = .bytes bs →
        ([1500000] ++ [e]).sum ≤ 10 * 1000000 →
        ∃ t2, ((opened kernelRetry).waited 1500000).tried.left (some ⟨0, 8500000⟩) e = some t2 ∧
          Accounted 10 ([1500000] ++ [e]) t2 ∧
          ∀ fuel, [1500000].length < fuel →
            (grnvs_read fuel 1514 (some 10)).run (opened kernelRetry) =
              (.ok ((bs.take 1514).length, some (remaining t2)),
                (((opened kernelRetry).waited 1500000).tried.waited e).took (bs.take 1514)) := by
  have h : Turns (opened kernelRetry) (timespecmset 10) [1500000]
      ((opened kernelRetry).waited 1500000).tried ⟨0, 8500000⟩ := .turn rfl rfl rfl .nil
  exact grnvs_read_accounts 1514 (by decide) (by decide) (by decide) h (by decide)

/-! ## When it does not -/

/-- The waits of a call with the timeout `T` do not run over it, or run over it by so much that the
    rest is small again, modulo 2^32. -/
def Lasts (T : Nat) (es : List Nat) : Prop :=
  charge es.sum ≤ T ∨ (charge es.sum - T) % 4294967296 = 0 ∨
    4294967296 ≤ (charge es.sum - T) % 4294967296 + T

instance (T : Nat) (es : List Nat) : Decidable (Lasts T es) :=
  inferInstanceAs (Decidable (_ ∨ _ ∨ _))

/-- The call in `w` with the timeout `T` is over at once, or times out, or exits, or its waits last. -/
def Bounded (maxlen T : Nat) (w : World) : Prop :=
  w.ifindex < 0 ∨ T = 0 ∨ ∀ es en w' time',
    Course maxlen w (some (timespecmset T)) (w.kernel.len w.selects) es en w' time' →
    en = .timedOut ∨ en = .failed ∨ Lasts T es

section Growth

variable {T maxlen : Nat} {w w' : World} {t : Timespec} {es : List Nat} {en : Ending}
  {time' : Option Timespec} {len : Int}

/-- What is written back, against what was there. -/
theorem remaining_le (hlt : T < 4294967296) (ht : t.Normal)
    (hns : t.ns = T * 1000000 - es.sum) : remaining t ≤ T ↔ Lasts T es := by
  have hdiv : t.ns / 1000000 = (T : Int) - charge es.sum := by
    rw [hns, charge]
    omega
  rw [remaining_floor ht, hdiv, unsigned, Lasts]
  omega

/-- A call that returns does not raise its timeout exactly when it is bounded. -/
theorem grnvs_read_bounded_iff (maxlen : Nat) (hlt : T < 4294967296) (w : World) :
    (∀ fuel v left w', (grnvs_read fuel maxlen (some T)).run w = (.ok (v, left), w') →
      ∃ T', left = some T' ∧ T' ≤ T) ↔ Bounded maxlen T w := by
  by_cases hclosed : w.ifindex < 0
  · refine iff_of_true ?_ (.inl hclosed)
    intro fuel v left w' hrun
    rw [grnvs_read_closed hclosed] at hrun
    cases hrun
  have hopen : 0 ≤ w.ifindex := by omega
  by_cases hT : T = 0
  · refine iff_of_true ?_ (.inr (.inl hT))
    intro fuel v left w' hrun
    rw [hT, grnvs_read_spent fuel maxlen hopen] at hrun
    cases hrun
    exact ⟨0, rfl, Nat.zero_le _⟩
  have hpos : some T ≠ some 0 := by
    intro h
    exact hT (Option.some.inj h)
  constructor
  · refine fun h => .inr (.inr ?_)
    intro es en w' time' hc
    obtain ⟨t', rfl, hn, hns⟩ := hc.left_ns rfl (timespecmset_normal T)
    rw [timespecmset_ns] at hns
    have hrun := (grnvs_read_open hopen hpos).trans (hc.run (Nat.le_refl es.length))
    cases en with
    | timedOut => exact .inl rfl
    | failed => exact .inr (.inl rfl)
    | delivered _ | cut _ =>
      obtain ⟨T', hT', hle⟩ := h _ _ _ _ hrun
      cases hT'
      exact .inr (.inr ((remaining_le hlt hn hns).mp hle))
  · intro h fuel v left w' hrun
    rcases grnvs_read_course hrun (fun why he => by cases he) with
      ⟨-, hr⟩ | ⟨ht, -⟩ | ⟨-, -, es, en, time', hc, hr⟩
    · cases hr
    · exact absurd ht hpos
    · obtain ⟨t', rfl, hn, hns⟩ := hc.left_ns rfl (timespecmset_normal T)
      rw [timespecmset_ns] at hns
      have hb : en = .timedOut ∨ en = .failed ∨ Lasts T es := by
        rcases h with h | h | h
        · exact absurd h hclosed
        · exact absurd h hT
        · exact h es en w' _ hc
      cases en with
      | timedOut =>
        cases hr
        exact ⟨0, rfl, Nat.zero_le _⟩
      | failed => cases hr
      | delivered _ | cut _ =>
        cases hr
        refine ⟨_, rfl, (remaining_le hlt hn hns).mpr ?_⟩
        rcases hb with hb | hb | hb
        · cases hb
        · cases hb
        · exact hb

end Growth

/-- A system in which a packet comes after a wait of 11 ms. -/
def kernelLate : Kernel := { kernelRetry with
  select _ _ := (11000000, .ready)
  read _ := .bytes [1, 2] }

/-- The packet comes 1 ms after the timeout of 10 ms: the next call may wait for 49 days. -/
theorem timeout_grows :
    (∃ w', (grnvs_read 1 1514 (some 10)).run (opened kernelLate) =
      (.ok (2, some 4294967295), w')) ∧ ¬ Bounded 1514 10 (opened kernelLate) := by
  have hrun : (grnvs_read 1 1514 (some 10)).run (opened kernelLate) = (.ok (2, some 4294967295), _) :=
    rfl
  refine ⟨⟨_, hrun⟩, ?_⟩
  intro h
  obtain ⟨T', hT', hle⟩ := (grnvs_read_bounded_iff 1514 (by decide) _).mpr h _ _ _ _ hrun
  cases hT'
  omega

/-! ## The receive loop of ethstats -/

/-- The calls of `grnvs_read` that `receiveLoop` makes: the worlds they are made in, and their
    timeouts. -/
def calls (fuel : Nat) : Nat → Locals → World → List (World × Nat)
  | 0, _, _ => []
  | turns + 1, l, w =>
      (w, l.timeout) ::
        match (grnvs_read fuel 1514 (some l.timeout)).run w with
        | (.error _, _) => []
        | (.ok (len, timeout), w) =>
            let l := { l with timeout := timeout.getD 0 }
            let ret := (len % 18446744073709551616).toNat
            if ret = 0 then []
            else
              match (countFrame fuel ret l).run w with
              | (.error _, _) => []
              | (.ok l, w) => calls fuel turns l w

section Calls

variable {fuel ret : Nat} {l l' : Locals} {w w' : World}

/-- Counting a frame does not touch the timeout. -/
theorem countFrame_timeout (h : (countFrame fuel ret l).run w = (.ok l', w')) :
    l'.timeout = l.timeout := by
  obtain ⟨_, _, _, h⟩ := Comp.bind_eq_ok h
  obtain ⟨_, _, _, h⟩ := Comp.bind_eq_ok h
  obtain ⟨_, _, _, h⟩ := Comp.bind_eq_ok h
  cases h
  rfl

/-- No call is allowed more than the one before, if none of them runs over. -/
theorem calls_antitone (turns : Nat) (hlt : l.timeout < 4294967296)
    (h : ∀ c ∈ calls fuel turns l w, Bounded 1514 c.2 c.1) :
    (∀ c ∈ calls fuel turns l w, c.2 ≤ l.timeout) ∧
      ((calls fuel turns l w).map Prod.snd).Pairwise (· ≥ ·) := by
  induction turns generalizing l w with
  | zero => exact ⟨List.forall_mem_nil _, List.Pairwise.nil⟩
  | succ turns ih =>
    -- the calls behind the first one are none, or those of the rest of the loop
    obtain ⟨rest, hcalls, hle, hpair⟩ : ∃ rest, calls fuel (turns + 1) l w = (w, l.timeout) :: rest ∧
        (∀ c ∈ rest, c.2 ≤ l.timeout) ∧ (rest.map Prod.snd).Pairwise (· ≥ ·) := by
      refine ⟨_, rfl, ?_⟩
      rw [calls] at h
      rcases hread : (grnvs_read fuel 1514 (some l.timeout)).run w with ⟨e | ⟨len, left⟩, w1⟩
      · exact ⟨List.forall_mem_nil _, List.Pairwise.nil⟩
      rw [hread] at h
      dsimp only at h ⊢
      obtain ⟨T', rfl, hT'⟩ := (grnvs_read_bounded_iff 1514 hlt w).mpr
        (h _ (List.mem_cons_self ..)) _ _ _ _ hread
      split
      · exact ⟨List.forall_mem_nil _, List.Pairwise.nil⟩
      rename_i hne
      rw [if_neg hne] at h
      rcases hcount : (countFrame fuel (len % 18446744073709551616).toNat
        { l with timeout := (some T').getD 0 }).run w1 with ⟨e | l1, w2⟩
      · exact ⟨List.forall_mem_nil _, List.Pairwise.nil⟩
      rw [hcount] at h
      have htime : l1.timeout = T' := countFrame_timeout hcount
      obtain ⟨hle, hpair⟩ := ih (l := l1) (w := w2) (by omega) fun c hc =>
        h c (List.mem_cons_of_mem _ hc)
      exact ⟨fun c hc => Nat.le_trans (hle c hc) (by omega), hpair⟩
    rw [hcalls]
    constructor
    · intro c hc
      rcases List.mem_cons.mp hc with rfl | hc
      · exact Nat.le_refl _
      · exact hle c hc
    · rw [List.map_cons, List.pairwise_cons]
      refine ⟨?_, hpair⟩
      intro T hT
      obtain ⟨c, hc, rfl⟩ := List.mem_map.mp hT
      exact hle c hc

end Calls

end Grnvs.Stats
