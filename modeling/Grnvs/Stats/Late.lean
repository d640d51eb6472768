/-
  Frames that `pselect` reports, in time or late.

  The clock is read after `pselect` has returned, so a frame can be reported although more than the
  timeout has passed. `Kernel.reporting k as` reports the frames of `as` whatever their waits are,
  and then no more: that is every run of ethstats in which no call is interrupted and none fails.
  A late frame does not end the budget but wraps it around (`leftOver`), and `lasting` says how many
  frames are read before it is used up. Those in time come first (`counted_prefix_reported`).
-/
import Grnvs.Stats.Budget

namespace Grnvs.Stats

open Bytes Linked

/-- `pselect` reports the next frame, or that there is none. -/
def reportSelect (next : Option Arrival) (tp : Option Timespec) : Nat × Selected :=
  match next, tp with
  | some a, _ => (a.wait, .ready)
  | none, some t => (t.ns.toNat, .timedOut)
  | none, none => (0, .blocked)

/-- The system `k` with the frames `as` and no others on the socket, reported late if need be. -/
def Kernel.reporting (k : Kernel) (as : List Arrival) : Kernel :=
  { k with
    select := fun n tp => reportSelect as[n]? tp
    read := fun n => .bytes ((as[n]?.map Arrival.frame).getD []) }

/-- The milliseconds of a timeout `T` after a wait of `e` ns, as an `unsigned int`. -/
def leftOver (T e : Nat) : Nat := unsigned ((T * 1000000 - e : Int) / 1000000)

/-- How many frames with these waits are read before the timeout is 0, from `T` ms on. -/
def lasting : Nat → List Nat → Nat
  | _, [] => 0
  | T, e :: es => if T = 0 then 0 else lasting (leftOver T e) es + 1

/-- How many of the frames come before a call of `grnvs_read` returns 0. -/
def readable (as : List Arrival) : Nat := lasting 10000 (waits as)

/-- The frames that are read. -/
def reported (frames : Int) (as : List Arrival) : List (List Byte) :=
  (as.take (Nat.min frames.toNat (readable as))).map Arrival.frame

theorem lasting_zero (es : List Nat) : lasting 0 es = 0 := by
  cases es with
  | nil => rfl
  | cons e es =>
    unfold lasting
    exact if_pos rfl

theorem lasting_cons {T : Nat} (hpos : 0 < T) (e : Nat) (es : List Nat) :
    lasting T (e :: es) = lasting (leftOver T e) es + 1 := by
  rw [lasting, if_neg (Nat.ne_of_gt hpos)]

/-- While no frame is late, the budget is charged as before. -/
theorem delivered_le_lasting {T : Nat} (hlt : T < 4294967296) (es : List Nat) :
    delivered T es ≤ lasting T es := by
  induction es generalizing T with
  | nil => exact Nat.le_refl 0
  | cons e es ih =>
    rw [delivered]
    by_cases hstop : T = 0 ∨ T * 1000000 < e
    · rw [if_pos hstop]
      exact Nat.zero_le _
    · have hleft : leftOver T e = (T * 1000000 - e) / 1000000 := unsigned_left hlt (by omega)
      rw [if_neg hstop, lasting_cons (by omega), hleft]
      exact Nat.succ_le_succ (ih (by omega))

/-- The frames that come in time are the first of those that are read. -/
theorem counted_prefix_reported (frames : Int) (as : List Arrival) :
    counted frames as <+: reported frames as := by
  have hle : receivable as ≤ readable as := delivered_le_lasting (by decide) _
  have hmin : Nat.min frames.toNat (receivable as) ≤ Nat.min frames.toNat (readable as) :=
    Nat.le_min.mpr ⟨Nat.min_le_left _ _, Nat.le_trans (Nat.min_le_right _ _) hle⟩
  unfold counted reported
  exact (List.take_prefix_take_left hmin).map Arrival.frame

/-- What a wait that fits takes from the timeout. -/
theorem leftOver_eq {T e : Nat} (hlt : T < 4294967296) (h : charge e ≤ T) :
    leftOver T e = T - charge e := by
  have hleft : leftOver T e = (T * 1000000 - e) / 1000000 :=
    unsigned_left hlt (by unfold charge at h; omega)
  rw [hleft]
  unfold charge at h ⊢
  omega

/-- All frames are read if their charges do not use up the timeout. -/
theorem lasting_eq_length {T : Nat} (hlt : T < 4294967296) {es : List Nat}
    (h : spent es es.length < T) : lasting T es = es.length := by
  induction es generalizing T with
  | nil => rfl
  | cons e es ih =>
    rw [List.length_cons, spent_succ] at h
    rw [lasting_cons (by omega), leftOver_eq hlt (by omega), ih (by omega) (by omega),
      List.length_cons]

section Reporting

variable {k : Kernel} {as rest : List Arrival} {a : Arrival} {w : World} {l : Locals}
  {fs : List (List Byte)} {fuel n : Nat}

theorem reporting_ready (h : as[n]? = some a) (tp : Option Timespec) :
    (k.reporting as).select n tp = (a.wait, .ready) := by
  show reportSelect as[n]? tp = _
  rw [h]
  rfl

theorem reporting_none (h : as[n]? = none) (t : Timespec) :
    (k.reporting as).select n (some t) = (t.ns.toNat, .timedOut) := by
  show reportSelect as[n]? (some t) = _
  rw [h]
  rfl

theorem reporting_read (h : as[n]? = some a) : (k.reporting as).read n = .bytes a.frame := by
  show Received.bytes ((as[n]?.map Arrival.frame).getD []) = _
  rw [h]
  rfl

/-- Between two turns `n` frames have been read. -/
structure Reading (k : Kernel) (as : List Arrival) (w : World) (n : Nat) : Prop where
  kernel : w.kernel = k.reporting as
  ifindex : 0 ≤ w.ifindex
  selects : w.selects = n
  reads : w.reads = n
  mymac : w.mymac.length = ETH_ALEN

/-- A turn in which the next frame is read. -/
theorem Reading.turn (turns : Nat) (hr : Reading k as w n) (ha : as[n]? = some a)
    (hfull : ∀ n, k.full n = false) (hsize : 14 ≤ a.frame.length ∧ a.frame.length ≤ 1514)
    (hpos : 0 < l.timeout) (hc : Counted w l fs) (hfuel : fs.length < fuel) :
    ∃ l' w', (receiveLoop fuel (turns + 1) l).run w = (receiveLoop fuel turns l').run w' ∧
      l'.timeout = leftOver l.timeout a.wait ∧ Reading k as w' (n + 1) ∧
      Looped w w' l' (fs ++ [a.frame]) false := by
  have hsel : w.kernel.select w.selects (some (timespecmset l.timeout)) = (a.wait, .ready) := by
    rw [hr.kernel, hr.selects]
    exact reporting_ready ha _
  have hread : w.kernel.read w.reads = .bytes a.frame := by
    rw [hr.kernel, hr.reads]
    exact reporting_read ha
  obtain ⟨l', w', hrun, htimeout, hkernel, hindex, hselects, hreads, hl⟩ :=
    receiveLoop_frame turns hr.ifindex hr.mymac hsel hread hsize (by rw [hr.kernel]; exact hfull)
      hpos hc hfuel
  refine ⟨l', w', hrun, htimeout, ⟨?_, ?_, ?_, ?_, ?_⟩, hl⟩
  · rw [hkernel, hr.kernel]
  · rw [hindex]
    exact hr.ifindex
  · rw [hselects, hr.selects]
  · rw [hreads, hr.reads]
  · rw [hl.mymac]
    exact hr.mymac

/-- With nothing left of the budget, or no frame, the call times out. -/
theorem Reading.timedOut (hr : Reading k as w n) (hfuel : 0 < fuel)
    (h : l.timeout = 0 ∨ as[n]? = none) :
    ∃ c s, (grnvs_read fuel 1514 (some l.timeout)).run w =
      (.ok (0, some 0), { w with clock := c, selects := s }) := by
  by_cases hzero : l.timeout = 0
  · rw [hzero]
    exact ⟨w.clock, w.selects, grnvs_read_spent _ _ hr.ifindex⟩
  · obtain ⟨f, rfl⟩ : ∃ f, fuel = f + 1 := ⟨fuel - 1, by omega⟩
    have hnone : as[n]? = none := h.resolve_left hzero
    obtain ⟨c, hrun⟩ := grnvs_read_timedOut f 1514 hr.ifindex (Nat.pos_of_ne_zero hzero) (w := w)
      (by rw [hr.kernel, hr.selects]; exact reporting_none hnone _)
    exact ⟨c, w.selects + 1, hrun⟩

/-- The loop counts the frames that are read, but no more than it has turns. -/
theorem Reading.loop (turns : Nat) (hfull : ∀ n, k.full n = false)
    (hsize : ∀ a ∈ as, 14 ≤ a.frame.length ∧ a.frame.length ≤ 1514) (hr : Reading k as w n)
    (hrest : as.drop n = rest) (hc : Counted w l fs) (hfuel : fs.length + rest.length < fuel) :
    ∃ l' w', (receiveLoop fuel turns l).run w = (.ok l', w') ∧
      Looped w w' l' (fs ++ (rest.take
        (Nat.min turns (lasting l.timeout (waits rest)))).map Arrival.frame)
        (decide (lasting l.timeout (waits rest) < turns)) := by
  induction turns generalizing w l fs n rest with
  | zero =>
    have hzero : Nat.min 0 (lasting l.timeout (waits rest)) = 0 := Nat.zero_min _
    refine ⟨l, w, rfl, ⟨?_, rfl, rfl, (List.append_nil _).symm⟩⟩
    rw [hzero, List.take_zero, List.map_nil, List.append_nil]
    exact hc
  | succ turns ih =>
    by_cases hend : l.timeout = 0 ∨ rest = []
    · have h0 : lasting l.timeout (waits rest) = 0 := by
        rcases hend with h | h
        · rw [h, lasting_zero]
        · rw [h]
          rfl
      have hnone : l.timeout = 0 ∨ as[n]? = none := by
        refine hend.imp_right fun h => ?_
        rw [h] at hrest
        exact List.getElem?_eq_none_iff.mpr (List.drop_eq_nil_iff.mp hrest)
      obtain ⟨c, s, hrun⟩ := hr.timedOut (by omega : 0 < fuel) hnone
      exact receiveLoop_stops turns hc h0 hrun
    · obtain ⟨hzero, hne⟩ := not_or.mp hend
      obtain ⟨a, rest, rfl⟩ := List.exists_cons_of_ne_nil hne
      have ha : as[n]? = some a := by
        have h0 := congrArg (·[0]?) hrest
        rwa [List.getElem?_drop, Nat.add_zero] at h0
      have hdrop : as.drop (n + 1) = rest := by
        rw [← List.drop_drop, hrest]
        rfl
      rw [List.length_cons] at hfuel
      obtain ⟨l1, w1, hturn, htimeout, hr1, hl1⟩ := hr.turn turns ha hfull
        (hsize a (List.mem_of_getElem? ha)) (Nat.pos_of_ne_zero hzero) hc
        (by omega : fs.length < fuel)
      obtain ⟨l', w', hrun, hl'⟩ := ih hr1 hdrop hl1.counted
        (by rw [List.length_append, List.length_singleton]; omega)
      have hlasting : lasting l.timeout (waits (a :: rest)) =
          lasting l1.timeout (waits rest) + 1 := by
        rw [htimeout]
        exact lasting_cons (Nat.pos_of_ne_zero hzero) _ _
      refine ⟨l', w', hturn.trans hrun, ?_⟩
      rw [hlasting]
      exact hl1.after hl'

end Reporting

section Run

variable {fuel : Nat} {ifindex : Int}

/-- A run of ethstats ends with the summary of the frames that are read. -/
theorem assignment2_reporting (k : Kernel) (as : List Arrival) (hmac : k.hwaddr.length = ETH_ALEN)
    (hfull : ∀ n, k.full n = false)
    (hsize : ∀ a ∈ as, 14 ≤ a.frame.length ∧ a.frame.length ≤ 1514) (hopen : 0 ≤ ifindex)
    (clock : Nat) (recbuffer mymac : List Byte) (frames : Int) (hfuel : as.length < fuel) :
    ∃ es w', (assignment2 fuel frames).run
        (start (k.reporting as) ifindex clock recbuffer mymac) = (.ok (), w') ∧
      Summarised k.hwaddr (reported frames as) (decide (readable as < frames.toNat)) es w' := by
  have hr : Reading k as (started (k.reporting as) ifindex clock recbuffer mymac) 0 :=
    ⟨rfl, hopen, rfl, rfl, hmac⟩
  obtain ⟨l, w1, hloop, hl⟩ := hr.loop frames.toNat hfull hsize List.drop_zero
    (started_counted _ _ _ _ _) (by rw [List.length_nil, Nat.zero_add]; exact hfuel)
  refine assignment2_of_loop (k := k.reporting as) hmac hopen hloop hl ?_
  rw [reported, List.length_map, List.length_take]
  omega

end Run

end Grnvs.Stats
