/-
  How long ethstats waits.

  Every call of `grnvs_read` writes the budget back in whole milliseconds, so a wait is charged as
  if it had been rounded up. A frame is waited for while something is left, and ethstats gets all
  its frames in time exactly when the rounded waits fit (`assignment2_inTime`). Ten seconds of
  waiting are therefore not granted in general (`budget_lost`).
-/
import Grnvs.Stats.Summary

namespace Grnvs.Stats

open Bytes

/-- The milliseconds a wait takes from the budget. -/
def charge (e : Nat) : Nat := (e + 999999) / 1000000

/-- What the first `n` waits take from the budget. -/
def spent (es : List Nat) (n : Nat) : Nat := ((es.take n).map charge).sum

theorem spent_succ (e n : Nat) (es : List Nat) :
    spent (e :: es) (n + 1) = charge e + spent es n := by
  rw [spent, List.take_succ_cons, List.map_cons, List.sum_cons]
  rfl

/-- The frames that come in time are those whose charges fit, with something left before the last
    one. -/
theorem lt_delivered {n T : Nat} {es : List Nat} (hn : n < es.length) :
    n < delivered T es ↔ spent es (n + 1) ≤ T ∧ spent es n < T := by
  induction n generalizing T es with
  | zero =>
    cases es with
    | nil => cases hn
    | cons e es =>
      have h0 : spent (e :: es) 0 = 0 := rfl
      have h1 : spent es 0 = 0 := rfl
      rw [spent_succ, h0, h1, delivered, charge]
      by_cases hstop : T = 0 ∨ T * 1000000 < e
      · rw [if_pos hstop]
        omega
      · rw [if_neg hstop]
        omega
  | succ n ih =>
    cases es with
    | nil => cases hn
    | cons e es =>
      have ih' := ih (T := (T * 1000000 - e) / 1000000) (Nat.lt_of_succ_lt_succ hn)
      rw [spent_succ, spent_succ, delivered, charge]
      by_cases hstop : T = 0 ∨ T * 1000000 < e
      · rw [if_pos hstop]
        omega
      · rw [if_neg hstop, Nat.add_lt_add_iff_right, ih']
        omega

/-- A wait takes at least a millisecond from the budget. -/
theorem delivered_le {T : Nat} {es : List Nat} (h : ∀ e ∈ es, 0 < e) : delivered T es ≤ T := by
  induction es generalizing T with
  | nil => exact Nat.zero_le _
  | cons e es ih =>
    have hpos : 0 < e := h e (List.mem_cons_self ..)
    have hrest : ∀ e ∈ es, 0 < e := fun e he => h e (List.mem_cons_of_mem _ he)
    rw [delivered]
    by_cases hstop : T = 0 ∨ T * 1000000 < e
    · rw [if_pos hstop]
      exact Nat.zero_le _
    · rw [if_neg hstop]
      have hle := ih (T := (T * 1000000 - e) / 1000000) hrest
      omega

/-- The waits for the frames. -/
def waits (as : List Arrival) : List Nat := as.map Arrival.wait

/-- All of the first `n` frames come in time. -/
theorem le_receivable {n : Nat} {as : List Arrival} (hn : n ≤ as.length) :
    n ≤ receivable as ↔ spent (waits as) n ≤ 10000 ∧ spent (waits as) (n - 1) < 10000 := by
  cases n with
  | zero =>
    have h0 : spent (waits as) 0 = 0 := rfl
    rw [Nat.zero_sub, h0]
    exact ⟨fun _ => ⟨by decide, by decide⟩, fun _ => Nat.zero_le _⟩
  | succ n =>
    have hlt : n < (waits as).length := by
      rw [waits, List.length_map]
      exact hn
    exact lt_delivered hlt

/-- Every line of a summary goes to the standard output. -/
theorem timedOutLine_not_mem_summary (mac : List Byte) (fs : List (List Byte)) (es : List Entry) :
    timedOutLine ∉ summary mac fs es := by
  intro h
  rw [summary, List.mem_append] at h
  rcases h with h | h
  · obtain ⟨e, -, he⟩ := List.mem_map.mp h
    cases he
  · rw [List.mem_cons, List.mem_cons, List.mem_singleton] at h
    rcases h with h | h | h
    · cases h
    · cases h
    · cases h

/-- The timeout is reported when a frame is missing. -/
theorem Summarised.timedOut {mac : List Byte} {fs : List (List Byte)} {b : Bool}
    {es : List Entry} {w : World} (h : Summarised mac fs b es w) :
    timedOutLine ∈ w.out ↔ b = true := by
  have hready : timedOutLine ≠ .stdout "I am ready!\n" := by
    intro he
    cases he
  rw [h.out, List.mem_append, List.mem_cons]
  cases b with
  | true => exact ⟨fun _ => rfl, fun _ => .inl (.inr (List.mem_singleton.mpr rfl))⟩
  | false =>
    constructor
    · intro hm
      rcases hm with (hm | hm) | hm
      · exact absurd hm hready
      · cases hm
      · exact absurd hm (timedOutLine_not_mem_summary _ _ _)
    · intro hb
      cases hb

/-- No call of `grnvs_read` returns 0, which would be reported, and the summary is about the first
    `NUM` frames, exactly when these frames come within the budget as it is charged. -/
theorem assignment2_inTime (k : Kernel) (hmac : k.hwaddr.length = ETH_ALEN)
    (hfull : ∀ n, k.full n = false) (ifindex : Int) (hopen : 0 ≤ ifindex) (clock : Nat)
    (recbuffer mymac : List Byte) (frames : Int) (as : List Arrival)
    (hsize : ∀ a ∈ as, 14 ≤ a.frame.length ∧ a.frame.length ≤ 1514)
    (hmany : frames.toNat ≤ as.length) (fuel : Nat) (hfuel : as.length < fuel) :
    (∃ (es : List Entry) (w' : World), (assignment2 fuel frames).run
        (start (k.arriving as) ifindex clock recbuffer mymac) = (.ok (), w') ∧
      timedOutLine ∉ w'.out ∧ Counts ((as.take frames.toNat).map Arrival.frame) es ∧
      summary k.hwaddr ((as.take frames.toNat).map Arrival.frame) es <:+ w'.out) ↔
    spent (waits as) frames.toNat ≤ 10000 ∧ spent (waits as) (frames.toNat - 1) < 10000 := by
  obtain ⟨es, w', hrun, h⟩ :=
    assignment2_run k as hmac hfull hsize hopen clock recbuffer mymac frames hfuel
  rw [← le_receivable hmany]
  constructor
  · intro hall
    obtain ⟨es', w'', hrun', hnot, -, -⟩ := hall
    obtain rfl : w' = w'' := congrArg Prod.snd (hrun.symm.trans hrun')
    by_contra hlt
    exact hnot (h.timedOut.mpr (decide_eq_true (by omega)))
  · intro hle
    have hmin : Nat.min frames.toNat (receivable as) = frames.toNat := Nat.min_eq_left hle
    have hall : counted frames as = (as.take frames.toNat).map Arrival.frame := by
      rw [counted, hmin]
    refine ⟨es, w', hrun, ?_, hall ▸ h.counts, ?_⟩
    · intro hm
      have hlt := of_decide_eq_true (h.timedOut.mp hm)
      omega
    · rw [h.out, hall]
      exact List.suffix_append _ _

theorem assignment2_inTime_demo :
    (∃ (es : List Entry) (w' : World), (assignment2 9 3).run
        (start (kernelDemo.arriving arrivalsDemo) 0 0 [] []) = (.ok (), w') ∧
      timedOutLine ∉ w'.out ∧ Counts ((arrivalsDemo.take (Int.toNat 3)).map Arrival.frame) es ∧
      summary kernelDemo.hwaddr ((arrivalsDemo.take (Int.toNat 3)).map Arrival.frame) es <:+ w'.out) ↔
    spent (waits arrivalsDemo) (Int.toNat 3) ≤ 10000 ∧
      spent (waits arrivalsDemo) (Int.toNat 3 - 1) < 10000 :=
  assignment2_inTime kernelDemo rfl (fun _ => rfl) 0 (by decide) 0 [] [] 3 arrivalsDemo
    arrivalsDemo_size (by decide) 9 (by decide)

/-- A frame that is waited for for a little more than 9999 ms, and one that is there at once. -/
def arrivalsLate : List Arrival := [⟨9999000001, frameDemo 6⟩, ⟨0, frameDemo 6⟩]

/-- Both frames come within less than ten seconds of waiting, and the second call returns 0. -/
theorem budget_lost : (waits arrivalsLate).sum < 10000000000 ∧
    ∃ w', (assignment2 9 2).run
      (start (kernelDemo.arriving arrivalsLate) 0 0 [] []) = (.ok (), w') ∧
      timedOutLine ∈ w'.out := by
  refine ⟨by decide, ?_⟩
  obtain ⟨es, w', hrun, h⟩ := assignment2_run kernelDemo arrivalsLate rfl
    (fun _ => rfl) (by decide) (by decide : (0 : Int) ≤ 0) 0 [] [] 2 (by decide : 2 < 9)
  exact ⟨w', hrun, h.timedOut.mpr (by decide)⟩

end Grnvs.Stats
