/-
  The memory of ethstats under any system.

  What has been said of the list so far is about systems that deliver frames. Here the system
  answers whatever it likes: calls are interrupted, a frame is too short, the length that comes back
  is any number. The list is still one, with each type once, and its byte counters add up to the
  total (`Balanced`); every turn of the receive loop keeps that. So a run that returns has printed
  ascending types, has freed every block once, and leaves none behind; and the only access to memory
  that is not there is the one to a block that `malloc` did not have (`assignment2_balanced`). What
  `grnvs_read` finds in a `len` it has never assigned, when its first wait is interrupted, is any
  number here (`Kernel.len`); C leaves that test undefined.
-/
import Grnvs.Stats.Elapsed
import Grnvs.Stats.Summary

namespace Grnvs.Stats

open Bytes Linked

/-! ## Reading leaves the list alone -/

/-- Memory and system are what they were, and nothing has been printed. -/
structure Kept (w w' : World) : Prop where
  heap : w'.heap = w.heap
  mallocs : w'.mallocs = w.mallocs
  freed : w'.freed = w.freed
  kernel : w'.kernel = w.kernel
  out : w'.out = w.out

section Kept

variable {w w' w'' : World} {p : Link} {es : List Entry}

theorem Kept.refl (w : World) : Kept w w := ⟨rfl, rfl, rfl, rfl, rfl⟩

theorem Kept.trans (h : Kept w w') (h' : Kept w' w'') : Kept w w'' :=
  ⟨h'.heap.trans h.heap, h'.mallocs.trans h.mallocs, h'.freed.trans h.freed,
    h'.kernel.trans h.kernel, h'.out.trans h.out⟩

theorem Kept.stored (h : Kept w w') (hs : Stored w p es) : Stored w' p es := by
  obtain ⟨xs, howns, haddr, hes⟩ := hs
  refine ⟨xs, ?_, ?_, hes⟩
  · rw [h.heap]
    exact howns
  · rw [h.mallocs]
    exact haddr

theorem kept_waited (w : World) (e : Nat) : Kept w (w.waited e) := ⟨rfl, rfl, rfl, rfl, rfl⟩

theorem kept_tried (w : World) : Kept w w.tried := ⟨rfl, rfl, rfl, rfl, rfl⟩

theorem kept_took (w : World) (bs : List Byte) : Kept w (w.took bs) := ⟨rfl, rfl, rfl, rfl, rfl⟩

end Kept

section Read

variable {maxlen fuel : Nat} {w : World} {len : Int} {t : Timespec}

/-- A loop that has a timeout is never without a meaning. -/
theorem readLoop_kept : Comp.Closes (fun _ w' => Kept w w') (fun e _ => e ≠ .undefined)
    ((readLoop maxlen fuel (some t) len).run w) := by
  induction fuel generalizing w len t with
  | zero => exact Stop.noConfusion
  | succ fuel ih =>
    rcases hsel : w.kernel.select w.selects (some t) with ⟨e, ret⟩
    have hagain : ∀ {w' : World} (len : Int), Kept w w' →
        Comp.Closes (fun _ w' => Kept w w') (fun e _ => e ≠ .undefined)
          ((readLoop maxlen fuel (w.left (some t) e) len).run w') := fun len hw =>
      Comp.Closes.mono ih (fun _ _ h => hw.trans h) fun _ _ h => h
    cases ret with
    | blocked =>
      rw [readLoop, Comp.bind_error (waitFor_blocked hsel)]
      exact Stop.noConfusion
    | timedOut =>
      rw [readLoop, Comp.bind_ok (waitFor_eq hsel (by decide))]
      exact kept_waited w e
    | failed n =>
      rw [readLoop_failed hsel]
      by_cases hn : n = .eintr
      · rw [if_pos hn]
        by_cases hlen : 0 > len
        · rw [if_pos hlen]
          exact hagain len (kept_waited w e)
        · rw [if_neg hlen]
          exact kept_waited w e
      · rw [if_neg hn]
        exact Stop.noConfusion
    | ready =>
      rw [readLoop_ready hsel]
      rcases hread : w.kernel.read w.reads with bs | n
      · rw [Comp.bind_ok (read_took e hread)]
        exact (kept_waited w e).trans (kept_took _ _)
      · rw [Comp.bind_ok (read_tried e hread)]
        dsimp only
        by_cases hn : n = .eintr
        · rw [if_pos hn]
          exact hagain (-1) ((kept_waited w e).trans (kept_tried _))
        · rw [if_neg hn]
          exact Stop.noConfusion

theorem grnvs_read_kept (T : Nat) : Comp.Closes (fun _ w' => Kept w w') (fun e _ => e ≠ .undefined)
    ((grnvs_read fuel maxlen (some T)).run w) := by
  by_cases hclosed : w.ifindex < 0
  · rw [grnvs_read_closed hclosed]
    exact Stop.noConfusion
  · have hopen : 0 ≤ w.ifindex := by omega
    by_cases hT : (some T : Option Nat) = some 0
    · rw [hT, grnvs_read_spent fuel maxlen hopen]
      exact Kept.refl w
    · rw [grnvs_read_open hopen hT]
      exact readLoop_kept

end Read

/-! ## Entries with each type once -/

section Tally

variable {t n : Nat} {es : List Entry}

theorem tally_types (t n : Nat) (es : List Entry) :
    (tally t n es).map Entry.ethType =
      if t ∈ es.map Entry.ethType then es.map Entry.ethType else es.map Entry.ethType ++ [t] := by
  induction es with
  | nil => rfl
  | cons e es ih =>
    rw [tally, List.map_cons, List.cons_append]
    by_cases he : e.ethType = t
    · rw [if_pos he, if_pos (List.mem_cons.mpr (.inl he.symm)), List.map_cons, he]
    · have hmem : t ∈ e.ethType :: es.map Entry.ethType ↔ t ∈ es.map Entry.ethType := by
        rw [List.mem_cons, or_iff_right (Ne.symm he)]
      rw [if_neg he, List.map_cons, ih]
      by_cases ht : t ∈ es.map Entry.ethType
      · rw [if_pos ht, if_pos (hmem.mpr ht)]
      · rw [if_neg ht, if_neg fun h => ht (hmem.mp h)]

theorem tally_nodup (h : (es.map Entry.ethType).Nodup) (t n : Nat) :
    ((tally t n es).map Entry.ethType).Nodup := by
  rw [tally_types]
  by_cases ht : t ∈ es.map Entry.ethType
  · rw [if_pos ht]
    exact h
  · rw [if_neg ht]
    exact List.nodup_append.mpr ⟨h, List.nodup_singleton t, fun a ha b hb => by
      rintro rfl
      exact ht (List.mem_singleton.mp hb ▸ ha)⟩

/-- There is at most one entry more. -/
theorem tally_length (t n : Nat) (es : List Entry) : (tally t n es).length ≤ es.length + 1 := by
  have hlen := congrArg List.length (tally_types t n es)
  rw [List.length_map] at hlen
  rw [hlen]
  by_cases ht : t ∈ es.map Entry.ethType
  · rw [if_pos ht, List.length_map]
    omega
  · rw [if_neg ht, List.length_append, List.length_map, List.length_singleton]

theorem tally_bytes (t n : Nat) (es : List Entry) :
    u32 ((tally t n es).map Entry.bytes).sum = u32 ((es.map Entry.bytes).sum + n) := by
  induction es with
  | nil =>
    show u32 (u32 n + 0) = u32 (0 + n)
    rw [u32_add, Nat.add_comm]
  | cons e es ih =>
    rw [tally]
    by_cases he : e.ethType = t
    · rw [if_pos he, List.map_cons, List.map_cons, List.sum_cons, List.sum_cons, u32_add]
      congr 1
      omega
    · rw [if_neg he, List.map_cons, List.map_cons, List.sum_cons, List.sum_cons, Nat.add_comm,
        ← u32_add, ih, u32_add]
      congr 1
      omega

end Tally

/-! ## The invariant of the receive loop -/

/-- The heap holds the list and nothing else, with each type once, and the bytes of its entries are
    the bytes that have been received. -/
structure Balanced (w : World) (l : Locals) (es : List Entry) : Prop where
  stored : Stored w l.infoList es
  nodup : (es.map Entry.ethType).Nodup
  total : l.totalByte = u32 (es.map Entry.bytes).sum

/-- A block that `malloc` did not have. -/
def OutOfMemory (w : World) : Prop := ∃ n, n < w.mallocs ∧ w.kernel.full n = true

section Loop

variable {fuel : Nat} {w : World} {l : Locals} {es : List Entry} {p : Link}

/-- An entry that is there takes no new block. -/
theorem countType_present {t : Nat} (ret : Nat) {as bs : List Entry} {e : Entry}
    (hs : Stored w p (as ++ e :: bs)) (has : ∀ a ∈ as, a.ethType ≠ t) (he : e.ethType = t)
    (hfuel : as.length < fuel) :
    ∃ h', (countType fuel t ret p).run w = (.ok p, { w with heap := h' }) ∧
      Stored { w with heap := h' } p (tally t ret (as ++ e :: bs)) := by
  obtain ⟨xs, howns, haddr, hxs⟩ := hs
  obtain ⟨xas, xbs', rfl, rfl, hrest⟩ := List.map_eq_append_iff.mp hxs
  obtain ⟨⟨a, v⟩, xbs, rfl, rfl, rfl⟩ := List.map_eq_cons_iff.mp hrest
  have hother : ∀ x ∈ xas, x.2.ethType ≠ t := fun x hx => has x.2 (List.mem_map_of_mem hx)
  obtain ⟨n, hn, hv, -⟩ := howns.split
  rw [List.length_map] at hfuel
  refine ⟨Function.update w.heap a (some { n with
    frameCounter := u32 (n.frameCounter + 1)
    byteCounter := u32 (n.byteCounter + ret) }), ?_, _, howns.set hn rfl, ?_, ?_⟩
  · rw [countType, Comp.bind_ok (getInfoByType_present howns.chain hother he hfuel)]
    dsimp only
    rw [Comp.bind_ok (assign_run hn _), Comp.bind_ok (assign_run (Function.update_self ..) _),
      Function.update_idem]
    rfl
  · rw [← haddr, List.map_append, List.map_append, List.map_cons, List.map_cons]
  · have hne : ∀ e ∈ xas.map Prod.snd, e.ethType ≠ t := has
    rw [List.map_append, List.map_cons, tally_present hne he, ← hv, ← he, ← hv]
    rfl

/-- A new entry that does not fit is written through a null pointer. -/
theorem countType_full {t ret : Nat} (hs : Stored w p es) (hno : ∀ e ∈ es, e.ethType ≠ t)
    (hfull : w.kernel.full w.mallocs = true) (hfuel : es.length < fuel) :
    (countType fuel t ret p).run w =
      (.error .undefined, { w with mallocs := w.mallocs + 1 }) := by
  obtain ⟨xs, howns, -, rfl⟩ := hs
  have habsent : ∀ x ∈ xs, x.2.ethType ≠ t := fun x hx => hno x.2 (List.mem_map_of_mem hx)
  have hmalloc : malloc.run w = (.ok none, { w with mallocs := w.mallocs + 1 }) := by
    rw [malloc, Comp.gets_bind, Comp.gets_bind, Comp.modify_bind, hfull]
    rfl
  have hnew : (newInfo t).run w = (.ok none, { w with mallocs := w.mallocs + 1 }) := by
    rw [newInfo, Comp.bind_ok hmalloc, Comp.when_neg (not_not.mpr rfl)]
    rfl
  rw [List.length_map] at hfuel
  rw [countType, Comp.bind_ok (getInfoByType_absent howns.chain habsent hfuel)]
  dsimp only
  rw [Comp.bind_ok hnew]
  rfl

/-- The entry of a type is found or made, unless there is no block for it. -/
theorem countType_closes (t ret : Nat) (hs : Stored w p es) (hfuel : es.length < fuel) :
    Comp.Closes (fun p' w' => Stored w' p' (tally t ret es) ∧ w'.freed = w.freed ∧ w'.out = w.out)
      (fun e w' => e = .undefined → OutOfMemory w') ((countType fuel t ret p).run w) := by
  rcases absent_or_present Entry.ethType t es with hno | ⟨as, e, bs, rfl, has, he⟩
  · cases hfull : w.kernel.full w.mallocs with
    | false =>
      obtain ⟨p', h', m', hrun, hs'⟩ := countType_run t ret hs hfull hfuel
      rw [hrun]
      exact ⟨hs', rfl, rfl⟩
    | true =>
      rw [countType_full hs hno hfull hfuel]
      exact fun _ => ⟨w.mallocs, Nat.lt_succ_self _, hfull⟩
  · rw [List.length_append] at hfuel
    obtain ⟨h', hrun, hs'⟩ := countType_present ret hs has he (by omega : as.length < fuel)
    rw [hrun]
    exact ⟨hs', rfl, rfl⟩

/-- A turn that has got something, of whatever length. -/
theorem countFrame_closes (ret : Nat) (h : Balanced w l es) (hfuel : es.length < fuel) :
    Comp.Closes (fun l' w' => (∃ t, Balanced w' l' (tally t ret es)) ∧ w'.freed = w.freed ∧
        w'.out = w.out)
      (fun e w' => e = .undefined → OutOfMemory w') ((countFrame fuel ret l).run w) := by
  rw [countFrame, Comp.gets_bind, Comp.gets_bind]
  refine Comp.closes_bind (countType_closes _ ret h.stored hfuel) fun p' w' _ hw => ?_
  obtain ⟨hstored, hfreed, hout⟩ := hw
  refine ⟨⟨_, hstored, tally_nodup h.nodup _ _, ?_⟩, hfreed, hout⟩
  show u32 (l.totalByte + ret) = _
  rw [h.total, u32_add, tally_bytes]

/-- What the receive loop has done after at most `turns` turns. -/
structure Booked (w w' : World) (l' : Locals) (es es' : List Entry) (turns : Nat) : Prop where
  balanced : Balanced w' l' es'
  length : es'.length ≤ es.length + turns
  freed : w'.freed = w.freed
  out : ∃ timedOut : Bool, w'.out = w.out ++ if timedOut then [timedOutLine] else []

theorem receiveLoop_closes (turns : Nat) (h : Balanced w l es) (hfuel : es.length + turns < fuel) :
    Comp.Closes (fun l' w' => ∃ es', Booked w w' l' es es' turns)
      (fun e w' => e = .undefined → OutOfMemory w') ((receiveLoop fuel turns l).run w) := by
  induction turns generalizing w l es with
  | zero => exact ⟨es, h, Nat.le_refl _, rfl, false, (List.append_nil _).symm⟩
  | succ turns ih =>
    rw [receiveLoop]
    have hread : Comp.Closes (fun _ w' => Kept w w') (fun e w' => e = .undefined → OutOfMemory w')
        ((grnvs_read fuel 1514 (some l.timeout)).run w) :=
      (grnvs_read_kept l.timeout).mono (fun _ _ h => h) fun _ _ hne h => absurd h hne
    refine Comp.closes_bind hread fun r w₁ _ hkept => ?_
    obtain ⟨len, timeout⟩ := r
    have hbalanced : Balanced w₁ { l with timeout := timeout.getD 0 } es :=
      ⟨hkept.stored h.stored, h.nodup, h.total⟩
    dsimp only
    by_cases hret : (len % 18446744073709551616).toNat = 0
    · rw [if_pos hret]
      have hprinted : Balanced (w₁.printed timedOutLine) { l with timeout := timeout.getD 0 } es :=
        ⟨hbalanced.stored, hbalanced.nodup, hbalanced.total⟩
      refine ⟨es, hprinted, by omega, hkept.freed, true, ?_⟩
      exact congrArg (· ++ [timedOutLine]) hkept.out
    · rw [if_neg hret]
      refine Comp.closes_bind (countFrame_closes _ hbalanced (by omega)) fun l₂ w₂ _ hcount => ?_
      obtain ⟨⟨t, h₂⟩, hfreed, hout⟩ := hcount
      have hlen := tally_length t (len % 18446744073709551616).toNat es
      refine Comp.Closes.mono (ih h₂ (by omega)) (fun l₃ w₃ hrest => ?_) fun _ _ h => h
      obtain ⟨es', hbal, hlen', hfreed', timedOut, hout'⟩ := hrest
      refine ⟨es', hbal, by omega, hfreed'.trans (hfreed.trans hkept.freed), timedOut, ?_⟩
      rw [hout', hout, hkept.out]

end Loop

/-! ## The whole program -/

/-- What a run that returns has printed, and what it leaves of the memory. -/
structure Closed (w w' : World) (n : Nat) : Prop where
  heap : w'.heap = fun _ => none
  freed : w'.freed.Perm (List.range w'.mallocs)
  out : ∃ (es : List Entry) (timedOut : Bool) (mine multicasts : Nat), es.length ≤ n ∧
    (es.map Entry.ethType).Pairwise (· < ·) ∧
    w'.out = w.out ++ .stdout "I am ready!\n" :: (if timedOut then [timedOutLine] else []) ++
      es.map line ++ [.stdout (signed mine ++ " of them were for me\n"),
        .stdout (signed multicasts ++ " of them were multicast\n"),
        .rate (u32 (es.map Entry.bytes).sum)]

section Run

variable {fuel : Nat} {w : World}

/-- Whatever the system answers: no memory is touched that is not there but a block that `malloc` did
    not have, and a run that returns has printed each type once, in ascending order, with bytes that
    add up to the total, and has freed every block once and left none. -/
theorem assignment2_balanced (hopen : 0 ≤ w.ifindex) (hheap : w.heap = fun _ => none)
    (hmallocs : w.mallocs = 0) (hfreed : w.freed = []) (frames : Int)
    (hfuel : frames.toNat < fuel) :
    Comp.Closes (fun _ w' => Closed w w' frames.toNat)
      (fun e w' => e = .undefined → OutOfMemory w') ((assignment2 fuel frames).run w) := by
  have hstart : Balanced { w with
      mymac := w.kernel.hwaddr.take ETH_ALEN, out := w.out ++ [.stdout "I am ready!\n"] }
      ⟨10000, 0, 0, none, 0⟩ [] := by
    refine ⟨⟨[], ?_, ?_, rfl⟩, List.nodup_nil, rfl⟩
    · rw [show World.heap _ = w.heap from rfl, hheap]
      exact owns_nil
    · exact (congrArg List.range hmallocs).symm
  rw [assignment2, grnvs_get_hwaddr, Comp.gets_bind, if_neg (by omega)]
  dsimp only
  rw [Comp.modify_bind, print, Comp.modify_bind]
  refine Comp.closes_bind (receiveLoop_closes frames.toNat hstart (by simpa using hfuel))
    fun l w₁ _ hbooked => ?_
  obtain ⟨es, hbal, hlen, hfreed₁, timedOut, hout⟩ := hbooked
  obtain ⟨xs, howns, haddr, hes⟩ := hbal.stored
  have hxs : xs.length = es.length := by rw [← hes, List.length_map]
  have hnd : (xs.map fun x => x.2.ethType).Nodup := by
    have h := hbal.nodup
    rwa [← hes, List.map_map] at h
  rw [List.length_nil, Nat.zero_add] at hlen
  obtain ⟨ys, hys, hprint⟩ := summaryLoop_run howns hnd (by omega : xs.length < fuel)
    (by omega : xs.length < fuel)
  have hperm : (ys.map Prod.snd).Perm es := hes ▸ hys.perm.map _
  rw [Comp.bind_ok hprint]
  refine ⟨rfl, ?_, ys.map Prod.snd, timedOut, l.myFrames, l.multiCastFrames, ?_, ?_, ?_⟩
  · show (w₁.freed ++ ys.map Prod.fst).Perm (List.range w₁.mallocs)
    rw [hfreed₁, ← haddr]
    show (w.freed ++ ys.map Prod.fst).Perm _
    rw [hfreed]
    exact hys.perm.map _
  · rw [hperm.length_eq]
    exact hlen
  · rw [List.map_map, List.pairwise_map]
    exact hys.strict hnd
  · have htotal : l.totalByte = u32 ((ys.map Prod.snd).map Entry.bytes).sum := by
      rw [hbal.total, (hperm.map Entry.bytes).sum_eq]
    show (((w₁.out ++ ys.map fun x => line x.2) ++
      [.stdout (signed l.myFrames ++ " of them were for me\n")]) ++
      [.stdout (signed l.multiCastFrames ++ " of them were multicast\n")]) ++
      [.rate l.totalByte] = _
    rw [htotal, hout, List.map_map]
    simp [line]

end Run

/-- A read is interrupted, and then come three frames that are shorter than a header. -/
theorem assignment2_balanced_retry : ∃ w',
    (assignment2 9 3).run (opened kernelRetry) = (.ok (), w') ∧
      Closed (opened kernelRetry) w' 3 := by
  have hcloses := assignment2_balanced (w := opened kernelRetry) (by decide) rfl rfl rfl 3
    (by decide : _ < 9)
  have hrun : (assignment2 9 3).run (opened kernelRetry) =
      (.ok (), ((assignment2 9 3).run (opened kernelRetry)).2) := Prod.ext (by decide +kernel) rfl
  exact ⟨_, hrun, hcloses.ok hrun⟩

end Grnvs.Stats
