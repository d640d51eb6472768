/-
  The receive loop of ethstats.

  `Kernel.arriving k as` delivers the frames of `as` one after the other, each after its wait, and
  then no more. The waits stand for any arrival times and any time the client takes in between.
  `delivered` says how many of them come before a call of `grnvs_read` returns 0.
  `receiveLoop_run` is the loop: it counts `min turns (delivered ..)` frames, and after them the
  list, the counters and the total are an account of these frames (`Counted`).
-/
import Grnvs.Stats.Infos

namespace Grnvs.Stats

open Bytes Linked

/-! ## A frame -/

/-- The lowest bit of the first byte is set. -/
def multicast (f : List Byte) : Prop := (f.getD 0 0).toNat % 2 = 1

instance (f : List Byte) : Decidable (multicast f) := inferInstanceAs (Decidable (_ = _))

/-- The destination of a frame. -/
def destination (f : List Byte) : List Byte := f.take ETH_ALEN

section Frame

variable {f rest buf : List Byte}

theorem getType_frame (h : 14 ≤ f.length) : u16 (getType (f ++ rest)) = frameType f := by
  have hget : ∀ i, i < 2 →
      (((f ++ rest).drop (2 * ETH_ALEN)).take 2).getD i 0 = f.getD (12 + i) 0 := by
    intro i hi
    rw [List.getD_eq_getElem?_getD, List.getElem?_take, if_pos hi, List.getElem?_drop,
      List.getElem?_append_left (by rw [ETH_ALEN]; omega), List.getD_eq_getElem?_getD]
    rfl
  have hhigh : (((f ++ rest).drop (2 * ETH_ALEN)).take 2).getD 0 0 = f.getD 12 0 :=
    hget 0 (by decide)
  have hlow : (((f ++ rest).drop (2 * ETH_ALEN)).take 2).getD 1 0 = f.getD 13 0 :=
    hget 1 (by decide)
  have h0 := (f.getD 12 0).toNat_lt
  have h1 := (f.getD 13 0).toNat_lt
  rw [getType, hhigh, hlow, Nat.shiftLeft_eq, frameType, u16]
  omega

theorem getMac_frame (h : 14 ≤ f.length) : getMac (f ++ rest) 0 = destination f := by
  rw [getMac, List.drop_zero, List.take_append_of_le_length (by rw [ETH_ALEN]; omega)]
  rfl

theorem isMulticast_frame (f : List Byte) :
    isMulticast ((destination f).getD 0 0) ≠ 0 ↔ multicast f := by
  have hfirst : (destination f).getD 0 0 = f.getD 0 0 := by
    rw [destination, List.getD_eq_getElem?_getD, List.getElem?_take, if_pos (by decide),
      List.getD_eq_getElem?_getD]
  have hbit : f.getD 0 0 &&& 1 ≠ 0 ↔ (f.getD 0 0).toNat % 2 = 1 := by
    rw [Ne, ← UInt8.toNat_inj, UInt8.toNat_and]
    change ¬ (f.getD 0 0).toNat &&& 1 = 0 ↔ _
    rw [Nat.and_one_is_mod]
    omega
  rw [hfirst, isMulticast, multicast, ← hbit]
  by_cases hb : f.getD 0 0 &&& 1 ≠ 0
  · rw [if_pos hb]
    exact ⟨fun _ => hb, fun _ => Nat.one_ne_zero⟩
  · rw [if_neg hb]
    exact ⟨fun h => absurd rfl h, fun h => absurd h hb⟩

theorem macsEqual_iff {x y : List Byte} (hx : x.length = ETH_ALEN) (hy : y.length = ETH_ALEN) :
    macsEqual x y ≠ 0 ↔ x = y := by
  have hall : ((List.range ETH_ALEN).all fun i => x.getD i 0 == y.getD i 0) = true ↔ x = y := by
    rw [List.all_eq_true]
    constructor
    · intro h
      apply List.ext_getElem (hx.trans hy.symm)
      intro i h1 h2
      have hi := h i (List.mem_range.mpr (hx ▸ h1))
      rw [beq_iff_eq, List.getD_eq_getElem?_getD, List.getD_eq_getElem?_getD,
        List.getElem?_eq_getElem h1, List.getElem?_eq_getElem h2] at hi
      exact hi
    · rintro rfl i -
      exact beq_self_eq_true _
  rw [macsEqual, ← hall]
  by_cases hb : ((List.range ETH_ALEN).all fun i => x.getD i 0 == y.getD i 0) = true
  · rw [if_pos hb]
    exact ⟨fun _ => hb, fun _ => Nat.one_ne_zero⟩
  · rw [if_neg hb]
    exact ⟨fun h => absurd rfl h, fun h => absurd h hb⟩

end Frame

/-! ## The account of the client -/

/-- The frames whose destination is `mac`. -/
def forMe (mac : List Byte) (fs : List (List Byte)) : List (List Byte) :=
  fs.filter (destination · = mac)

/-- The variables and the heap are an account of the frames `fs`. -/
structure Counted (w : World) (l : Locals) (fs : List (List Byte)) : Prop where
  stored : ∃ es, Stored w l.infoList es ∧ Counts fs es
  mine : l.myFrames = u32 (forMe w.mymac fs).length
  multicasts : l.multiCastFrames = u32 (fs.filter multicast).length
  total : l.totalByte = u32 (volume fs)

/-- There are not more types than frames. -/
theorem Counts.length_le {fs : List (List Byte)} {es : List Entry} (h : Counts fs es) :
    es.length ≤ fs.length := by
  have hsub : es.map Entry.ethType ⊆ fs.map frameType := fun t ht => (h.types t).mp ht
  have hle := (List.subperm_of_subset h.nodup hsub).length_le
  rwa [List.length_map, List.length_map] at hle

/-- A counter that goes up when a condition holds counts the elements that meet it. -/
theorem count_snoc {p : List Byte → Prop} [DecidablePred p] {q : Prop} [Decidable q]
    {fs : List (List Byte)} {f : List Byte} {n : Nat} (hq : q ↔ p f)
    (hn : n = u32 (fs.filter p).length) :
    (if q then u32 (n + 1) else n) = u32 ((fs ++ [f]).filter p).length := by
  rw [List.filter_append, List.length_append]
  by_cases h : q
  · have hone : [f].filter (fun f => decide (p f)) = [f] := by
      exact List.filter_cons_of_pos (decide_eq_true (hq.mp h))
    rw [if_pos h, hone, hn, u32_add]
    rfl
  · have hnone : [f].filter (fun f => decide (p f)) = [] := by
      apply List.filter_cons_of_neg
      rw [decide_eq_true_eq]
      exact fun hp => h (hq.mpr hp)
    rw [if_neg h, hnone, hn]
    rfl

section Count

variable {w : World} {l : Locals} {fs : List (List Byte)} {f rest : List Byte} {fuel : Nat}

/-- A frame in the buffer is counted. -/
theorem countFrame_run (hc : Counted w l fs) (hbuf : w.recbuffer = f ++ rest)
    (hlen : 14 ≤ f.length) (hmac : w.mymac.length = ETH_ALEN)
    (hfull : w.kernel.full w.mallocs = false) (hfuel : fs.length < fuel) :
    ∃ l' h' m', (countFrame fuel f.length l).run w =
        (.ok l', { w with heap := h', mallocs := m' }) ∧ l'.timeout = l.timeout ∧
      Counted { w with heap := h', mallocs := m' } l' (fs ++ [f]) := by
  obtain ⟨es, hs, hcounts⟩ := hc.stored
  have hes := hcounts.length_le
  obtain ⟨p', h', m', hrun, hs'⟩ := countType_run (frameType f) f.length hs hfull
    (by omega : es.length < fuel)
  have hdest : (destination f).length = ETH_ALEN := by
    rw [destination, List.length_take, ETH_ALEN]
    omega
  refine ⟨{ l with
    infoList := p'
    myFrames := if macsEqual w.mymac (destination f) ≠ 0 then u32 (l.myFrames + 1) else l.myFrames
    multiCastFrames := if isMulticast ((destination f).getD 0 0) ≠ 0 then
      u32 (l.multiCastFrames + 1) else l.multiCastFrames
    totalByte := u32 (l.totalByte + f.length) }, h', m', ?_, ?_, ⟨_, hs', hcounts.tally f⟩, ?_, ?_, ?_⟩
  · have htype : u16 (getType w.recbuffer) = frameType f := by rw [hbuf, getType_frame hlen]
    have hmacs : getMac w.recbuffer 0 = destination f := by rw [hbuf, getMac_frame hlen]
    rw [countFrame, Comp.gets_bind, Comp.gets_bind, htype, hmacs, Comp.bind_ok hrun]
    rfl
  · rfl
  · have hq : macsEqual w.mymac (destination f) ≠ 0 ↔ destination f = w.mymac :=
      (macsEqual_iff hmac hdest).trans eq_comm
    exact count_snoc hq hc.mine
  · exact count_snoc (isMulticast_frame f) hc.multicasts
  · dsimp only
    rw [hc.total, u32_add, volume_append, volume_single]

end Count

/-! ## Frames that arrive -/

/-- A frame, and the ns that the call which gets it waits for it. -/
structure Arrival where
  wait : Nat
  frame : List Byte
deriving DecidableEq, Repr

/-- `pselect` returns when the next frame is there or its time is over. -/
def arrivalSelect (next : Option Arrival) (tp : Option Timespec) : Nat × Selected :=
  match next, tp with
  | some a, some t => if a.wait ≤ t.ns then (a.wait, .ready) else (t.ns.toNat, .timedOut)
  | some a, none => (a.wait, .ready)
  | none, some t => (t.ns.toNat, .timedOut)
  | none, none => (0, .blocked)

/-- The system `k` with the frames `as` and no others on the socket. -/
def Kernel.arriving (k : Kernel) (as : List Arrival) : Kernel :=
  { k with
    select := fun n tp => arrivalSelect as[n]? tp
    read := fun n => .bytes ((as[n]?.map Arrival.frame).getD []) }

/-- How many frames with these waits come before a call returns 0, from `T` ms on. -/
def delivered : Nat → List Nat → Nat
  | _, [] => 0
  | T, e :: es =>
      if T = 0 ∨ T * 1000000 < e then 0 else delivered ((T * 1000000 - e) / 1000000) es + 1

section Arriving

variable {k : Kernel} {as : List Arrival} {a : Arrival} {n T : Nat}

theorem arriving_ready (h : as[n]? = some a) (hT : a.wait ≤ T * 1000000) :
    (k.arriving as).select n (some (timespecmset T)) = (a.wait, .ready) := by
  have hle : (a.wait : Int) ≤ (timespecmset T).ns := by
    rw [timespecmset_ns]
    omega
  change arrivalSelect as[n]? _ = _
  rw [h]
  exact if_pos hle

theorem arriving_late (h : as[n]? = some a) (hT : T * 1000000 < a.wait) :
    (k.arriving as).select n (some (timespecmset T)) =
      ((timespecmset T).ns.toNat, .timedOut) := by
  have hlt : ¬ (a.wait : Int) ≤ (timespecmset T).ns := by
    rw [timespecmset_ns]
    omega
  change arrivalSelect as[n]? _ = _
  rw [h]
  exact if_neg hlt

theorem arriving_none (h : as[n]? = none) :
    (k.arriving as).select n (some (timespecmset T)) =
      ((timespecmset T).ns.toNat, .timedOut) := by
  change arrivalSelect as[n]? _ = _
  rw [h]
  rfl

theorem arriving_read (h : as[n]? = some a) : (k.arriving as).read n = .bytes a.frame := by
  change Received.bytes ((as[n]?.map Arrival.frame).getD []) = _
  rw [h]
  rfl

end Arriving

/-! ## The loop -/

/-- What is printed when a call of `grnvs_read` has returned 0. -/
def timedOutLine : Output :=
  .stderr ("Timed out, this means there was nothing to " ++
    "receive. Do you have a sender set up?\n")

section Loop

variable {k : Kernel} {as rest : List Arrival} {a : Arrival} {w w' : World} {l : Locals}
  {fs : List (List Byte)} {fuel turns : Nat}

/-- Between two turns `n` frames have been taken from the socket. -/
structure Between (k : Kernel) (as : List Arrival) (w : World) (n : Nat) : Prop where
  kernel : w.kernel = k.arriving as
  ifindex : 0 ≤ w.ifindex
  selects : w.selects = n
  reads : w.reads = n
  mymac : w.mymac.length = ETH_ALEN

/-- What the loop has done once it has counted the frames `fs` and perhaps timed out. -/
structure Looped (w w' : World) (l' : Locals) (fs : List (List Byte)) (timedOut : Bool) : Prop where
  counted : Counted w' l' fs
  mymac : w'.mymac = w.mymac
  freed : w'.freed = w.freed
  out : w'.out = w.out ++ if timedOut then [timedOutLine] else []

/-- A call that returns 0 ends the loop. -/
theorem receiveLoop_timedOut {c s : Nat} (hc : Counted w l fs)
    (h : (grnvs_read fuel 1514 (some l.timeout)).run w =
      (.ok (0, some 0), { w with clock := c, selects := s })) :
    ∃ l' w', (receiveLoop fuel (turns + 1) l).run w = (.ok l', w') ∧ Looped w w' l' fs true := by
  refine ⟨{ l with timeout := 0 },
    { w with clock := c, selects := s, out := w.out ++ [timedOutLine] }, ?_, ?_⟩
  · rw [receiveLoop, Comp.bind_ok h]
    rfl
  · exact ⟨⟨hc.stored, hc.mine, hc.multicasts, hc.total⟩, rfl, rfl, rfl⟩

/-- A turn in which `pselect` reports a frame, after a wait of `e` ns. -/
theorem receiveLoop_frame (turns : Nat) {f : List Byte} {e : Nat} (hopen : 0 ≤ w.ifindex)
    (hmac : w.mymac.length = ETH_ALEN)
    (hsel : w.kernel.select w.selects (some (timespecmset l.timeout)) = (e, .ready))
    (hread : w.kernel.read w.reads = .bytes f) (hsize : 14 ≤ f.length ∧ f.length ≤ 1514)
    (hfull : ∀ n, w.kernel.full n = false) (hpos : 0 < l.timeout) (hc : Counted w l fs)
    (hfuel : fs.length < fuel) :
    ∃ l' w', (receiveLoop fuel (turns + 1) l).run w = (receiveLoop fuel turns l').run w' ∧
      l'.timeout = unsigned ((l.timeout * 1000000 - e : Int) / 1000000) ∧
      w'.kernel = w.kernel ∧ w'.ifindex = w.ifindex ∧ w'.selects = w.selects + 1 ∧
      w'.reads = w.reads + 1 ∧ Looped w w' l' (fs ++ [f]) false := by
  obtain ⟨n, rfl⟩ : ∃ n, fuel = n + 1 := ⟨fuel - 1, by omega⟩
  obtain ⟨c, hrun⟩ := grnvs_read_reported n 1514 hopen hpos hsel hread
  rw [List.take_of_length_le hsize.2, splice_zero] at hrun
  obtain ⟨T, hTdef⟩ : ∃ T, T = unsigned ((l.timeout * 1000000 - e : Int) / 1000000) := ⟨_, rfl⟩
  rw [← hTdef] at hrun ⊢
  obtain ⟨l', h', m', hcount, htimeout, hc'⟩ := countFrame_run (l := { l with timeout := T })
    (w := { w with
      clock := c
      selects := w.selects + 1
      reads := w.reads + 1
      recbuffer := f ++ w.recbuffer.drop f.length })
    ⟨hc.stored, hc.mine, hc.multicasts, hc.total⟩ rfl hsize.1 hmac (hfull _) hfuel
  have hlen : ((f.length : Int) % 18446744073709551616).toNat = f.length := by omega
  have hne : ¬ f.length = 0 := by omega
  refine ⟨l', { w with
    clock := c
    selects := w.selects + 1
    reads := w.reads + 1
    recbuffer := f ++ w.recbuffer.drop f.length
    heap := h'
    mallocs := m' }, ?_, htimeout, rfl, rfl, rfl, rfl, ⟨hc', rfl, rfl, (List.append_nil _).symm⟩⟩
  rw [receiveLoop, Comp.bind_ok hrun]
  dsimp only
  rw [hlen, if_neg hne, Option.getD_some, Comp.bind_ok hcount]

/-- A turn in which the next frame comes within the budget. -/
theorem receiveLoop_turn (turns : Nat) {n : Nat} (hb : Between k as w n) (ha : as[n]? = some a)
    (hfull : ∀ n, k.full n = false) (hsize : 14 ≤ a.frame.length ∧ a.frame.length ≤ 1514)
    (hT : l.timeout < 4294967296) (hpos : 0 < l.timeout) (hin : a.wait ≤ l.timeout * 1000000)
    (hc : Counted w l fs) (hfuel : fs.length < fuel) :
    ∃ l' w', (receiveLoop fuel (turns + 1) l).run w = (receiveLoop fuel turns l').run w' ∧
      l'.timeout = (l.timeout * 1000000 - a.wait) / 1000000 ∧ Between k as w' (n + 1) ∧
      Looped w w' l' (fs ++ [a.frame]) false := by
  have hsel : w.kernel.select w.selects (some (timespecmset l.timeout)) = (a.wait, .ready) := by
    rw [hb.kernel, hb.selects]
    exact arriving_ready ha hin
  have hread : w.kernel.read w.reads = .bytes a.frame := by
    rw [hb.kernel, hb.reads]
    exact arriving_read ha
  obtain ⟨l', w', hrun, htimeout, hkernel, hindex, hselects, hreads, hl⟩ :=
    receiveLoop_frame turns hb.ifindex hb.mymac hsel hread hsize (by rw [hb.kernel]; exact hfull)
      hpos hc hfuel
  refine ⟨l', w', hrun, htimeout.trans (unsigned_left hT hin), ⟨?_, ?_, ?_, ?_, ?_⟩, hl⟩
  · rw [hkernel, hb.kernel]
  · rw [hindex]
    exact hb.ifindex
  · rw [hselects, hb.selects]
  · rw [hreads, hb.reads]
  · rw [hl.mymac]
    exact hb.mymac

/-- Where no further frame comes, the loop ends. -/
theorem receiveLoop_stops (turns : Nat) (hc : Counted w l fs) {m : Nat} (h0 : m = 0) {c s : Nat}
    (h : (grnvs_read fuel 1514 (some l.timeout)).run w =
      (.ok (0, some 0), { w with clock := c, selects := s })) :
    ∃ l' w', (receiveLoop fuel (turns + 1) l).run w = (.ok l', w') ∧
      Looped w w' l' (fs ++ (rest.take (Nat.min (turns + 1) m)).map Arrival.frame)
        (decide (m < turns + 1)) := by
  have hzero : Nat.min (turns + 1) 0 = 0 := Nat.min_zero _
  rw [h0, hzero, List.take_zero, List.map_nil, List.append_nil,
    decide_eq_true (Nat.succ_pos turns)]
  exact receiveLoop_timedOut hc h

/-- A turn, and the turns behind it, which count `m` frames if there are enough turns. -/
theorem Looped.after {w1 : World} {l1 l' : Locals} {m : Nat}
    (hl1 : Looped w w1 l1 (fs ++ [a.frame]) false)
    (hl' : Looped w1 w' l' (fs ++ [a.frame] ++
      (rest.take (Nat.min turns m)).map Arrival.frame) (decide (m < turns))) :
    Looped w w' l' (fs ++ ((a :: rest).take (Nat.min (turns + 1) (m + 1))).map Arrival.frame)
      (decide (m + 1 < turns + 1)) := by
  have hmin : Nat.min (turns + 1) (m + 1) = Nat.min turns m + 1 := Nat.succ_min_succ _ _
  have hlt : decide (m + 1 < turns + 1) = decide (m < turns) :=
    decide_eq_decide.mpr Nat.succ_lt_succ_iff
  rw [hmin, List.take_succ_cons, List.map_cons, hlt]
  refine ⟨?_, hl'.mymac.trans hl1.mymac, hl'.freed.trans hl1.freed, ?_⟩
  · have hcounted := hl'.counted
    rwa [List.append_assoc, List.singleton_append] at hcounted
  · rw [hl'.out, hl1.out]
    simp only [Bool.false_eq_true, if_false, List.append_nil]

/-- The loop counts the frames that are delivered, but no more than it has turns. -/
theorem receiveLoop_run (turns : Nat) (hfull : ∀ n, k.full n = false)
    (hsize : ∀ a ∈ as, 14 ≤ a.frame.length ∧ a.frame.length ≤ 1514) {n : Nat}
    (hb : Between k as w n) (hrest : as.drop n = rest) (hT : l.timeout < 4294967296)
    (hc : Counted w l fs) (hfuel : fs.length + rest.length < fuel) :
    ∃ l' w', (receiveLoop fuel turns l).run w = (.ok l', w') ∧
      Looped w w' l' (fs ++ (rest.take
        (Nat.min turns (delivered l.timeout (rest.map Arrival.wait)))).map Arrival.frame)
        (decide (delivered l.timeout (rest.map Arrival.wait) < turns)) := by
  induction turns generalizing w l fs n rest with
  | zero =>
    refine ⟨l, w, rfl, ⟨?_, rfl, rfl, (List.append_nil _).symm⟩⟩
    have hzero : Nat.min 0 (delivered l.timeout (rest.map Arrival.wait)) = 0 := Nat.zero_min _
    rw [hzero, List.take_zero, List.map_nil, List.append_nil]
    exact hc
  | succ turns ih =>
    obtain ⟨f, rfl⟩ : ∃ f, fuel = f + 1 := ⟨fuel - 1, by omega⟩
    by_cases hzero : l.timeout = 0
    · refine @receiveLoop_stops _ _ _ _ _ turns hc _ ?_ w.clock w.selects ?_
      · rw [hzero]
        cases rest with
        | nil => rfl
        | cons a rest => rw [List.map_cons, delivered, if_pos (.inl rfl)]
      · rw [hzero]
        exact grnvs_read_spent _ _ hb.ifindex
    have hpos : 0 < l.timeout := Nat.pos_of_ne_zero hzero
    cases rest with
    | nil =>
      have hnone : as[n]? = none := by
        rw [List.getElem?_eq_none_iff]
        exact List.drop_eq_nil_iff.mp hrest
      obtain ⟨c, hrun⟩ := grnvs_read_timedOut f 1514 hb.ifindex hpos (w := w)
        (by rw [hb.kernel, hb.selects]; exact arriving_none hnone)
      exact receiveLoop_stops turns hc rfl hrun
    | cons a rest =>
      have ha : as[n]? = some a := by
        have h0 := congrArg (·[0]?) hrest
        rwa [List.getElem?_drop, Nat.add_zero] at h0
      by_cases hin : a.wait ≤ l.timeout * 1000000
      · have hmem : a ∈ as := List.mem_of_getElem? ha
        rw [List.length_cons] at hfuel
        obtain ⟨l1, w1, hturn, htimeout, hb1, hl1⟩ := receiveLoop_turn turns hb ha hfull
          (hsize a hmem) hT hpos hin hc (by omega : fs.length < f + 1)
        have hdrop : as.drop (n + 1) = rest := by
          rw [← List.drop_drop, hrest]
          rfl
        obtain ⟨l', w', hrun, hl'⟩ := ih hb1 hdrop (by rw [htimeout]; omega) hl1.counted
          (by rw [List.length_append, List.length_singleton]; omega)
        have hdelivered : delivered l.timeout ((a :: rest).map Arrival.wait) =
            delivered l1.timeout (rest.map Arrival.wait) + 1 := by
          rw [List.map_cons, delivered, if_neg (by omega), htimeout]
        refine ⟨l', w', hturn.trans hrun, ?_⟩
        rw [hdelivered]
        exact hl1.after hl'
      · obtain ⟨c, hrun⟩ := grnvs_read_timedOut f 1514 hb.ifindex hpos (w := w)
          (by rw [hb.kernel, hb.selects]; exact arriving_late ha (by omega))
        refine receiveLoop_stops turns hc ?_ hrun
        rw [List.map_cons, delivered, if_pos (.inr (by omega))]

end Loop

end Grnvs.Stats
