/-
  What ethstats prints for the frames it has received.

  The frames counted are the first `NUM` of those delivered in time (`counted`). For each type that
  occurs among them one line is printed, in ascending order, with their number and length modulo
  2^32; every node of the list has been freed once at the end (`assignment2_summary`).
-/
import Grnvs.Stats.Receive

namespace Grnvs.Stats

open Bytes Linked

/-- The process when `assignment2` is called, with whatever its memory holds. -/
def start (k : Kernel) (ifindex : Int) (clock : Nat) (recbuffer mymac : List Byte) : World :=
  { kernel := k, ifindex := ifindex, clock := clock, selects := 0, reads := 0,
    recbuffer := recbuffer, mymac := mymac, heap := fun _ => none, mallocs := 0, freed := [],
    out := [] }

/-- How many of the frames come before a call of `grnvs_read` returns 0. -/
def receivable (as : List Arrival) : Nat := delivered 10000 (as.map Arrival.wait)

/-- The frames that are counted. -/
def counted (frames : Int) (as : List Arrival) : List (List Byte) :=
  (as.take (Nat.min frames.toNat (receivable as))).map Arrival.frame

/-- The printed summary of the frames `fs`, with the entries `es`. -/
def summary (mac : List Byte) (fs : List (List Byte)) (es : List Entry) : List Output :=
  es.map line ++
    [.stdout (signed (u32 (forMe mac fs).length) ++ " of them were for me\n"),
      .stdout (signed (u32 (fs.filter multicast).length) ++ " of them were multicast\n"),
      .rate (u32 (volume fs))]

/-- An account may list the types in any order. -/
theorem Counts.perm {fs : List (List Byte)} {es es' : List Entry} (h : Counts fs es)
    (hp : es'.Perm es) : Counts fs es' := by
  refine ⟨(hp.map _).nodup_iff.mpr h.nodup, ?_, ?_, ?_⟩
  · intro t
    rw [(hp.map _).mem_iff, h.types]
  · intro e he
    exact h.exact e (hp.mem_iff.mp he)
  · rw [(hp.map _).sum_nat, h.total]

/-- A run of ethstats on frames that arrive. -/
structure Summarised (mac : List Byte) (fs : List (List Byte)) (timedOut : Bool) (es : List Entry)
    (w : World) : Prop where
  counts : Counts fs es
  ascending : (es.map Entry.ethType).Pairwise (· < ·)
  out : w.out = .stdout "I am ready!\n" :: (if timedOut then [timedOutLine] else []) ++
    summary mac fs es
  heap : w.heap = fun _ => none
  freed : w.freed.Perm (List.range w.mallocs)

section Run

variable {fuel : Nat} {ifindex : Int}

/-- The process before the receive loop. -/
def started (k : Kernel) (ifindex : Int) (clock : Nat) (recbuffer mymac : List Byte) : World :=
  { start k ifindex clock recbuffer mymac with
    mymac := k.hwaddr
    out := [.stdout "I am ready!\n"] }

theorem started_counted (k : Kernel) (ifindex : Int) (clock : Nat) (recbuffer mymac : List Byte) :
    Counted (started k ifindex clock recbuffer mymac) ⟨10000, 0, 0, none, 0⟩ [] :=
  ⟨⟨[], ⟨[], owns_nil, rfl, rfl⟩, counts_nil⟩, rfl, rfl, rfl⟩

/-- Once the receive loop has counted the frames `fs`, they are what the summary is about. -/
theorem assignment2_of_loop {k : Kernel} (hmac : k.hwaddr.length = ETH_ALEN) (hopen : 0 ≤ ifindex)
    {clock : Nat} {recbuffer mymac : List Byte} {frames : Int} {l : Locals} {w1 : World}
    {fs : List (List Byte)} {b : Bool}
    (hloop : (receiveLoop fuel frames.toNat ⟨10000, 0, 0, none, 0⟩).run
      (started k ifindex clock recbuffer mymac) = (.ok l, w1))
    (hl : Looped (started k ifindex clock recbuffer mymac) w1 l fs b)
    (hfuel : fs.length < fuel) :
    ∃ es w', (assignment2 fuel frames).run (start k ifindex clock recbuffer mymac) = (.ok (), w') ∧
      Summarised k.hwaddr fs b es w' := by
  obtain ⟨es, ⟨xs, ho, haddr, rfl⟩, hcounts⟩ := hl.counted.stored
  have hlen : xs.length ≤ fs.length := by
    have h1 := hcounts.length_le
    rwa [List.length_map] at h1
  have hnd : (xs.map fun x => x.2.ethType).Nodup := by
    have h := hcounts.nodup
    rwa [List.map_map] at h
  obtain ⟨ys, hys, hprint⟩ := summaryLoop_run ho hnd (by omega : xs.length < fuel)
    (by omega : xs.length < fuel)
  have hperm : (ys.map Prod.snd).Perm (xs.map Prod.snd) := hys.perm.map _
  have hmymac : w1.mymac = k.hwaddr := hl.mymac
  have hout : w1.out = .stdout "I am ready!\n" :: if b then [timedOutLine] else [] := hl.out
  have hfreed : w1.freed = [] := hl.freed
  have htake : k.hwaddr.take ETH_ALEN = k.hwaddr := List.take_of_length_le (Nat.le_of_eq hmac)
  refine ⟨ys.map Prod.snd, { w1 with
    heap := fun _ => none
    freed := w1.freed ++ ys.map Prod.fst
    out := (((w1.out ++ ys.map fun x => line x.2) ++
      [.stdout (signed l.myFrames ++ " of them were for me\n")]) ++
      [.stdout (signed l.multiCastFrames ++ " of them were multicast\n")]) ++
      [.rate l.totalByte] }, ?_, ⟨hcounts.perm hperm, ?_, ?_, rfl, ?_⟩⟩
  · rw [assignment2, grnvs_get_hwaddr, Comp.gets_bind, if_neg (by exact Int.not_lt.mpr hopen)]
    change (receiveLoop fuel frames.toNat ⟨10000, 0, 0, none, 0⟩ >>= _).run
      { start k ifindex clock recbuffer mymac with
        mymac := k.hwaddr.take ETH_ALEN, out := [.stdout "I am ready!\n"] } = _
    rw [htake, ← started, Comp.bind_ok hloop, Comp.bind_ok hprint]
    rfl
  · have hstrict := hys.strict hnd
    rw [List.map_map, List.pairwise_map]
    exact hstrict
  · dsimp only
    rw [hout, hl.counted.mine, hl.counted.multicasts, hl.counted.total, hmymac, summary,
      List.map_map, List.append_assoc, List.append_assoc, List.append_assoc]
    rfl
  · dsimp only
    rw [hfreed, List.nil_append, ← haddr]
    exact hys.perm.map _

theorem assignment2_run (k : Kernel) (as : List Arrival) (hmac : k.hwaddr.length = ETH_ALEN)
    (hfull : ∀ n, k.full n = false)
    (hsize : ∀ a ∈ as, 14 ≤ a.frame.length ∧ a.frame.length ≤ 1514) (hopen : 0 ≤ ifindex)
    (clock : Nat) (recbuffer mymac : List Byte) (frames : Int) (hfuel : as.length < fuel) :
    ∃ es w', (assignment2 fuel frames).run
        (start (k.arriving as) ifindex clock recbuffer mymac) = (.ok (), w') ∧
      Summarised k.hwaddr (counted frames as) (decide (receivable as < frames.toNat)) es w' := by
  have hb : Between k as (started (k.arriving as) ifindex clock recbuffer mymac) 0 :=
    ⟨rfl, hopen, rfl, rfl, hmac⟩
  obtain ⟨l, w1, hloop, hl⟩ := receiveLoop_run frames.toNat hfull hsize hb List.drop_zero
    (by decide) (started_counted _ _ _ _ _) (by rw [List.length_nil, Nat.zero_add]; exact hfuel)
  refine assignment2_of_loop (k := k.arriving as) hmac hopen hloop hl ?_
  rw [counted, List.length_map, List.length_take]
  omega

end Run

/-- For every own address, every `NUM` and all frames of 14 to 1514 bytes: there is a line for each
    type that occurs among the counted frames and for no other, in strictly ascending order; the
    counters are the numbers and lengths of these frames modulo 2^32; the bytes of the lines add up
    to the total; and every node was freed, none twice. -/
theorem assignment2_summary (k : Kernel) (hmac : k.hwaddr.length = ETH_ALEN)
    (hfull : ∀ n, k.full n = false) (ifindex : Int) (hopen : 0 ≤ ifindex) (clock : Nat)
    (recbuffer mymac : List Byte) (frames : Int) (as : List Arrival)
    (hsize : ∀ a ∈ as, 14 ≤ a.frame.length ∧ a.frame.length ≤ 1514) (fuel : Nat)
    (hfuel : as.length < fuel) :
    ∃ (es : List Entry) (totalByte : Nat) (w' : World), (assignment2 fuel frames).run
        (start (k.arriving as) ifindex clock recbuffer mymac) = (.ok (), w') ∧
      w'.out = .stdout "I am ready!\n" ::
        (if receivable as < frames.toNat then [timedOutLine] else []) ++
        (es.map fun e => .stdout (summaryLine e.ethType e.frames e.bytes)) ++
        [.stdout (signed ((forMe k.hwaddr (counted frames as)).length % 4294967296) ++
            " of them were for me\n"),
          .stdout (signed (((counted frames as).filter multicast).length % 4294967296) ++
            " of them were multicast\n"),
          .rate totalByte] ∧
      (es.map Entry.ethType).Pairwise (· < ·) ∧
      (∀ t, t ∈ es.map Entry.ethType ↔ ∃ f ∈ counted frames as, frameType f = t) ∧
      (∀ e ∈ es, e.frames = (ofType e.ethType (counted frames as)).length % 4294967296 ∧
        e.bytes = volume (ofType e.ethType (counted frames as)) % 4294967296) ∧
      totalByte = volume (counted frames as) % 4294967296 ∧
      (es.map Entry.bytes).sum % 4294967296 = totalByte ∧
      w'.heap = (fun _ => none) ∧ w'.freed.Nodup ∧ ∀ n, n ∈ w'.freed ↔ n < w'.mallocs := by
  obtain ⟨es, w', hrun, h⟩ :=
    assignment2_run k as hmac hfull hsize hopen clock recbuffer mymac frames hfuel
  refine ⟨es, volume (counted frames as) % 4294967296, w', hrun, ?_, h.ascending, ?_,
    h.counts.exact, rfl, h.counts.total, h.heap, h.freed.nodup_iff.mpr List.nodup_range, ?_⟩
  · rw [h.out, summary, ← List.append_assoc]
    by_cases hlt : receivable as < frames.toNat
    · rw [decide_eq_true hlt, if_pos hlt]
      rfl
    · rw [decide_eq_false hlt, if_neg hlt]
      rfl
  · intro t
    rw [h.counts.types, List.mem_map]
  · intro n
    rw [h.freed.mem_iff, List.mem_range]

/-! ## Three frames -/

/-- A system whose interface has the address 02:00:00:00:00:01. -/
def kernelDemo : Kernel where
  hwaddr := [2, 0, 0, 0, 0, 1]
  idle _ := 0
  select _ _ := (0, .timedOut)
  read _ := .failed (.other 11)
  len _ := 0
  full _ := false
  fresh _ := ⟨0, 0, 0, none⟩
  strerror _ := ""

/-- A frame of 14 bytes to a broadcast address. -/
def frameDemo (type : Byte) : List Byte :=
  [255, 255, 255, 255, 255, 255, 2, 0, 0, 0, 0, 2, 8, type]

def arrivalsDemo : List Arrival := [⟨5, frameDemo 6⟩, ⟨0, frameDemo 0⟩, ⟨7, frameDemo 6⟩]

theorem arrivalsDemo_size :
    ∀ a ∈ arrivalsDemo, 14 ≤ a.frame.length ∧ a.frame.length ≤ 1514 := by decide

theorem assignment2_summary_demo : ∃ (es : List Entry) (totalByte : Nat) (w' : World), (assignment2 9 3).run
      (start (kernelDemo.arriving arrivalsDemo) 0 0 [] []) = (.ok (), w') ∧
    w'.out = .stdout "I am ready!\n" ::
      (if receivable arrivalsDemo < Int.toNat 3 then [timedOutLine] else []) ++
      (es.map fun e => .stdout (summaryLine e.ethType e.frames e.bytes)) ++
      [.stdout (signed ((forMe kernelDemo.hwaddr (counted 3 arrivalsDemo)).length % 4294967296) ++
          " of them were for me\n"),
        .stdout (signed (((counted 3 arrivalsDemo).filter multicast).length % 4294967296) ++
          " of them were multicast\n"),
        .rate totalByte] ∧
    (es.map Entry.ethType).Pairwise (· < ·) ∧
    (∀ t, t ∈ es.map Entry.ethType ↔ ∃ f ∈ counted 3 arrivalsDemo, frameType f = t) ∧
    (∀ e ∈ es, e.frames = (ofType e.ethType (counted 3 arrivalsDemo)).length % 4294967296 ∧
      e.bytes = volume (ofType e.ethType (counted 3 arrivalsDemo)) % 4294967296) ∧
    totalByte = volume (counted 3 arrivalsDemo) % 4294967296 ∧
    (es.map Entry.bytes).sum % 4294967296 = totalByte ∧
    w'.heap = (fun _ => none) ∧ w'.freed.Nodup ∧ ∀ n, n ∈ w'.freed ↔ n < w'.mallocs :=
  assignment2_summary kernelDemo rfl (fun _ => rfl) 0 (by decide) 0 [] [] 3 arrivalsDemo
    arrivalsDemo_size 9 (by decide)

end Grnvs.Stats
