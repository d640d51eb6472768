/-
  The counters of ethstats as numbers.

  The counters are 32 bits wide and printed as signed ones. The numbers of frames cannot run over,
  since an accepted NUM is an `int`. The bytes can: 1418418 frames of 1514 bytes have more than
  2^31. `assignment2_exact` says that this is the only way in which the summary goes wrong, and
  `byteCounter_wraps` is a run in which it does. That takes a late frame, or a clock that stands
  still: otherwise the budget ends a run before (`assignment2_inTime_exact`).
-/
import Grnvs.Stats.Arguments
import Grnvs.Stats.Late

namespace Grnvs.Stats

open Bytes Decimal

/-! ## The text of a number -/

section Text

variable {n v : Nat}

theorem toString_natCast (n : Nat) : toString (n : Int) = toString n := rfl

/-- `%d` shows the value of a 32-bit counter that has not passed 2^31 - 1, and of no other. -/
theorem signed_u32_iff (v : Nat) : signed (u32 v) = toString v ↔ v < 2147483648 := by
  have hu : u32 v = v % 4294967296 := rfl
  unfold signed
  by_cases hlow : u32 v < 2147483648
  · rw [if_pos hlow, Nat.toString_eq_repr, Nat.toString_eq_repr, Nat.repr_inj]
    omega
  · rw [if_neg hlow, ← toString_natCast v, Int.toString_eq_repr, Int.toString_eq_repr, Int.repr_inj]
    omega

theorem signed_u32 (h : v < 2147483648) : signed (u32 v) = toString v := (signed_u32_iff v).mpr h

end Text

/-! ## The exact summary -/

/-- The line about the frames of type `t`. -/
def exactLine (fs : List (List Byte)) (t : Nat) : Output :=
  .stdout ("0x" ++ hex4 t ++ ": " ++ toString (ofType t fs).length ++ " frames, " ++
    toString (volume (ofType t fs)) ++ " bytes\n")

/-- The summary of the frames `fs`, which are of the types `types`. -/
def exactSummary (mac : List Byte) (fs : List (List Byte)) (types : List Nat) : List Output :=
  types.map (exactLine fs) ++
    [.stdout (toString (forMe mac fs).length ++ " of them were for me\n"),
      .stdout (toString (fs.filter multicast).length ++ " of them were multicast\n"),
      .rate (volume fs)]

section Summary

variable {mac : List Byte} {fs : List (List Byte)} {es : List Entry} {e : Entry} {types : List Nat}

/-- The bytes of a type are those of the frames of this type. -/
theorem line_eq_exactLine_iff (he : Exact fs e) (hlen : fs.length < 2147483648) :
    line e = exactLine fs e.ethType ↔ volume (ofType e.ethType fs) < 2147483648 := by
  have hcount : (ofType e.ethType fs).length < 2147483648 :=
    Nat.lt_of_le_of_lt (List.length_filter_le _ _) hlen
  unfold line summaryLine exactLine
  rw [he.1, he.2, signed_u32 hcount, Output.stdout.injEq, String.append_left_inj,
    String.append_right_inj]
  exact signed_u32_iff _

theorem volume_ofType_of_absent {t : Nat} (h : t ∉ fs.map frameType) :
    volume (ofType t fs) = 0 := by
  rw [ofType_eq_nil h]
  rfl

/-- What is printed about `fs` is exact if and only if no counter of bytes has run over. -/
theorem summary_eq_exactSummary_iff (hc : Counts fs es) (hlen : fs.length < 2147483648) :
    summary mac fs es = exactSummary mac fs (es.map Entry.ethType) ↔
      (∀ t, volume (ofType t fs) < 2147483648) ∧ volume fs < 4294967296 := by
  have hmine : (forMe mac fs).length < 2147483648 :=
    Nat.lt_of_le_of_lt (List.length_filter_le _ _) hlen
  have hmulti : (fs.filter multicast).length < 2147483648 :=
    Nat.lt_of_le_of_lt (List.length_filter_le _ _) hlen
  have htotal : u32 (volume fs) = volume fs ↔ volume fs < 4294967296 := by
    unfold u32
    omega
  have hlines : es.map line = es.map (exactLine fs ∘ Entry.ethType) ↔
      ∀ t, volume (ofType t fs) < 2147483648 := by
    rw [List.map_inj_left]
    constructor
    · intro h t
      by_cases ht : t ∈ es.map Entry.ethType
      · obtain ⟨e, he, rfl⟩ := List.mem_map.mp ht
        exact (line_eq_exactLine_iff (hc.exact e he) hlen).mp (h e he)
      · rw [volume_ofType_of_absent fun hmem => ht ((hc.types t).mpr hmem)]
        decide
    · intro h e he
      exact (line_eq_exactLine_iff (hc.exact e he) hlen).mpr (h _)
  unfold summary exactSummary
  rw [signed_u32 hmine, signed_u32 hmulti, List.map_map, ← hlines, ← htotal]
  constructor
  · intro h
    obtain ⟨h1, h2⟩ := List.append_inj h (by rw [List.length_map, List.length_map])
    rw [List.cons_eq_cons, List.cons_eq_cons, List.cons_eq_cons, Output.rate.injEq] at h2
    exact ⟨h1, h2.2.2.1⟩
  · intro h
    rw [h.1, h.2]

/-- There is one list of the types in ascending order. -/
theorem types_unique (hc : Counts fs es) (hasc : (es.map Entry.ethType).Pairwise (· < ·))
    (hsorted : types.Pairwise (· < ·)) (hmem : ∀ t, t ∈ types ↔ ∃ f ∈ fs, frameType f = t) :
    types = es.map Entry.ethType := by
  refine hsorted.eq_of_mem_iff hasc fun t => ?_
  rw [hmem, hc.types, List.mem_map]

end Summary

/-! ## Runs -/

/-- What is printed is the exact summary of the frames `fs`. -/
def PrintsExactly (mac : List Byte) (fs : List (List Byte)) (timedOut : Bool)
    (out : List Output) : Prop :=
  ∃ types : List Nat, types.Pairwise (· < ·) ∧ (∀ t, t ∈ types ↔ ∃ f ∈ fs, frameType f = t) ∧
    out = .stdout "I am ready!\n" :: (if timedOut then [timedOutLine] else []) ++
      exactSummary mac fs types

theorem Summarised.printsExactly_iff {mac : List Byte} {fs : List (List Byte)} {b : Bool}
    {es : List Entry} {w : World} (h : Summarised mac fs b es w) (hlen : fs.length < 2147483648) :
    PrintsExactly mac fs b w.out ↔
      (∀ t, volume (ofType t fs) < 2147483648) ∧ volume fs < 4294967296 := by
  have hiff : summary mac fs es = exactSummary mac fs (es.map Entry.ethType) ↔ _ :=
    summary_eq_exactSummary_iff h.counts hlen
  rw [← hiff]
  constructor
  · intro hp
    obtain ⟨types, hsorted, hmem, hout⟩ := hp
    rw [h.out, types_unique h.counts h.ascending hsorted hmem] at hout
    exact List.append_cancel_left hout
  · intro heq
    refine ⟨es.map Entry.ethType, h.ascending, ?_, ?_⟩
    · intro t
      rw [h.counts.types, List.mem_map]
    · rw [h.out, heq]

/-- Not more frames are read than an `int` can say. -/
theorem reported_length_lt {frames : Int} (h : frames < 2 ^ 31) (as : List Arrival) :
    (reported frames as).length < 2147483648 := by
  have hle : Nat.min frames.toNat (readable as) ≤ frames.toNat := Nat.min_le_left _ _
  rw [reported, List.length_map, List.length_take]
  omega

/-- For every NUM that is accepted and all frames of 14 to 1514 bytes: the numbers printed for each
    type, and the total that the rates are computed from, are exact if and only if the frames of no
    type have 2^31 bytes or more and all of them together have less than 2^32. -/
theorem assignment2_exact (keys : List Key) (args : Arguments)
    (haccepted : parse_args keys = .ok args) (k : Kernel) (hmac : k.hwaddr.length = ETH_ALEN)
    (hfull : ∀ n, k.full n = false) (ifindex : Int) (hopen : 0 ≤ ifindex) (clock : Nat)
    (recbuffer mymac : List Byte) (as : List Arrival)
    (hsize : ∀ a ∈ as, 14 ≤ a.frame.length ∧ a.frame.length ≤ 1514) (fuel : Nat)
    (hfuel : as.length < fuel) :
    (∃ w', (assignment2 fuel args.frames).run
        (start (k.reporting as) ifindex clock recbuffer mymac) = (.ok (), w') ∧
      PrintsExactly k.hwaddr (reported args.frames as)
        (decide (readable as < args.frames.toNat)) w'.out) ↔
    (∀ t, volume (ofType t (reported args.frames as)) < 2147483648) ∧
      volume (reported args.frames as) < 4294967296 := by
  obtain ⟨es, w', hrun, h⟩ :=
    assignment2_reporting k as hmac hfull hsize hopen clock recbuffer mymac args.frames hfuel
  have hlen := reported_length_lt (parse_args_frames haccepted).2 as
  rw [← h.printsExactly_iff hlen]
  constructor
  · intro hex
    obtain ⟨w'', hrun', hp⟩ := hex
    obtain rfl : w' = w'' := congrArg Prod.snd (hrun.symm.trans hrun')
    exact hp
  · intro hp
    exact ⟨w', hrun, hp⟩

theorem assignment2_exact_demo :
    (∃ w', (assignment2 9 3).run
        (start (kernelDemo.reporting arrivalsDemo) 0 0 [] []) = (.ok (), w') ∧
      PrintsExactly kernelDemo.hwaddr (reported 3 arrivalsDemo)
        (decide (readable arrivalsDemo < Int.toNat 3)) w'.out) ↔
    (∀ t, volume (ofType t (reported 3 arrivalsDemo)) < 2147483648) ∧
      volume (reported 3 arrivalsDemo) < 4294967296 :=
  assignment2_exact [.arg ⟨lit "3", by decide⟩] ⟨eth0, 3⟩ (by decide) kernelDemo rfl (fun _ => rfl) 0
    (by decide) 0 [] [] arrivalsDemo arrivalsDemo_size 9 (by decide)

/-! ## Frames in time -/

theorem volume_le {fs : List (List Byte)} (h : ∀ f ∈ fs, f.length ≤ 1514) :
    volume fs ≤ fs.length * 1514 := by
  have hle := List.sum_le_card_nsmul (fs.map List.length) 1514 (List.forall_mem_map.mpr h)
  rwa [List.length_map, smul_eq_mul] at hle

/-- While no frame is late and the clock goes on during every wait, not more than 10000 frames are
    read, and the summary is exact. -/
theorem assignment2_inTime_exact (k : Kernel) (as : List Arrival)
    (hmac : k.hwaddr.length = ETH_ALEN) (hfull : ∀ n, k.full n = false)
    (hsize : ∀ a ∈ as, 14 ≤ a.frame.length ∧ a.frame.length ≤ 1514)
    (hwait : ∀ a ∈ as, 0 < a.wait) {ifindex : Int} (hopen : 0 ≤ ifindex) (clock : Nat)
    (recbuffer mymac : List Byte) (frames : Int) {fuel : Nat} (hfuel : as.length < fuel) :
    ∃ w', (assignment2 fuel frames).run
        (start (k.arriving as) ifindex clock recbuffer mymac) = (.ok (), w') ∧
      PrintsExactly k.hwaddr (counted frames as) (decide (receivable as < frames.toNat)) w'.out := by
  have hmany : receivable as ≤ 10000 := delivered_le (List.forall_mem_map.mpr hwait)
  have hmin : Nat.min frames.toNat (receivable as) ≤ receivable as := Nat.min_le_right _ _
  have hlen : (counted frames as).length ≤ 10000 := by
    rw [counted, List.length_map, List.length_take]
    omega
  have hlong : ∀ f ∈ counted frames as, f.length ≤ 1514 :=
    List.forall_mem_map.mpr fun a ha => (hsize a (List.mem_of_mem_take ha)).2
  obtain ⟨es, w', hrun, h⟩ :=
    assignment2_run k as hmac hfull hsize hopen clock recbuffer mymac frames hfuel
  refine ⟨w', hrun, (h.printsExactly_iff (by omega)).mpr ⟨?_, ?_⟩⟩
  · intro t
    have hof : (ofType t (counted frames as)).length ≤ (counted frames as).length :=
      List.length_filter_le _ _
    have hle : volume (ofType t (counted frames as)) ≤ _ :=
      volume_le fun f hf => hlong f (List.mem_of_mem_filter hf)
    omega
  · have hle := volume_le hlong
    omega

/-! ## A frame that is late, and many more -/

theorem volume_replicate (n : Nat) (f : List Byte) :
    volume (List.replicate n f) = n * f.length := by
  rw [volume, List.map_replicate, List.sum_replicate, smul_eq_mul]

theorem ofType_replicate (n : Nat) (f : List Byte) :
    ofType (frameType f) (List.replicate n f) = List.replicate n f :=
  List.filter_replicate_of_pos (decide_eq_true rfl)

theorem spent_replicate (n e : Nat) : spent (List.replicate n e) n = n * charge e := by
  rw [spent, List.take_replicate, Nat.min_self, List.map_replicate, List.sum_replicate, smul_eq_mul]

/-- A frame of 1514 bytes. -/
def frameLong : List Byte := frameDemo 0 ++ zeros 1500

theorem frameLong_length : frameLong.length = 1514 := by
  rw [frameLong, List.length_append, zeros_length]
  rfl

/-- A frame for which the clock shows 1 ns more than ten seconds, and 1418417 frames that come after
    0.1 ms each. -/
def arrivalsMany : List Arrival :=
  ⟨10000000001, frameLong⟩ :: List.replicate 1418417 ⟨100000, frameLong⟩

theorem arrivalsMany_size : ∀ a ∈ arrivalsMany, 14 ≤ a.frame.length ∧ a.frame.length ≤ 1514 := by
  have hframe : ∀ a ∈ arrivalsMany, a.frame = frameLong := by
    intro a ha
    rcases List.mem_cons.mp ha with rfl | ha
    · rfl
    · rw [List.eq_of_mem_replicate ha]
  intro a ha
  rw [hframe a ha, frameLong_length]
  decide

/-- They are all read. -/
theorem arrivalsMany_reported :
    reported 1418418 arrivalsMany = List.replicate 1418418 frameLong := by
  have hlength : arrivalsMany.length = 1418418 := by
    rw [arrivalsMany, List.length_cons, List.length_replicate]
  have hwaits : waits arrivalsMany = 10000000001 :: List.replicate 1418417 100000 := by
    rw [waits, arrivalsMany, List.map_cons, List.map_replicate]
  have hspent : spent (List.replicate 1418417 100000) 1418417 < 4294967295 := by
    rw [spent_replicate]
    decide
  have hlasting : lasting 4294967295 (List.replicate 1418417 100000) = 1418417 := by
    rw [lasting_eq_length (by decide) (by rw [List.length_replicate]; exact hspent),
      List.length_replicate]
  have hleft : leftOver 10000 10000000001 = 4294967295 := by decide
  have hreadable : readable arrivalsMany = 1418418 := by
    rw [readable, hwaits, lasting_cons (by decide), hleft, hlasting]
  have hmin : Nat.min (Int.toNat 1418418) 1418418 = arrivalsMany.length := by
    rw [hlength]
    rfl
  rw [reported, hreadable, hmin, List.take_length, arrivalsMany, List.map_cons, List.map_replicate,
    ← List.replicate_succ]

/-- A run in which 1418418 frames have a negative number of bytes. -/
theorem byteCounter_wraps :
    parse_args [.arg ⟨lit "1418418", by decide⟩] = .ok ⟨eth0, 1418418⟩ ∧
    (∀ a ∈ arrivalsMany, 14 ≤ a.frame.length ∧ a.frame.length ≤ 1514) ∧
    volume (ofType 0x0800 (reported 1418418 arrivalsMany)) = 2147484852 ∧
    ∃ w', (assignment2 1418419 1418418).run
        (start (kernelDemo.reporting arrivalsMany) 0 0 [] []) = (.ok (), w') ∧
      .stdout "0x0800: 1418418 frames, -2147482444 bytes
" ∈ w'.out ∧
      ¬ PrintsExactly kernelDemo.hwaddr (reported 1418418 arrivalsMany)
        (decide (readable arrivalsMany < 1418418)) w'.out := by
  have htype : frameType frameLong = 0x0800 := rfl
  have hof : ofType 0x0800 (reported 1418418 arrivalsMany) = List.replicate 1418418 frameLong := by
    rw [arrivalsMany_reported, ← htype, ofType_replicate]
  have hvolume : volume (ofType 0x0800 (reported 1418418 arrivalsMany)) = 2147484852 := by
    rw [hof, volume_replicate, frameLong_length]
  have hlen : (reported 1418418 arrivalsMany).length = 1418418 := by
    rw [arrivalsMany_reported, List.length_replicate]
  obtain ⟨es, w', hrun, h⟩ := assignment2_reporting kernelDemo arrivalsMany rfl (fun _ => rfl)
    arrivalsMany_size (by decide : (0 : Int) ≤ 0) 0 [] [] 1418418
    (by rw [arrivalsMany, List.length_cons, List.length_replicate]; decide : _ < 1418419)
  refine ⟨by decide, arrivalsMany_size, hvolume, w', hrun, ?_, ?_⟩
  · have hmem : 0x0800 ∈ es.map Entry.ethType := by
      rw [h.counts.types, arrivalsMany_reported, List.map_replicate, htype]
      exact List.mem_replicate.mpr ⟨by decide, rfl⟩
    obtain ⟨e, he, htype'⟩ := List.mem_map.mp hmem
    obtain ⟨hframes, hbytes⟩ := h.counts.exact e he
    rw [htype', hvolume] at hbytes
    rw [htype', hof, List.length_replicate] at hframes
    have hline : line e = .stdout "0x0800: 1418418 frames, -2147482444 bytes
" := by
      rw [line, htype', hframes, hbytes]
      decide
    rw [h.out, ← hline, summary]
    exact List.mem_append_right _ (List.mem_append_left _ (List.mem_map_of_mem he))
  · intro hp
    have hexact := ((h.printsExactly_iff (by omega)).mp hp).1 0x0800
    omega

end Grnvs.Stats
