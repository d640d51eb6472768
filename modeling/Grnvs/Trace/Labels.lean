/-
  Datagrams that differ in their labels: Traffic Class, Flow Label and Hop Limit.

  Behind the first byte nothing looks at them: the walk stands at offset 6 or at multiples of 8, and
  at offset 0 it comes to an end whatever stands there (`Alike.run`). But the version is tested
  together with the four upper bits of the Traffic Class, and a datagram that has any of these set
  is ignored. So two datagrams are treated alike when both are tested or none is, or when both are
  ignored anyway (`labels_irrelevant_iff`).
-/
import Grnvs.Trace.Harmless

namespace Grnvs.Trace

open Bytes OnesComplement

/-- Two arrays that differ at most in bytes 1, 2, 3 and 7. -/
structure Alike (A B : List Byte) : Prop where
  length : A.length = B.length
  same : ∀ i, i ≠ 1 → i ≠ 2 → i ≠ 3 → i ≠ 7 → A[i]? = B[i]?

/-- The walk stands at the next header field of the fixed header, or at a multiple of 8. -/
def Aligned (pos skip : Int) : Prop := pos = 6 ∧ skip = 34 ∨ 8 ∣ pos ∧ 8 ∣ skip

section Alike

variable {A B : List Byte} {pos skip : Int} {n : Nat}

theorem arrayGet_length (h : A.length = B.length) {e : Stop}
    (he : arrayGet A pos = .error e) : arrayGet B pos = .error e := by
  obtain ⟨rfl, hi⟩ := arrayGet_error he
  rcases arrayGet_cases B pos with ⟨m, hm, rfl, -⟩ | ⟨-, hr⟩
  · omega
  · exact hr

theorem Alike.get (h : Alike A B) (h1 : pos ≠ 1) (h2 : pos ≠ 2) (h3 : pos ≠ 3) (h7 : pos ≠ 7) :
    arrayGet A pos = arrayGet B pos := by
  rcases hA : arrayGet A pos with e | b
  · exact (arrayGet_length h.length hA).symm
  · obtain ⟨m, rfl, hm⟩ := arrayGet_inv hA
    rw [h.same m (by omega) (by omega) (by omega) (by omega)] at hm
    exact (arrayGet_eq_ok.mpr hm).symm

/-- A piece behind the labels. -/
theorem Alike.window (h : Alike A B) (hn : 8 ≤ n) (k : Nat) :
    (A.drop n).take k = (B.drop n).take k := by
  apply List.ext_getElem?
  intro i
  rw [List.getElem?_take, List.getElem?_take, List.getElem?_drop, List.getElem?_drop,
    h.same (n + i) (by omega) (by omega) (by omega) (by omega)]

theorem Alike.cleared (h : Alike A B) (n : Nat) : Alike (cleared A n) (cleared B n) where
  length := by rw [cleared_length, cleared_length, h.length]
  same i h1 h2 h3 h7 := by
    rw [Trace.cleared, Trace.cleared, List.getElem?_set, List.getElem?_set, List.getElem?_set,
      List.getElem?_set, List.length_set, List.length_set, h.length, h.same i h1 h2 h3 h7]

/-! ## The walk -/

/-- The same end, or both ends at the first byte of the datagram. -/
inductive SameEnd : Except Stop (Int × Int) → Except Stop (Int × Int) → Prop where
  | same {r : Except Stop (Int × Int)} (h : ∀ p s, r = .ok (p, s) → Aligned p s) : SameEnd r r
  | front {s s' : Int} : SameEnd (.ok (0, s)) (.ok (0, s'))

/-- No header begins at a label. -/
theorem Alike.get_aligned (h : Alike A B) (hal : Aligned pos skip) :
    arrayGet A pos = arrayGet B pos := by
  apply h.get
  all_goals
    rcases hal with ⟨rfl, -⟩ | ⟨hdvd, -⟩
    · omega
    · omega

/-- Two walks in step; the length byte is looked at only behind the first byte. -/
theorem Alike.walk (h : Alike A B) (h0 : A[0]? = some versionIpv6) (hal : Aligned pos skip)
    (fuel : Nat) : SameEnd (walk fuel A pos skip) (walk fuel B pos skip) := by
  induction fuel generalizing pos skip with
  | zero => exact .same fun p s hr => by cases hr
  | succ fuel ih =>
    have hget : arrayGet A pos = arrayGet B pos := h.get_aligned hal
    rcases hb : arrayGet A pos with e | b
    · rw [walk_throws (by rw [walkStep, hb, error_bind]),
        walk_throws (by rw [walkStep, ← hget, hb, error_bind])]
      exact .same fun p s hr => by cases hr
    have hbB : arrayGet B pos = .ok b := hget ▸ hb
    cases hext : isExtension b with
    | false =>
      rw [walk_stay (walkStep_end hb hext), walk_stay (walkStep_end hbB hext)]
      refine .same ?_
      intro p s hr
      cases hr
      exact hal
    | true =>
      have hdvd : (8 : Int) ∣ pos + skip := by
        rcases hal with ⟨rfl, rfl⟩ | ⟨h1, h2⟩
        · decide
        · omega
      rcases hl : arrayGet A (pos + skip + 1) with e | l
      · rw [walk_throws (walkStep_throws hb hext hl),
          walk_throws (walkStep_throws hbB hext (arrayGet_length h.length hl))]
        exact .same fun p s hr => by cases hr
      by_cases hfront : pos + skip = 0
      · -- the length bytes differ, but the byte in front of them ends the walk
        obtain ⟨k, hk⟩ : ∃ k, arrayGet B (pos + skip + 1) = .ok k := by
          rcases hk : arrayGet B (pos + skip + 1) with e | k
          · rw [arrayGet_length h.length.symm hk] at hl
            cases hl
          · exact ⟨k, rfl⟩
        have hA0 : arrayGet A 0 = .ok versionIpv6 := arrayGet_eq_ok.mpr h0
        have hB0 : arrayGet B 0 = .ok versionIpv6 :=
          (h.get (by decide) (by decide) (by decide) (by decide)).symm.trans hA0
        rw [walk_turn (walkStep_turn hb hext hl), walk_turn (walkStep_turn hbB hext hk), hfront]
        cases fuel with
        | zero => exact .same fun p s hr => by cases hr
        | succ fuel =>
          rw [walk_stay (walkStep_end hA0 (by decide)), walk_stay (walkStep_end hB0 (by decide))]
          exact .front
      · have hlB : arrayGet B (pos + skip + 1) = .ok l := by
          rw [← h.get (by omega) (by omega) (by omega) (by omega), hl]
        rw [walk_turn (walkStep_turn hb hext hl), walk_turn (walkStep_turn hbB hext hlB)]
        exact ih (.inr ⟨hdvd, by omega⟩)

/-! ## The message -/

/-- What `GRNVS_RAW.checksum` refuses, it refuses for the lengths alone. -/
theorem checksum_refused_eq {length : Int} (h : A.length = B.length)
    (hA : ¬ Admitted A 0 A pos length) :
    GRNVS_RAW.checksum A 0 A pos length = GRNVS_RAW.checksum B 0 B pos length := by
  unfold GRNVS_RAW.checksum
  rw [← h]
  split
  · rfl
  split
  · rfl
  split
  · rfl
  split
  · rfl
  split
  · rfl
  split
  · rfl
  exact absurd ⟨by omega, by omega, by omega, by omega, by omega, by omega⟩ hA

/-- At places where the test of the checksum throws, it throws the same. -/
theorem checkIcmpProperties_length (h : A.length = B.length)
    (hA : ¬ ∃ n : Nat, pos = n ∧ Checkable A n) :
    checkIcmpProperties A pos = checkIcmpProperties B pos := by
  by_cases hfield : 0 ≤ pos + 2 ∧ pos + 4 ≤ A.length
  · obtain ⟨n, hn⟩ := Int.eq_ofNat_of_zero_le hfield.1
    have hB : ¬ ∃ n : Nat, pos = n ∧ Checkable B n := by
      rintro ⟨k, hk, h1, h2, h3, h4⟩
      exact hA ⟨k, hk, by constructor <;> omega⟩
    obtain ⟨hrefused, m, hm, hrunA⟩ := checkIcmpProperties_refused hn hfield.2 hA
    obtain ⟨-, m', hm', hrunB⟩ := checkIcmpProperties_refused hn (h ▸ hfield.2) hB
    have hcleared : ((A.set n 0).set (n + 1) 0).length = ((B.set n 0).set (n + 1) 0).length := by
      rw [List.length_set, List.length_set, List.length_set, List.length_set, h]
    have heq := checksum_refused_eq hcleared hrefused
    rw [hm, hcleared, hm'] at heq
    cases heq
    rw [hrunA, hrunB]
  · rw [checkIcmpProperties_outside hfield, checkIcmpProperties_outside (h ▸ hfield)]

/-- Behind the first byte, the stored and the recomputed checksum are the same. -/
theorem Alike.checksum (h : Alike A B) (hn : 8 ≤ n) :
    stored A n = stored B n ∧ recomputed A n = recomputed B n := by
  refine ⟨h.window (by omega) 2, ?_⟩
  have hc := h.cleared n
  rw [recomputed, recomputed, source, source, destination, destination,
    hc.window (Nat.le_refl 8) 16, hc.window (by decide : 8 ≤ 24) 16, hc.window hn, h.length]

theorem Alike.checkable (h : Alike A B) (hc : Checkable A n) : Checkable B n := by
  have := h.length
  obtain ⟨h1, h2, h3, h4⟩ := hc
  constructor <;> omega

/-- So is what the handlers do. -/
theorem Alike.dispatch {w : World} (h : Alike A B) (hn : 8 ≤ n) (hc : Checkable A n) :
    (dispatch (Trace.cleared A n) n).run w = (dispatch (Trace.cleared B n) n).run w := by
  have hcB : Checkable B n := h.checkable hc
  obtain ⟨type, -, htype, -, -, -⟩ := cleared_type hc
  have htypeB : B[n]? = some type := by
    rw [← h.same n (by omega) (by omega) (by omega) (by omega), htype]
  have hsource : source (Trace.cleared A n) = source (Trace.cleared B n) :=
    (h.cleared n).window (Nat.le_refl 8) 16
  have hget (i : Int) (hi : 8 ≤ i) :
      arrayGet (Trace.cleared A n) i = arrayGet (Trace.cleared B n) i :=
    (h.cleared n).get (by omega) (by omega) (by omega) (by omega)
  rw [dispatch_run hc htype, dispatch_run hcB htypeB, hsource]
  simp only [handleIcmpTimeEx, handleIcmpDestUnreach, handleIcmpEchoRep,
    hget (n + 1) (by omega), hget (n + 4) (by omega), hget (n + 5) (by omega)]

/-- A message in front of the labels has the version for its type, and is none of the three. -/
theorem dispatch_front {w : World} (h0 : A[0]? = some versionIpv6) (hc : Checkable A 0) :
    (Trace.dispatch (Trace.cleared A 0) (0 : Nat)).run w = (.ok false, w) := by
  rw [dispatch_run hc h0, if_neg (by decide), if_neg (by decide), if_neg (by decide)]
  rfl

/-- Two walks that have come to a message of which the checksum can be tested. -/
theorem Alike.message {w : World} {fuel : Nat} {p s : Int} (h : Alike A B)
    (h0 : A[0]? = some versionIpv6) (hA : Trace.walk fuel A 6 34 = .ok (p, s))
    (hB : Trace.walk fuel B 6 34 = .ok (p, s)) (hal : Aligned p s)
    (hnh : arrayGet A p = .ok icmpNH) (hn : p + s = n) (hc : Checkable A n) :
    (searchIcmp fuel A).run w = (searchIcmp fuel B).run w := by
  have hcB : Checkable B n := h.checkable hc
  have h0B : B[0]? = some versionIpv6 := by
    rw [← h.same 0 (by decide) (by decide) (by decide) (by decide), h0]
  rw [searchIcmp_run hA hnh hn hc, searchIcmp_run hB (h.get_aligned hal ▸ hnh) hn hcB]
  by_cases hfront : n = 0
  · subst hfront
    have hd := dispatch_front (w := w) h0 hc
    have hdB := dispatch_front (w := w) h0B hcB
    split
    · rw [hd]
      split
      · rw [hdB]
      · rfl
    · split
      · rw [hdB]
        rfl
      · rfl
  · have hn8 : 8 ≤ n := by
      rcases hal with ⟨rfl, rfl⟩ | ⟨h1, h2⟩
      · omega
      · omega
    obtain ⟨hstored, hrecomputed⟩ := h.checksum hn8
    rw [hstored, hrecomputed]
    split
    · exact h.dispatch hn8 hc
    · rfl

theorem Alike.searchIcmp {w : World} (h : Alike A B) (h0 : A[0]? = some versionIpv6)
    (fuel : Nat) : (searchIcmp fuel A).run w = (searchIcmp fuel B).run w := by
  have hwalk := h.walk h0 (.inl ⟨rfl, rfl⟩ : Aligned 6 34) fuel
  generalize hA : Trace.walk fuel A 6 34 = rA at hwalk
  generalize hB : Trace.walk fuel B 6 34 = rB at hwalk
  cases hwalk with
  | @front s s' =>
    have hA0 : arrayGet A 0 = .ok versionIpv6 := arrayGet_eq_ok.mpr h0
    have hB0 : arrayGet B 0 = .ok versionIpv6 :=
      (h.get (by decide) (by decide) (by decide) (by decide)).symm.trans hA0
    rw [Trace.searchIcmp, Trace.searchIcmp, Comp.lift_bind hA, Comp.lift_bind hB]
    dsimp only
    rw [Comp.lift_bind hA0, Comp.lift_bind hB0, if_neg (by decide), if_neg (by decide)]
  | same hal =>
    rcases rA with e | ⟨p, s⟩
    · rw [Trace.searchIcmp, Trace.searchIcmp, Comp.lift_bind_error hA, Comp.lift_bind_error hB]
    have hps := hal p s rfl
    have hget : arrayGet A p = arrayGet B p := h.get_aligned hps
    rcases hb : arrayGet A p with e | b
    · rw [Trace.searchIcmp, Trace.searchIcmp, Comp.lift_bind hA, Comp.lift_bind hB]
      dsimp only
      rw [Comp.lift_bind_error hb, Comp.lift_bind_error (hget ▸ hb)]
    have hbB : arrayGet B p = .ok b := hget ▸ hb
    by_cases hnh : b = icmpNH
    · subst hnh
      by_cases hat : ∃ n : Nat, p + s = n ∧ Checkable A n
      · obtain ⟨n, hn, hc⟩ := hat
        exact h.message h0 hA hB hps hb hn hc
      · have hc := checkIcmpProperties_length h.length hat
        obtain ⟨e, he, -⟩ := checkIcmpProperties_error hat
        rw [Trace.searchIcmp, Trace.searchIcmp, Comp.lift_bind hA, Comp.lift_bind hB]
        dsimp only
        rw [Comp.lift_bind hb, Comp.lift_bind hbB, if_pos rfl, if_pos rfl,
          Comp.lift_bind_error he, Comp.lift_bind_error (hc ▸ he)]
    · rw [Trace.searchIcmp, Trace.searchIcmp, Comp.lift_bind hA, Comp.lift_bind hB]
      dsimp only
      rw [Comp.lift_bind hb, Comp.lift_bind hbB, if_neg hnh, if_neg hnh]

/-- Nothing looks at the labels of a datagram whose first byte is tested as equal. -/
theorem Alike.run {w : World} (h : Alike A B) (h0 : A[0]? = some versionIpv6)
    (hlen : 40 ≤ A.length) (fuel : Nat) :
    (checkMessage fuel A).run w = (checkMessage fuel B).run w := by
  have hA0 : arrayGet A 0 = .ok versionIpv6 := arrayGet_eq_ok.mpr h0
  have hB0 : arrayGet B 0 = .ok versionIpv6 :=
    (h.get (by decide) (by decide) (by decide) (by decide)).symm.trans hA0
  have hhost := destination_length hlen
  have hdst : destination A = destination B := h.window (by decide : 8 ≤ 24) 16
  have hcopyA : arraycopy A 24 (zeros 16) 0 16 = .ok (destination A) :=
    arraycopy_new (by omega : 24 + 16 ≤ A.length)
  have hcopyB : arraycopy B 24 (zeros 16) 0 16 = .ok (destination A) := by
    rw [hdst]
    exact arraycopy_new (by rw [← h.length]; omega : 24 + 16 ≤ B.length)
  rw [checkMessage, checkMessage, Comp.lift_bind hA0, Comp.lift_bind hB0,
    if_neg (not_not.mpr rfl), if_neg (not_not.mpr rfl), Comp.lift_bind hcopyA,
    Comp.lift_bind hcopyB, Comp.lift_bind (hostAddress_ok hhost),
    Comp.lift_bind (hostAddress_ok hhost), Comp.gets_bind, Comp.gets_bind]
  rcases hown : hostAddress w.myIP with e | own
  · rw [Comp.lift_bind_error rfl, Comp.lift_bind_error rfl]
  rw [Comp.lift_bind rfl, Comp.lift_bind rfl]
  split
  · rfl
  · exact h.searchIcmp h0 fuel

end Alike

/-! ## The verdict -/

/-- A datagram that is rejected without a trace. -/
def Ignored (me buffer : List Byte) : Prop :=
  Harmless me buffer ∧ ∀ pos, ¬ Passes me buffer pos

section Ignored

variable {buffer : List Byte} {w : World}

theorem Ignored.run (h : Ignored w.myIP buffer) (hme : w.myIP.length = 16)
    (hlen : 1 ≤ buffer.length) :
    ∃ n, ∀ fuel, n ≤ fuel → (checkMessage fuel buffer).run w = (.ok false, w) := by
  obtain ⟨n, hn⟩ := h.1.run hme hlen
  refine ⟨n, fun fuel hf => ?_⟩
  have hout := checkMessage_outcome hme fuel buffer
  have hret := hn fuel
  generalize (checkMessage fuel buffer).run w = r at hout hret
  cases hout with
  | throws e why =>
    rcases hret with ⟨done, he⟩ | ⟨hlt, -⟩
    · cases he
    · omega
  | rejects => rfl
  | @accepts pos hp => exact absurd hp (h.2 pos)

theorem ignored_of_run {fuel : Nat} (hlen : 1 ≤ buffer.length)
    (h : (checkMessage fuel buffer).run w = (.ok false, w)) : Ignored w.myIP buffer := by
  constructor
  · have hret : ((checkMessage fuel buffer).run w).1 = .ok false := by rw [h]
    exact harmless_of_returns hlen hret
  · intro pos hp
    exact hp.not_rejected fuel (by rw [h])

/-- Datagrams of another version are. -/
theorem ignored_of_version (h : buffer[0]? ≠ some versionIpv6) (me : List Byte) :
    Ignored me buffer :=
  ⟨.inl h, fun _ hp => h hp.reaches.version⟩

/-- What is treated like an ignored datagram is ignored. -/
theorem Ignored.alike_iff {other : List Byte} (h : Ignored w.myIP buffer)
    (hme : w.myIP.length = 16) (hlen : 1 ≤ buffer.length) (hother : 1 ≤ other.length) :
    (∃ n, ∀ fuel, n ≤ fuel →
      (checkMessage fuel buffer).run w = (checkMessage fuel other).run w) ↔
    Ignored w.myIP other := by
  obtain ⟨m, hm⟩ := h.run hme hlen
  constructor
  · rintro ⟨n, hn⟩
    have hrun := hn (max n m) (Nat.le_max_left n m)
    rw [hm (max n m) (Nat.le_max_right n m)] at hrun
    exact ignored_of_run hother hrun.symm
  · intro ho
    obtain ⟨n, hn⟩ := ho.run hme hother
    refine ⟨max n m, fun fuel hf => ?_⟩
    rw [hm fuel (by omega), hn fuel (by omega)]

end Ignored

/-- Two datagrams with other labels are treated alike when the version test finds what it looks for
    in both or in neither, or when both are ignored anyway. -/
theorem labels_irrelevant_iff (A B : List Byte) (w : World) (hme : w.myIP.length = 16)
    (hlen : A.length = B.length) (hheader : 40 ≤ A.length)
    (hsame : ∀ i, 4 ≤ i → i ≠ 7 → A[i]? = B[i]?) :
    (∃ n, ∀ fuel, n ≤ fuel → (checkMessage fuel A).run w = (checkMessage fuel B).run w) ↔
      (A[0]? = some 0x60 ↔ B[0]? = some 0x60) ∨ Ignored w.myIP A ∧ Ignored w.myIP B := by
  by_cases hA : A[0]? = some versionIpv6
  · by_cases hB : B[0]? = some versionIpv6
    · have halike : Alike A B := by
        refine ⟨hlen, fun i i1 i2 i3 i7 => ?_⟩
        by_cases h0 : i = 0
        · rw [h0, hA, hB]
        · exact hsame i (by omega) i7
      exact iff_of_true ⟨0, fun fuel _ => halike.run hA hheader fuel⟩ (.inl (iff_of_true hA hB))
    · have hBi : Ignored w.myIP B := ignored_of_version hB _
      have hcomm := hBi.alike_iff hme (by omega) (by omega : 1 ≤ A.length)
      simp only [eq_comm (a := (checkMessage _ B).run w)] at hcomm
      rw [hcomm]
      constructor
      · exact fun hAi => .inr ⟨hAi, hBi⟩
      · rintro (hiff | ⟨hAi, -⟩)
        · exact absurd (hiff.mp hA) hB
        · exact hAi
  · have hAi : Ignored w.myIP A := ignored_of_version hA _
    rw [hAi.alike_iff hme (by omega) (by omega)]
    constructor
    · exact fun hBi => .inr ⟨hAi, hBi⟩
    · rintro (hiff | ⟨-, hBi⟩)
      · exact ignored_of_version (fun hB => hA (hiff.mpr hB)) _
      · exact hBi

/-- The demo reply with other values in bytes 1, 2, 3 and 7. -/
theorem labels_irrelevant_demo : ∃ n, ∀ fuel, n ≤ fuel →
    (checkMessage fuel replyDemo).run (World.idle (destination replyDemo)) =
    (checkMessage fuel ((((replyDemo.set 1 0x0a).set 2 0xbc).set 3 0xde).set 7 1)).run
      (World.idle (destination replyDemo)) := by
  have hsame : ∀ i, 4 ≤ i → i ≠ 7 →
      replyDemo[i]? = ((((replyDemo.set 1 0x0a).set 2 0xbc).set 3 0xde).set 7 1)[i]? := by
    intro i hi h7
    rw [List.getElem?_set_ne (by omega), List.getElem?_set_ne (by omega),
      List.getElem?_set_ne (by omega), List.getElem?_set_ne (by omega)]
  exact (labels_irrelevant_iff replyDemo _ (World.idle (destination replyDemo)) (by decide)
    (by decide) (by decide) hsame).mpr (.inl (by decide))

/-- The demo reply is accepted; with the Traffic Class 0xb0 it is not. -/
theorem trafficClass_decides :
    (∀ i, 1 ≤ i → replyDemo[i]? = (replyDemo.set 0 0x6b)[i]?) ∧
    (∃ n, ∀ fuel, n ≤ fuel → (checkMessage fuel replyDemo).run (World.idle (destination replyDemo)) =
      (.ok true, (World.idle (destination replyDemo)).accept "  fe80:0:0:0:0:0:0:2")) ∧
    (∀ fuel, (checkMessage fuel (replyDemo.set 0 0x6b)).run (World.idle (destination replyDemo)) =
      (.ok false, World.idle (destination replyDemo))) ∧
    ¬ ∃ n, ∀ fuel, n ≤ fuel →
      (checkMessage fuel replyDemo).run (World.idle (destination replyDemo)) =
      (checkMessage fuel (replyDemo.set 0 0x6b)).run (World.idle (destination replyDemo)) := by
  have haccepted : ∃ n, ∀ fuel, n ≤ fuel →
      (checkMessage fuel replyDemo).run (World.idle (destination replyDemo)) =
      (.ok true, (World.idle (destination replyDemo)).accept "  fe80:0:0:0:0:0:0:2") := by
    have hpasses : Passes (World.idle (destination replyDemo)).myIP replyDemo 40 := replyDemo_passes
    have htoken : token replyDemo 40 = "  fe80:0:0:0:0:0:0:2" := by decide +kernel
    have hrun := hpasses.run (w := World.idle (destination replyDemo))
    rwa [htoken] at hrun
  have hrejected (fuel : Nat) :
      (checkMessage fuel (replyDemo.set 0 0x6b)).run (World.idle (destination replyDemo)) =
      (.ok false, World.idle (destination replyDemo)) := by
    have hversion : arrayGet (replyDemo.set 0 0x6b) 0 = .ok 0x6b := by decide
    rw [checkMessage, Comp.lift_bind hversion, if_pos (by decide)]
    rfl
  refine ⟨fun i hi => (List.getElem?_set_ne (by omega)).symm, haccepted, hrejected, ?_⟩
  rintro ⟨n, hn⟩
  obtain ⟨m, hm⟩ := haccepted
  have hrun := hn (max n m) (Nat.le_max_left n m)
  rw [hm _ (Nat.le_max_right n m), hrejected] at hrun
  cases hrun

end Grnvs.Trace
