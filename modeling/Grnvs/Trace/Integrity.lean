/-
  The checksum test of `checkIcmpProperties` against the test of RFC 1071.

  The receiver clears the checksum field, computes the checksum anew and compares; RFC 1071 adds up
  everything, the stored checksum included, and looks for the second form of zero. Because the
  pseudo-header is never all zeros the two agree (`checkIcmpProperties_iff`), except that the
  receiver never accepts 0xffff, a checksum it cannot compute. A datagram that is accepted and one
  that differs from it in a single word have sums that differ by the words, so the other one is
  rejected unless the words are the two forms of zero.
-/
import Grnvs.Trace.Verdict

namespace Grnvs.Trace

open Bytes OnesComplement

/-- The words RFC 1071 adds up for an ICMPv6 message at offset 40, the stored checksum included. -/
def summed (buffer : List Byte) : List Nat :=
  words (pseudoHeader (source buffer) (destination buffer) (buffer.length - 40) ++ buffer.drop 40)

section Cleared

variable {buffer : List Byte} {pos : Nat}

/-- An address in front of the checksum field is not touched by clearing it. -/
theorem source_cleared (h : 22 ≤ pos) : source (cleared buffer pos) = source buffer := by
  apply List.ext_getElem?
  intro k
  rw [source, source, List.getElem?_take, List.getElem?_take, List.getElem?_drop,
    List.getElem?_drop]
  split
  · exact cleared_getElem? (by omega) (by omega)
  · rfl

theorem wordAt_cleared (h : pos + 4 ≤ buffer.length) : wordAt (cleared buffer pos) (pos + 2) = 0 := by
  have h1 : (cleared buffer pos)[pos + 2]? = some 0 := by
    rw [cleared, List.getElem?_set_ne (by omega), List.getElem?_set_self (by omega)]
  have h2 : (cleared buffer pos)[pos + 2 + 1]? = some 0 := by
    rw [cleared, List.getElem?_set_self (by rw [List.length_set]; omega)]
  rw [wordAt, List.getD_eq_getElem?_getD, List.getD_eq_getElem?_getD, h1, h2]
  rfl

end Cleared

/-! ## Sums -/

section Sums

variable {buffer buffer' : List Byte}

/-- The sum is that of everything behind offset 8, and a part for the length and the header. -/
theorem summed_sum (h : 40 ≤ buffer.length) :
    (summed buffer).sum = (words (buffer.drop 8)).sum +
      (words (htonl (buffer.length - 40) ++ [0, 0, 0, 58])).sum := by
  have hs : (source buffer).length = 16 := by
    rw [source, List.length_take, List.length_drop]
    omega
  have hd := destination_length h
  have hbody : buffer.drop 8 = source buffer ++ (destination buffer ++ buffer.drop 40) := by
    have hdst : buffer.drop 24 = destination buffer ++ buffer.drop 40 := by
      rw [destination, ← List.drop_drop (i := 16) (j := 24), List.take_append_drop]
    rw [← hdst, source, ← List.drop_drop (i := 16) (j := 8), List.take_append_drop]
  have hl : (htonl (buffer.length - 40) ++ [0, 0, 0, 58]).length = 8 := rfl
  rw [summed, pseudoHeader, List.append_assoc _ _ [0, 0, 0, 58], hbody, List.append_assoc,
    List.append_assoc, words_append (by omega), words_append (by omega), words_append (by omega),
    words_append (by omega : 2 ∣ (source buffer).length),
    words_append (by omega : 2 ∣ (destination buffer).length)]
  simp only [List.sum_append]
  omega

theorem summed_sum_pos (buffer : List Byte) : 0 < (summed buffer).sum :=
  words_sum_pos (b := 58) (by simp [pseudoHeader]) (by decide)

/-- Two datagrams that differ in one word behind offset 8. -/
theorem summed_sum_replace {i : Nat} (h : 40 ≤ buffer.length)
    (hlen : buffer.length = buffer'.length) (hi : 2 ∣ i) (h8 : 8 ≤ i) (hle : i ≤ buffer.length)
    (hsame : ∀ k, k ≠ i → k ≠ i + 1 → buffer[k]? = buffer'[k]?) :
    (summed buffer).sum + wordAt buffer' i = (summed buffer').sum + wordAt buffer i := by
  obtain ⟨j, rfl⟩ : ∃ j, i = 8 + j := ⟨i - 8, by omega⟩
  have hbody : (words (buffer.drop 8)).sum + wordAt (buffer'.drop 8) j =
      (words (buffer'.drop 8)).sum + wordAt (buffer.drop 8) j := by
    apply words_sum_replace
    · omega
    · rw [List.length_drop]
      omega
    · rw [List.length_drop, List.length_drop, hlen]
    · intro k h1 h2
      rw [List.getElem?_drop, List.getElem?_drop]
      exact hsame _ (by omega) (by omega)
  rw [wordAt_drop, wordAt_drop] at hbody
  rw [summed_sum h, summed_sum (hlen ▸ h), ← hlen]
  omega

/-- A total is the second form of zero as a one's-complement sum. -/
theorem sum_summed : sum 65535 (summed buffer) = 0xffff ↔ 65535 ∣ (summed buffer).sum := by
  rw [summed, sum_eq_rep (by decide) (words_le _), rep_eq_max (by decide)]
  exact and_iff_right (summed_sum_pos buffer)

end Sums

/-! ## The two tests -/

section Tests

variable {buffer : List Byte}

theorem be16_eq_iff {c : Nat} (hc : c ≤ 65535) {a b : Byte} :
    be16 c = [a, b] ↔ 256 * a.toNat + b.toNat = c := by
  have ha := a.toNat_lt
  have hb := b.toNat_lt
  have hhi : (UInt8.ofNat (c / 256)).toNat = c / 256 := by
    rw [UInt8.toNat_ofNat']
    omega
  have hlo : (UInt8.ofNat c).toNat = c % 256 := UInt8.toNat_ofNat'
  constructor
  · intro h
    obtain ⟨rfl, rfl⟩ : UInt8.ofNat (c / 256) = a ∧ UInt8.ofNat c = b := by
      simpa [be16] using h
    rw [hhi, hlo]
    omega
  · intro h
    obtain rfl : UInt8.ofNat (c / 256) = a := UInt8.toNat_inj.mp (by omega)
    obtain rfl : UInt8.ofNat c = b := UInt8.toNat_inj.mp (by omega)
    rfl

/-- The stored checksum as a word. -/
theorem stored_eq_be16 {pos c : Nat} (h : pos + 4 ≤ buffer.length) (hc : c ≤ 65535) :
    be16 c = stored buffer pos ↔ wordAt buffer (pos + 2) = c := by
  obtain ⟨a, b, hab, ha, hb⟩ := stored_eq h
  rw [hab, be16_eq_iff hc, wordAt, List.getD_eq_getElem?_getD, List.getD_eq_getElem?_getD, ha]
  have hb' : buffer[pos + 2 + 1]? = some b := hb
  rw [hb']
  rfl

theorem recomputed_eq (buffer : List Byte) :
    recomputed buffer 40 = 65535 - rep 65535 (summed (cleared buffer 40)).sum := by
  have htake : ((cleared buffer 40).drop 40).take (buffer.length - 40) =
      (cleared buffer 40).drop 40 := by
    rw [List.take_of_length_le (by rw [List.length_drop, cleared_length])]
  have hlen : ((cleared buffer 40).drop 40).length = (cleared buffer 40).length - 40 :=
    List.length_drop
  rw [recomputed, htake, rfc1071, checksum_eq, hlen]
  rfl

/-- The receiver's test for a message at offset 40 is the one of RFC 1071 for every stored checksum
    but 0xffff. -/
theorem recomputed_iff (h : 44 ≤ buffer.length) :
    be16 (recomputed buffer 40) = stored buffer 40 ↔
      sum 65535 (summed buffer) = 0xffff ∧ stored buffer 40 ≠ [0xff, 0xff] := by
  have hreplace : (summed buffer).sum = (summed (cleared buffer 40)).sum + wordAt buffer 42 := by
    have hsum := summed_sum_replace (i := 42) (by omega) (cleared_length buffer 40).symm
      (by decide) (by decide) (by omega) fun k h1 h2 => (cleared_getElem? h1 h2).symm
    rwa [wordAt_cleared h, Nat.add_zero] at hsum
  have hall : stored buffer 40 = [0xff, 0xff] ↔ wordAt buffer 42 = 65535 := by
    rw [← stored_eq_be16 h (Nat.le_refl _)]
    exact eq_comm
  have htest : be16 (recomputed buffer 40) = stored buffer 40 ↔
      rep 65535 (summed buffer).sum = 65535 ∧ wordAt buffer 42 ≠ 65535 := by
    rw [recomputed_eq buffer, stored_eq_be16 h (Nat.sub_le _ _), hreplace]
    exact (add_checksum (summed_sum_pos _) (wordAt_le _ _)).symm
  rw [htest, sum_summed, Ne, Ne, hall, rep_eq_max (by decide)]
  exact and_congr_left' (and_iff_right (summed_sum_pos buffer))

/-- The whole result of the receiver's test. -/
theorem checkIcmpProperties_iff (h1 : 44 ≤ buffer.length) (h2 : buffer.length ≤ 1514) :
    ∃ result, checkIcmpProperties buffer 40 = .ok (result, cleared buffer 40) ∧
      (result = true ↔ sum 65535 (summed buffer) = 0xffff ∧ stored buffer 40 ≠ [0xff, 0xff]) := by
  have hcheck : Checkable buffer 40 := by
    constructor <;> omega
  refine ⟨_, checkIcmpProperties_eq hcheck, ?_⟩
  rw [decide_eq_true_iff, recomputed_iff h1]

end Tests

/-! ## Results -/

/-- Zero-the-field, recompute and compare is the test of RFC 1071, except for a stored 0xffff. -/
theorem checkIcmpProperties_standard (buffer : List Byte) (h1 : 44 ≤ buffer.length)
    (h2 : buffer.length ≤ 1514) :
    ∃ result buffer', checkIcmpProperties buffer 40 = .ok (result, buffer') ∧
      (result = true ↔
        sum 65535 (words (pseudoHeader ((buffer.drop 8).take 16) ((buffer.drop 24).take 16)
          (buffer.length - 40) ++ buffer.drop 40)) = 0xffff ∧
        (buffer.drop 42).take 2 ≠ [0xff, 0xff]) ∧
      buffer'.length = buffer.length ∧
      ∀ i, i ≠ 42 → i ≠ 43 → buffer'[i]? = buffer[i]? := by
  obtain ⟨result, hrun, hiff⟩ := checkIcmpProperties_iff h1 h2
  refine ⟨result, cleared buffer 40, hrun, hiff, cleared_length buffer 40, ?_⟩
  intro i hi1 hi2
  exact cleared_getElem? hi1 hi2

/-- An echo reply from fe80::2 to fe80::1. -/
def replyDemo : List Byte :=
  [0x60, 0, 0, 0, 0, 8, 58, 64,
    0xfe, 0x80, 0, 0, 0, 0, 0, 0, 0, 0, 0, 0, 0, 0, 0, 2,
    0xfe, 0x80, 0, 0, 0, 0, 0, 0, 0, 0, 0, 0, 0, 0, 0, 1,
    129, 0, 0xd6, 0xb7, 0xab, 0, 0, 0]

theorem checkIcmpProperties_standard_demo :
    ∃ result buffer', checkIcmpProperties replyDemo 40 = .ok (result, buffer') ∧ result = true := by
  obtain ⟨result, buffer', hrun, hiff, -, -⟩ :=
    checkIcmpProperties_standard replyDemo (by decide) (by decide)
  exact ⟨result, buffer', hrun, hiff.mpr ⟨by decide, by decide⟩⟩

/-- A corruption of one word, the two forms of zero apart, is always noticed. -/
theorem checkIcmpProperties_detects (D D' : List Byte) (i : Nat) (h1 : 44 ≤ D.length)
    (h2 : D.length ≤ 1514) (hlen : D'.length = D.length) (hi : 2 ∣ i) (h8 : 8 ≤ i)
    (hlt : i < D.length) (hsame : ∀ k, k ≠ i → k ≠ i + 1 → D'[k]? = D[k]?)
    (hdiff : wordAt D i ≠ wordAt D' i) (hzero : ¬ (wordAt D i = 0 ∧ wordAt D' i = 0xffff))
    (hzero' : ¬ (wordAt D i = 0xffff ∧ wordAt D' i = 0))
    (haccept : ∃ buffer', checkIcmpProperties D 40 = .ok (true, buffer')) :
    ∃ buffer', checkIcmpProperties D' 40 = .ok (false, buffer') := by
  obtain ⟨buffer', haccept⟩ := haccept
  obtain ⟨result, hrun, hiff⟩ := checkIcmpProperties_iff h1 h2
  rw [haccept] at hrun
  cases hrun
  have hsum := sum_summed.mp (hiff.mp rfl).1
  obtain ⟨result', hrun', hiff'⟩ :=
    @checkIcmpProperties_iff D' (by omega) (by omega)
  refine ⟨cleared D' 40, ?_⟩
  cases result' with
  | false => exact hrun'
  | true =>
    exfalso
    have hsum' := sum_summed.mp (hiff'.mp rfl).1
    have hreplace := summed_sum_replace (by omega) hlen.symm hi h8 (by omega)
      fun k hk1 hk2 => (hsame k hk1 hk2).symm
    have hle := wordAt_le D i
    have hle' := wordAt_le D' i
    omega

/-- The last byte of the checksum of the demo reply cleared. -/
theorem checkIcmpProperties_detects_demo :
    ∃ buffer', checkIcmpProperties (replyDemo.set 43 0) 40 = .ok (false, buffer') := by
  have haccept : ∃ buffer', checkIcmpProperties replyDemo 40 = .ok (true, buffer') := by
    obtain ⟨result, hrun, hiff⟩ :=
      @checkIcmpProperties_iff replyDemo (by decide) (by decide)
    rw [hiff.mpr ⟨by decide, by decide⟩] at hrun
    exact ⟨_, hrun⟩
  have hsame : ∀ k, k ≠ 42 → k ≠ 42 + 1 → (replyDemo.set 43 0)[k]? = replyDemo[k]? :=
    fun k _ hk => List.getElem?_set_ne (Ne.symm hk)
  exact checkIcmpProperties_detects replyDemo (replyDemo.set 43 0) 42 (by decide) (by decide) rfl
    (by decide) (by decide) (by decide) hsame (by decide) (by decide) (by decide) haccept

end Grnvs.Trace
