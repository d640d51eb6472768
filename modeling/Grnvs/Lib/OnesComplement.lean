/-
  One's-complement sums, and the Internet checksum of RFC 1071.

  Adding two digits of base `m + 1` and bringing the carry round to the bottom is addition modulo
  `m` in which zero has two forms, `0` and `m`. `rep m n` is the form a sum takes: `0` only for the
  sum of nothing but zeros, `m` for every other multiple of `m`. A sum of digits (`sum_eq_rep`) and
  a total that is folded down (`eq_rep` on what `carry` keeps) are both `rep` of the plain sum, and
  exchanging the two bytes of a word turns `rep m n` into `rep m (256 * n)` (`swap_rep`), so a sum
  does not depend on the byte order it is taken in.
-/
import Grnvs.Lib.Bytes
import Mathlib.Data.Nat.ModEq
import Mathlib.Algebra.BigOperators.Group.List.Basic

namespace OnesComplement

variable {m n x : Nat}

/-- Bring the carry out of the lowest digit round to the bottom. -/
def carry (m n : Nat) : Nat := n / (m + 1) + n % (m + 1)

/-- One's-complement addition of two digits of base `m + 1`. -/
def add (m a b : Nat) : Nat := carry m (a + b)

/-- The one's-complement sum of a list of digits. -/
def sum (m : Nat) (ws : List Nat) : Nat := ws.foldl (add m) 0

/-- The digit that stands for the number `n`: zero has its second form `m` unless `n` is zero. -/
def rep (m n : Nat) : Nat := if n = 0 then 0 else (n - 1) % m + 1

theorem carry_modEq (m n : Nat) : carry m n ≡ n [MOD m] := by
  have h : (m + 1) * (n / (m + 1)) + n % (m + 1) = n := Nat.div_add_mod n (m + 1)
  have h' : carry m n + m * (n / (m + 1)) = n := by
    rw [Nat.add_one_mul] at h
    unfold carry
    omega
  calc carry m n ≡ carry m n + m * (n / (m + 1)) [MOD m] := by
        simp [Nat.ModEq]
    _ = n := h'

theorem carry_of_le (h : n ≤ m) : carry m n = n := by
  rw [carry, Nat.div_eq_of_lt (by omega), Nat.mod_eq_of_lt (by omega), Nat.zero_add]

theorem carry_eq_zero : carry m n = 0 ↔ n = 0 := by
  constructor
  · intro h
    obtain ⟨hq, hr⟩ : n / (m + 1) = 0 ∧ n % (m + 1) = 0 := Nat.add_eq_zero_iff.mp h
    rw [← Nat.div_add_mod n (m + 1), hq, hr, Nat.mul_zero]
  · intro h
    rw [h, carry_of_le (Nat.zero_le m)]

theorem carry_le {a b : Nat} (ha : a ≤ m) (hb : b ≤ m) : carry m (a + b) ≤ m := by
  rcases Nat.lt_or_ge m (a + b) with h | h
  · rw [carry, Nat.div_eq_sub_div (Nat.succ_pos m) h, Nat.div_eq_of_lt (by omega),
      Nat.mod_eq_sub_mod h, Nat.mod_eq_of_lt (by omega)]
    omega
  · rw [carry_of_le h]
    exact h

/-! ## The form a sum takes -/

@[simp] theorem rep_zero (m : Nat) : rep m 0 = 0 := rfl

@[simp] theorem rep_eq_zero : rep m n = 0 ↔ n = 0 := by
  unfold rep
  split <;> simp_all

theorem rep_le (hm : 0 < m) (n : Nat) : rep m n ≤ m := by
  unfold rep
  split
  · exact Nat.zero_le m
  · exact Nat.mod_lt _ hm

theorem rep_modEq (m n : Nat) : rep m n ≡ n [MOD m] := by
  unfold rep
  split
  · rename_i h
    rw [h]
  · rename_i h
    calc (n - 1) % m + 1 ≡ n - 1 + 1 [MOD m] := (Nat.mod_modEq _ _).add_right 1
      _ = n := Nat.succ_pred h

/-- A digit is the form of every number it agrees with, the two zeros kept apart. -/
theorem eq_rep (hx : x ≤ m) (h : x ≡ n [MOD m]) (h0 : x = 0 ↔ n = 0) : x = rep m n := by
  unfold rep
  split
  · exact h0.mpr ‹_›
  · rename_i hn
    have hx0 : x ≠ 0 := fun hx0 => hn (h0.mp hx0)
    have h1 : (x - 1) + 1 ≡ (n - 1) + 1 [MOD m] := by
      rwa [Nat.sub_add_cancel (Nat.pos_of_ne_zero hx0), Nat.sub_add_cancel (Nat.pos_of_ne_zero hn)]
    have h2 : (x - 1) % m = (n - 1) % m := Nat.ModEq.add_right_cancel' 1 h1
    rw [← h2, Nat.mod_eq_of_lt (by omega)]
    omega

theorem rep_congr (hm : 0 < m) (h : x ≡ n [MOD m]) (h0 : x = 0 ↔ n = 0) : rep m x = rep m n :=
  eq_rep (rep_le hm x) ((rep_modEq m x).trans h) (rep_eq_zero.trans h0)

/-- The second form of zero stands for the multiples of `m` other than zero. -/
theorem rep_eq_max (hm : 0 < m) : rep m n = m ↔ 0 < n ∧ m ∣ n := by
  constructor
  · intro h
    refine ⟨Nat.pos_of_ne_zero fun hn => ?_, ?_⟩
    · rw [hn, rep_zero] at h
      omega
    · have hr := rep_modEq m n
      rw [h] at hr
      exact (Nat.modEq_zero_iff_dvd).mp (hr.symm.trans (by simp [Nat.ModEq]))
  · rintro ⟨hn, hd⟩
    refine (eq_rep (Nat.le_refl m) ?_ (by omega)).symm
    exact Nat.ModEq.trans (by simp [Nat.ModEq]) ((Nat.modEq_zero_iff_dvd).mpr hd).symm

/-! ## Sums of digits -/

theorem add_rep (hm : 0 < m) {b : Nat} (hb : b ≤ m) : add m (rep m n) b = rep m (n + b) := by
  refine eq_rep (carry_le (rep_le hm n) hb) ?_ ?_
  · exact (carry_modEq m _).trans ((rep_modEq m n).add_right b)
  · rw [add, carry_eq_zero, Nat.add_eq_zero_iff, rep_eq_zero, Nat.add_eq_zero_iff]

theorem foldl_add (hm : 0 < m) (ws : List Nat) (hws : ∀ w ∈ ws, w ≤ m) :
    ws.foldl (add m) (rep m n) = rep m (n + ws.sum) := by
  induction ws generalizing n with
  | nil => rfl
  | cons w ws ih =>
    rw [List.foldl_cons, add_rep hm (hws w List.mem_cons_self),
      ih fun v hv => hws v (List.mem_cons_of_mem w hv), List.sum_cons, Nat.add_assoc]

/-- The one's-complement sum is the form of the plain sum. -/
theorem sum_eq_rep (hm : 0 < m) {ws : List Nat} (hws : ∀ w ∈ ws, w ≤ m) :
    sum m ws = rep m ws.sum := by
  have h := foldl_add (n := 0) hm ws hws
  rwa [Nat.zero_add] at h

/-! ## Bytes and words -/

/-- The 16-bit words of a text in network byte order, the last one padded with a zero byte. -/
def words : List Byte → List Nat
  | a :: b :: bs => (256 * a.toNat + b.toNat) :: words bs
  | [a] => [256 * a.toNat]
  | [] => []

/-- The same words with the first byte as the low one. -/
def wordsLE : List Byte → List Nat
  | a :: b :: bs => (a.toNat + 256 * b.toNat) :: wordsLE bs
  | [a] => [a.toNat]
  | [] => []

/-- The two bytes of a word exchanged. -/
def swap (w : Nat) : Nat := 256 * (w % 256) + w / 256

/-- The Internet checksum: the complement of the one's-complement sum of the words. -/
def checksum (bs : List Byte) : Nat := 65535 - sum 65535 (words bs)

/-- A word as two bytes in network byte order. -/
def be16 (w : Nat) : List Byte := [UInt8.ofNat (w / 256), UInt8.ofNat w]

theorem words_le (bs : List Byte) : ∀ w ∈ words bs, w ≤ 65535 := by
  induction bs using words.induct with
  | case1 a b bs ih =>
    intro w hw
    rcases List.mem_cons.mp hw with rfl | hw
    · have ha := a.toNat_lt
      have hb := b.toNat_lt
      omega
    · exact ih w hw
  | case2 a =>
    intro w hw
    have ha := a.toNat_lt
    rw [List.mem_singleton.mp hw]
    omega
  | case3 => exact fun w hw => absurd hw List.not_mem_nil

theorem checksum_eq (bs : List Byte) : checksum bs = 65535 - rep 65535 (words bs).sum := by
  rw [checksum, sum_eq_rep (by decide) (words_le bs)]

/-- A text of even length ends at a word. -/
theorem words_append {p : List Byte} (hp : 2 ∣ p.length) (q : List Byte) :
    words (p ++ q) = words p ++ words q := by
  induction p using words.induct with
  | case1 a b p ih =>
    have hp' : 2 ∣ p.length := by
      simp only [List.length_cons] at hp
      omega
    rw [List.cons_append, List.cons_append, words, words, ih hp', List.cons_append]
  | case2 a => simp at hp
  | case3 => rfl

/-- The word at offset `i`, which stands for zero behind the end. -/
def wordAt (bs : List Byte) (i : Nat) : Nat := 256 * (bs.getD i 0).toNat + (bs.getD (i + 1) 0).toNat

theorem wordAt_le (bs : List Byte) (i : Nat) : wordAt bs i ≤ 65535 := by
  have h1 := (bs.getD i 0).toNat_lt
  have h2 := (bs.getD (i + 1) 0).toNat_lt
  unfold wordAt
  omega

theorem wordAt_drop (bs : List Byte) (k i : Nat) : wordAt (bs.drop k) i = wordAt bs (k + i) := by
  simp only [wordAt, List.getD_eq_getElem?_getD, List.getElem?_drop, Nat.add_assoc]

theorem words_sum_front (bs : List Byte) :
    (words bs).sum = wordAt bs 0 + (words (bs.drop 2)).sum := by
  match bs with
  | a :: b :: bs => exact List.sum_cons
  | [a] => rfl
  | [] => rfl

/-- The sum of the words, one of them taken out. -/
theorem words_sum_split {bs : List Byte} {i : Nat} (hi : 2 ∣ i) (hle : i ≤ bs.length) :
    (words bs).sum = (words (bs.take i)).sum + wordAt bs i + (words (bs.drop (i + 2))).sum := by
  have hdvd : 2 ∣ (bs.take i).length := by rwa [List.length_take, Nat.min_eq_left hle]
  have htail : (words (bs.drop i)).sum = wordAt bs i + (words (bs.drop (i + 2))).sum := by
    rw [words_sum_front, wordAt_drop, List.drop_drop, Nat.add_zero]
  conv_lhs => rw [← List.take_append_drop i bs, words_append hdvd, List.sum_append, htail]
  exact (Nat.add_assoc _ _ _).symm

/-- Two texts that differ in one word: the sums differ by what the words differ. -/
theorem words_sum_replace {as bs : List Byte} {i : Nat} (hi : 2 ∣ i) (hle : i ≤ as.length)
    (hlen : as.length = bs.length) (h : ∀ k, k ≠ i → k ≠ i + 1 → as[k]? = bs[k]?) :
    (words as).sum + wordAt bs i = (words bs).sum + wordAt as i := by
  have htake : as.take i = bs.take i := by
    apply List.ext_getElem?
    intro k
    rw [List.getElem?_take, List.getElem?_take]
    split
    · exact h k (by omega) (by omega)
    · rfl
  have hdrop : as.drop (i + 2) = bs.drop (i + 2) := by
    apply List.ext_getElem?
    intro k
    rw [List.getElem?_drop, List.getElem?_drop]
    exact h _ (by omega) (by omega)
  have has := words_sum_split hi hle
  have hbs := words_sum_split hi (hlen ▸ hle)
  rw [htake, hdrop] at has
  omega

theorem words_sum_pos {bs : List Byte} {b : Byte} (hb : b ∈ bs) (h : b ≠ 0) :
    0 < (words bs).sum := by
  have hpos : 0 < b.toNat := by
    rcases Nat.eq_zero_or_pos b.toNat with h0 | h0
    · exact absurd (UInt8.toNat_inj.mp h0) h
    · exact h0
  induction bs using words.induct with
  | case1 c d bs ih =>
    rw [words, List.sum_cons]
    rcases List.mem_cons.mp hb with rfl | hb
    · omega
    · rcases List.mem_cons.mp hb with rfl | hb
      · omega
      · have := ih hb
        omega
  | case2 c =>
    rw [List.mem_singleton.mp hb] at hpos
    rw [words, List.sum_singleton]
    omega
  | case3 => exact absurd hb List.not_mem_nil

/-! ## The other byte order -/

theorem swap_modEq (w : Nat) : swap w ≡ 256 * w [MOD 65535] := by
  unfold swap Nat.ModEq
  omega

theorem swap_le {w : Nat} (h : w ≤ 65535) : swap w ≤ 65535 := by
  unfold swap
  omega

theorem swap_compl {w : Nat} (h : w ≤ 65535) : swap (65535 - w) = 65535 - swap w := by
  unfold swap
  omega

theorem swap_rep (n : Nat) : swap (rep 65535 n) = rep 65535 (256 * n) := by
  have hle := rep_le (by decide : 0 < 65535) n
  refine eq_rep (swap_le hle) ?_ ?_
  · exact (swap_modEq _).trans ((rep_modEq 65535 n).mul_left 256)
  · have h0 : swap (rep 65535 n) = 0 ↔ rep 65535 n = 0 := by
      unfold swap
      omega
    rw [h0, rep_eq_zero]
    omega

theorem wordsLE_sum (bs : List Byte) :
    256 * (wordsLE bs).sum ≡ (words bs).sum [MOD 65535] ∧
      ((wordsLE bs).sum = 0 ↔ (words bs).sum = 0) := by
  induction bs using words.induct with
  | case1 a b bs ih =>
    obtain ⟨ih, ih0⟩ := ih
    rw [words, wordsLE, List.sum_cons, List.sum_cons]
    constructor
    · have hword : 256 * (a.toNat + 256 * b.toNat) ≡ 256 * a.toNat + b.toNat [MOD 65535] := by
        unfold Nat.ModEq
        omega
      rw [Nat.mul_add]
      exact hword.add ih
    · omega
  | case2 a =>
    rw [words, wordsLE, List.sum_singleton, List.sum_singleton]
    exact ⟨Nat.ModEq.refl _, by omega⟩
  | case3 => exact ⟨Nat.ModEq.refl _, Iff.rfl⟩

/-- The sum of the words taken in the other byte order is the sum with its bytes exchanged. -/
theorem swap_sum (bs : List Byte) :
    swap (rep 65535 (wordsLE bs).sum) = rep 65535 (words bs).sum := by
  obtain ⟨h, h0⟩ := wordsLE_sum bs
  rw [swap_rep]
  exact rep_congr (by decide) h (by rw [← h0]; omega)

theorem wordsLE_append {p : List Byte} (hp : 2 ∣ p.length) (q : List Byte) :
    wordsLE (p ++ q) = wordsLE p ++ wordsLE q := by
  induction p using words.induct with
  | case1 a b p ih =>
    have hp' : 2 ∣ p.length := by
      simp only [List.length_cons] at hp
      omega
    rw [List.cons_append, List.cons_append, wordsLE, wordsLE, ih hp', List.cons_append]
  | case2 a => simp at hp
  | case3 => rfl

/-! ## The receiver's test -/

/-- The sum over a text and its checksum is the second form of zero. -/
theorem add_checksum {s : Nat} (hs : 0 < s) {c : Nat} (hc : c ≤ 65535) :
    rep 65535 (s + c) = 65535 ∧ c ≠ 65535 ↔ c = 65535 - rep 65535 s := by
  have hle := rep_le (by decide : 0 < 65535) s
  have hpos : rep 65535 s ≠ 0 := by
    rw [Ne, rep_eq_zero]
    omega
  have hmod : s + c ≡ rep 65535 s + c [MOD 65535] := (rep_modEq 65535 s).symm.add_right c
  rw [rep_eq_max (by decide)]
  have hdvd : 65535 ∣ s + c ↔ 65535 ∣ rep 65535 s + c := by
    rw [← Nat.modEq_zero_iff_dvd, ← Nat.modEq_zero_iff_dvd]
    exact ⟨hmod.symm.trans, hmod.trans⟩
  rw [hdvd]
  omega

end OnesComplement
