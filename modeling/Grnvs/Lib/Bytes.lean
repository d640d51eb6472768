/-
  Byte buffers and the NUL-terminated strings inside them.

  A buffer is a list of bytes; writing into it is `splice`, which keeps the length when the
  written bytes fit. `cstr` is the string a C pointer denotes: the bytes before the first NUL,
  and nothing at all (`none`) when the rest of the buffer holds no NUL. `cstr_eq_some` says this
  in one line, and is what the proofs use.
-/
import Mathlib.Data.List.Basic

abbrev Byte := UInt8

namespace Bytes

/-- The bytes of a string literal. -/
def lit (s : String) : List Byte := s.toList.map fun c => UInt8.ofNat c.toNat

/-- `n` zero bytes. -/
def zeros (n : Nat) : List Byte := List.replicate n 0

@[simp] theorem zeros_length (n : Nat) : (zeros n).length = n := List.length_replicate

@[simp] theorem zeros_zero : zeros 0 = [] := rfl

theorem zeros_succ (n : Nat) : zeros (n + 1) = 0 :: zeros n := List.replicate_succ

theorem zeros_add (n m : Nat) : zeros (n + m) = zeros n ++ zeros m :=
  (List.replicate_append_replicate ..).symm

theorem drop_zeros (k n : Nat) : (zeros n).drop k = zeros (n - k) := List.drop_replicate

/-- A text: no NUL inside. -/
abbrev NulFree (s : List Byte) : Prop := (0 : Byte) ∉ s

theorem nulFree_append {s t : List Byte} : NulFree (s ++ t) ↔ NulFree s ∧ NulFree t := by
  simp [NulFree, not_or]

theorem NulFree.of_suffix {s t : List Byte} (h : NulFree (s ++ t)) : NulFree t :=
  (nulFree_append.mp h).2

theorem NulFree.take {s : List Byte} (h : NulFree s) (k : Nat) : NulFree (s.take k) :=
  fun hm => h (List.mem_of_mem_take hm)

theorem NulFree.drop {s : List Byte} (h : NulFree s) (k : Nat) : NulFree (s.drop k) :=
  fun hm => h (List.mem_of_mem_drop hm)

theorem headD_ne_zero {s : List Byte} (h : NulFree s) (hs : s ≠ []) : s.headD 0 ≠ 0 := by
  obtain ⟨b, r, rfl⟩ := List.exists_cons_of_ne_nil hs
  exact fun hb => h (by rw [List.headD_cons] at hb; simp [hb])

/-- A string of the command line. -/
structure CString where
  bytes : List Byte
  nulFree : NulFree bytes
deriving DecidableEq, Repr

/-! ## NUL-terminated strings -/

/-- The string at the front of a buffer: the bytes before the first NUL, if there is one. -/
def cstr : List Byte → Option (List Byte)
  | [] => none
  | b :: bs => if b = 0 then some [] else (cstr bs).map (b :: ·)

theorem cstr_terminated {s : List Byte} (hs : NulFree s) (r : List Byte) :
    cstr (s ++ 0 :: r) = some s := by
  induction s with
  | nil => rfl
  | cons b s ih =>
      have hb : b ≠ 0 := fun h => hs (by simp [h])
      have hs' : NulFree s := fun h => hs (List.mem_cons_of_mem _ h)
      simp [cstr, hb, ih hs']

theorem cstr_eq_some {l s : List Byte} :
    cstr l = some s ↔ NulFree s ∧ ∃ r, l = s ++ 0 :: r := by
  constructor
  · intro h
    induction l generalizing s with
    | nil => cases h
    | cons b l ih =>
        by_cases hb : b = 0
        · subst hb
          simp only [cstr, if_true, Option.some.injEq] at h
          subst h
          exact ⟨List.not_mem_nil, l, rfl⟩
        · simp only [cstr, hb, if_false, Option.map_eq_some_iff] at h
          obtain ⟨s', hs', rfl⟩ := h
          obtain ⟨hn, r, hr⟩ := ih hs'
          refine ⟨?_, r, by rw [hr]; rfl⟩
          intro hm
          rcases List.mem_cons.mp hm with h0 | h0
          · exact hb h0.symm
          · exact hn h0
  · rintro ⟨hs, r, rfl⟩
    exact cstr_terminated hs r

/-- Before a NUL there is a string, and it ends there at the latest. -/
theorem cstr_of_zero (p r : List Byte) :
    ∃ s, cstr (p ++ 0 :: r) = some s ∧ s.length ≤ p.length := by
  induction p with
  | nil => exact ⟨[], rfl, Nat.le_refl _⟩
  | cons b p ih =>
      obtain ⟨s, hs, hle⟩ := ih
      by_cases hb : b = 0
      · exact ⟨[], by simp [cstr, hb], Nat.zero_le _⟩
      · exact ⟨b :: s, by simp [cstr, hb, hs], Nat.succ_le_succ hle⟩

theorem cstr_nulFree {l s : List Byte} (h : cstr l = some s) : NulFree s :=
  (cstr_eq_some.mp h).1

theorem cstr_zeros {n : Nat} (h : 0 < n) : cstr (zeros n) = some [] := by
  obtain ⟨k, rfl⟩ : ∃ k, n = k + 1 := ⟨n - 1, by omega⟩
  rfl

/-! ## Writing into a buffer -/

/-- `l` with `bs` written over it from `off` on. -/
def splice (l : List Byte) (off : Nat) (bs : List Byte) : List Byte :=
  l.take off ++ bs ++ l.drop (off + bs.length)

theorem splice_length {l bs : List Byte} {off : Nat} (h : off + bs.length ≤ l.length) :
    (splice l off bs).length = l.length := by
  simp only [splice, List.length_append, List.length_take, List.length_drop]
  omega

theorem splice_zero (l bs : List Byte) : splice l 0 bs = bs ++ l.drop bs.length := by
  simp [splice]

/-- What stands at the written place is what was written, then the old bytes. -/
theorem drop_splice {l bs : List Byte} {off : Nat} (h : off ≤ l.length) :
    (splice l off bs).drop off = bs ++ l.drop (off + bs.length) := by
  have ht : (l.take off).length = off := by simp [h]
  rw [splice, List.append_assoc, List.drop_append, ht, Nat.sub_self, List.drop_zero,
    List.drop_of_length_le (Nat.le_of_eq ht), List.nil_append]

/-- The bytes before the written place stay. -/
theorem take_splice {l bs : List Byte} {off : Nat} (h : off ≤ l.length) :
    (splice l off bs).take off = l.take off := by
  have ht : (l.take off).length = off := by simp [h]
  rw [splice, List.append_assoc, List.take_append_of_le_length (Nat.le_of_eq ht.symm),
    List.take_take, Nat.min_self]

/-- The bytes up to the end of the written place. -/
theorem take_splice_end {l : List Byte} (bs : List Byte) {off : Nat} (h : off ≤ l.length) :
    (splice l off bs).take (off + bs.length) = l.take off ++ bs := by
  rw [splice, List.take_left' (by
    simp only [List.length_append, List.length_take, Nat.min_eq_left h])]

/-- Writing over a piece of known length replaces that piece. -/
theorem splice_replace {a old new c : List Byte} (h : new.length = old.length) :
    splice (a ++ old ++ c) a.length new = a ++ new ++ c := by
  simp [splice, h]

/-- Writing right behind a piece keeps the piece. -/
theorem splice_behind (p l bs : List Byte) :
    splice (p ++ l.drop p.length) p.length bs = p ++ bs ++ l.drop (p.length + bs.length) := by
  rw [splice, List.take_left, ← List.drop_drop, List.drop_left, List.drop_drop]

/-- Writing behind an offset, seen from the offset. -/
theorem drop_splice_add {l bs : List Byte} {off k : Nat} (h : off + k ≤ l.length) :
    (splice l (off + k) bs).drop off = splice (l.drop off) k bs := by
  have hsplit : l.take (off + k) = l.take off ++ (l.drop off).take k := List.take_add
  have ht : (l.take off).length = off := by simp; omega
  rw [splice, splice, hsplit, List.append_assoc, List.append_assoc, List.drop_left' ht,
    List.drop_drop, List.append_assoc, Nat.add_assoc]

/-- Writing on behind what was written. -/
theorem splice_splice {l bs bs' : List Byte} {off : Nat} (h : off + bs.length ≤ l.length) :
    splice (splice l off bs) (off + bs.length) bs' = splice l off (bs ++ bs') := by
  have hoff : off ≤ l.length := by omega
  have hdrop : (splice l off bs).drop (off + bs.length + bs'.length) =
      l.drop (off + (bs ++ bs').length) := by
    rw [Nat.add_assoc, ← List.drop_drop, drop_splice hoff, ← List.drop_drop, List.drop_left,
      List.drop_drop, List.length_append, Nat.add_assoc]
  rw [splice, take_splice_end bs hoff, hdrop, splice, ← List.append_assoc (l.take off)]

/-! ## Copying inside a buffer -/

/-- `n` bytes copied from `src` to `dst`, one after another from the first on. -/
def copyForward (l : List Byte) (dst src : Nat) : Nat → List Byte
  | 0 => l
  | n + 1 => copyForward (l.set dst (l.getD src 0)) (dst + 1) (src + 1) n

theorem copyForward_length (l : List Byte) (dst src n : Nat) :
    (copyForward l dst src n).length = l.length := by
  induction n generalizing l dst src with
  | zero => rfl
  | succ n ih => rw [copyForward, ih, List.length_set]

theorem set_eq_splice {l : List Byte} {off : Nat} (b : Byte) (h : off < l.length) :
    l.set off b = splice l off [b] := by
  rw [splice, List.set_eq_take_append_cons_drop, if_pos h, List.append_assoc]
  rfl

/-- A forward copy to a place that is not behind the source moves the bytes. -/
theorem copyForward_eq {l : List Byte} {dst src n : Nat} (hle : dst ≤ src)
    (hsrc : src + n ≤ l.length) :
    copyForward l dst src n = splice l dst ((l.drop src).take n) := by
  induction n generalizing l dst src with
  | zero => rw [copyForward, List.take_zero, splice, List.append_nil, List.length_nil,
      Nat.add_zero, List.take_append_drop]
  | succ n ih =>
    have hlt : src < l.length := by omega
    have hget : l.getD src 0 = l[src] := by
      rw [List.getD_eq_getElem?_getD, List.getElem?_eq_getElem hlt, Option.getD_some]
    have hrest : ((l.set dst (l.getD src 0)).drop (src + 1)).take n =
        (l.drop (src + 1)).take n := by
      rw [List.drop_set_of_lt (by omega)]
    rw [copyForward, ih (by omega) (by rw [List.length_set]; omega), hrest,
      set_eq_splice _ (by omega), List.drop_eq_getElem_cons hlt, List.take_succ_cons, hget]
    exact @splice_splice l [l[src]] _ dst (by rw [List.length_singleton]; omega)

/-! ## Searching a string -/

/-- The place of the first `c`, as `strchr` finds it. -/
def find (c : Byte) (s : List Byte) : Option Nat := s.findIdx? (· == c)

theorem find_append {c : Byte} {a : List Byte} (ha : c ∉ a) (b : List Byte) :
    find c (a ++ c :: b) = some a.length := by
  induction a with
  | nil => simp [find, List.findIdx?_cons]
  | cons x a ih =>
      have hx : x ≠ c := fun h => ha (by simp [h])
      have ha' : c ∉ a := fun h => ha (List.mem_cons_of_mem _ h)
      have := ih ha'
      simp only [find, List.cons_append, List.findIdx?_cons] at this ⊢
      simp [hx, this]

theorem find_eq_none {c : Byte} {s : List Byte} : find c s = none ↔ c ∉ s := by
  rw [find, List.findIdx?_eq_none_iff]
  constructor
  · intro h hm
    simpa using h c hm
  · intro h x hx
    simpa using fun e : x = c => h (e ▸ hx)

/-- A found place splits the string at the first `c`. -/
theorem find_eq_some {c : Byte} {s : List Byte} {i : Nat} :
    find c s = some i ↔ ∃ a b, s = a ++ c :: b ∧ c ∉ a ∧ a.length = i := by
  constructor
  · intro h
    induction s generalizing i with
    | nil => cases h
    | cons x s ih =>
        by_cases hx : x = c
        · subst hx
          simp only [find, List.findIdx?_cons, beq_self_eq_true, if_true,
            Option.some.injEq] at h
          subst h
          exact ⟨[], s, rfl, List.not_mem_nil, rfl⟩
        · simp only [find, List.findIdx?_cons, beq_iff_eq, hx, if_false,
            Option.map_eq_some_iff] at h
          obtain ⟨j, hj, rfl⟩ := h
          obtain ⟨a, b, rfl, ha, rfl⟩ := ih hj
          refine ⟨x :: a, b, rfl, ?_, rfl⟩
          intro hm
          rcases List.mem_cons.mp hm with h0 | h0
          · exact hx h0.symm
          · exact ha h0
  · rintro ⟨a, b, rfl, ha, rfl⟩
    exact find_append ha b

theorem find_lt {c : Byte} {s : List Byte} {i : Nat} (h : find c s = some i) : i < s.length := by
  obtain ⟨a, b, rfl, _, rfl⟩ := find_eq_some.mp h
  simp

end Bytes
