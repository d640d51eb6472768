/-
  Tables of descriptors.

  A process knows its open files by small numbers. `Table φ` is such a table for files of a type
  `φ`: a new file gets the lowest number that is free (`install`), and a number that was closed is
  free again (`remove`). `Holds` says that some of the numbers are distinct and open on files of a
  kind; it is kept by whatever leaves these numbers alone.
-/
import Mathlib.Data.List.Basic
import Mathlib.Tactic.Common

namespace Descriptors

/-- The open files of a process by their numbers. -/
structure Table (φ : Type) where
  slots : List (Option φ)
deriving DecidableEq, Repr

namespace Table

variable {φ : Type}

/-- The file behind a number. -/
def file (t : Table φ) (fd : Int) : Option φ := if fd < 0 then none else t.slots[fd.toNat]?.join

/-- The lowest number that is free. -/
def lowest (t : Table φ) : Nat := t.slots.findIdx Option.isNone

/-- A new file. -/
def install (t : Table φ) (f : φ) : Table φ := ⟨(t.slots ++ [none]).set t.lowest (some f)⟩

/-- The number no longer stands for a file. -/
def remove (t : Table φ) (fd : Int) : Table φ := ⟨t.slots.set fd.toNat none⟩

/-- Another file behind the same number. -/
def assign (t : Table φ) (fd : Int) (f : φ) : Table φ := ⟨t.slots.set fd.toNat (some f)⟩

/-- How many open files are of a kind. -/
def count (p : φ → Bool) (t : Table φ) : Nat := t.slots.countP (·.any p)

variable {t : Table φ} {f g : φ} {fd fd' : Int} {p : φ → Bool}

/-! ## Files behind numbers -/

theorem file_natCast (n : Nat) : t.file n = t.slots[n]?.join := by
  rw [file, if_neg (by omega), Int.toNat_natCast]

theorem file_neg (h : fd < 0) : t.file fd = none := if_pos h

theorem nonneg_of_file (h : t.file fd = some f) : 0 ≤ fd := by
  by_contra hneg
  rw [file_neg (by omega)] at h
  cases h

/-- An open number is a place in the table. -/
theorem slot_of_file (h : t.file fd = some f) :
    ∃ n : Nat, fd = n ∧ t.slots[n]? = some (some f) := by
  obtain ⟨n, rfl⟩ := Int.eq_ofNat_of_zero_le (nonneg_of_file h)
  rw [file_natCast] at h
  exact ⟨n, rfl, Option.join_eq_some_iff.mp h⟩

/-- A free place at the end of a table changes nothing. -/
theorem join_append_none (slots : List (Option φ)) (n : Nat) :
    (slots ++ [none])[n]?.join = slots[n]?.join := by
  by_cases h : n < slots.length
  · rw [List.getElem?_append_left h]
  · rw [List.getElem?_append_right (by omega), List.getElem?_eq_none (by omega : slots.length ≤ n)]
    cases n - slots.length with
    | zero => rfl
    | succ k => rfl

theorem lowest_le : t.lowest ≤ t.slots.length := List.findIdx_le_length

theorem file_lowest : t.file t.lowest = none := by
  rw [file_natCast]
  by_cases h : t.lowest < t.slots.length
  · have hnone := List.findIdx_getElem (p := Option.isNone) (w := h)
    rw [List.getElem?_eq_getElem h, Option.join_some]
    exact Option.isNone_iff_eq_none.mp hnone
  · rw [List.getElem?_eq_none (by omega)]
    rfl

theorem ne_lowest_of_file (h : t.file fd = some f) : fd ≠ t.lowest := by
  intro he
  rw [he, file_lowest] at h
  cases h

/-! ## Changes -/

theorem file_install_self (t : Table φ) (f : φ) : (t.install f).file t.lowest = some f := by
  have hlen : t.lowest < (t.slots ++ [none]).length := by
    have := t.lowest_le
    rw [List.length_append, List.length_singleton]
    omega
  rw [file_natCast, install, List.getElem?_set_self hlen]
  rfl

theorem file_install_ne (f : φ) (h : fd ≠ t.lowest) : (t.install f).file fd = t.file fd := by
  by_cases hneg : fd < 0
  · rw [file_neg hneg, file_neg hneg]
  · obtain ⟨n, rfl⟩ := Int.eq_ofNat_of_zero_le (by omega : 0 ≤ fd)
    have hne : t.lowest ≠ n := fun he => h (congrArg Int.ofNat he).symm
    rw [file_natCast, file_natCast, install, List.getElem?_set_ne hne, join_append_none]

theorem file_install_of_file (g : φ) (h : t.file fd = some f) :
    (t.install g).file fd = some f := by
  rw [file_install_ne g (ne_lowest_of_file h), h]

theorem file_remove_self (t : Table φ) (fd : Int) : (t.remove fd).file fd = none := by
  by_cases hneg : fd < 0
  · exact file_neg hneg
  · obtain ⟨n, rfl⟩ := Int.eq_ofNat_of_zero_le (by omega : 0 ≤ fd)
    rw [file_natCast, remove, Int.toNat_natCast]
    by_cases hlen : n < t.slots.length
    · rw [List.getElem?_set_self hlen]
      rfl
    · rw [List.getElem?_eq_none (by rw [List.length_set]; omega)]
      rfl

/-- A change behind one number of a table. -/
theorem file_set_ne (x : Option φ) (h0 : 0 ≤ fd) (h : fd' ≠ fd) :
    (⟨t.slots.set fd.toNat x⟩ : Table φ).file fd' = t.file fd' := by
  by_cases hneg : fd' < 0
  · rw [file_neg hneg, file_neg hneg]
  · obtain ⟨m, rfl⟩ := Int.eq_ofNat_of_zero_le h0
    obtain ⟨n, rfl⟩ := Int.eq_ofNat_of_zero_le (by omega : 0 ≤ fd')
    have hne : m ≠ n := fun he => h (congrArg Int.ofNat he).symm
    rw [file_natCast, file_natCast, Int.toNat_natCast, List.getElem?_set_ne hne]

theorem file_remove_ne (h0 : 0 ≤ fd) (h : fd' ≠ fd) : (t.remove fd).file fd' = t.file fd' :=
  file_set_ne none h0 h

theorem file_assign_ne (g : φ) (h0 : 0 ≤ fd) (h : fd' ≠ fd) :
    (t.assign fd g).file fd' = t.file fd' :=
  file_set_ne (some g) h0 h

theorem file_assign_self (g : φ) (h : t.file fd = some f) : (t.assign fd g).file fd = some g := by
  obtain ⟨n, rfl, hn⟩ := slot_of_file h
  obtain ⟨hlen, -⟩ := List.getElem?_eq_some_iff.mp hn
  rw [file_natCast, assign, Int.toNat_natCast, List.getElem?_set_self hlen]
  rfl

/-! ## Numbers of files -/

theorem count_set {x y : Option φ} {n : Nat} (h : t.slots[n]? = some x) :
    count p ⟨t.slots.set n y⟩ + (if x.any p then 1 else 0) =
      t.count p + (if y.any p then 1 else 0) := by
  obtain ⟨hlen, hx⟩ := List.getElem?_eq_some_iff.mp h
  have hle : (if x.any p = true then 1 else 0) ≤ t.slots.countP (·.any p) := by
    by_cases hp : x.any p = true
    · rw [if_pos hp]
      exact List.countP_pos_iff.mpr ⟨x, List.mem_of_getElem? h, hp⟩
    · rw [if_neg hp]
      exact Nat.zero_le _
  unfold count
  rw [List.countP_set hlen, hx]
  omega

theorem count_install (t : Table φ) (f : φ) :
    (t.install f).count p = t.count p + (if p f then 1 else 0) := by
  have hslot : (t.slots ++ [none])[t.lowest]? = some none := by
    have hfree := t.file_lowest
    rw [file_natCast] at hfree
    by_cases hlen : t.lowest < t.slots.length
    · rw [List.getElem?_append_left hlen]
      rw [List.getElem?_eq_getElem hlen] at hfree ⊢
      exact congrArg some hfree
    · have := t.lowest_le
      rw [List.getElem?_append_right (by omega), show t.lowest - t.slots.length = 0 by omega]
      rfl
  have hcount := @count_set φ ⟨t.slots ++ [none]⟩ p none (some f) t.lowest hslot
  have hnone : count p (⟨t.slots ++ [none]⟩ : Table φ) = t.count p := by
    unfold count
    rw [List.countP_append]
    rfl
  rw [hnone] at hcount
  simpa [install] using hcount

theorem count_remove (h : t.file fd = some f) :
    (t.remove fd).count p + (if p f then 1 else 0) = t.count p := by
  obtain ⟨n, rfl, hn⟩ := slot_of_file h
  have hcount := @count_set φ t p (some f) none n hn
  simpa [remove] using hcount

theorem count_assign (h : t.file fd = some f) (hp : p g = p f) :
    (t.assign fd g).count p = t.count p := by
  obtain ⟨n, rfl, hn⟩ := slot_of_file h
  have hcount := @count_set φ t p (some f) (some g) n hn
  simp only [Option.any_some, hp] at hcount
  change count p ⟨t.slots.set (n : Int).toNat (some g)⟩ = _
  rw [Int.toNat_natCast]
  omega

/-! ## Numbers that are held -/

/-- The numbers are distinct, and behind each stands a file with `P`. -/
structure Holds (P : φ → Prop) (t : Table φ) (fds : List Int) : Prop where
  nodup : fds.Nodup
  file : ∀ fd ∈ fds, ∃ f, t.file fd = some f ∧ P f

section Holds

variable {P : φ → Prop} {fds : List Int} {t' : Table φ}

theorem holds_nil : Holds P t [] := ⟨List.nodup_nil, fun _ h => absurd h List.not_mem_nil⟩

/-- Only what stands behind the held numbers matters. -/
theorem Holds.congr (h : Holds P t fds) (hfile : ∀ fd ∈ fds, t'.file fd = t.file fd) :
    Holds P t' fds :=
  ⟨h.nodup, fun fd hfd => by rw [hfile fd hfd]; exact h.file fd hfd⟩

theorem Holds.install (h : Holds P t fds) (f : φ) : Holds P (t.install f) fds := by
  apply h.congr
  intro fd hfd
  obtain ⟨g, hg, -⟩ := h.file fd hfd
  exact file_install_ne f (ne_lowest_of_file hg)

/-- A new file is held from now on. -/
theorem Holds.cons (h : Holds P t fds) {f : φ} (hfd : t.file fd = some f) (hf : P f)
    (hnew : fd ∉ fds) : Holds P t (fd :: fds) := by
  refine ⟨List.nodup_cons.mpr ⟨hnew, h.nodup⟩, ?_⟩
  intro fd' hfd'
  rcases List.mem_cons.mp hfd' with rfl | hmem
  · exact ⟨f, hfd, hf⟩
  · exact h.file fd' hmem

theorem Holds.erase (h : Holds P t fds) (hfd : fd ∈ fds) : Holds P (t.remove fd) (fds.erase fd) := by
  obtain ⟨f, hf, -⟩ := h.file fd hfd
  refine ⟨h.nodup.erase fd, ?_⟩
  intro fd' hfd'
  obtain ⟨hne, hmem⟩ := (h.nodup.mem_erase_iff).mp hfd'
  rw [file_remove_ne (nonneg_of_file hf) hne]
  exact h.file fd' hmem

theorem Holds.remove_of_notMem (h : Holds P t fds) (h0 : 0 ≤ fd) (hfd : fd ∉ fds) :
    Holds P (t.remove fd) fds := by
  apply h.congr
  intro fd' hfd'
  exact file_remove_ne h0 fun he => hfd (he ▸ hfd')

end Holds

end Table

end Descriptors
