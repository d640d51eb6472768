/-
  Counting frames by their EtherType, without memory.

  `tally f es` counts one more frame in the list of entries `es`, in the place of its type or in a
  new last one. `Counts fs es` says that `es` is an account of the frames `fs`: an entry for each
  type that occurs and no other, none twice, with the number and the total length of its frames
  modulo 2^32. The account of no frames is empty and `tally` keeps it (`Counts.tally`).
-/
import Grnvs.Stats.Client
import Mathlib

namespace Grnvs.Stats

open Bytes

/-- The EtherType of a frame, in network byte order behind the two addresses. -/
def frameType (f : List Byte) : Nat := 256 * (f.getD 12 0).toNat + (f.getD 13 0).toNat

/-- What is known about a type. -/
structure Entry where
  ethType : Nat
  frames : Nat
  bytes : Nat
deriving DecidableEq, Repr

def ofType (t : Nat) (fs : List (List Byte)) : List (List Byte) := fs.filter (frameType · = t)

/-- The total length of some frames. -/
def volume (fs : List (List Byte)) : Nat := (fs.map List.length).sum

/-- The entries with a frame of type `t` and length `n` counted in. -/
def tally (t n : Nat) : List Entry → List Entry
  | [] => [⟨t, 1, u32 n⟩]
  | e :: es =>
      if e.ethType = t then ⟨t, u32 (e.frames + 1), u32 (e.bytes + n)⟩ :: es else e :: tally t n es

theorem tally_absent {t n : Nat} {es : List Entry} (h : ∀ e ∈ es, e.ethType ≠ t) :
    tally t n es = es ++ [⟨t, 1, u32 n⟩] := by
  induction es with
  | nil => rfl
  | cons e es ih =>
    have hne : e.ethType ≠ t := h e (List.mem_cons_self ..)
    rw [tally, if_neg hne, ih fun e he => h e (List.mem_cons_of_mem _ he), List.cons_append]

theorem tally_present {t n : Nat} {as bs : List Entry} {e : Entry} (h : ∀ e ∈ as, e.ethType ≠ t)
    (he : e.ethType = t) : tally t n (as ++ e :: bs) =
      as ++ ⟨t, u32 (e.frames + 1), u32 (e.bytes + n)⟩ :: bs := by
  induction as with
  | nil => rw [List.nil_append, List.nil_append, tally, if_pos he]
  | cons a as ih =>
    have hne : a.ethType ≠ t := h a (List.mem_cons_self ..)
    rw [List.cons_append, tally, if_neg hne, ih fun e he => h e (List.mem_cons_of_mem _ he),
      List.cons_append]

/-- A type has no entry, or there is a first one. -/
theorem absent_or_present {α : Type} (key : α → Nat) (t : Nat) (xs : List α) :
    (∀ x ∈ xs, key x ≠ t) ∨
      ∃ as x bs, xs = as ++ x :: bs ∧ (∀ a ∈ as, key a ≠ t) ∧ key x = t := by
  induction xs with
  | nil => exact .inl fun x hx => absurd hx List.not_mem_nil
  | cons x xs ih =>
    by_cases hx : key x = t
    · exact .inr ⟨[], x, xs, rfl, fun a ha => absurd ha List.not_mem_nil, hx⟩
    rcases ih with h | ⟨as, y, bs, rfl, has, hy⟩
    · refine .inl fun z hz => ?_
      rcases List.mem_cons.mp hz with rfl | hz
      · exact hx
      · exact h z hz
    · refine .inr ⟨x :: as, y, bs, rfl, fun a ha => ?_, hy⟩
      rcases List.mem_cons.mp ha with rfl | ha
      · exact hx
      · exact has a ha

/-! ## Sums modulo 2^32 -/

theorem u32_add (a b : Nat) : u32 (u32 a + b) = u32 (a + b) := Nat.mod_add_mod a _ b

theorem u32_add' (a b : Nat) : u32 (a + u32 b) = u32 (a + b) := Nat.add_mod_mod a b _

theorem u32_add_congr {a a' : Nat} (b : Nat) (h : u32 a = u32 a') : u32 (a + b) = u32 (a' + b) := by
  rw [← u32_add, h, u32_add]

/-! ## Accounts -/

section Counts

variable {fs : List (List Byte)} {f : List Byte} {es as bs : List Entry} {e : Entry} {t : Nat}

theorem volume_append (fs gs : List (List Byte)) : volume (fs ++ gs) = volume fs + volume gs := by
  rw [volume, List.map_append, List.sum_append]
  rfl

theorem volume_single (f : List Byte) : volume [f] = f.length := Nat.add_zero _

theorem ofType_snoc_eq (h : frameType f = t) : ofType t (fs ++ [f]) = ofType t fs ++ [f] := by
  rw [ofType, List.filter_append, List.filter_cons_of_pos (by rw [h, decide_eq_true_eq])]
  rfl

theorem ofType_snoc_ne (h : frameType f ≠ t) : ofType t (fs ++ [f]) = ofType t fs := by
  rw [ofType, List.filter_append, List.filter_cons_of_neg (by rw [decide_eq_true_eq]; exact h),
    List.filter_nil, List.append_nil]
  rfl

theorem ofType_eq_nil (h : t ∉ fs.map frameType) : ofType t fs = [] := by
  apply List.filter_eq_nil_iff.mpr
  intro f hf
  rw [decide_eq_true_eq]
  rintro rfl
  exact h (List.mem_map_of_mem hf)

/-- An entry that agrees with the frames. -/
def Exact (fs : List (List Byte)) (e : Entry) : Prop :=
  e.frames = u32 (ofType e.ethType fs).length ∧ e.bytes = u32 (volume (ofType e.ethType fs))

/-- `es` is an account of `fs`. -/
structure Counts (fs : List (List Byte)) (es : List Entry) : Prop where
  nodup : (es.map Entry.ethType).Nodup
  types : ∀ t, t ∈ es.map Entry.ethType ↔ t ∈ fs.map frameType
  exact : ∀ e ∈ es, Exact fs e
  total : u32 (es.map Entry.bytes).sum = u32 (volume fs)

theorem counts_nil : Counts [] [] :=
  ⟨List.nodup_nil, fun _ => Iff.rfl, fun _ he => absurd he List.not_mem_nil, rfl⟩

theorem Exact.other (h : Exact fs e) (hne : e.ethType ≠ frameType f) : Exact (fs ++ [f]) e := by
  rw [Exact, ofType_snoc_ne (Ne.symm hne)]
  exact h

/-- A type is among those with one more frame if it was or if the frame has it. -/
theorem types_snoc : t ∈ (fs ++ [f]).map frameType ↔ t ∈ fs.map frameType ∨ t = frameType f := by
  rw [List.map_append, List.mem_append, List.map_singleton, List.mem_singleton]

/-- The first frame of a type. -/
theorem Counts.tally_absent (h : Counts fs es) (hno : ∀ e ∈ es, e.ethType ≠ frameType f) :
    Counts (fs ++ [f]) (tally (frameType f) f.length es) := by
  have hout : frameType f ∉ es.map Entry.ethType := by
    intro hmem
    obtain ⟨e, he, heq⟩ := List.mem_map.mp hmem
    exact hno e he heq
  have hnone : ofType (frameType f) fs = [] := ofType_eq_nil fun hm => hout ((h.types _).mpr hm)
  rw [Stats.tally_absent hno]
  refine ⟨?_, ?_, ?_, ?_⟩
  · rw [List.map_append, List.map_singleton]
    refine List.nodup_append.mpr ⟨h.nodup, List.nodup_singleton _, ?_⟩
    rintro a ha b hb rfl
    have heq : a = frameType f := List.mem_singleton.mp hb
    exact hout (heq ▸ ha)
  · intro t
    rw [types_snoc, ← h.types, List.map_append, List.mem_append, List.map_singleton,
      List.mem_singleton]
  · intro e he
    rcases List.mem_append.mp he with he | he
    · exact (h.exact e he).other (hno e he)
    · obtain rfl := List.mem_singleton.mp he
      dsimp only [Exact]
      rw [ofType_snoc_eq rfl, hnone, List.nil_append, volume_single]
      exact ⟨rfl, rfl⟩
  · rw [List.map_append, List.sum_append, List.map_singleton, List.sum_singleton, u32_add',
      volume_append, volume_single]
    exact u32_add_congr _ h.total

/-- Another frame of a type. -/
theorem Counts.tally_present (h : Counts fs (as ++ e :: bs))
    (has : ∀ a ∈ as, a.ethType ≠ frameType f) (he : e.ethType = frameType f) :
    Counts (fs ++ [f]) (tally (frameType f) f.length (as ++ e :: bs)) := by
  have htypes : (as ++ ⟨frameType f, u32 (e.frames + 1), u32 (e.bytes + f.length)⟩ ::
      bs).map Entry.ethType = (as ++ e :: bs).map Entry.ethType := by
    rw [List.map_append, List.map_append, List.map_cons, List.map_cons, he]
  have hbs : ∀ b ∈ bs, b.ethType ≠ frameType f := by
    intro b hb heq
    have hnd := h.nodup
    rw [List.map_append, List.map_cons] at hnd
    have hout := (List.nodup_cons.mp (List.nodup_middle.mp hnd)).1
    exact hout (List.mem_append_right _ (he ▸ heq ▸ List.mem_map_of_mem hb))
  rw [Stats.tally_present has he]
  refine ⟨htypes ▸ h.nodup, ?_, ?_, ?_⟩
  · intro t
    rw [htypes, h.types, types_snoc]
    constructor
    · exact Or.inl
    · intro ht
      rcases ht with ht | rfl
      · exact ht
      · apply (h.types _).mp
        rw [← he]
        exact List.mem_map_of_mem (List.mem_append_right _ (List.mem_cons_self ..))
  · intro x hx
    rcases List.mem_append.mp hx with hx | hx
    · exact (h.exact x (List.mem_append_left _ hx)).other (has x hx)
    rcases List.mem_cons.mp hx with rfl | hx
    · obtain ⟨h1, h2⟩ := h.exact e (List.mem_append_right _ (List.mem_cons_self ..))
      dsimp only [Exact]
      rw [ofType_snoc_eq rfl, h1, h2, he, u32_add, u32_add, List.length_append,
        List.length_singleton, volume_append, volume_single]
      exact ⟨rfl, rfl⟩
    · exact (h.exact x (List.mem_append_right _ (List.mem_cons_of_mem _ hx))).other (hbs x hx)
  · have htotal := u32_add_congr f.length h.total
    rw [List.map_append, List.map_cons, List.sum_append, List.sum_cons] at htotal ⊢
    rw [volume_append, volume_single, ← htotal, Nat.add_comm (u32 _), ← Nat.add_assoc, u32_add']
    congr 1
    omega

theorem Counts.tally (h : Counts fs es) (f : List Byte) :
    Counts (fs ++ [f]) (tally (frameType f) f.length es) := by
  rcases absent_or_present Entry.ethType (frameType f) es with hno | ⟨as, e, bs, rfl, has, he⟩
  · exact h.tally_absent hno
  · exact h.tally_present has he

end Counts

end Grnvs.Stats
