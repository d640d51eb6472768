/-
  Netstrings: `enc m` is the length of `m` in decimal, a colon, `m`, a comma.

  `encs ms` is a batch of netstrings one after the other. The first colon of a netstring ends its
  length, whatever the payload is (`find_colon`), so a batch can be read back in one way only
  (`encs_inj`).
-/
import Grnvs.Lib.Decimal

namespace Netstring

open Bytes Decimal

def colon : Byte := 58

def comma : Byte := 44

/-- The netstring of `m`. -/
def enc (m : List Byte) : List Byte := dec m.length ++ colon :: m ++ [comma]

/-- The netstrings of a batch, one after the other. -/
def encs (ms : List (List Byte)) : List Byte := (ms.map enc).flatten

/-- A message a netstring client can use: not empty, and a C string. -/
structure Plain (m : List Byte) : Prop where
  ne_nil : m ≠ []
  nulFree : NulFree m

instance (m : List Byte) : Decidable (Plain m) :=
  decidable_of_iff (m ≠ [] ∧ NulFree m) ⟨fun h => ⟨h.1, h.2⟩, fun h => ⟨h.1, h.2⟩⟩

@[simp] theorem encs_nil : encs [] = [] := rfl

theorem encs_cons (m : List Byte) (ms : List (List Byte)) : encs (m :: ms) = enc m ++ encs ms := rfl

theorem enc_append (m r : List Byte) :
    enc m ++ r = dec m.length ++ colon :: (m ++ comma :: r) := by
  simp [enc]

theorem enc_length (m : List Byte) : (enc m).length = (dec m.length).length + m.length + 2 := by
  simp [enc]
  omega

theorem enc_length_pos (m : List Byte) : 0 < (enc m).length := by
  rw [enc_length]
  omega

theorem encs_length_cons (m : List Byte) (ms : List (List Byte)) :
    (encs (m :: ms)).length = (enc m).length + (encs ms).length := by
  rw [encs_cons, List.length_append]

theorem encs_length_of_mem {m : List Byte} {ms : List (List Byte)} (h : m ∈ ms) :
    (enc m).length ≤ (encs ms).length := by
  induction ms with
  | nil => cases h
  | cons x ms ih =>
      rw [encs_length_cons]
      rcases List.mem_cons.mp h with rfl | h'
      · omega
      · have := ih h'
        omega

theorem encs_ne_nil {ms : List (List Byte)} (h : ms ≠ []) : encs ms ≠ [] := by
  obtain ⟨m, rest, rfl⟩ := List.exists_cons_of_ne_nil h
  intro he
  have := congrArg List.length he
  have hp := enc_length_pos m
  rw [encs_length_cons, List.length_nil] at this
  omega

/-- A batch ends in a comma. -/
theorem encs_getLast? (ms : List (List Byte)) (h : ms ≠ []) :
    (encs ms).getLast? = some comma := by
  induction ms with
  | nil => exact absurd rfl h
  | cons m ms ih =>
      rw [encs_cons]
      by_cases hms : ms = []
      · rw [hms, encs_nil, List.append_nil, enc, List.getLast?_concat]
      · rw [List.getLast?_append_of_ne_nil _ (encs_ne_nil hms), ih hms]

theorem colon_not_mem_dec (n : Nat) : colon ∉ dec n := dec_not_mem (by decide) n

theorem comma_not_mem_dec (n : Nat) : comma ∉ dec n := dec_not_mem (by decide) n

theorem enc_nulFree {m : List Byte} (h : NulFree m) : NulFree (enc m) := by
  have hc : (0 : Byte) ≠ colon := by decide
  have hk : (0 : Byte) ≠ comma := by decide
  simp only [enc, NulFree, List.mem_append, List.mem_cons, not_or, List.not_mem_nil,
    not_false_eq_true, and_true]
  exact ⟨⟨dec_nulFree _, hc, h⟩, hk⟩

theorem encs_nulFree {ms : List (List Byte)} (h : ∀ m ∈ ms, NulFree m) : NulFree (encs ms) := by
  induction ms with
  | nil => exact List.not_mem_nil
  | cons m ms ih =>
      rw [encs_cons, nulFree_append]
      exact ⟨enc_nulFree (h m (List.mem_cons_self ..)),
        ih fun x hx => h x (List.mem_cons_of_mem _ hx)⟩

/-- A length prefix ends at the first colon. -/
theorem find_colon (n : Nat) (r : List Byte) :
    find colon (dec n ++ colon :: r) = some (dec n).length :=
  find_append (colon_not_mem_dec n) r

/-- The length prefix and the payload of a netstring are determined by any text it starts. -/
theorem enc_append_inj {m m' r r' : List Byte} (h : enc m ++ r = enc m' ++ r') :
    m = m' ∧ r = r' := by
  rw [enc_append, enc_append] at h
  have hlen : (dec m.length).length = (dec m'.length).length := by
    have h1 := find_colon m.length (m ++ comma :: r)
    rw [h, find_colon] at h1
    exact (Option.some.inj h1).symm
  obtain ⟨hd, ht⟩ := List.append_inj h hlen
  have hm : m.length = m'.length := dec_inj hd
  obtain ⟨hmm, hr⟩ := List.append_inj (List.cons.inj ht).2 hm
  exact ⟨hmm, (List.cons.inj hr).2⟩

theorem enc_inj {m m' : List Byte} (h : enc m = enc m') : m = m' :=
  (enc_append_inj (r := []) (congrArg (· ++ []) h)).1

/-- A batch is read back in one way only. -/
theorem encs_inj {ms ms' : List (List Byte)} (h : encs ms = encs ms') : ms = ms' := by
  induction ms generalizing ms' with
  | nil =>
      rcases ms' with _ | ⟨m', ms'⟩
      · rfl
      · exact absurd h.symm (encs_ne_nil (List.cons_ne_nil _ _))
  | cons m ms ih =>
      rcases ms' with _ | ⟨m', ms'⟩
      · exact absurd h (encs_ne_nil (List.cons_ne_nil _ _))
      · obtain ⟨rfl, hr⟩ := enc_append_inj h
        rw [ih hr]

end Netstring
