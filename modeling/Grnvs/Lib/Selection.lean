/-
  Emptying a list by repeated removal of a minimum.

  `Drains key xs ys` holds when `ys` are the elements of `xs` in the order in which one minimum
  after the other is taken out, wherever it stands. Nothing is lost or doubled (`Drains.perm`), and
  the keys come in ascending order (`Drains.sorted`), strictly where no key occurs twice
  (`Drains.strict`).
-/
import Mathlib

namespace Selection

variable {α κ : Type} [LinearOrder κ]

/-- `ys` are the elements of `xs`, a minimum taken out each time. -/
inductive Drains (key : α → κ) : List α → List α → Prop
  | nil : Drains key [] []
  | take {as bs ys : List α} {m : α} (hmin : ∀ x ∈ as ++ m :: bs, key m ≤ key x)
      (rest : Drains key (as ++ bs) ys) : Drains key (as ++ m :: bs) (m :: ys)

section Drains

variable {key : α → κ} {xs ys : List α}

theorem Drains.perm (h : Drains key xs ys) : ys.Perm xs := by
  induction h with
  | nil => exact List.Perm.refl _
  | take hmin rest ih => exact (ih.cons _).trans List.perm_middle.symm

theorem Drains.sorted (h : Drains key xs ys) : ys.Pairwise fun a b => key a ≤ key b := by
  induction h with
  | nil => exact List.Pairwise.nil
  | take hmin rest ih =>
    refine List.pairwise_cons.mpr ⟨?_, ih⟩
    intro y hy
    have hleft := rest.perm.mem_iff.mp hy
    apply hmin
    rcases List.mem_append.mp hleft with ha | hb
    · exact List.mem_append_left _ ha
    · exact List.mem_append_right _ (List.mem_cons_of_mem _ hb)

/-- Where no key occurs twice the order is strict. -/
theorem Drains.strict (h : Drains key xs ys) (hnd : (xs.map key).Nodup) :
    ys.Pairwise fun a b => key a < key b := by
  have hne : (ys.map key).Nodup := (h.perm.map key).nodup_iff.mpr hnd
  have hdistinct := List.pairwise_map.mp hne
  exact (h.sorted.and hdistinct).imp fun hab => lt_of_le_of_ne hab.1 hab.2

end Drains

end Selection
