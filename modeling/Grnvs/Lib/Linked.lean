/-
  Singly linked lists in a memory of numbered cells.

  `Chain h p xs q` says that the links followed from `p` visit the cells of `xs`, an address and a
  value each, and that the last of them links to `q`. A chain that ends determines its cells
  (`Chain.unique`), so it visits none twice (`Chain.nodup`). `Chain.frame` and `Chain.write` are
  the two rules for a write: outside the chain nothing changes, and a write to the last cell
  replaces its value and what the chain ends in.

  `Owns h p xs` says that the memory holds the list `xs` at `p` and nothing else; `set`, `snoc`,
  `tail` and `unlink` are what a list is built and taken down with.
-/
import Mathlib.Data.List.Nodup
import Mathlib.Logic.Function.Basic

namespace Linked

abbrev Addr := Nat

/-- A pointer to a cell; `none` is the null pointer. -/
abbrev Link := Option Addr

/-- Cells `N` that carry an `α` and the link to the next cell. -/
class Node (N : Type) (α : outParam Type) where
  val : N → α
  next : N → Link

open Node (val next)

variable {N α : Type} [Node N α]

/-- From `p` the links lead through the cells of `xs` to `q`. -/
def Chain (h : Addr → Option N) : Link → List (Addr × α) → Link → Prop
  | p, [], q => p = q
  | p, x :: xs, q => p = some x.1 ∧ ∃ n, h x.1 = some n ∧ val n = x.2 ∧ Chain h (next n) xs q

section Chain

variable {h h' : Addr → Option N} {p q r : Link} {a : Addr} {v : α} {n m : N}
  {xs ys : List (Addr × α)}

@[simp] theorem chain_nil : Chain h p ([] : List (Addr × α)) q ↔ p = q := Iff.rfl

theorem chain_append : Chain h p (xs ++ ys) q ↔ ∃ r, Chain h p xs r ∧ Chain h r ys q := by
  induction xs generalizing p with
  | nil =>
    constructor
    · intro hc
      exact ⟨p, rfl, hc⟩
    · intro hc
      obtain ⟨r, rfl, hc⟩ := hc
      exact hc
  | cons x xs ih =>
    constructor
    · intro hc
      obtain ⟨hp, n, hn, hv, hc⟩ := hc
      obtain ⟨r, h1, h2⟩ := ih.mp hc
      exact ⟨r, ⟨hp, n, hn, hv, h1⟩, h2⟩
    · intro hc
      obtain ⟨r, ⟨hp, n, hn, hv, h1⟩, h2⟩ := hc
      exact ⟨hp, n, hn, hv, ih.mpr ⟨r, h1, h2⟩⟩

/-- Only the cells of a chain matter for it. -/
theorem Chain.congr (hc : Chain h p xs q) (heq : ∀ x ∈ xs, h' x.1 = h x.1) : Chain h' p xs q := by
  induction xs generalizing p with
  | nil => exact hc
  | cons x xs ih =>
    obtain ⟨hp, n, hn, hv, hc⟩ := hc
    have hx : h' x.1 = some n := (heq x (List.mem_cons_self ..)).trans hn
    exact ⟨hp, n, hx, hv, ih hc fun y hy => heq y (List.mem_cons_of_mem _ hy)⟩

/-- A write outside the chain. -/
theorem Chain.frame (hc : Chain h p xs q) (ha : a ∉ xs.map Prod.fst) (o : Option N) :
    Chain (Function.update h a o) p xs q := by
  apply hc.congr
  intro x hx
  have hne : x.1 ≠ a := by
    intro he
    exact ha (he ▸ List.mem_map_of_mem hx)
  exact Function.update_of_ne hne _ _

/-- A write to the last cell of the chain. -/
theorem Chain.write (hc : Chain h p (xs ++ [(a, v)]) q) (ha : a ∉ xs.map Prod.fst) (m : N) :
    Chain (Function.update h a (some m)) p (xs ++ [(a, val m)]) (next m) := by
  obtain ⟨r, h1, h2⟩ := chain_append.mp hc
  obtain ⟨rfl, -⟩ := h2
  exact chain_append.mpr ⟨some a, h1.frame ha _, rfl, m, Function.update_self .., rfl, rfl⟩

/-- Every cell of a chain is there. -/
theorem Chain.live (hc : Chain h p xs q) (hx : (a, v) ∈ xs) : ∃ n, h a = some n ∧ val n = v := by
  induction xs generalizing p with
  | nil => cases hx
  | cons x xs ih =>
    obtain ⟨-, n, hn, hv, hc⟩ := hc
    rcases List.mem_cons.mp hx with rfl | hx
    · exact ⟨n, hn, hv⟩
    · exact ih hc hx

/-- The cells of a chain that ends are determined by where it begins. -/
theorem Chain.unique (hx : Chain h p xs none) (hy : Chain h p ys none) : xs = ys := by
  induction xs generalizing p ys with
  | nil =>
    obtain rfl : p = none := hx
    cases ys with
    | nil => rfl
    | cons y ys => cases hy.1
  | cons x xs ih =>
    obtain ⟨rfl, n, hn, hv, hx⟩ := hx
    cases ys with
    | nil => cases hy
    | cons y ys =>
      obtain ⟨he, m, hm, hw, hy⟩ := hy
      have hfst : x.1 = y.1 := Option.some.inj he
      obtain rfl : n = m := Option.some.inj (hn.symm.trans (hfst ▸ hm))
      have hxy : x = y := Prod.ext hfst (hv.symm.trans hw)
      rw [hxy, ih hx hy]

/-- A chain that ends visits no cell twice. -/
theorem Chain.nodup (hc : Chain h p xs none) : (xs.map Prod.fst).Nodup := by
  induction xs generalizing p with
  | nil => exact List.nodup_nil
  | cons x xs ih =>
    obtain ⟨rfl, n, hn, hv, htail⟩ := hc
    refine List.nodup_cons.mpr ⟨?_, ih htail⟩
    intro hmem
    obtain ⟨y, hy, hxy⟩ := List.mem_map.mp hmem
    obtain ⟨as, bs, rfl⟩ := List.append_of_mem hy
    -- both the whole chain and its part from the second visit on begin at the address of `x`
    obtain ⟨r, -, hback⟩ := chain_append.mp htail
    obtain ⟨rfl, hback⟩ := hback
    have hwhole : Chain h (some y.1) (x :: (as ++ y :: bs)) none := ⟨by rw [hxy], n, hn, hv, htail⟩
    have hagain : Chain h (some y.1) (y :: bs) none := ⟨rfl, hback⟩
    have hlen := congrArg List.length (hwhole.unique hagain)
    simp only [List.length_cons, List.length_append] at hlen
    omega

end Chain

/-! ## Memory that holds one list and nothing else -/

/-- The cells that are there are those of the list `xs` at `p`. -/
structure Owns (h : Addr → Option N) (p : Link) (xs : List (Addr × α)) : Prop where
  chain : Chain h p xs none
  rest : ∀ a, a ∉ xs.map Prod.fst → h a = none

section Owns

variable {h : Addr → Option N} {p : Link} {a b : Addr} {v u : α} {n m : N}
  {as bs xs : List (Addr × α)}

theorem Owns.nodup (h : Owns h p xs) : (xs.map Prod.fst).Nodup := h.chain.nodup

theorem owns_nil : Owns (fun _ => none : Addr → Option N) none [] := ⟨rfl, fun _ _ => rfl⟩

/-- No cell is left behind the end of the list. -/
theorem Owns.empty (ho : Owns h p []) : p = none ∧ h = fun _ => none :=
  ⟨ho.chain, funext fun a => ho.rest a List.not_mem_nil⟩

/-- The list around one of its cells. -/
theorem Owns.split (ho : Owns h p (as ++ (a, v) :: bs)) : ∃ n, h a = some n ∧ val n = v ∧
    Chain h p as (some a) ∧ Chain h (next n) bs none ∧ a ∉ as.map Prod.fst ∧
    a ∉ bs.map Prod.fst := by
  obtain ⟨r, h1, h2⟩ := chain_append.mp ho.chain
  obtain ⟨rfl, n, hn, hv, hbs⟩ := h2
  have hnd := ho.nodup
  rw [List.map_append, List.map_cons] at hnd
  have hmid := List.nodup_middle.mp hnd
  have hout := (List.nodup_cons.mp hmid).1
  exact ⟨n, hn, hv, h1, hbs, fun hm => hout (List.mem_append_left _ hm),
    fun hm => hout (List.mem_append_right _ hm)⟩

/-- Writing to a cell of the list what links on as before. -/
theorem Owns.set (ho : Owns h p (as ++ (a, v) :: bs)) (hn : h a = some n) (hm : next m = next n) :
    Owns (Function.update h a (some m)) p (as ++ (a, val m) :: bs) := by
  obtain ⟨n', hn', -, has, hbs, ha, hb⟩ := ho.split
  obtain rfl : n' = n := Option.some.inj (hn'.symm.trans hn)
  refine ⟨chain_append.mpr ⟨some a, has.frame ha _, rfl, m, Function.update_self .., rfl, ?_⟩, ?_⟩
  · rw [hm]
    exact hbs.frame hb _
  · intro c hc
    have hc' : c ∉ (as ++ (a, v) :: bs).map Prod.fst := by
      rwa [List.map_append, List.map_cons] at hc ⊢
    have hca : c ≠ a := by
      rintro rfl
      exact hc' (List.mem_map_of_mem (List.mem_append_right _ (List.mem_cons_self ..)))
    rw [Function.update_of_ne hca, ho.rest c hc']

/-- A first cell in the empty memory. -/
theorem owns_single (hm : next m = none) :
    Owns (Function.update (fun _ => none) b (some m)) (some b) [(b, val m)] := by
  refine ⟨⟨rfl, m, Function.update_self .., rfl, hm⟩, ?_⟩
  intro c hc
  have hcb : c ≠ b := by
    rintro rfl
    exact hc (List.mem_cons_self ..)
  rw [Function.update_of_ne hcb]

/-- A new cell that the last one is made to link to. -/
theorem Owns.snoc (ho : Owns h p (as ++ [(a, v)])) (hb : h b = none) (hm : next m = none)
    (hv : val n = v) (hn : next n = some b) :
    Owns (Function.update (Function.update h b (some m)) a (some n)) p
      (as ++ [(a, v)] ++ [(b, val m)]) := by
  obtain ⟨k, hk, -, has, -, ha, -⟩ := ho.split
  have hba : b ≠ a := by
    rintro rfl
    rw [hk] at hb
    cases hb
  have hbas : b ∉ as.map Prod.fst := by
    intro hmem
    obtain ⟨x, hx, rfl⟩ := List.mem_map.mp hmem
    obtain ⟨j, hj, -⟩ := has.live hx
    rw [hj] at hb
    cases hb
  have hat : Function.update (Function.update h b (some m)) a (some n) b = some m := by
    rw [Function.update_of_ne hba, Function.update_self]
  have hlast : Chain (Function.update (Function.update h b (some m)) a (some n)) (next n)
      [(b, val m)] none := ⟨hn, m, hat, rfl, hm⟩
  refine ⟨?_, ?_⟩
  · rw [List.append_assoc]
    exact chain_append.mpr ⟨some a, (has.frame hbas _).frame ha _, rfl, n,
      Function.update_self .., hv, hlast⟩
  · intro c hc
    simp only [List.map_append, List.map_cons, List.map_nil, List.mem_append, List.mem_singleton,
      not_or] at hc
    obtain ⟨⟨hcas, hca⟩, hcb⟩ := hc
    rw [Function.update_of_ne hca, Function.update_of_ne hcb]
    apply ho.rest
    simp only [List.map_append, List.map_cons, List.map_nil, List.mem_append, List.mem_singleton,
      not_or]
    exact ⟨hcas, hca⟩

/-- Freeing the first cell. -/
theorem Owns.tail (ho : Owns h p ((a, v) :: bs)) (hn : h a = some n) :
    Owns (Function.update h a none) (next n) bs := by
  have hsplit : Owns h p ([] ++ (a, v) :: bs) := ho
  obtain ⟨n', hn', -, -, hbs, -, hb⟩ := hsplit.split
  obtain rfl : n' = n := Option.some.inj (hn'.symm.trans hn)
  refine ⟨hbs.frame hb _, ?_⟩
  intro c hc
  by_cases hca : c = a
  · rw [hca, Function.update_self]
  · rw [Function.update_of_ne hca]
    apply ho.rest
    rw [List.map_cons, List.mem_cons, not_or]
    exact ⟨hca, hc⟩

/-- Freeing a cell that the one before has been made to link past. -/
theorem Owns.unlink (ho : Owns h p (as ++ (b, u) :: (a, v) :: bs)) (ha : h a = some n)
    (hv : val m = u) (hm : next m = next n) :
    Owns (Function.update (Function.update h b (some m)) a none) p (as ++ (b, u) :: bs) := by
  obtain ⟨k, hk, -, has, hab, hbas, hbab⟩ := ho.split
  obtain ⟨hka, n', hn', -, hbs⟩ := hab
  obtain rfl : n' = n := Option.some.inj (hn'.symm.trans ha)
  have hsplit : as ++ (b, u) :: (a, v) :: bs = (as ++ [(b, u)]) ++ (a, v) :: bs := by
    rw [List.append_assoc, List.singleton_append]
  obtain ⟨-, -, -, -, -, haout, habs⟩ := (hsplit ▸ ho : Owns h p _).split
  rw [List.map_append, List.map_cons, List.map_nil, List.mem_append, List.mem_singleton,
    not_or] at haout
  have hba : b ≠ a := Ne.symm haout.2
  have hbbs : b ∉ bs.map Prod.fst := by
    intro hmem
    exact hbab (List.mem_cons_of_mem _ hmem)
  refine ⟨chain_append.mpr ⟨some b, (has.frame hbas _).frame haout.1 _, rfl, m, ?_, hv, ?_⟩, ?_⟩
  · rw [Function.update_of_ne hba, Function.update_self]
  · rw [hm]
    exact (hbs.frame hbbs _).frame habs _
  · intro c hc
    rw [List.map_append, List.map_cons, List.mem_append, List.mem_cons, not_or, not_or] at hc
    obtain ⟨hcas, hcb, hcbs⟩ := hc
    by_cases hca : c = a
    · rw [hca, Function.update_self]
    · rw [Function.update_of_ne hca, Function.update_of_ne hcb]
      apply ho.rest
      rw [List.map_append, List.map_cons, List.map_cons, List.mem_append, List.mem_cons,
        List.mem_cons, not_or, not_or, not_or]
      exact ⟨hcas, hcb, hca, hcbs⟩

end Owns

end Linked
