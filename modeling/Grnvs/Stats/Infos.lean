/-
  What the list functions of ethstats do to a heap that holds the list.

  A node carries an `Entry`. `countType` does to the entries what `tally` does to a plain list
  (`countType_run`), and one turn of the printing loop takes out an entry of the least type
  (`summaryLoop_run`), so that the whole loop drains the list.
-/
import Grnvs.Lib.Selection
import Grnvs.Stats.Tally

namespace Grnvs.Stats

open Linked

instance : Node TypeInfo Entry where
  val info := ⟨info.ethType, info.frameCounter, info.byteCounter⟩
  next := TypeInfo.next

open Node (val next)

@[simp] theorem val_ethType (info : TypeInfo) : (val info : Entry).ethType = info.ethType := rfl

@[simp] theorem next_info (info : TypeInfo) : (next info : Link) = info.next := rfl

section Lookup

variable {w : World} {p : Link} {a b : Addr} {v u : Entry} {as bs xs : List (Addr × Entry)}
  {fuel t : Nat}

/-! ## Walking along the list -/

theorem getInfoByType_absent (hc : Chain w.heap p xs none) (ht : ∀ x ∈ xs, x.2.ethType ≠ t)
    (hfuel : xs.length < fuel) : (getInfoByType t fuel p).run w = (.ok none, w) := by
  induction xs generalizing p fuel with
  | nil =>
    obtain rfl : p = none := hc
    obtain ⟨f, rfl⟩ : ∃ f, fuel = f + 1 := ⟨fuel - 1, by rw [List.length_nil] at hfuel; omega⟩
    rfl
  | cons x xs ih =>
    obtain ⟨rfl, n, hn, hv, hc⟩ := hc
    rw [List.length_cons] at hfuel
    obtain ⟨f, rfl⟩ : ∃ f, fuel = f + 1 := ⟨fuel - 1, by omega⟩
    have hne : n.ethType ≠ t := by
      rw [← val_ethType, hv]
      exact ht x (List.mem_cons_self ..)
    rw [getInfoByType, Comp.bind_ok (deref_run hn), if_pos hne]
    exact ih hc (fun y hy => ht y (List.mem_cons_of_mem _ hy)) (by omega)

theorem getInfoByType_present (hc : Chain w.heap p (as ++ (a, v) :: bs) none)
    (ht : ∀ x ∈ as, x.2.ethType ≠ t) (hv : v.ethType = t) (hfuel : as.length < fuel) :
    (getInfoByType t fuel p).run w = (.ok (some a), w) := by
  induction as generalizing p fuel with
  | nil =>
    obtain ⟨rfl, n, hn, hnv, -⟩ := hc
    obtain ⟨f, rfl⟩ : ∃ f, fuel = f + 1 := ⟨fuel - 1, by omega⟩
    have he : ¬ n.ethType ≠ t := by
      rw [← val_ethType, hnv]
      exact not_not.mpr hv
    rw [getInfoByType, Comp.bind_ok (deref_run hn), if_neg he]
    rfl
  | cons x as ih =>
    obtain ⟨rfl, n, hn, hnv, hc⟩ := hc
    rw [List.length_cons] at hfuel
    obtain ⟨f, rfl⟩ : ∃ f, fuel = f + 1 := ⟨fuel - 1, by omega⟩
    have hne : n.ethType ≠ t := by
      rw [← val_ethType, hnv]
      exact ht x (List.mem_cons_self ..)
    rw [getInfoByType, Comp.bind_ok (deref_run hn), if_pos hne]
    exact ih hc (fun y hy => ht y (List.mem_cons_of_mem _ hy)) (by omega)

theorem lastInfo_run (hc : Chain w.heap p (as ++ [(a, v)]) none) (hfuel : as.length < fuel) :
    (lastInfo fuel p).run w = (.ok (some a), w) := by
  induction as generalizing p fuel with
  | nil =>
    obtain ⟨rfl, n, hn, -, hend⟩ := hc
    obtain ⟨f, rfl⟩ : ∃ f, fuel = f + 1 := ⟨fuel - 1, by omega⟩
    have hnext : n.next = none := hend
    rw [lastInfo, Comp.bind_ok (deref_run hn), hnext]
    rfl
  | cons x as ih =>
    obtain ⟨rfl, n, hn, -, hc⟩ := hc
    rw [List.length_cons] at hfuel
    obtain ⟨f, rfl⟩ : ∃ f, fuel = f + 1 := ⟨fuel - 1, by omega⟩
    have hrun := ih hc (by omega : as.length < f)
    obtain ⟨c, hnext⟩ : ∃ c, n.next = some c := by
      cases as with
      | nil => exact ⟨_, hc.1⟩
      | cons y as => exact ⟨_, hc.1⟩
    rw [next_info, hnext] at hrun
    rw [lastInfo, Comp.bind_ok (deref_run hn), hnext]
    exact hrun

theorem infoBefore_run (hc : Chain w.heap p (as ++ (b, u) :: (a, v) :: bs) none)
    (ht : ∀ x ∈ as ++ [(b, u)], x.2.ethType ≠ t) (hv : v.ethType = t) (hfuel : as.length < fuel) :
    (infoBefore t fuel p).run w = (.ok (some b), w) := by
  induction as generalizing p fuel with
  | nil =>
    obtain ⟨rfl, n, hn, -, hnext, m, hm, hmv, -⟩ := hc
    obtain ⟨f, rfl⟩ : ∃ f, fuel = f + 1 := ⟨fuel - 1, by omega⟩
    have hnext' : n.next = some a := hnext
    have he : ¬ m.ethType ≠ t := by
      rw [← val_ethType, hmv]
      exact not_not.mpr hv
    rw [infoBefore, Comp.bind_ok (deref_run hn), hnext']
    dsimp only
    rw [Comp.bind_ok (deref_run hm), if_neg he]
    rfl
  | cons x as ih =>
    obtain ⟨rfl, n, hn, -, hc⟩ := hc
    rw [List.length_cons] at hfuel
    obtain ⟨f, rfl⟩ : ∃ f, fuel = f + 1 := ⟨fuel - 1, by omega⟩
    have hrun := ih hc (fun y hy => ht y (List.mem_cons_of_mem _ hy)) (by omega : as.length < f)
    -- the next node is one of those whose type is another one
    obtain ⟨y, hy, hnext, m, hm, hmv⟩ : ∃ y ∈ as ++ [(b, u)], n.next = some y.1 ∧
        ∃ m, w.heap y.1 = some m ∧ val m = y.2 := by
      cases as with
      | nil =>
        obtain ⟨hnext, m, hm, hmv, -⟩ := hc
        exact ⟨(b, u), List.mem_cons_self .., hnext, m, hm, hmv⟩
      | cons y as =>
        obtain ⟨hnext, m, hm, hmv, -⟩ := hc
        exact ⟨y, List.mem_cons_self .., hnext, m, hm, hmv⟩
    have hne : m.ethType ≠ t := by
      rw [← val_ethType, hmv]
      exact ht y (List.mem_cons_of_mem _ hy)
    rw [next_info, hnext] at hrun
    rw [infoBefore, Comp.bind_ok (deref_run hn), hnext]
    dsimp only
    rw [Comp.bind_ok (deref_run hm), if_pos hne]
    exact hrun

/-- The loop of `min` ends at the least type of what it has seen and what it will see. -/
theorem minLoop_run {n : TypeInfo} (hb : w.heap b = some n) (hu : val n = u)
    (hc : Chain w.heap p xs none) (hfuel : xs.length < fuel) :
    ∃ x ∈ (b, u) :: xs, (∀ y ∈ (b, u) :: xs, x.2.ethType ≤ y.2.ethType) ∧
      (minLoop fuel (some b) p).run w = (.ok (some x.1), w) := by
  induction xs generalizing p fuel b u n with
  | nil =>
    obtain rfl : p = none := hc
    obtain ⟨f, rfl⟩ : ∃ f, fuel = f + 1 := ⟨fuel - 1, by rw [List.length_nil] at hfuel; omega⟩
    refine ⟨(b, u), List.mem_cons_self .., ?_, rfl⟩
    intro y hy
    obtain rfl := List.mem_singleton.mp hy
    exact Nat.le_refl _
  | cons x xs ih =>
    obtain ⟨rfl, m, hm, hv, hc⟩ := hc
    rw [List.length_cons] at hfuel
    obtain ⟨f, rfl⟩ : ∃ f, fuel = f + 1 := ⟨fuel - 1, by omega⟩
    have hnu : n.ethType = u.ethType := by rw [← hu, val_ethType]
    have hmx : m.ethType = x.2.ethType := by rw [← hv, val_ethType]
    rw [minLoop, Comp.bind_ok (deref_run hm), Comp.bind_ok (deref_run hb)]
    by_cases hlt : m.ethType < n.ethType
    · rw [if_pos hlt]
      obtain ⟨y, hy, hmin, hrun⟩ := ih hm hv hc (by omega : xs.length < f)
      refine ⟨y, List.mem_cons_of_mem _ hy, ?_, hrun⟩
      intro z hz
      rcases List.mem_cons.mp hz with rfl | hz
      · have hle := hmin x (List.mem_cons_self ..)
        dsimp only
        omega
      · exact hmin z hz
    · rw [if_neg hlt]
      obtain ⟨y, hy, hmin, hrun⟩ := ih hb hu hc (by omega : xs.length < f)
      have hle := hmin (b, u) (List.mem_cons_self ..)
      dsimp only at hle
      refine ⟨y, ?_, ?_, hrun⟩
      · rcases List.mem_cons.mp hy with rfl | hy
        · exact List.mem_cons_self ..
        · exact List.mem_cons_of_mem _ (List.mem_cons_of_mem _ hy)
      · intro z hz
        rcases List.mem_cons.mp hz with rfl | hz
        · exact hle
        rcases List.mem_cons.mp hz with rfl | hz
        · omega
        · exact hmin z (List.mem_cons_of_mem _ hz)

theorem min_run (hc : Chain w.heap p xs none) (hne : xs ≠ []) (hfuel : xs.length < fuel) :
    ∃ x ∈ xs, (∀ y ∈ xs, x.2.ethType ≤ y.2.ethType) ∧
      (min fuel p).run w = (.ok (some x.1), w) := by
  cases xs with
  | nil => exact absurd rfl hne
  | cons x xs =>
    obtain ⟨rfl, n, hn, hv, hrest⟩ := id hc
    obtain ⟨y, hy, hmin, hrun⟩ := minLoop_run hn hv hc hfuel
    have hsub : ∀ z, z ∈ x :: x :: xs ↔ z ∈ x :: xs := by
      intro z
      rw [List.mem_cons, List.mem_cons, or_self_left]
    refine ⟨y, (hsub y).mp hy, ?_, hrun⟩
    intro z hz
    exact hmin z ((hsub z).mpr hz)

end Lookup

/-! ## Building the list up -/

section Insert

variable {w : World} {p : Link} {xs : List (Addr × Entry)} {fuel t : Nat}

theorem newInfo_run (h : w.kernel.full w.mallocs = false) :
    (newInfo t).run w = (.ok (some w.mallocs),
      { w with
        mallocs := w.mallocs + 1
        heap := Function.update w.heap w.mallocs (some ⟨t, 0, 0, none⟩) }) := by
  rw [newInfo, Comp.bind_ok (malloc_run h), Comp.when_pos (Option.some_ne_none _)]
  refine Comp.bind_ok (a := ()) ?_
  rw [Comp.bind_ok (assign_run (Function.update_self ..) _),
    Comp.bind_ok (assign_run (Function.update_self ..) _),
    Comp.bind_ok (assign_run (Function.update_self ..) _), assign_run (Function.update_self ..) _,
    Function.update_idem, Function.update_idem, Function.update_idem, Function.update_idem]

theorem insertInfo_run {h : Addr → Option TypeInfo} {b : Addr} {m : TypeInfo}
    (ho : Owns h p xs) (hb : h b = none) (hm : m.next = none)
    (hw : w.heap = Function.update h b (some m)) (hfuel : xs.length < fuel) :
    ∃ p' h', (insertInfo fuel (some b) p).run w = (.ok p', { w with heap := h' }) ∧
      Owns h' p' (xs ++ [(b, val m)]) := by
  rcases List.eq_nil_or_concat xs with rfl | ⟨as, x, rfl⟩
  · obtain ⟨rfl, rfl⟩ := ho.empty
    refine ⟨some b, w.heap, rfl, ?_⟩
    rw [hw]
    exact owns_single hm
  · obtain ⟨a, v⟩ := x
    rw [List.concat_eq_append] at ho hfuel ⊢
    obtain ⟨n, hn, hv, -⟩ := ho.split
    have hba : a ≠ b := by
      rintro rfl
      rw [hn] at hb
      cases hb
    have hbas : b ∉ (as ++ [(a, v)]).map Prod.fst := by
      intro hmem
      obtain ⟨x, hx, rfl⟩ := List.mem_map.mp hmem
      obtain ⟨k, hk, -⟩ := ho.chain.live hx
      rw [hk] at hb
      cases hb
    have hchain : Chain w.heap p (as ++ [(a, v)]) none := by
      rw [hw]
      exact ho.chain.frame hbas _
    have hcell : w.heap a = some n := by rw [hw, Function.update_of_ne hba, hn]
    rw [List.length_append, List.length_singleton] at hfuel
    obtain ⟨c, rfl⟩ : ∃ c, p = some c := by
      cases as with
      | nil => exact ⟨_, hchain.1⟩
      | cons x as => exact ⟨_, hchain.1⟩
    refine ⟨some c, Function.update w.heap a (some { n with next := some b }), ?_, ?_⟩
    · rw [insertInfo, Comp.bind_ok (lastInfo_run hchain (by omega)), Comp.bind_ok (assign_run hcell _)]
      rfl
    · rw [hw]
      exact ho.snoc hb hm hv rfl

/-- The heap holds the entries `es` in a list at `p`, in the order in which their nodes came from
    `malloc`. -/
def Stored (w : World) (p : Link) (es : List Entry) : Prop :=
  ∃ xs, Owns w.heap p xs ∧ xs.map Prod.fst = List.range w.mallocs ∧ xs.map Prod.snd = es

/-- `countType` does to the stored entries what `tally` does. -/
theorem countType_run {es : List Entry} (t ret : Nat) (hs : Stored w p es)
    (hfull : w.kernel.full w.mallocs = false) (hfuel : es.length < fuel) :
    ∃ p' h' m', (countType fuel t ret p).run w = (.ok p', { w with heap := h', mallocs := m' }) ∧
      Stored { w with heap := h', mallocs := m' } p' (tally t ret es) := by
  obtain ⟨xs, ho, haddr, rfl⟩ := hs
  rw [List.length_map] at hfuel
  rcases absent_or_present (fun x : Addr × Entry => x.2.ethType) t xs with
    hno | ⟨as, ⟨a, v⟩, bs, rfl, has, hv⟩
  · have hfresh : w.heap w.mallocs = none := by
      apply ho.rest
      rw [haddr, List.mem_range]
      exact Nat.lt_irrefl _
    have hnot : ∀ e ∈ xs.map Prod.snd, e.ethType ≠ t := by
      intro e he
      obtain ⟨x, hx, rfl⟩ := List.mem_map.mp he
      exact hno x hx
    obtain ⟨p', h', hrun, ho'⟩ := insertInfo_run (m := ⟨t, 1, u32 ret, none⟩)
      (w := { w with
        mallocs := w.mallocs + 1
        heap := Function.update w.heap w.mallocs (some ⟨t, 1, u32 ret, none⟩) })
      ho hfresh rfl rfl hfuel
    refine ⟨p', h', w.mallocs + 1, ?_, _, ho', ?_, ?_⟩
    · rw [countType, Comp.bind_ok (getInfoByType_absent ho.chain hno hfuel)]
      dsimp only
      rw [Comp.bind_ok (newInfo_run hfull), Comp.bind_ok (assign_run (Function.update_self ..) _),
        Comp.bind_ok (assign_run (Function.update_self ..) _), Function.update_idem,
        Function.update_idem]
      exact hrun
    · rw [List.map_append, haddr]
      exact List.range_succ.symm
    · rw [tally_absent hnot, List.map_append]
      rfl
  · obtain ⟨n, hn, hnv, -⟩ := ho.split
    have hnt : ∀ e ∈ as.map Prod.snd, e.ethType ≠ t := by
      intro e he
      obtain ⟨x, hx, rfl⟩ := List.mem_map.mp he
      exact has x hx
    rw [List.length_append] at hfuel
    refine ⟨p, Function.update w.heap a (some { n with
      frameCounter := u32 (n.frameCounter + 1)
      byteCounter := u32 (n.byteCounter + ret) }), w.mallocs, ?_, _, ho.set hn rfl, ?_, ?_⟩
    · rw [countType, Comp.bind_ok (getInfoByType_present ho.chain has hv (by omega))]
      dsimp only
      rw [Comp.bind_ok (assign_run hn _), Comp.bind_ok (assign_run (Function.update_self ..) _),
        Function.update_idem]
      rfl
    · rw [← haddr, List.map_append, List.map_append, List.map_cons, List.map_cons]
    · rw [List.map_append, List.map_append, List.map_cons, List.map_cons, tally_present hnt hv,
        ← hnv, ← hv, ← hnv]
      rfl

end Insert

/-! ## Taking the list down -/

section Remove

variable {w : World} {p : Link} {a : Addr} {v : Entry} {as bs xs : List (Addr × Entry)}
  {fuel t : Nat}

theorem removeByType_run (ho : Owns w.heap p (as ++ (a, v) :: bs))
    (ht : ∀ x ∈ as, x.2.ethType ≠ t) (hv : v.ethType = t) (hfuel : as.length < fuel) :
    ∃ p' h', (removeByType fuel t p).run w =
        (.ok p', { w with heap := h', freed := w.freed ++ [a] }) ∧ Owns h' p' (as ++ bs) := by
  rcases List.eq_nil_or_concat as with rfl | ⟨cs, x, rfl⟩
  · obtain ⟨rfl, n, hn, hnv, -⟩ := ho.chain
    have he : n.ethType = t := by rw [← val_ethType, hnv, hv]
    refine ⟨n.next, Function.update w.heap a none, ?_, ho.tail hn⟩
    rw [removeByType]
    dsimp only
    rw [Comp.bind_ok (deref_run hn), if_pos he, Comp.bind_ok (free_run hn)]
    rfl
  · obtain ⟨b, u⟩ := x
    rw [List.concat_eq_append] at ho ht hfuel ⊢
    rw [List.length_append, List.length_singleton] at hfuel
    rw [List.append_assoc, List.singleton_append] at ho ⊢
    obtain ⟨k, hk, hku, -, hnext, -⟩ := ho.split
    obtain ⟨hka, n, hn, hnv, -⟩ := hnext
    have hne : a ≠ b := by
      rintro rfl
      have hnd := ho.nodup
      rw [List.map_append, List.map_cons, List.map_cons] at hnd
      have hout := (List.nodup_cons.mp (List.nodup_middle.mp hnd)).1
      exact hout (List.mem_append_right _ (List.mem_cons_self ..))
    have hka' : k.next = some a := hka
    have hfree : Function.update w.heap b (some { k with next := n.next }) a = some n := by
      rw [Function.update_of_ne hne, hn]
    -- the first node has another type
    obtain ⟨c, first, rfl, hfirst, hother⟩ : ∃ c first, p = some c ∧ w.heap c = some first ∧
        first.ethType ≠ t := by
      cases cs with
      | nil =>
        obtain ⟨hp, m, hm, hmv, -⟩ := ho.chain
        refine ⟨b, m, hp, hm, ?_⟩
        rw [← val_ethType, hmv]
        exact ht (b, u) (List.mem_cons_self ..)
      | cons y cs =>
        obtain ⟨hp, m, hm, hmv, -⟩ := ho.chain
        refine ⟨y.1, m, hp, hm, ?_⟩
        rw [← val_ethType, hmv]
        exact ht y (List.mem_cons_self ..)
    refine ⟨some c, _, ?_, ho.unlink (m := { k with next := n.next }) hn hku rfl⟩
    rw [removeByType, Comp.bind_ok (deref_run hfirst), if_neg hother,
      Comp.bind_ok (infoBefore_run ho.chain ht hv (by omega)), Comp.bind_ok (deref_run hk), hka']
    dsimp only
    rw [Comp.bind_ok (deref_run hn), Comp.bind_ok (assign_run hk _), Comp.bind_ok (free_run hfree)]
    rfl

/-- What is printed for an entry. -/
def line (e : Entry) : Output := .stdout (summaryLine e.ethType e.frames e.bytes)

/-- The printing loop prints and frees one node after the other, always one of the least type. -/
theorem summaryLoop_run {turns : Nat} (ho : Owns w.heap p xs)
    (hnd : (xs.map fun x => x.2.ethType).Nodup) (hturns : xs.length < turns)
    (hfuel : xs.length < fuel) :
    ∃ ys, Selection.Drains (fun x : Addr × Entry => x.2.ethType) xs ys ∧
      (summaryLoop fuel turns p).run w = (.ok none, { w with
        heap := fun _ => none
        freed := w.freed ++ ys.map Prod.fst
        out := w.out ++ ys.map fun x => line x.2 }) := by
  induction turns generalizing w p xs with
  | zero => omega
  | succ turns ih =>
    by_cases hne : xs = []
    · subst hne
      obtain ⟨rfl, hempty⟩ := ho.empty
      refine ⟨[], .nil, ?_⟩
      rw [summaryLoop, ← hempty, List.map_nil, List.append_nil, List.map_nil, List.append_nil]
      rfl
    obtain ⟨x, hx, hmin, hrun⟩ := min_run ho.chain hne hfuel
    obtain ⟨as, bs, rfl⟩ := List.append_of_mem hx
    obtain ⟨a, v⟩ := x
    have hother : ∀ y ∈ as, y.2.ethType ≠ v.ethType := by
      intro y hy heq
      rw [List.map_append, List.map_cons] at hnd
      have hout := (List.nodup_cons.mp (List.nodup_middle.mp hnd)).1
      exact hout (List.mem_append_left _ (List.mem_map.mpr ⟨y, hy, heq⟩))
    have hrest : ((as ++ bs).map fun x => x.2.ethType).Nodup := by
      rw [List.map_append, List.map_cons] at hnd
      rw [List.map_append]
      exact (List.nodup_cons.mp (List.nodup_middle.mp hnd)).2
    rw [List.length_append, List.length_cons] at hturns hfuel
    obtain ⟨n, hn, hnv, -⟩ := ho.split
    have hnt : n.ethType = v.ethType := by rw [← hnv, val_ethType]
    obtain ⟨p', h', hremove, ho'⟩ := removeByType_run (w := { w with
      out := w.out ++ [line v] }) ho hother rfl (by omega : as.length < fuel)
    obtain ⟨ys, hys, hloop⟩ := ih (w := { w with
      out := w.out ++ [line v], heap := h', freed := w.freed ++ [a] }) ho' hrest (by rw [List.length_append]; omega)
      (by rw [List.length_append]; omega)
    obtain ⟨c, rfl⟩ : ∃ c, p = some c := by
      cases as with
      | nil => exact ⟨_, ho.chain.1⟩
      | cons y as => exact ⟨_, ho.chain.1⟩
    refine ⟨(a, v) :: ys, .take hmin hys, ?_⟩
    have hline : print (.stdout (summaryLine n.ethType n.frameCounter n.byteCounter)) =
        print (line v) := by
      rw [line, ← hnv]
      rfl
    rw [summaryLoop, Comp.bind_ok hrun, Comp.bind_ok (deref_run hn), hline, hnt, print,
      Comp.modify_bind, Comp.bind_ok hremove, hloop, List.map_cons, List.map_cons,
      List.append_assoc, List.append_assoc, List.singleton_append, List.singleton_append]

end Remove

end Grnvs.Stats
