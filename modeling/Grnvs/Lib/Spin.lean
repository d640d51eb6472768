/-
  Computations with fuel that never end.

  `Spins view v e x s` is the plainest way not to end: from some number of turns on, all that another
  turn does is to add `v` to what is seen of the state. A part of a program that spins makes the whole
  spin (`spins_bind_left`, `spins_bind_right`), and so does a turn of a loop (`spins_turn`,
  `spins_reached`).

  `Responsive I P view e x` says that started in `I` the computation ends or spins with a `v` in `P`,
  and that it leaves `I` true where it returns. Such computations compose (`responsive_bind`);
  computations that take no fuel are among them if they carry `I` along (`Carries`).
-/
import Grnvs.Lib.Fuel

namespace Comp

variable {ε σ α β ι ν : Type} {e : ε} {view : σ → List ν} {v : ν} {s s' : σ}

/-! ## Spinning -/

/-- From some fuel on the run takes all there is, and more of it adds as many `v`. -/
def Spins (view : σ → List ν) (v : ν) (e : ε) (x : Nat → Comp ε σ α) (s : σ) : Prop :=
  ∃ m vs, ∀ k, ((x (m + k)).run s).1 = .error e ∧
    view ((x (m + k)).run s).2 = vs ++ List.replicate k v

section Spins

variable {x : Nat → Comp ε σ α} {f : α → Nat → Comp ε σ β}

/-- It may be looked at as late as one likes. -/
theorem Spins.late (h : Spins view v e x s) (n : Nat) : ∃ m vs, n ≤ m ∧
    ∀ k, ((x (m + k)).run s).1 = .error e ∧
      view ((x (m + k)).run s).2 = vs ++ List.replicate k v := by
  obtain ⟨m, vs, hm⟩ := h
  refine ⟨m + n, vs ++ List.replicate n v, Nat.le_add_left n m, fun k => ?_⟩
  rw [Nat.add_assoc, List.append_assoc, List.replicate_append_replicate]
  exact hm (n + k)

theorem Spins.not_ends (h : Spins view v e x s) : ¬ Ends e x s := by
  rintro ⟨n, hn⟩
  obtain ⟨m, vs, hle, hm⟩ := h.late n
  exact hn (m + 0) hle (hm 0).1

/-- Runs that are the same with enough fuel spin together. -/
theorem spins_congr {y z : Nat → Comp ε σ β} (h : Spins view v e y s) (n : Nat)
    (hn : ∀ k, n ≤ k → (y k).run s = (z k).run s') : Spins view v e z s' := by
  obtain ⟨m, vs, hle, hm⟩ := h.late n
  refine ⟨m, vs, fun k => ?_⟩
  rw [← hn (m + k) (by omega)]
  exact hm k

theorem spins_bind_left (h : Spins view v e x s) :
    Spins view v e (fun k => x k >>= fun a => f a k) s := by
  obtain ⟨m, vs, hm⟩ := h
  refine ⟨m, vs, fun k => ?_⟩
  obtain ⟨herror, hview⟩ := hm k
  beta_reduce
  rw [bind_error (Prod.ext herror rfl)]
  exact ⟨rfl, hview⟩

theorem spins_bind_right {a : α} (hx : Settles x s (.ok a, s')) (h : Spins view v e (f a) s') :
    Spins view v e (fun k => x k >>= fun a => f a k) s := by
  obtain ⟨n, hn⟩ := hx
  refine spins_congr h n fun k hk => ?_
  rw [bind_ok (hn k hk)]

end Spins

section Loop

variable {turn : ι → Nat → Comp ε σ (ι ⊕ α)} {i j : ι}

/-- A loop spins in a turn that does. -/
theorem spins_turn (h : Spins view v e (turn i) s) : Spins view v e (loop e turn i) s := by
  obtain ⟨m, vs, hm⟩ := h
  refine ⟨m + 1, vs, fun k => ?_⟩
  obtain ⟨herror, hview⟩ := hm k
  rw [Nat.add_right_comm, loop_succ_error (Prod.ext herror rfl)]
  exact ⟨rfl, hview⟩

theorem spins_next (hn : Next turn (i, s) (j, s')) (h : Spins view v e (loop e turn j) s') :
    Spins view v e (loop e turn i) s := by
  obtain ⟨n, hn⟩ := hn
  obtain ⟨m, vs, hle, hm⟩ := h.late n
  refine ⟨m + 1, vs, fun k => ?_⟩
  rw [Nat.add_right_comm, loop_succ_ok (hn (m + k) (by omega))]
  exact hm k

/-- A loop spins that comes to a turn from which it does. -/
theorem spins_reached {p q : ι × σ} (hq : Relation.ReflTransGen (Next turn) p q)
    (h : Spins view v e (loop e turn q.1) q.2) : Spins view v e (loop e turn p.1) p.2 := by
  induction hq using Relation.ReflTransGen.head_induction_on with
  | refl => exact h
  | head hn _ ih => exact spins_next hn ih

/-- A loop spins whose turns leave it where it was, but for one `v` more. -/
theorem spins_repeat {I : σ → Prop}
    (h : ∀ s, I s → ∃ s', (∀ k, (turn i k).run s = (.ok (.inl i), s')) ∧ I s' ∧
      view s' = view s ++ [v]) (hs : I s) : Spins view v e (loop e turn i) s := by
  refine ⟨0, view s, fun k => ?_⟩
  rw [Nat.zero_add]
  induction k generalizing s with
  | zero => exact ⟨rfl, (List.append_nil _).symm⟩
  | succ k ih =>
    obtain ⟨s', hturn, hs', hview⟩ := h s hs
    rw [loop_succ_ok (hturn k), List.replicate_succ, List.append_cons, ← hview]
    exact ih hs'

end Loop

/-! ## Carrying a condition along -/

/-- Started in `I`, the run returns in `I` or stops with a reason in `E`. -/
structure Carries (I : σ → Prop) (E : ε → Prop) (x : Comp ε σ α) : Prop where
  closes : ∀ s, I s → Closes (fun _ s' => I s') (fun e _ => E e) (x.run s)

section Carries

variable {I : σ → Prop} {E : ε → Prop} {c d : Comp ε σ α} {g : α → Comp ε σ β}

theorem Carries.ok {a : α} (h : Carries I E c) (hs : I s) (hr : c.run s = (.ok a, s')) : I s' :=
  (h.closes s hs).ok hr

theorem carries_pure (a : α) : Carries I E (pure a : Comp ε σ α) := ⟨fun _ hs => hs⟩

theorem carries_stop (h : E e) : Carries I E (stop e : Comp ε σ α) := ⟨fun _ _ => h⟩

theorem carries_gets (h : σ → α) : Carries I E (gets h) := ⟨fun _ hs => hs⟩

theorem carries_modify {h : σ → σ} (hI : ∀ s, I s → I (h s)) : Carries I E (modify h) := ⟨hI⟩

theorem Carries.bind (hc : Carries I E c) (hg : ∀ a, Carries I E (g a)) : Carries I E (c >>= g) :=
  ⟨fun s hs => closes_bind (hc.closes s hs) fun a s' _ hs' => (hg a).closes s' hs'⟩

theorem carries_ite {p : Prop} [Decidable p] (hc : Carries I E c) (hd : Carries I E d) :
    Carries I E (if p then c else d) := by
  split
  · exact hc
  · exact hd

theorem carries_when {p : Prop} [Decidable p] {c : Comp ε σ Unit} (hc : Carries I E c) :
    Carries I E (when p c) := carries_ite hc (carries_pure ())

/-- What the turns of a loop carry along is so wherever the loop comes to. -/
theorem carries_reached {turn : ι → Nat → Comp ε σ (ι ⊕ α)} (h : ∀ i k, Carries I E (turn i k))
    {p q : ι × σ} (hq : Relation.ReflTransGen (Next turn) p q) (hp : I p.2) : I q.2 := by
  induction hq with
  | refl => exact hp
  | tail _ hn ih =>
    obtain ⟨n, hn⟩ := hn
    exact (h _ n).ok ih (hn n (Nat.le_refl n))

end Carries

/-! ## Ending or spinning -/

def EndsOrSpins (P : ν → Prop) (view : σ → List ν) (e : ε) (x : Nat → Comp ε σ α) (s : σ) : Prop :=
  Ends e x s ∨ ∃ v, P v ∧ Spins view v e x s

/-- Started in `I`, the run ends or spins with a `v` in `P`, and where it returns `I` is true. -/
structure Responsive (I : σ → Prop) (P : ν → Prop) (view : σ → List ν) (e : ε)
    (x : Nat → Comp ε σ α) : Prop where
  stable : Stable e x
  comes : ∀ s, I s → EndsOrSpins P view e x s
  keeps : ∀ k s a s', I s → (x k).run s = (.ok a, s') → I s'

section Responsive

variable {I : σ → Prop} {P : ν → Prop} {x y : Nat → Comp ε σ α} {f : α → Nat → Comp ε σ β}

theorem endsOrSpins_bind (hs : Stable e x) (hx : EndsOrSpins P view e x s)
    (hf : ∀ a s', Settles x s (.ok a, s') → EndsOrSpins P view e (f a) s') :
    EndsOrSpins P view e (fun k => x k >>= fun a => f a k) s := by
  obtain hends | ⟨v, hv, hspins⟩ := hx
  · have hends' := hends
    obtain ⟨n, hn⟩ := hends'
    have hset : Settles x s ((x n).run s) := hs.settles rfl (hn n (Nat.le_refl n))
    rcases hr : (x n).run s with ⟨e' | a, s'⟩
    · rw [hr] at hset
      exact .inl (ends_bind hs hends fun a t h => nomatch h.unique hset)
    · rw [hr] at hset
      obtain hrest | ⟨v, hv, hrest⟩ := hf a s' hset
      · refine .inl (ends_bind hs hends fun b t h => ?_)
        cases h.unique hset
        exact hrest
      · exact .inr ⟨v, hv, spins_bind_right hset hrest⟩
  · exact .inr ⟨v, hv, spins_bind_left hspins⟩

theorem Carries.responsive {c : Comp ε σ α} (h : Carries I (· ≠ e) c) :
    Responsive I P view e fun _ => c where
  stable := stable_const c
  comes s hs := by
    refine .inl (finally_const.mpr fun he => ?_)
    exact (h.closes s hs).error (Prod.ext he rfl) rfl
  keeps _ s a s' hs hr := h.ok hs hr

theorem responsive_bind (hx : Responsive I P view e x) (hf : ∀ a, Responsive I P view e (f a)) :
    Responsive I P view e fun k => x k >>= fun a => f a k where
  stable := stable_bind hx.stable fun a => (hf a).stable
  comes s hs := endsOrSpins_bind hx.stable (hx.comes s hs) fun a s' hset => by
    obtain ⟨n, hn⟩ := hset
    exact (hf a).comes s' (hx.keeps n s a s' hs (hn n (Nat.le_refl n)))
  keeps k s b t hs hr := by
    obtain ⟨a, s', h1, h2⟩ := bind_eq_ok hr
    exact (hf a).keeps k s' b t (hx.keeps k s a s' hs h1) h2

theorem responsive_ite {c : Prop} [Decidable c] (hx : Responsive I P view e x)
    (hy : Responsive I P view e y) : Responsive I P view e fun k => if c then x k else y k := by
  by_cases hc : c
  · simp only [if_pos hc]
    exact hx
  · simp only [if_neg hc]
    exact hy

end Responsive

end Comp
