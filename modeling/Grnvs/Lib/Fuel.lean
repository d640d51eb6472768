/-
  Computations with fuel, and loops made of them.

  `x k` is a computation that may take `k` turns, and stops with the reason `e` when they do not
  suffice. `Stable e x` says that more turns change nothing once it has ended in another way;
  binds and loops of stable computations are stable (`stable_bind`, `stable_loop`). `Follows` is
  the same for two runs, the first of which may have run out of fuel where more does not help.

  `Always` is what holds for every number of turns, `Finally` what holds for all large ones. A loop
  is as good as the turns it comes to: what every turn makes sure of holds of the loop
  (`always_loop`), and what holds of the loop held in every turn (`finally_loop`), for conditions
  that can only be lost. A loop whose turns end, and that cannot go on for ever, ends (`ends_loop`).
-/
import Grnvs.Lib.Comp
import Mathlib.Logic.Relation

namespace Comp

variable {ε σ α β ι : Type} {e bad : ε} {K : σ → Prop} {s s' : σ}

/-! ## Fuel -/

/-- A run that has not run out of fuel is the same with more of it. -/
def Stable (e : ε) (x : Nat → Comp ε σ α) : Prop :=
  ∀ s k, ((x k).run s).1 ≠ .error e → ∀ k', k ≤ k' → (x k').run s = (x k).run s

/-- With enough fuel the run is `r`. -/
def Settles (x : Nat → Comp ε σ α) (s : σ) (r : Except ε α × σ) : Prop :=
  ∃ n, ∀ k, n ≤ k → (x k).run s = r

/-- `G` holds of the run with any fuel. -/
def Always (G : Except ε α × σ → Prop) (x : Nat → Comp ε σ α) (s : σ) : Prop :=
  ∀ k, G ((x k).run s)

/-- `G` holds of the run with enough fuel. -/
def Finally (G : Except ε α × σ → Prop) (x : Nat → Comp ε σ α) (s : σ) : Prop :=
  ∃ n, ∀ k, n ≤ k → G ((x k).run s)

/-- The run has not stopped with `bad`, and its last state is in `K`. -/
def Good (bad : ε) (K : σ → Prop) (r : Except ε α × σ) : Prop := r.1 ≠ .error bad ∧ K r.2

/-- With enough fuel the run ends. -/
def Ends (e : ε) (x : Nat → Comp ε σ α) (s : σ) : Prop := Finally (fun r => r.1 ≠ .error e) x s

section Fuel

variable {x : Nat → Comp ε σ α} {f : α → Nat → Comp ε σ β}

theorem stable_const (y : Comp ε σ α) : Stable e fun _ => y := fun _ _ _ _ _ => rfl

theorem settles_const {y : Comp ε σ α} {r : Except ε α × σ} :
    Settles (fun _ => y) s r ↔ y.run s = r := by
  constructor
  · rintro ⟨n, hn⟩
    exact hn n (Nat.le_refl n)
  · exact fun h => ⟨0, fun _ _ => h⟩

theorem Stable.settles (h : Stable e x) {k : Nat} {r : Except ε α × σ} (hr : (x k).run s = r)
    (hne : r.1 ≠ .error e) : Settles x s r := by
  subst hr
  exact ⟨k, h s k hne⟩

/-- A run has one result. -/
theorem Settles.unique {r r' : Except ε α × σ} (h : Settles x s r) (h' : Settles x s r') :
    r = r' := by
  obtain ⟨n, hn⟩ := h
  obtain ⟨m, hm⟩ := h'
  exact (hn (max n m) (Nat.le_max_left n m)).symm.trans (hm (max n m) (Nat.le_max_right n m))

theorem Always.finally {G : Except ε α × σ → Prop} (h : Always G x s) : Finally G x s :=
  ⟨0, fun k _ => h k⟩

theorem finally_const {G : Except ε α × σ → Prop} {y : Comp ε σ α} :
    Finally G (fun _ => y) s ↔ G (y.run s) := by
  constructor
  · rintro ⟨n, hn⟩
    exact hn n (Nat.le_refl n)
  · exact fun h => ⟨0, fun _ _ => h⟩

/-- Runs that are the same with enough fuel have the same end. -/
theorem finally_congr {G : Except ε β × σ → Prop} {y z : Nat → Comp ε σ β} (h : Finally G y s)
    (m : Nat) (hm : ∀ k, m ≤ k → (y k).run s = (z k).run s') : Finally G z s' := by
  obtain ⟨n, hn⟩ := h
  refine ⟨max n m, fun k hk => ?_⟩
  rw [← hm k (by omega)]
  exact hn k (by omega)

theorem stable_bind (hx : Stable e x) (hf : ∀ a, Stable e (f a)) :
    Stable e fun k => x k >>= fun a => f a k := by
  intro s k hne k' hk
  rcases hr : (x k).run s with ⟨e' | a, s'⟩
  · have hne' : e' ≠ e := by
      rintro rfl
      rw [bind_error hr] at hne
      exact hne rfl
    have hr' : (x k').run s = (.error e', s') := by
      rw [← hr]
      refine hx s k ?_ k' hk
      rw [hr]
      exact fun h => hne' (Except.error.inj h)
    rw [bind_error hr, bind_error hr']
  · have hr' : (x k').run s = (.ok a, s') := by
      rw [← hr]
      refine hx s k ?_ k' hk
      rw [hr]
      exact nofun
    rw [bind_ok hr] at hne
    rw [bind_ok hr, bind_ok hr']
    exact hf a s' k hne k' hk

theorem stable_ite {c : Prop} [Decidable c] {y : Nat → Comp ε σ α} (hx : Stable e x)
    (hy : Stable e y) : Stable e fun k => if c then x k else y k := by
  by_cases hc : c
  · simp only [if_pos hc]
    exact hx
  · simp only [if_neg hc]
    exact hy

theorem always_bind (hx : Always (Good bad K) x s)
    (hf : ∀ k a s', (x k).run s = (.ok a, s') → Always (Good bad K) (f a) s') :
    Always (Good bad K) (fun k => x k >>= fun a => f a k) s := by
  intro k
  have hk := hx k
  rcases hr : (x k).run s with ⟨e' | a, s'⟩
  · rw [hr] at hk
    rw [bind_error hr]
    exact ⟨fun h => hk.1 (congrArg Except.error (Except.error.inj h)), hk.2⟩
  · rw [bind_ok hr]
    exact hf k a s' hr k

/-- The first part of a good run is good when the condition can only be lost. -/
theorem finally_bind_left (h : Finally (Good bad K) (fun k => x k >>= fun a => f a k) s)
    (hf : ∀ a k, Reflects K (f a k)) : Finally (Good bad K) x s := by
  obtain ⟨n, hn⟩ := h
  refine ⟨n, fun k hk => ?_⟩
  have hgood := hn k hk
  rcases hr : (x k).run s with ⟨e' | a, s'⟩
  · rw [bind_error hr] at hgood
    exact ⟨fun h => hgood.1 (congrArg Except.error (Except.error.inj h)), hgood.2⟩
  · rw [bind_ok hr] at hgood
    exact ⟨nofun, hf a k s' hgood.2⟩

theorem finally_bind_right {G : Except ε β × σ → Prop}
    (h : Finally G (fun k => x k >>= fun a => f a k) s) {a : α}
    (hx : Settles x s (.ok a, s')) : Finally G (f a) s' := by
  obtain ⟨m, hm⟩ := hx
  exact finally_congr h m fun k hk => bind_ok (hm k hk)

theorem ends_bind_left (h : Ends e (fun k => x k >>= fun a => f a k) s) : Ends e x s := by
  obtain ⟨n, hn⟩ := h
  refine ⟨n, fun k hk he => hn k hk ?_⟩
  rcases hr : (x k).run s with ⟨e' | a, s'⟩
  · rw [hr] at he
    rw [bind_error hr]
    exact congrArg Except.error (Except.error.inj he)
  · rw [hr] at he
    cases he

theorem ends_bind (hs : Stable e x) (hx : Ends e x s)
    (hf : ∀ a s', Settles x s (.ok a, s') → Ends e (f a) s') :
    Ends e (fun k => x k >>= fun a => f a k) s := by
  obtain ⟨n, hn⟩ := hx
  have hne := hn n (Nat.le_refl n)
  have hset : Settles x s ((x n).run s) := hs.settles rfl hne
  rcases hr : (x n).run s with ⟨e' | a, s'⟩
  · rw [hr] at hne hset
    obtain ⟨m, hm⟩ := hset
    refine ⟨m, fun k hk he => hne ?_⟩
    rw [bind_error (hm k hk)] at he
    exact congrArg Except.error (Except.error.inj he)
  · rw [hr] at hset
    obtain ⟨m, hm⟩ := hset
    obtain ⟨l, hl⟩ := hf a s' ⟨m, hm⟩
    refine ⟨max m l, fun k hk => ?_⟩
    rw [bind_ok (hm k (by omega))]
    exact hl k (by omega)

/-- A run with more fuel is the same, if the first has returned or has stopped in `E`. -/
def Follows (E : ε → σ → Prop) (r r' : Except ε α × σ) : Prop :=
  Closes (fun _ _ => r' = r) (fun e s => E e s → r' = r) r

variable {E : ε → σ → Prop}

theorem follows_refl (r : Except ε α × σ) : Follows E r r := by
  obtain ⟨e | a, s⟩ := r
  · exact fun _ => rfl
  · exact rfl

theorem follows_bind {x x' : Comp ε σ α} {f f' : α → Comp ε σ β}
    (hx : Follows E (x.run s) (x'.run s))
    (hf : ∀ a s', x.run s = (.ok a, s') → Follows E ((f a).run s') ((f' a).run s')) :
    Follows E ((x >>= f).run s) ((x' >>= f').run s) := by
  rcases hr : x.run s with ⟨e' | a, s'⟩
  · rw [hr] at hx
    rw [bind_error hr]
    exact fun he => bind_error (hx he)
  · rw [hr] at hx
    rw [bind_ok hr, bind_ok hx]
    exact hf a s' hr

theorem Stable.follows (h : Stable e x) {k k' : Nat} (hk : k ≤ k') :
    Follows (fun e' _ => e' ≠ e) ((x k).run s) ((x k').run s) := by
  have hsame := h s k
  rcases hr : (x k).run s with ⟨e' | a, s'⟩
  · rw [hr] at hsame
    exact fun he => hsame (fun h => he (Except.error.inj h)) k' hk
  · rw [hr] at hsame
    exact hsame nofun k' hk

end Fuel

/-! ## Loops -/

/-- A loop that goes from turn to turn until one of them has a result. A turn gets what fuel is
    left. -/
def loop (e : ε) (turn : ι → Nat → Comp ε σ (ι ⊕ α)) : ι → Nat → Comp ε σ α
  | _, 0 => stop e
  | i, n + 1 => do
      match ← turn i n with
      | .inl j => loop e turn j n
      | .inr a => pure a

/-- A turn that goes on. -/
def Next (turn : ι → Nat → Comp ε σ (ι ⊕ α)) (p q : ι × σ) : Prop :=
  Settles (turn p.1) p.2 (.ok (.inl q.1), q.2)

section Loop

variable {turn : ι → Nat → Comp ε σ (ι ⊕ α)} {i j : ι}

theorem loop_succ_ok {n : Nat} {r : ι ⊕ α} (h : (turn i n).run s = (.ok r, s')) :
    (loop e turn i (n + 1)).run s = (match r with
      | .inl j => loop e turn j n
      | .inr a => pure a : Comp ε σ α).run s' := by
  rw [loop, bind_ok h]
  cases r <;> rfl

theorem loop_succ_error {n : Nat} {e' : ε} (h : (turn i n).run s = (.error e', s')) :
    (loop e turn i (n + 1)).run s = (.error e', s') := bind_error h

theorem stable_loop (ht : ∀ i, Stable e (turn i)) (i : ι) : Stable e (loop e turn i) := by
  intro s k
  induction k generalizing i s with
  | zero => exact fun hne => absurd rfl hne
  | succ k ih =>
    intro hne k' hk
    obtain ⟨m, rfl⟩ : ∃ m, k' = m + 1 := ⟨k' - 1, by omega⟩
    rcases hr : (turn i k).run s with ⟨e' | r, s'⟩
    · have hr' : (turn i m).run s = (.error e', s') := by
        rw [← hr]
        refine ht i s k ?_ m (by omega)
        rw [loop_succ_error hr] at hne
        rw [hr]
        exact fun h => hne (congrArg Except.error (Except.error.inj h))
      rw [loop_succ_error hr, loop_succ_error hr']
    · have hr' : (turn i m).run s = (.ok r, s') := by
        rw [← hr]
        refine ht i s k ?_ m (by omega)
        rw [hr]
        exact nofun
      rw [loop_succ_ok hr] at hne
      rw [loop_succ_ok hr, loop_succ_ok hr']
      cases r with
      | inl j => exact ih j s' hne m (by omega)
      | inr a => rfl

theorem next_of_run (ht : ∀ i, Stable e (turn i)) {k : Nat}
    (h : (turn i k).run s = (.ok (.inl j), s')) : Next turn (i, s) (j, s') :=
  (ht i).settles h nofun

/-- What a loop returns is the result of a turn it has come to. -/
theorem loop_returns (ht : ∀ i, Stable e (turn i)) {k : Nat} {a : α}
    (h : (loop e turn i k).run s = (.ok a, s')) :
    ∃ q m, Relation.ReflTransGen (Next turn) (i, s) q ∧
      (turn q.1 m).run q.2 = (.ok (.inr a), s') := by
  induction k generalizing i s with
  | zero => cases h
  | succ k ih =>
    rcases hr : (turn i k).run s with ⟨e' | r, s1⟩
    · rw [loop_succ_error hr] at h
      cases h
    · rw [loop_succ_ok hr] at h
      cases r with
      | inl j =>
        obtain ⟨q, m, hq, hm⟩ := ih h
        exact ⟨q, m, hq.head (next_of_run ht hr), hm⟩
      | inr b =>
        cases h
        exact ⟨(i, s), k, .refl, hr⟩

/-- A loop all of whose turns are good is good. -/
theorem always_loop (ht : ∀ i, Stable e (turn i)) (hbad : bad ≠ e) (hs : K s)
    (h : ∀ q, Relation.ReflTransGen (Next turn) (i, s) q → K q.2 →
      Always (Good bad K) (turn q.1) q.2) : Always (Good bad K) (loop e turn i) s := by
  intro k
  induction k generalizing i s with
  | zero => exact ⟨fun h => hbad (Except.error.inj h).symm, hs⟩
  | succ k ih =>
    have hgood := h (i, s) .refl hs k
    rcases hr : (turn i k).run s with ⟨e' | r, s'⟩
    · rw [hr] at hgood
      rw [loop_succ_error hr]
      exact ⟨fun h => hgood.1 (congrArg Except.error (Except.error.inj h)), hgood.2⟩
    · rw [hr] at hgood
      rw [loop_succ_ok hr]
      cases r with
      | inl j => exact ih hgood.2 fun q hq => h q (hq.head (next_of_run ht hr))
      | inr a => exact ⟨nofun, hgood.2⟩

/-- What comes after turns of a loop is the rest of the loop. -/
theorem finally_next {G : Except ε α × σ → Prop} (h : Finally G (loop e turn i) s)
    (hn : Next turn (i, s) (j, s')) : Finally G (loop e turn j) s' := by
  obtain ⟨n, hn'⟩ := h
  obtain ⟨m, hm⟩ := hn
  refine ⟨max n m, fun k hk => ?_⟩
  have hlater := hn' (k + 1) (by omega)
  rwa [loop_succ_ok (hm k (by omega))] at hlater

theorem finally_reached {G : Except ε α × σ → Prop} {p q : ι × σ}
    (hq : Relation.ReflTransGen (Next turn) p q) (h : Finally G (loop e turn p.1) p.2) :
    Finally G (loop e turn q.1) q.2 := by
  induction hq with
  | refl => exact h
  | tail _ hn ih => exact finally_next ih hn

/-- The turns of a good loop are good when the condition can only be lost. -/
theorem finally_loop (h : Finally (Good bad K) (loop e turn i) s)
    (hK : ∀ j k, Reflects K (loop e turn j k)) {q : ι × σ}
    (hq : Relation.ReflTransGen (Next turn) (i, s) q) : Finally (Good bad K) (turn q.1) q.2 := by
  obtain ⟨n, hn⟩ := finally_reached hq h
  refine ⟨n, fun k hk => ?_⟩
  have hgood := hn (k + 1) (by omega)
  rcases hr : (turn q.1 k).run q.2 with ⟨e' | r, s'⟩
  · rw [loop_succ_error hr] at hgood
    exact ⟨fun h => hgood.1 (congrArg Except.error (Except.error.inj h)), hgood.2⟩
  · rw [loop_succ_ok hr] at hgood
    refine ⟨nofun, ?_⟩
    cases r with
    | inl j => exact hK j k s' hgood.2
    | inr a => exact hgood.2

/-- Turns that come nearer to an end, as long as `P` holds, do not go on for ever. -/
theorem acc_next {P : ι × σ → Prop} (m : ι × σ → Nat)
    (h : ∀ p q, P p → Next turn p q → P q ∧ m q < m p) {p : ι × σ} (hp : P p) :
    Acc (fun q p => Next turn p q) p := by
  induction hm : m p using Nat.strongRecOn generalizing p with
  | ind k ih =>
    refine Acc.intro p fun q hq => ?_
    obtain ⟨hP, hlt⟩ := h p q hp hq
    exact ih (m q) (hm ▸ hlt) hP rfl

/-- A loop ends when its turns do and no chain of them goes on for ever. -/
theorem ends_loop (ht : ∀ i, Stable e (turn i)) {p : ι × σ}
    (hacc : Acc (fun q p => Next turn p q) p)
    (h : ∀ q, Relation.ReflTransGen (Next turn) p q → Ends e (turn q.1) q.2) :
    Ends e (loop e turn p.1) p.2 := by
  induction hacc with
  | intro p _ ih =>
    obtain ⟨n, hn⟩ := h p .refl
    have hne := hn n (Nat.le_refl n)
    have hset : Settles (turn p.1) p.2 ((turn p.1 n).run p.2) := (ht p.1).settles rfl hne
    rcases hr : (turn p.1 n).run p.2 with ⟨e' | r, s'⟩
    · rw [hr] at hne hset
      obtain ⟨m, hm⟩ := hset
      refine ⟨m + 1, fun k hk he => hne ?_⟩
      obtain ⟨l, rfl⟩ : ∃ l, k = l + 1 := ⟨k - 1, by omega⟩
      rw [loop_succ_error (hm l (by omega))] at he
      exact congrArg Except.error (Except.error.inj he)
    · rw [hr] at hset
      cases r with
      | inl j =>
        obtain ⟨m, hm⟩ := hset
        have hnext : Next turn p (j, s') := ⟨m, hm⟩
        obtain ⟨l, hl⟩ := ih (j, s') hnext fun q hq => h q (hq.head hnext)
        refine ⟨max m l + 1, fun k hk => ?_⟩
        obtain ⟨k, rfl⟩ : ∃ k', k = k' + 1 := ⟨k - 1, by omega⟩
        rw [loop_succ_ok (hm k (by omega))]
        exact hl k (by omega)
      | inr a =>
        obtain ⟨m, hm⟩ := hset
        refine ⟨m + 1, fun k hk => ?_⟩
        obtain ⟨k, rfl⟩ : ∃ k', k = k' + 1 := ⟨k - 1, by omega⟩
        rw [loop_succ_ok (hm k (by omega))]
        exact nofun

/-- The turns of a loop that ends have ends. -/
theorem ends_turn (h : Ends e (loop e turn i) s) : Ends e (turn i) s := by
  obtain ⟨n, hn⟩ := h
  refine ⟨n, fun k hk he => hn (k + 1) (by omega) ?_⟩
  rcases hr : (turn i k).run s with ⟨e' | r, s'⟩
  · rw [hr] at he
    rw [loop_succ_error hr]
    exact congrArg Except.error (Except.error.inj he)
  · rw [hr] at he
    cases he

end Loop

end Comp
