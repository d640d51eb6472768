/-
  Computations that return or stop, over a state.

  `Comp ε σ α` runs on a state `σ`, ends in a value `α` or a stop reason `ε`, and leaves a state
  in both cases, so what was done before a stop is not lost. Two ways to reason about a run:

  * `bind_ok` / `bind_error`: a run that is known step by step is rewritten step by step.
  * `Triple G P x Q E`: what holds when a run returns and what holds when it stops, for the runs
    that end in `G`. The condition `G` is one that can only be lost (`Reflects`).
-/
import Mathlib.Data.List.Basic

/-- A computation over states `σ` that returns an `α` or stops with an `ε`. -/
structure Comp (ε σ α : Type) where
  run : σ → Except ε α × σ

namespace Comp

variable {ε σ α β : Type}

instance : Monad (Comp ε σ) where
  pure a := ⟨fun s => (.ok a, s)⟩
  bind x f := ⟨fun s =>
    match x.run s with
    | (.ok a, s') => (f a).run s'
    | (.error e, s') => (.error e, s')⟩

/-- Stop with reason `e`. -/
def stop (e : ε) : Comp ε σ α := ⟨fun s => (.error e, s)⟩

/-- A view of the current state. -/
def gets (f : σ → α) : Comp ε σ α := ⟨fun s => (.ok (f s), s)⟩

/-- Update the state. -/
def modify (f : σ → σ) : Comp ε σ Unit := ⟨fun s => (.ok (), f s)⟩

/-- A result that has nothing to do with the state. -/
def lift (x : Except ε α) : Comp ε σ α := ⟨fun s => (x, s)⟩

instance : MonadLift (Except ε) (Comp ε σ) := ⟨lift⟩

/-- `x` where `c` holds, nothing elsewhere. -/
def when (c : Prop) [Decidable c] (x : Comp ε σ Unit) : Comp ε σ Unit :=
  if c then x else pure ()

@[simp] theorem pure_run (a : α) (s : σ) : (pure a : Comp ε σ α).run s = (.ok a, s) := rfl

@[simp] theorem stop_run (e : ε) (s : σ) : (stop e : Comp ε σ α).run s = (.error e, s) := rfl

@[simp] theorem gets_run (f : σ → α) (s : σ) : (gets f : Comp ε σ α).run s = (.ok (f s), s) := rfl

@[simp] theorem modify_run (f : σ → σ) (s : σ) :
    (modify f : Comp ε σ Unit).run s = (.ok (), f s) := rfl

@[simp] theorem lift_run (x : Except ε α) (s : σ) : (liftM x : Comp ε σ α).run s = (x, s) := rfl

/-! ## Known runs -/

theorem bind_ok {x : Comp ε σ α} {f : α → Comp ε σ β} {s s' : σ} {a : α}
    (h : x.run s = (.ok a, s')) : (x >>= f).run s = (f a).run s' := by
  change (match x.run s with
    | (.ok a, s') => (f a).run s'
    | (.error e, s') => (.error e, s')) = _
  rw [h]

theorem bind_error {x : Comp ε σ α} {f : α → Comp ε σ β} {s s' : σ} {e : ε}
    (h : x.run s = (.error e, s')) : (x >>= f).run s = (.error e, s') := by
  change (match x.run s with
    | (.ok a, s') => (f a).run s'
    | (.error e, s') => (.error e, s')) = _
  rw [h]

/-- Two runs that agree go on in the same way. -/
theorem bind_congr {x y : Comp ε σ α} {s s' : σ} (h : x.run s = y.run s')
    (f : α → Comp ε σ β) : (x >>= f).run s = (y >>= f).run s' := by
  rcases hy : y.run s' with ⟨e | a, s''⟩
  · rw [bind_error (h.trans hy), bind_error hy]
  · rw [bind_ok (h.trans hy), bind_ok hy]

@[ext] theorem ext {x y : Comp ε σ α} (h : ∀ s, x.run s = y.run s) : x = y := by
  cases x
  cases y
  congr 1
  exact funext h

theorem bind_assoc_run {γ : Type} (x : Comp ε σ α) (f : α → Comp ε σ β) (g : β → Comp ε σ γ)
    (s : σ) : (x >>= f >>= g).run s = (x >>= fun a => f a >>= g).run s := by
  rcases hx : x.run s with ⟨e | a, s'⟩
  · rw [bind_error (bind_error hx), bind_error hx]
  · have hf : (x >>= f).run s = (f a).run s' := bind_ok hx
    have hg : (x >>= fun a => f a >>= g).run s = (f a >>= g).run s' := bind_ok hx
    rw [hg]
    exact bind_congr hf g

instance : LawfulMonad (Comp ε σ) :=
  LawfulMonad.mk' _
    (fun x => ext fun s => by
      change (x >>= fun a => pure a).run s = x.run s
      rcases hx : x.run s with ⟨e | a, s'⟩
      · rw [bind_error hx]
      · rw [bind_ok hx, pure_run])
    (fun _ _ => rfl)
    fun x f g => ext (bind_assoc_run x f g)

/-- A bind returns only through a return of its first part. -/
theorem bind_eq_ok {x : Comp ε σ α} {f : α → Comp ε σ β} {s s'' : σ} {b : β}
    (h : (x >>= f).run s = (.ok b, s'')) :
    ∃ a s', x.run s = (.ok a, s') ∧ (f a).run s' = (.ok b, s'') := by
  rcases hx : x.run s with ⟨a | a, s'⟩
  · rw [bind_error hx] at h
    cases h
  · exact ⟨a, s', rfl, by rwa [bind_ok hx] at h⟩

theorem lift_bind {x : Except ε α} {a : α} (h : x = .ok a) (g : α → Comp ε σ β) (s : σ) :
    ((liftM x : Comp ε σ α) >>= g).run s = (g a).run s :=
  bind_ok (by rw [lift_run, h])

theorem lift_bind_error {x : Except ε α} {e : ε} (h : x = .error e) (g : α → Comp ε σ β) (s : σ) :
    ((liftM x : Comp ε σ α) >>= g).run s = (.error e, s) :=
  bind_error (by rw [lift_run, h])

@[simp] theorem gets_bind (f : σ → α) (g : α → Comp ε σ β) (s : σ) :
    (gets f >>= g).run s = (g (f s)).run s := rfl

@[simp] theorem modify_bind (f : σ → σ) (g : Unit → Comp ε σ β) (s : σ) :
    (modify f >>= g).run s = (g ()).run (f s) := rfl

@[simp] theorem pure_bind_run (a : α) (g : α → Comp ε σ β) (s : σ) :
    ((pure a : Comp ε σ α) >>= g).run s = (g a).run s := rfl

@[simp] theorem stop_bind_run (e : ε) (g : α → Comp ε σ β) (s : σ) :
    ((stop e : Comp ε σ α) >>= g).run s = (.error e, s) := rfl

@[simp] theorem when_pos {c : Prop} [Decidable c] (h : c) (x : Comp ε σ Unit) :
    when c x = x := if_pos h

@[simp] theorem when_neg {c : Prop} [Decidable c] (h : ¬ c) (x : Comp ε σ Unit) :
    when c x = pure () := if_neg h

/-! ## How a run ends -/

/-- A run that has returned with `Q` or stopped with `E`. -/
def Lands (Q : α → σ → Prop) (E : σ → Prop) (r : Except ε α × σ) : Prop :=
  match r with
  | (.ok a, s) => Q a s
  | (.error _, s) => E s

theorem lands_bind {Q : α → σ → Prop} {R : β → σ → Prop} {E : σ → Prop} {x : Comp ε σ α}
    {f : α → Comp ε σ β} {s : σ} (hx : Lands Q E (x.run s))
    (hf : ∀ a s', Q a s' → Lands R E ((f a).run s')) : Lands R E ((x >>= f).run s) := by
  rcases hr : x.run s with ⟨e | a, s'⟩
  · rw [hr] at hx
    rw [bind_error hr]
    exact hx
  · rw [hr] at hx
    rw [bind_ok hr]
    exact hf a s' hx

/-- What holds in both cases holds at the end. -/
theorem Lands.final {E : σ → Prop} {r : Except ε α × σ} (h : Lands (fun _ => E) E r) : E r.2 := by
  obtain ⟨e | a, s⟩ := r
  · exact h
  · exact h

theorem Lands.ok {Q : α → σ → Prop} {E : σ → Prop} {r : Except ε α × σ} (h : Lands Q E r) {a : α}
    {s : σ} (hr : r = (.ok a, s)) : Q a s := by
  rw [hr] at h
  exact h

/-- A run that has returned with `Q`, or stopped with a reason and a state in `E`. -/
def Closes (Q : α → σ → Prop) (E : ε → σ → Prop) (r : Except ε α × σ) : Prop :=
  match r with
  | (.ok a, s) => Q a s
  | (.error e, s) => E e s

theorem closes_bind {Q : α → σ → Prop} {R : β → σ → Prop} {E : ε → σ → Prop} {x : Comp ε σ α}
    {f : α → Comp ε σ β} {s : σ} (hx : Closes Q E (x.run s))
    (hf : ∀ a s', x.run s = (.ok a, s') → Q a s' → Closes R E ((f a).run s')) :
    Closes R E ((x >>= f).run s) := by
  rcases hr : x.run s with ⟨e | a, s'⟩
  · rw [hr] at hx
    rw [bind_error hr]
    exact hx
  · rw [hr] at hx
    rw [bind_ok hr]
    exact hf a s' hr hx

theorem Closes.ok {Q : α → σ → Prop} {E : ε → σ → Prop} {r : Except ε α × σ} (h : Closes Q E r)
    {a : α} {s : σ} (hr : r = (.ok a, s)) : Q a s := by
  rw [hr] at h
  exact h

theorem Closes.mono {Q Q' : α → σ → Prop} {E E' : ε → σ → Prop} {r : Except ε α × σ}
    (h : Closes Q E r) (hQ : ∀ a s, Q a s → Q' a s) (hE : ∀ e s, E e s → E' e s) :
    Closes Q' E' r := by
  obtain ⟨e | a, s⟩ := r
  · exact hE e s h
  · exact hQ a s h

theorem Closes.error {Q : α → σ → Prop} {E : ε → σ → Prop} {r : Except ε α × σ}
    (h : Closes Q E r) {e : ε} {s : σ} (hr : r = (.error e, s)) : E e s := by
  rw [hr] at h
  exact h

/-! ## What a run keeps -/

section Keeps

variable {γ : Type} {f : σ → γ} {x : Comp ε σ α} {g : α → Comp ε σ β}

/-- However a run ends, a view of the state is what it was. -/
def Keeps (f : σ → γ) (x : Comp ε σ α) : Prop := ∀ s, f (x.run s).2 = f s

theorem Keeps.of_run {r : Except ε α} {s s' : σ} (hx : Keeps f x) (h : x.run s = (r, s')) :
    f s' = f s := by
  have hx' := hx s
  rw [h] at hx'
  exact hx'

theorem keeps_pure (a : α) : Keeps f (pure a : Comp ε σ α) := fun _ => rfl

theorem keeps_stop (e : ε) : Keeps f (stop e : Comp ε σ α) := fun _ => rfl

theorem keeps_modify {m : σ → σ} (h : ∀ s, f (m s) = f s) :
    Keeps f (modify m : Comp ε σ Unit) := h

theorem keeps_bind (hx : Keeps f x) (hg : ∀ a, Keeps f (g a)) : Keeps f (x >>= g) := by
  intro s
  rcases hr : x.run s with ⟨e | a, s'⟩
  · rw [bind_error hr]
    exact hx.of_run hr
  · rw [bind_ok hr, hg a s', hx.of_run hr]

/-- The part of the state that is read does not change before it is used. -/
theorem keeps_gets_bind {h : σ → α} (hg : ∀ a, Keeps f (g a)) : Keeps f (gets h >>= g) :=
  keeps_bind (fun _ => rfl) hg

theorem keeps_when {c : Prop} [Decidable c] {y : Comp ε σ Unit} (h : Keeps f y) :
    Keeps f (when c y) := by
  by_cases hc : c
  · rwa [when_pos hc]
  · rw [when_neg hc]
    exact keeps_pure ()

end Keeps

/-! ## Triples -/

section Triple

variable {G P : σ → Prop} {Q : α → σ → Prop} {E : σ → Prop} {x : Comp ε σ α}

/-- A run that ends in `G` has started in `G`. -/
def Reflects (G : σ → Prop) (x : Comp ε σ α) : Prop := ∀ s, G (x.run s).2 → G s

/-- Every run of `x` from a state with `P` that ends in `G` returns with `Q` or stops with `E`. -/
def Triple (G P : σ → Prop) (x : Comp ε σ α) (Q : α → σ → Prop) (E : σ → Prop) : Prop :=
  ∀ s, P s → G (x.run s).2 →
    (∀ a s', x.run s = (.ok a, s') → Q a s') ∧ ∀ e s', x.run s = (.error e, s') → E s'

theorem reflects_bind {f : α → Comp ε σ β} (hx : Reflects G x) (hf : ∀ a, Reflects G (f a)) :
    Reflects G (x >>= f) := by
  intro s hs
  refine hx s ?_
  rcases hr : x.run s with ⟨e | a, s'⟩
  · rwa [bind_error hr] at hs
  · rw [bind_ok hr] at hs
    exact hf a s' hs

theorem Triple.mono {P' : σ → Prop} {Q' : α → σ → Prop} {E' : σ → Prop} (h : Triple G P x Q E)
    (hP : ∀ s, P' s → P s) (hQ : ∀ a s, Q a s → Q' a s) (hE : ∀ s, E s → E' s) :
    Triple G P' x Q' E' := fun s hs hG =>
  let ⟨h1, h2⟩ := h s (hP s hs) hG
  ⟨fun a s' hr => hQ a s' (h1 a s' hr), fun e s' hr => hE s' (h2 e s' hr)⟩

theorem triple_exists {γ : Type} {R : γ → σ → Prop} (h : ∀ c, Triple G (R c) x Q E) :
    Triple G (fun s => ∃ c, R c s) x Q E := fun s ⟨c, hs⟩ => h c s hs

/-- A fact about the values so far. -/
theorem triple_fact {c : Prop} (h : c → Triple G P x Q E) : Triple G (fun s => c ∧ P s) x Q E :=
  fun s hs => h hs.1 s hs.2

theorem triple_pure (a : α) : Triple G (Q a) (pure a : Comp ε σ α) Q E := by
  intro s hs _
  constructor
  · intro b s' hr
    cases hr
    exact hs
  · intro e s' hr
    cases hr

theorem triple_bind {R : β → σ → Prop} {f : α → Comp ε σ β} (hx : Triple G P x Q E)
    (hf : ∀ a, Triple G (Q a) (f a) R E) (hG : ∀ a, Reflects G (f a)) :
    Triple G P (x >>= f) R E := by
  intro s hs hfin
  rcases hr : x.run s with ⟨e | a, s'⟩
  · rw [bind_error hr] at hfin ⊢
    obtain ⟨_, h2⟩ := hx s hs (by rw [hr]; exact hfin)
    constructor
    · intro b t ht
      cases ht
    · intro e' t ht
      cases ht
      exact h2 e s' hr
  · rw [bind_ok hr] at hfin ⊢
    obtain ⟨h1, _⟩ := hx s hs (by rw [hr]; exact hG a s' hfin)
    exact hf a s' (h1 a s' hr) hfin

/-- What holds whether the run returns or stops holds at its end. -/
theorem Triple.final (h : Triple G P x (fun _ => E) E) {s : σ} (hs : P s) (hG : G (x.run s).2) :
    E (x.run s).2 := by
  obtain ⟨h1, h2⟩ := h s hs hG
  rcases hr : x.run s with ⟨e | a, s'⟩
  · exact h2 e s' hr
  · exact h1 a s' hr

end Triple

end Comp
