/-
  Monitors: what a computation may append to its log.

  A monitor reads a log event by event and refuses some of them. `Guides` says of a computation that
  the monitor takes all it appends, whatever the state it runs on and however it ends, and where the
  monitor is when it returns. Computations are guided when their parts are (`guides_bind`); one that
  appends nothing, or only what leaves the monitor where it is, `Stays`.
-/
import Grnvs.Lib.Comp

/-- What becomes of a state at an event, if the event is allowed there. -/
structure Monitor (τ ε : Type) where
  next : τ → ε → Option τ

namespace Monitor

variable {τ ε ι σ α β : Type} {M : Monitor τ ε} {t t' : τ}

/-- Where the monitor is after a log. -/
def after (M : Monitor τ ε) : τ → List ε → Option τ
  | t, [] => some t
  | t, e :: es => (M.next t e).bind fun u => M.after u es

theorem after_append (t : τ) (es es' : List ε) :
    M.after t (es ++ es') = (M.after t es).bind fun u => M.after u es' := by
  induction es generalizing t with
  | nil => rfl
  | cons e es ih =>
    rw [List.cons_append, after, after, Option.bind_assoc]
    congr 1
    funext u
    exact ih u

/-- An event of a log has been allowed where the monitor was. -/
theorem after_split {a b : List ε} {e : ε} (h : M.after t (a ++ e :: b) = some t') :
    ∃ u v, M.after t a = some u ∧ M.next u e = some v := by
  rw [after_append, Option.bind_eq_some_iff] at h
  obtain ⟨u, ha, hb⟩ := h
  rw [after, Option.bind_eq_some_iff] at hb
  obtain ⟨v, he, -⟩ := hb
  exact ⟨u, v, ha, he⟩

/-- The monitor takes what `x` appends, and is where `Q` says when `x` returns. -/
def Guides (M : Monitor τ ε) (log : σ → List ε) (t : τ) (x : Comp ι σ α) (Q : α → τ → Prop) :
    Prop :=
  ∀ s, ∃ es u, log (x.run s).2 = log s ++ es ∧ M.after t es = some u ∧
    ∀ a, (x.run s).1 = .ok a → Q a u

/-- The monitor is where it was. -/
abbrev Stays (M : Monitor τ ε) (log : σ → List ε) (t : τ) (x : Comp ι σ α) : Prop :=
  M.Guides log t x fun _ u => u = t

section Rules

variable {log : σ → List ε} {x : Comp ι σ α} {f : α → Comp ι σ β} {Q : α → τ → Prop}
  {R : β → τ → Prop} {c : Prop} [Decidable c]

theorem Guides.mono {Q' : α → τ → Prop} (h : M.Guides log t x Q) (hQ : ∀ a u, Q a u → Q' a u) :
    M.Guides log t x Q' := by
  intro s
  obtain ⟨es, u, hlog, hafter, hok⟩ := h s
  exact ⟨es, u, hlog, hafter, fun a ha => hQ a u (hok a ha)⟩

/-- What appends nothing. -/
theorem stays_quiet (h : ∀ s, log (x.run s).2 = log s) : M.Stays log t x := fun s =>
  ⟨[], t, by rw [h s, List.append_nil], rfl, fun _ _ => rfl⟩

theorem stays_pure (a : α) : M.Stays log t (pure a : Comp ι σ α) := stays_quiet fun _ => rfl

/-- What does not return. -/
theorem guides_stop (e : ι) : M.Guides log t (Comp.stop e : Comp ι σ α) Q := fun s =>
  ⟨[], t, (List.append_nil _).symm, rfl, fun _ h => by cases h⟩

/-- One event. -/
theorem guides_emit {g : σ → σ} {e : ε} (hg : ∀ s, log (g s) = log s ++ [e])
    (hnext : M.next t e = some t') :
    M.Guides log t (Comp.modify g : Comp ι σ Unit) fun _ u => u = t' := by
  intro s
  refine ⟨[e], t', hg s, ?_, fun _ _ => rfl⟩
  rw [after, hnext]
  rfl

theorem guides_bind (hx : M.Guides log t x Q) (hf : ∀ a u, Q a u → M.Guides log u (f a) R) :
    M.Guides log t (x >>= f) R := by
  intro s
  obtain ⟨es, u, hlog, hafter, hok⟩ := hx s
  rcases hr : x.run s with ⟨e | a, s'⟩
  · rw [hr] at hlog
    rw [Comp.bind_error hr]
    exact ⟨es, u, hlog, hafter, fun _ h => by cases h⟩
  · rw [hr] at hlog hok
    obtain ⟨es', v, hlog', hafter', hok'⟩ := hf a u (hok a rfl) s'
    rw [Comp.bind_ok hr]
    refine ⟨es ++ es', v, ?_, ?_, hok'⟩
    · rw [hlog', hlog, List.append_assoc]
    · rw [after_append, hafter]
      exact hafter'

/-- A first part that leaves the monitor where it is. -/
theorem Stays.bind (hx : M.Stays log t x) (hf : ∀ a, M.Guides log t (f a) R) :
    M.Guides log t (x >>= f) R := guides_bind hx fun a _ hu => hu ▸ hf a

theorem guides_ite {y : Comp ι σ α} (hx : c → M.Guides log t x Q)
    (hy : ¬ c → M.Guides log t y Q) : M.Guides log t (if c then x else y) Q := by
  by_cases hc : c
  · rw [if_pos hc]
    exact hx hc
  · rw [if_neg hc]
    exact hy hc

theorem stays_when {y : Comp ι σ Unit} (h : M.Stays log t y) : M.Stays log t (Comp.when c y) :=
  guides_ite (fun _ => h) fun _ => stays_pure ()

/-- A branch that does not return. -/
theorem guides_unless {y : Comp ι σ Unit} {g : Unit → Comp ι σ β}
    (hy : c → M.Guides log t y fun _ _ => False) (hg : ¬ c → M.Guides log t (g ()) R) :
    M.Guides log t (Comp.when c y >>= g) R := by
  by_cases hc : c
  · rw [Comp.when_pos hc]
    exact guides_bind (hy hc) fun _ _ h => h.elim
  · rw [Comp.when_neg hc]
    exact (stays_pure ()).bind fun _ => hg hc

end Rules

end Monitor
