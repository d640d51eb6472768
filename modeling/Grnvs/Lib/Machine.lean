/-
  Machines that emit events, and the logs they leave.

  A step of a machine appends some events to its log. `Trace` are the logs and the states it comes
  to; what holds at the start and is kept by every step holds for all of them (`Trace.invariant`),
  and what every step makes sure of for the events it appends holds for every event of a log, seen
  from the log before it (`Trace.events`).
-/
import Mathlib.Data.List.Basic

/-- A machine with states `σ` and events `ε`. -/
structure Machine (σ ε : Type) where
  start : σ
  step : σ → List ε → σ → Prop

namespace Machine

variable {σ ε : Type} {M : Machine σ ε}

inductive Trace (M : Machine σ ε) : List ε → σ → Prop where
  | start : Trace M [] M.start
  | step {log events : List ε} {s s' : σ} : Trace M log s → M.step s events s' →
      Trace M (log ++ events) s'

theorem Trace.invariant {I : List ε → σ → Prop} (h0 : I [] M.start)
    (hs : ∀ log s events s', I log s → M.step s events s' → I (log ++ events) s')
    {log : List ε} {s : σ} (h : Trace M log s) : I log s := by
  induction h with
  | start => exact h0
  | step _ hstep ih => exact hs _ _ _ _ ih hstep

/-- An event of a joined log stands in the first part or in the second. -/
theorem append_cases {as bs a b : List ε} {e : ε} (h : as ++ bs = a ++ e :: b) :
    (∃ b', as = a ++ e :: b' ∧ b = b' ++ bs) ∨ ∃ a', a = as ++ a' ∧ bs = a' ++ e :: b := by
  obtain ⟨l, hl, hr⟩ | ⟨l, hl, hr⟩ := List.append_eq_append_iff.mp h
  · exact .inr ⟨l, hl, hr⟩
  · cases l with
    | nil =>
      rw [List.append_nil] at hl
      exact .inr ⟨[], by rw [hl, List.append_nil], hr.symm⟩
    | cons x l =>
      obtain ⟨rfl, rfl⟩ := List.cons.inj hr
      exact .inl ⟨l, hl, rfl⟩

/-- An event of a step that emits one. -/
theorem singleton_cases {a b : List ε} {e x : ε} (h : [x] = a ++ e :: b) : a = [] ∧ e = x := by
  cases a with
  | nil => exact ⟨rfl, (List.cons.inj h).1.symm⟩
  | cons y a => exact absurd (List.cons.inj h).2 (by simp)

/-- An event of a step that emits two. -/
theorem pair_cases {a b : List ε} {e x y : ε} (h : [x, y] = a ++ e :: b) :
    a = [] ∧ e = x ∨ a = [x] ∧ e = y := by
  cases a with
  | nil => exact .inl ⟨rfl, (List.cons.inj h).1.symm⟩
  | cons z a =>
    obtain ⟨rfl, hrest⟩ := List.cons.inj h
    obtain ⟨rfl, he⟩ := singleton_cases hrest
    exact .inr ⟨rfl, he⟩

theorem Trace.events {Q : List ε → ε → Prop}
    (hs : ∀ log s events s', Trace M log s → M.step s events s' →
      ∀ a e b, events = a ++ e :: b → Q (log ++ a) e)
    {log : List ε} {s : σ} (h : Trace M log s) : ∀ a e b, log = a ++ e :: b → Q a e := by
  induction h with
  | start =>
    intro a e b h
    exact absurd h.symm (by simp)
  | step ht hstep ih =>
    intro a e b h
    obtain ⟨b', hlog, -⟩ | ⟨a', rfl, hevents⟩ := append_cases h
    · exact ih a e b' hlog
    · exact hs _ _ _ _ ht hstep a' e b hevents

end Machine
