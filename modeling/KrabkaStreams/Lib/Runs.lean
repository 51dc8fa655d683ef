import Mathlib.Data.List.Basic
import Mathlib.Data.List.Induction
import Mathlib.Tactic.Common

/-!
# Runs of a machine that reads inputs and may fail

`run` feeds a list of inputs to a machine that may fail, and collects the outputs. What a run
establishes is proved by `run_induction`.
-/

namespace Runs

variable {σ ι ω ε α β : Type}

theorem bind_eq_ok {x : Except ε α} {f : α → Except ε β} {b : β} :
    (x >>= f) = .ok b ↔ ∃ a, x = .ok a ∧ f a = .ok b := by
  cases x with
  | error e => exact ⟨nofun, nofun⟩
  | ok a =>
    constructor
    · exact fun h => ⟨a, rfl, h⟩
    · rintro ⟨a', ha, hf⟩
      cases ha
      exact hf

theorem ite_bind_of_ok {c : Prop} [Decidable c] {x y : Except ε α} {k : α → Except ε β}
    {a : α} (h : (if c then x else y) = .ok a) : (if c then x >>= k else y >>= k) = k a := by
  split at h
  · rename_i hc
    rw [if_pos hc, h]
    rfl
  · rename_i hc
    rw [if_neg hc, h]
    rfl

def run (step : σ → ι → Except ε (σ × ω)) (s : σ) (xs : List ι) : Except ε (σ × List ω) :=
  xs.foldlM (fun acc x => do
    let r ← step acc.1 x
    return (r.1, acc.2 ++ [r.2])) (s, [])

variable {step : σ → ι → Except ε (σ × ω)} {s : σ}

@[simp] theorem run_nil (s : σ) : run step s [] = .ok (s, []) := rfl

theorem run_snoc {xs : List ι} {x : ι} {s' : σ} {outs : List ω} :
    run step s (xs ++ [x]) = .ok (s', outs) ↔ ∃ t os o, run step s xs = .ok (t, os) ∧
      step t x = .ok (s', o) ∧ outs = os ++ [o] := by
  unfold run
  rw [List.foldlM_append, bind_eq_ok]
  simp only [List.foldlM_cons, List.foldlM_nil, bind_eq_ok]
  constructor
  · rintro ⟨⟨t, os⟩, hrun, q, ⟨⟨t', o⟩, hstep, hq⟩, hlast⟩
    cases hq
    cases hlast
    exact ⟨t, os, o, hrun, hstep, rfl⟩
  · rintro ⟨t, os, o, hrun, hstep, rfl⟩
    exact ⟨(t, os), hrun, (s', os ++ [o]), ⟨(s', o), hstep, rfl⟩, rfl⟩

theorem run_prefix {xs ys : List ι} {s' : σ} {outs : List ω}
    (h : run step s (xs ++ ys) = .ok (s', outs)) :
    ∃ t os, run step s xs = .ok (t, os) ∧ os <+: outs := by
  induction ys using List.reverseRecOn generalizing s' outs with
  | nil => exact ⟨s', outs, by simpa using h, List.prefix_rfl⟩
  | append_singleton ys y ih =>
    rw [← List.append_assoc] at h
    obtain ⟨t, os, o, hrun, -, rfl⟩ := run_snoc.mp h
    obtain ⟨t', os', hrun', hpre⟩ := ih hrun
    exact ⟨t', os', hrun', hpre.trans (List.prefix_append _ _)⟩

theorem run_induction {I : List ι → σ → List ω → Prop} (h0 : I [] s [])
    (hstep : ∀ xs x t t' os o, I xs t os → step t x = .ok (t', o) → I (xs ++ [x]) t' (os ++ [o])) :
    ∀ {xs : List ι} {s' : σ} {outs : List ω}, run step s xs = .ok (s', outs) → I xs s' outs := by
  intro xs
  induction xs using List.reverseRecOn with
  | nil =>
    intro s' outs h
    cases h
    exact h0
  | append_singleton xs x ih =>
    intro s' outs h
    obtain ⟨t, os, o, hrun, hx, rfl⟩ := run_snoc.mp h
    exact hstep xs x t s' os o (ih hrun) hx

end Runs
