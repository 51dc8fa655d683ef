import Mathlib.Data.Multiset.DershowitzManna

/-!
# Work queues

A queue served first in, first out by a step that may queue more. `Ends` is the run without a bound; it
ends when a step queues smaller ranks only (`ends_of_descends`), and served what was queued
(`Ends.served`).
-/

namespace Worklist

/-- An item that was served, what the step made of it and what it queued. -/
structure Served (α β : Type) where
  item : α
  made : β
  queued : List α

variable {σ α β ε : Type}

def run (step : σ → α → Except ε (β × List α) × σ) (outOfSteps : ε) :
    Nat → List α → σ → List (Served α β) × Except ε Unit × σ
  | _, [], s => ([], .ok (), s)
  | 0, _ :: _, s => ([], .error outOfSteps, s)
  | n + 1, a :: queue, s =>
    match step s a with
    | (.error e, s') => ([], .error e, s')
    | (.ok (b, queued), s') =>
      let rest := run step outOfSteps n (queue ++ queued) s'
      (⟨a, b, queued⟩ :: rest.1, rest.2)

inductive Ends (step : σ → α → Except ε (β × List α) × σ) :
    List α → σ → List (Served α β) → Except ε Unit × σ → Prop
  | empty (s : σ) : Ends step [] s [] (.ok (), s)
  | fails {a : α} {queue : List α} {s s' : σ} {e : ε} : step s a = (.error e, s') →
    Ends step (a :: queue) s [] (.error e, s')
  | serves {a : α} {b : β} {queue queued : List α} {s s' : σ} {log : List (Served α β)} {r : Except ε Unit × σ} :
    step s a = (.ok (b, queued), s') → Ends step (queue ++ queued) s' log r →
    Ends step (a :: queue) s (⟨a, b, queued⟩ :: log) r

theorem ends_of_run {step : σ → α → Except ε (β × List α) × σ} {outOfSteps : ε} :
    ∀ {n : Nat} {queue : List α} {s s' : σ} {log : List (Served α β)},
      run step outOfSteps n queue s = (log, .ok (), s') → Ends step queue s log (.ok (), s')
  | n, [], s, s', log, h => by
    have hn : run step outOfSteps n [] s = ([], .ok (), s) := by cases n <;> rfl
    rw [hn] at h
    cases h
    exact .empty s
  | 0, _ :: _, _, _, _, h => by cases h
  | n + 1, a :: queue, s, s', log, h => by
    rcases hstep : step s a with ⟨e | ⟨b, queued⟩, s₁⟩ <;> simp only [run, hstep] at h
    · cases h
    · obtain ⟨rfl, hr⟩ := Prod.mk.inj h
      exact .serves hstep (ends_of_run (Prod.ext rfl hr))

namespace Ends

variable {step : σ → α → Except ε (β × List α) × σ} {queue : List α} {s : σ} {log : List (Served α β)}
  {r : Except ε Unit × σ}

theorem run_eq (h : Ends step queue s log r) (outOfSteps : ε) :
    ∃ n, ∀ m, n ≤ m → run step outOfSteps m queue s = (log, r) := by
  induction h with
  | empty s => exact ⟨0, fun m _ => by cases m <;> rfl⟩
  | fails hstep =>
    refine ⟨1, fun m hm => ?_⟩
    obtain ⟨m, rfl⟩ := Nat.exists_eq_add_of_le' hm
    simp only [run, hstep]
  | serves hstep _ ih =>
    obtain ⟨n, ih⟩ := ih
    refine ⟨n + 1, fun m hm => ?_⟩
    obtain ⟨m, rfl⟩ := Nat.exists_eq_add_of_le' (Nat.le_of_add_left_le hm)
    simp only [run, hstep, ih m (by omega)]

/-- A run that returns served the queue and everything its steps queued, in the order it was queued. -/
theorem served (h : Ends step queue s log r) (hok : r.1 = .ok ()) :
    log.map (·.item) = queue ++ log.flatMap (·.queued) := by
  induction h with
  | empty s => rfl
  | fails _ => cases hok
  | serves _ _ ih => simp [ih hok]

theorem keeps (h : Ends step queue s log r) {I : σ → Prop} {G : Served α β → Prop} (hI : I s)
    (hstep : ∀ s a, I s → I (step s a).2 ∧ ∀ b queued, (step s a).1 = .ok (b, queued) → G ⟨a, b, queued⟩) :
    I r.2 ∧ ∀ d ∈ log, G d := by
  induction h with
  | empty s => exact ⟨hI, fun d hd => absurd hd List.not_mem_nil⟩
  | @fails a _ s _ _ h =>
    have hkeeps := (hstep s a hI).1
    rw [h] at hkeeps
    exact ⟨hkeeps, fun d hd => absurd hd List.not_mem_nil⟩
  | @serves a b _ queued s _ _ _ h _ ih =>
    obtain ⟨hkeeps, hgives⟩ := hstep s a hI
    rw [h] at hkeeps hgives
    obtain ⟨hr, hlog⟩ := ih hkeeps
    refine ⟨hr, fun d hd => ?_⟩
    rcases List.mem_cons.mp hd with rfl | hd
    · exact hgives b queued rfl
    · exact hlog d hd

end Ends

theorem ends_of_descends {step : σ → α → Except ε (β × List α) × σ} {I : σ → Prop} (rank : α → Nat)
    (hkeeps : ∀ s a, I s → I (step s a).2)
    (hdesc : ∀ s a b queued, I s → (step s a).1 = .ok (b, queued) → ∀ c ∈ queued, rank c < rank a) :
    ∀ (queue : List α) (s : σ), I s → ∃ log r, Ends step queue s log r := by
  -- The multiset of the ranks in the queue goes down: one rank is replaced by smaller ones.
  have hwf : WellFounded fun q q' : List α =>
      Multiset.IsDershowitzMannaLT (Multiset.ofList (q.map rank)) (Multiset.ofList (q'.map rank)) :=
    InvImage.wf _ Multiset.wellFounded_isDershowitzMannaLT
  intro queue
  induction queue using hwf.induction with
  | _ queue ih =>
    intro s hs
    rcases queue with _ | ⟨a, queue⟩
    · exact ⟨[], _, .empty s⟩
    · rcases hstep : step s a with ⟨e | ⟨b, queued⟩, s'⟩
      · exact ⟨[], _, .fails hstep⟩
      · have hs' := hkeeps s a hs
        rw [hstep] at hs'
        have hlt : Multiset.IsDershowitzMannaLT (Multiset.ofList ((queue ++ queued).map rank))
            (Multiset.ofList ((a :: queue).map rank)) := by
          refine ⟨queue.map rank, queued.map rank, {rank a}, by simp, by simp, ?_, fun y hy => ?_⟩
          · rw [List.map_cons, ← Multiset.cons_coe, ← Multiset.singleton_add, add_comm]
          · obtain ⟨c, hc, rfl⟩ := List.mem_map.mp (Multiset.mem_coe.mp hy)
            exact ⟨rank a, Multiset.mem_singleton_self _, hdesc s a b queued hs (by rw [hstep]) c hc⟩
        obtain ⟨log, r, hends⟩ := ih (queue ++ queued) hlt s' hs'
        exact ⟨_, r, .serves hstep hends⟩

end Worklist
