import KrabkaStreams.Task

/-!
# Rules for the small steps of a task

One rule for each building block of `TaskM`: reading the task, updating it, leaving an event behind,
the error span, and a call of the environment.
-/

namespace KrabkaStreams

open Effect StateStore

variable {E P M S V : Type}
  {C : List Event → Prop} {Pre : Assn Event (TaskState E P M S V)} {α β : Type}
  {Err : StreamsClientError → Assn Event (TaskState E P M S V)}

namespace StreamTask

theorem spec_current {f : StreamTask P M S V → TaskM E P M S V β} {Q : β → Assn Event (TaskState E P M S V)}
    (h : ∀ t, Spec C (fun w s => s.own = t ∧ Pre w s) (f t) Q Err) : Spec C Pre (current >>= f) Q Err := by
  intro w s hs hC
  exact h s.own w s ⟨rfl, hs⟩ hC

theorem spec_read {f : StreamTask P M S V → TaskM E P M S V β} {Q : β → Assn Event (TaskState E P M S V)}
    (h : ∀ t, Spec C Pre (f t) Q Err) : Spec C Pre (current >>= f) Q Err :=
  spec_current fun t => (h t).pre fun _ _ hs => hs.2

theorem spec_update {f : StreamTask P M S V → StreamTask P M S V}
    {Q : Unit → Assn Event (TaskState E P M S V)} (h : ∀ w s, Pre w s → Q () w ⟨f s.own, s.world⟩) :
    Spec C Pre (update f) Q Err := by
  intro w s hs _
  show Q () (w ++ []) ⟨f s.own, s.world⟩
  rw [List.append_nil]
  exact h w s hs

theorem spec_log {ev : TaskRef → Event} {Q : Unit → Assn Event (TaskState E P M S V)}
    (h : ∀ w s, Pre w s → C (w ++ [ev s.own.ref]) → Q () (w ++ [ev s.own.ref]) s) :
    Spec C Pre (log ev) Q Err :=
  fun w s hs hC => h w s hs hC

theorem spec_span (hC : PrefixClosed C) {step : TaskStep} {m : TaskM E P M S V α}
    {Q : α → Assn Event (TaskState E P M S V)}
    {Err Err' : StreamsClientError → Assn Event (TaskState E P M S V)}
    (hm : Spec C Pre m Q Err)
    (he : ∀ e w s, Err e w s → C (w ++ [.failed s.own.ref step]) →
      Err' e (w ++ [.failed s.own.ref step]) s) :
    Spec C Pre (span step m) Q Err' := by
  refine Spec.bind hC (R := fun r w s => (∀ a, r = .ok a → Q a w s) ∧ ∀ e, r = .error e → Err e w s)
    (Spec.attempt (hm.post (fun a w s hq => ⟨fun _ ha => Except.ok.inj ha ▸ hq, nofun⟩)
      fun e w s hq => ⟨nofun, fun _ ha => Except.error.inj ha ▸ hq⟩)) ?_
  intro r
  cases r with
  | ok a => exact Spec.pure fun _ _ h => h.1 a rfl
  | error e =>
    refine Spec.bind hC (R := fun _ w s => Err' e w s) (spec_log fun w s hs hCw => ?_) fun _ => ?_
    · exact he e w s (hs.2 e rfl) hCw
    · exact Spec.throw fun _ _ h => h

end StreamTask

namespace World

variable {Pre : Assn Event (World E)}

theorem spec_call {op : E → Except StreamsClientError α × E} {Q : α → Assn Event (World E)}
    {Err : StreamsClientError → Assn Event (World E)}
    (hok : ∀ w s a e', Pre w s → op s.env = (.ok a, e') → Q a w { s with env := e' })
    (herr : ∀ w s e e', Pre w s → op s.env = (.error e, e') →
      Err e (w ++ fencedEvent (.error e : Except StreamsClientError α)) { s with env := e' }) :
    Spec C Pre (call op) Q Err := by
  intro w s hs _
  rcases hx : op s.env with ⟨e | a, e'⟩
  · have hc : call op s = (.error e, { s with env := e' },
        fencedEvent (.error e : Except StreamsClientError α)) := by
      simp only [call, hx]
    rw [hc]
    exact herr w s e e' hs hx
  · have hc : call op s = (.ok a, { s with env := e' }, []) := by
      simp only [call, hx, fencedEvent]
    rw [hc]
    simpa using hok w s a e' hs hx

end World

end KrabkaStreams
