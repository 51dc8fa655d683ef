import KrabkaStreams.Proofs.TaskRules
import KrabkaStreams.Thread

/-!
# Rules for the steps of a thread

An assertion about a thread has a part about the world and one about every task. The rules take it
through a pass over the tasks, through one task, and through a change of the thread's own fields.
-/

namespace KrabkaStreams

open Effect StateStore

variable {E P M S V : Type} {C : List Event → Prop} {α β : Type}

namespace StreamThread

variable {Pre : Assn Event (ThreadState E P M S V)} {Q : β → Assn Event (ThreadState E P M S V)}
  {Err : StreamsClientError → Assn Event (ThreadState E P M S V)}

theorem spec_current {f : StreamThread P M S V → ThreadM E P M S V β}
    (h : ∀ th, Spec C (fun w s => s.own = th ∧ Pre w s) (f th) Q Err) :
    Spec C Pre (current >>= f) Q Err := by
  intro w s hs hC
  exact h s.own w s ⟨rfl, hs⟩ hC

theorem spec_read {f : StreamThread P M S V → ThreadM E P M S V β} (h : ∀ th, Spec C Pre (f th) Q Err) :
    Spec C Pre (current >>= f) Q Err :=
  spec_current fun th => (h th).pre fun _ _ hs => hs.2

theorem spec_update {f : StreamThread P M S V → StreamThread P M S V}
    {Q : Unit → Assn Event (ThreadState E P M S V)}
    (h : ∀ w s, Pre w s → Q () w ⟨f s.own, s.world⟩) : Spec C Pre (update f) Q Err := by
  intro w s hs _
  show Q () (w ++ []) ⟨f s.own, s.world⟩
  rw [List.append_nil]
  exact h w s hs

def Tasks (J : TaskKey → StreamTask P M S V → Prop) (th : StreamThread P M S V) : Prop :=
  ∀ e ∈ th.tasks, J e.1 e.2

section Passes

variable {I : Assn Event (World E)} {F : StreamsClientError → Assn Event (World E)}
  {J : TaskKey → StreamTask P M S V → Prop} {L : StreamThread P M S V → Prop}

theorem spec_forTasks (hC : PrefixClosed C) {m : TaskKey → TaskM E P M S V Unit}
    (hL : ∀ th ts, OrdMap.keys ts = th.tasks.keys → L th → L (th.setTasks ts))
    (hm : ∀ k, Spec C (fun h s => I h s.world ∧ J k s.own) (m k)
      (fun _ h s => I h s.world ∧ J k s.own) fun e h s => F e h s.world ∧ J k s.own) :
    Spec C (fun h s => I h s.world ∧ Tasks J s.own ∧ L s.own) (forTasks m)
      (fun _ h s => I h s.world ∧ Tasks J s.own ∧ L s.own)
      fun e h s => F e h s.world ∧ Tasks J s.own ∧ L s.own := by
  intro h s hs hCw
  obtain ⟨hown, hworld⟩ := eachFrom_spec hC hm s.own.tasks h s.world hs.1 hs.2.1 hCw
  have hx : forTasks m s = ((Eff.eachFrom m s.own.tasks s.world).1,
      ⟨s.own.setTasks (Eff.eachFrom m s.own.tasks s.world).2.1.own,
        (Eff.eachFrom m s.own.tasks s.world).2.1.world⟩,
      (Eff.eachFrom m s.own.tasks s.world).2.2) := rfl
  rw [hx]
  split at hworld <;> rename_i hy <;> simp only [hy] <;> exact ⟨hworld, hown, hL _ _ (eachFrom_keys _ _ _) hs.2.2⟩

theorem spec_onTask {m : TaskM E P M S V Unit} {key : TaskKey}
    (hL : ∀ th ts, OrdMap.keys ts = th.tasks.keys → L th → L (th.setTasks ts))
    (hm : Spec C (fun h s => I h s.world ∧ J key s.own) m
      (fun _ h s => I h s.world ∧ J key s.own) fun e h s => F e h s.world ∧ J key s.own) :
    Spec C (fun h s => I h s.world ∧ Tasks J s.own ∧ L s.own) (onTask key m)
      (fun _ h s => I h s.world ∧ Tasks J s.own ∧ L s.own)
      fun e h s => F e h s.world ∧ Tasks J s.own ∧ L s.own := by
  intro h s hs hCw
  rcases ht : s.own.tasks.get? key with _ | t
  · have hx : onTask key m s = (.ok (), s, []) := by simp only [onTask, ht]
    rw [hx]
    simpa using hs
  · have hx : onTask key m s = ((m ⟨t, s.world⟩).1,
        ⟨s.own.setTasks (s.own.tasks.insert key (m ⟨t, s.world⟩).2.1.own), (m ⟨t, s.world⟩).2.1.world⟩,
        (m ⟨t, s.world⟩).2.2) := by simp only [onTask, ht]
    rw [hx] at hCw ⊢
    have hrun := hm h ⟨t, s.world⟩ ⟨hs.1, hs.2.1 _ (OrdMap.mem_of_get?_eq_some ht)⟩ hCw
    have htasks : J key (m ⟨t, s.world⟩).2.1.own → Tasks J
        (s.own.setTasks (s.own.tasks.insert key (m ⟨t, s.world⟩).2.1.own)) := by
      intro hJ e he
      rcases OrdMap.mem_insert he with rfl | he
      · exact hJ
      · exact hs.2.1 e he
    have hkeys : OrdMap.keys (s.own.tasks.insert key (m ⟨t, s.world⟩).2.1.own) = s.own.tasks.keys :=
      OrdMap.keys_insert_of_mem _ ((OrdMap.mem_keys_iff _ _).mpr ⟨t, ht⟩)
    split at hrun <;> rename_i hy <;> simp only [hy] <;>
      exact ⟨hrun.1, htasks hrun.2, hL _ _ hkeys hs.2.2⟩

end Passes

end StreamThread

/-! The manager of the global stores touches the world by its calls alone, so it keeps what they keep. -/

namespace Globals

variable [Broker E] [StateStore S V] {I : Assn Event (World E)} (hC : PrefixClosed C)
  (hcall : ∀ {α : Type} (op : E → Except StreamsClientError α × E), Keeps C I (World.call op))

omit [Broker E] [StateStore S V] in
theorem update_keeps (f : Globals S → Globals S) : Keeps C (fun h s => I h s.world) (update f) :=
  Spec.modify fun _ _ h => h

omit [Broker E] [StateStore S V] in
include hcall in
theorem call_keeps {α : Type} (op : E → Except StreamsClientError α × E) :
    Keeps C (fun h (s : Shared (Globals S) (World E)) => I h s.world) (World.call op).onWorld :=
  Spec.onWorld fun _ => hcall op

include hC hcall

theorem bootstrapLoop_keeps (store : String) (topic : Topic) (partition : Int) : ∀ (n : Nat) (offset : Int),
    Keeps C (fun h s => I h s.world) (bootstrapLoop (S := S) store topic partition n offset)
  | 0, _ => Spec.throw fun _ _ h => h
  | n + 1, offset => by
    refine Spec.bind hC (call_keeps hcall _) fun batch => ?_
    rcases batch.records with _ | ⟨r, rs⟩
    · exact Spec.skip
    · refine Spec.bind hC (update_keeps _) fun _ => ?_
      exact Spec.ite (fun _ => bootstrapLoop_keeps store topic partition n _) fun _ => Spec.skip

theorem bootstrap_keeps : Keeps C (fun h s => I h s.world) (bootstrap (S := S)) := by
  refine Spec.get fun s => Spec.bind hC ?_ fun _ => update_keeps _
  refine (Spec.foldlM hC (fun offsets entry => ?_) _ _).pre fun _ _ h => h.2
  refine Spec.bind hC (call_keeps hcall _) fun partitions => Spec.foldlM hC (fun offsets partition => ?_) _ _
  refine Spec.get fun s => Spec.bind hC ((bootstrapLoop_keeps hC hcall _ _ _ _ _).pre fun _ _ h => h.2) fun _ => ?_
  exact Spec.skip

theorem pollOnce_keeps (partitions : List (Topic × Int)) :
    Keeps C (fun h s => I h s.world) (pollOnce (S := S) partitions) := by
  refine Spec.forM hC _ fun tp _ => Spec.get fun s => ?_
  refine Spec.pre (P := fun h s => I h s.world) ?_ fun _ _ h => h.2
  dsimp only
  rcases s.own.topicToStore tp.1 with _ | store
  · exact Spec.skip
  · refine Spec.bind hC (call_keeps hcall _) fun batch => ?_
    exact Spec.bind hC (update_keeps _) fun _ => update_keeps _

end Globals

end KrabkaStreams
