import KrabkaStreams.Proofs.ThreadRules

/-!
# Invariants of the runs of a thread

One proof of what every run of a thread keeps. `Polls` lists what to show for a poll or a commit, `Sound`
adds the assignment, and `run_spec` follows for every sequence of calls.
-/

namespace KrabkaStreams

open Effect StateStore

variable {E P M S V : Type}

/-- The assertions of an invariant proof about a thread. -/
structure ThreadInvariant (E P M S V : Type) where
  idle : Assn Event (World E)
  failed : StreamsClientError → Assn Event (World E)
  rolling : Assn Event (World E)
  /-- After the commit of a transaction, before the thread leaves it. -/
  ended : Assn Event (World E)
  task : TaskKey → StreamTask P M S V → Prop
  assigns : TaskKey → TaskRole → Prop

namespace ThreadInvariant

variable (p : ThreadInvariant E P M S V) (g : ProcessingGuarantee) (k : TaskKey)

def between (b : Bool) : Assn Event (TaskState E P M S V) :=
  fun h s => (p.idle h s.world ∧ s.world.begun = b) ∧ p.task k s.own

def steady : Assn Event (TaskState E P M S V) :=
  fun h s => p.idle h s.world ∧ p.task k s.own

def broken (e : StreamsClientError) : Assn Event (TaskState E P M S V) :=
  fun h s => p.failed e h s.world ∧ p.task k s.own

def rollingBack : Assn Event (TaskState E P M S V) :=
  fun h s => (p.rolling h s.world ∧ s.world.begun = false) ∧ p.task k s.own

/-- The thread's own part: its flag stands with the gate, and its guarantee is `g`. -/
def own (b : Bool) (th : StreamThread P M S V) : Prop :=
  th.inTxn = b ∧ th.guarantee = g

def resting (b : Bool) : Assn Event (ThreadState E P M S V) :=
  fun h s => (p.idle h s.world ∧ s.world.begun = b) ∧ StreamThread.Tasks p.task s.own ∧ own g b s.own

def stuck (e : StreamsClientError) : Assn Event (ThreadState E P M S V) :=
  fun h s => p.failed e h s.world ∧ StreamThread.Tasks p.task s.own ∧ s.own.guarantee = g

def settled : Assn Event (ThreadState E P M S V) :=
  fun h s => ∃ b, p.resting g b h s

section Passes

open StreamThread

variable {p : ThreadInvariant E P M S V} {C : List Event → Prop} {g : ProcessingGuarantee} {b : Bool}

theorem update_spec (f : StreamThread P M S V → StreamThread P M S V)
    (ht : ∀ th, Tasks p.task th → Tasks p.task (f th)) (ho : ∀ th, own g b th → own g b (f th)) :
    Keeps C (p.resting (E := E) g b) (update f) :=
  spec_update fun _ s hs => ⟨hs.1, ht s.own hs.2.1, ho s.own hs.2.2⟩

theorem tasks_map {f : StreamTask P M S V → StreamTask P M S V}
    {J : TaskKey → StreamTask P M S V → Prop} (hf : ∀ k t, J k t → J k (f t))
    (th : StreamThread P M S V) (h : Tasks J th) :
    ∀ e ∈ th.tasks.map fun e => (e.1, f e.2), J e.1 e.2 := by
  intro e he
  obtain ⟨e', he', rfl⟩ := List.mem_map.mp he
  exact hf _ _ (h e' he')

theorem own_setTasks (th : StreamThread P M S V) (ts : OrdMap TaskKey (StreamTask P M S V))
    (_ : ts.keys = th.tasks.keys) (h : own g b th) : own g b (th.setTasks ts) :=
  h

theorem tasks_erase {J : TaskKey → StreamTask P M S V → Prop} {th : StreamThread P M S V} (h : Tasks J th)
    (key : TaskKey) : Tasks J (th.setTasks (th.tasks.erase key)) :=
  fun e he => h e (List.mem_filter.mp he).1

theorem onTask_spec {m : TaskM E P M S V Unit} (key : TaskKey) (hm : Keeps C (p.between key b) m) :
    Keeps C (p.resting (E := E) g b) (onTask key m) :=
  spec_onTask (I := fun h w => p.idle h w ∧ w.begun = b) (F := fun _ h w => p.idle h w ∧ w.begun = b)
    (J := p.task) (L := own g b) own_setTasks hm

theorem forTasks_spec (hC : PrefixClosed C) {m : TaskKey → TaskM E P M S V Unit}
    (hm : ∀ k, Keeps C (p.between k b) (m k)) : Keeps C (p.resting (E := E) g b) (forTasks m) :=
  spec_forTasks hC (I := fun h w => p.idle h w ∧ w.begun = b)
    (F := fun _ h w => p.idle h w ∧ w.begun = b) (J := p.task) (L := own g b) own_setTasks hm

end Passes

variable [Broker E] [StateStore S V] [Processor P M S V]

def assigning (a : StreamsAssignment) (topology : BuiltTopology P M S V) : ThreadM E P M S V Unit := do
  StreamThread.ensureInitialized
  StreamThread.ensureGlobals topology
  let th ← StreamThread.current
  (th.toRemove a).forM StreamThread.removeTask
  (StreamThread.desired a).forM fun e => StreamThread.onTask e.1 (StreamThread.changeRole e.2.1)
  (StreamThread.desired a).forM fun e => StreamThread.addTask topology e.1 e.2.1 e.2.2

/-- A task has its invariant when a thread with the guarantee `g` creates it. -/
def Starts (p : ThreadInvariant E P M S V) (g : ProcessingGuarantee) : Prop :=
  ∀ (topology : BuiltTopology P M S V) app cache graph,
    topology.instantiate app cache = .ok graph → ∀ key globals sources role, p.assigns key role →
      p.task key (.new key.1 { graph with globals := globals } sources role g)

/-- What the tasks and the producer have to keep while a thread with the guarantee `g` polls and commits. -/
structure Polls (p : ThreadInvariant E P M S V) (C : List Event → Prop) (g : ProcessingGuarantee) :
    Prop where
  -- the environment
  answer : ∀ h w env, p.idle h w → p.idle h { w with env := env }
  fenced : ∀ h w, p.idle h w → p.idle (h ++ [.fenced]) w
  -- changes of a task from outside
  lend : ∀ k t globals, p.task k t → p.task k (t.setGraph { t.graph with globals := globals })
  setCut : ∀ k t cut, p.task k t → p.task k { t with pendingCut := cut }
  clearPending : ∀ k t, p.task k t → p.task k { t with pending := [] }
  -- the methods of a task that run under either guarantee
  tick : ∀ k b now, Keeps C (p.between k b) (StreamThread.tick now)
  computeChangelogOffsets : ∀ k b, Keeps C (p.between k b) StreamTask.computeChangelogOffsets
  -- at-least-once
  processAny : g = .atLeastOnce → ∀ k b, Keeps C (p.between k b) StreamThread.processAny
  commit : g = .atLeastOnce → ∀ k b, Keeps C (p.between k b) StreamThread.commitTask
  snapshot : g = .atLeastOnce → ∀ k b, Keeps C (p.between k b) StreamThread.snapshotTask
  commitPending : g = .atLeastOnce → ∀ k b, Keeps C (p.between k b) StreamTask.commitPending
  -- exactly-once: the cycle
  process : g = .exactlyOnceV2 → ∀ k,
    Spec C (p.steady k) StreamThread.processOrStep (fun _ => p.steady k) (p.broken k)
  flush : g = .exactlyOnceV2 → ∀ k,
    Spec C (p.between k true) StreamThread.flushTask (fun _ => p.between k true) (p.broken k)
  eosSnapshot : g = .exactlyOnceV2 → ∀ k,
    Spec C (p.between k true) StreamThread.snapshotTask (fun _ => p.between k true) (p.broken k)
  sendOffsets : g = .exactlyOnceV2 → ∀ ts : OrdMap TaskKey (StreamTask P M S V),
    (∀ e ∈ ts, p.task e.1 e.2) → Spec C (fun h w => p.idle h w ∧ w.begun = true)
      (World.sendOffsetsToTransaction (ts.map fun e => (e.2.ref, e.2.pendingOffsets)))
      (fun _ h w => p.idle h w ∧ w.begun = true) p.failed
  commitTransaction : g = .exactlyOnceV2 → Spec C (fun h w => p.idle h w ∧ w.begun = true)
    World.commitTransaction (fun _ => p.ended) p.failed
  beginTransaction : g = .exactlyOnceV2 → Spec C (fun h w => p.idle h w ∧ w.begun = false)
    World.beginTransaction (fun _ h w => p.idle h { w with begun := true })
    fun e h w => (p.failed e h w ∧ p.idle h w) ∧ w.begun = false
  -- exactly-once: the end of a transaction
  endedAnswer : g = .exactlyOnceV2 → ∀ h w env, p.ended h w → p.ended h { w with env := env }
  endedRefusal : g = .exactlyOnceV2 → ∀ e h w env, p.ended h w →
    p.failed e (h ++ World.fencedEvent (.error e : Except StreamsClientError Unit)) { w with env := env }
  endedDone : g = .exactlyOnceV2 → ∀ h w, p.ended h w → p.idle h { w with begun := false }
  fatal : g = .exactlyOnceV2 → ∀ e h w, p.failed e h w → e.isProducerFenced = true →
    p.idle h { w with begun := false }
  abort : g = .exactlyOnceV2 → ∀ e, e.isProducerFenced = false →
    Spec C (p.failed e) World.abortTransaction (fun _ h w => p.rolling h { w with begun := false })
      fun e' h w => if e'.isProducerFenced then p.idle h { w with begun := false }
        else p.rolling h { w with begun := false }
  rollback : g = .exactlyOnceV2 → ∀ k,
    Spec C (p.rollingBack k) StreamTask.rollback (fun _ => p.rollingBack k) fun _ => p.between k false
  recovered : g = .exactlyOnceV2 → ∀ h w, p.rolling h w → w.begun = false → C (h ++ [.recovered]) →
    p.idle (h ++ [.recovered]) w

/-- What the tasks have to keep under an assignment, too. -/
structure Sound (p : ThreadInvariant E P M S V) (C : List Event → Prop) (g : ProcessingGuarantee) : Prop
    extends Polls p C g where
  startTask : ∀ k b, Spec C (fun h s => p.between k b h s ∧ s.own.role = .active)
    StreamThread.startTask (fun _ => p.between k b) fun _ h s => p.idle h s.world ∧ s.world.begun = b
  retire : ∀ k b, Spec C (fun h s => p.between k b h s ∧ s.own.role = .active) StreamThread.retire
    (fun _ h s => p.idle h s.world ∧ s.world.begun = b) fun _ h s => p.idle h s.world ∧ s.world.begun = b
  changeRole : ∀ k b role, p.assigns k role → Keeps C (p.between k b) (StreamThread.changeRole role)

namespace Polls

open StreamThread

variable {p : ThreadInvariant E P M S V} {C : List Event → Prop} {g : ProcessingGuarantee} {b : Bool}

theorem idle_fencedEvent {α : Type} (hp : p.Polls C g) {h : List Event} {w : World E}
    (hw : p.idle h w) (r : Except StreamsClientError α) : p.idle (h ++ World.fencedEvent r) w := by
  unfold World.fencedEvent
  split
  · split
    · exact hp.fenced h w hw
    · simpa using hw
  · simpa using hw

theorem world_call_spec {α : Type} (hp : p.Polls C g) (op : E → Except StreamsClientError α × E) :
    Keeps C (fun h w => p.idle h w ∧ w.begun = b) (World.call op) :=
  World.spec_call (fun h w _ env hs _ => ⟨hp.answer h w env hs.1, hs.2⟩)
    fun h w _ env hs _ => ⟨hp.idle_fencedEvent (hp.answer h w env hs.1) _, hs.2⟩

theorem call_spec {α : Type} (hp : p.Polls C g) (op : E → Except StreamsClientError α × E) :
    Keeps C (p.resting g b) ((World.call op).onWorld) :=
  Spec.frame (N := fun th => StreamThread.Tasks p.task th ∧ own g b th) (hp.world_call_spec op)

theorem setGlobals_spec (hp : p.Polls C g) (globals : StoreRegistry S) :
    Keeps C (p.resting (E := E) g b) (setGlobals globals) :=
  update_spec _ (fun th h => tasks_map (fun k t => hp.lend k t _) th h) fun _ h => h

section Globals

variable (hC : PrefixClosed C) (hp : p.Polls C g)

include hC hp

omit hC in
theorem onGlobals_spec {α : Type} {m : GlobalM E S α}
    (hm : Keeps C (fun h s => p.idle h s.world ∧ s.world.begun = b) m) : Keeps C (p.resting g b) (onGlobals m) := by
  intro h s hs hCw
  have hkept := hm.after (s := ⟨⟨s.own.globals, s.own.globalTopics, s.own.globalOffsets⟩, s.world⟩) hs.1 hCw
  have htasks := tasks_map (fun k t => hp.lend k t (m ⟨⟨s.own.globals, s.own.globalTopics, s.own.globalOffsets⟩,
    s.world⟩).2.1.own.stores) s.own hs.2.1
  have hrest : p.resting g b (h ++ (onGlobals m s).2.2) (onGlobals m s).2.1 := ⟨hkept, htasks, hs.2.2⟩
  split <;> exact hrest

theorem ensureGlobals_spec (topology : BuiltTopology P M S V) :
    Keeps C (p.resting (E := E) g b) (ensureGlobals topology) := by
  refine spec_read fun th => ?_
  refine Spec.ite (fun _ => Spec.skip) fun _ => Spec.ite
    (fun _ => update_spec _ (fun _ h => h) fun _ h => h) fun _ => ?_
  refine Spec.bind hC (update_spec _ (fun _ h => h) fun _ h => h) fun _ => ?_
  refine Spec.bind hC (hp.setGlobals_spec _) fun _ => ?_
  refine Spec.bind hC (hp.onGlobals_spec (Globals.bootstrap_keeps hC hp.world_call_spec)) fun _ => ?_
  exact update_spec _ (fun _ h => h) fun _ h => h

theorem pollGlobals_spec : Keeps C (p.resting (E := E) g b) pollGlobals := by
  refine spec_read fun th => (hp.onGlobals_spec ?_)
  exact Globals.pollOnce_keeps hC hp.world_call_spec _

theorem ensureInitialized_spec : Keeps C (p.resting (E := E) g b) ensureInitialized := by
  refine spec_read fun th => ?_
  refine Spec.ite (fun _ => ?_) fun _ => Spec.skip
  exact Spec.bind hC (hp.call_spec _) fun _ => update_spec _ (fun _ h => h) fun _ h => h

end Globals

section Assignment

variable (hC : PrefixClosed C) (hp : p.Polls C g)

theorem removeTask_spec (hretire : ∀ key, Spec C (fun h s => p.between (E := E) key b h s ∧ s.own.role = .active)
    StreamThread.retire (fun _ h s => p.idle h s.world ∧ s.world.begun = b)
    fun _ h s => p.idle h s.world ∧ s.world.begun = b) (key : TaskKey) :
    Keeps C (p.resting (E := E) g b) (removeTask key) := by
  intro h s hs hCw
  rcases ht : s.own.tasks.get? key with _ | t
  · have hx : removeTask key s = (.ok (), s, []) := by simp only [removeTask, ht]
    rw [hx]
    simpa using hs
  · by_cases hrole : t.role = .active
    · have hx : removeTask key s = ((StreamThread.retire ⟨t, s.world⟩).1,
          ⟨s.own.setTasks (s.own.tasks.erase key), (StreamThread.retire ⟨t, s.world⟩).2.1.world⟩,
          (StreamThread.retire ⟨t, s.world⟩).2.2) := by simp only [removeTask, ht, hrole, if_true]
      rw [hx] at hCw ⊢
      have hrun := hretire key h ⟨t, s.world⟩
        ⟨⟨hs.1, hs.2.1 _ (OrdMap.mem_of_get?_eq_some ht)⟩, hrole⟩ hCw
      split at hrun <;> rename_i hy <;> simp only [hy] <;>
        exact ⟨hrun, tasks_erase hs.2.1 key, hs.2.2⟩
    · have hx : removeTask key s
          = (.ok (), ⟨s.own.setTasks (s.own.tasks.erase key), s.world⟩, []) := by
        simp only [removeTask, ht, hrole, if_false]
      rw [hx]
      simpa using ⟨hs.1, tasks_erase hs.2.1 key, hs.2.2⟩

theorem addTask_spec (topology : BuiltTopology P M S V) (key : TaskKey) (role : TaskRole)
    (ta : TaskAssignment) (hstart : ∀ app cache graph, topology.instantiate app cache = .ok graph → ∀ globals,
      Spec C (fun h s => (p.idle (E := E) h s.world ∧ s.world.begun = b) ∧
          s.own = .new key.1 { graph with globals := globals } (sourcesOf ta key.2) role g)
        (if role = .active then StreamThread.startTask else pure ()) (fun _ => p.between key b)
        fun _ h s => p.idle h s.world ∧ s.world.begun = b) :
    Keeps C (p.resting (E := E) g b) (addTask topology key role ta) := by
  refine spec_current fun th => Spec.ite (fun _ => Spec.pure fun _ _ h => h.2) fun _ => ?_
  rcases hi : topology.instantiate th.applicationId th.cacheMaxBytes with e | graph
  · exact Spec.throw fun _ _ h => h.2
  · rintro h s ⟨rfl, hs⟩ hCw
    have hrun := hstart _ _ graph hi s.own.globals h ⟨.new key.1 { graph with globals := s.own.globals }
      (sourcesOf ta key.2) role s.own.guarantee, s.world⟩ ⟨hs.1, by rw [hs.2.2.2]⟩
    rcases hx : (if role = .active then StreamThread.startTask else pure () : TaskM E P M S V Unit)
        ⟨.new key.1 { graph with globals := s.own.globals } (sourcesOf ta key.2) role s.own.guarantee, s.world⟩
      with ⟨e | u, s', evs⟩
    · simp only [hx] at hCw hrun ⊢
      exact ⟨hrun hCw, hs.2⟩
    · simp only [hx] at hCw hrun ⊢
      refine ⟨(hrun hCw).1, fun e he => ?_, hs.2.2⟩
      rcases OrdMap.mem_insert he with rfl | he
      · exact (hrun hCw).2
      · exact hs.2.1 e he

include hC hp in
theorem assign_spec (a : StreamsAssignment) (topology : BuiltTopology P M S V)
    (hremove : ∀ key, Keeps C (p.resting (E := E) g b) (removeTask key))
    (hchange : ∀ e ∈ desired a, Keeps C (p.between (E := E) e.1 b) (StreamThread.changeRole e.2.1))
    (hadd : ∀ e ∈ desired a, Keeps C (p.resting (E := E) g b) (addTask topology e.1 e.2.1 e.2.2)) :
    Keeps C (p.resting (E := E) g b) (assigning a topology) := by
  refine Spec.bind hC (hp.ensureInitialized_spec hC) fun _ => ?_
  refine Spec.bind hC (hp.ensureGlobals_spec hC topology) fun _ => ?_
  refine spec_read fun th => ?_
  refine Spec.bind hC (Spec.forM hC _ fun key _ => hremove key) fun _ => ?_
  refine Spec.bind hC (Spec.forM hC _ fun e he => onTask_spec e.1 (hchange e he)) fun _ => ?_
  exact Spec.forM hC _ fun e he => hadd e he

end Assignment

section Poll

variable (hC : PrefixClosed C) (hp : p.Polls C g)

include hC hp

theorem refreshBarrier_spec : Keeps C (p.resting (E := E) g b) refreshBarrier := by
  refine spec_read fun th => ?_
  split
  · exact Spec.skip
  · split
    · exact Spec.skip
    · refine Spec.bind hC (hp.call_spec _) fun cuts => ?_
      split
      · exact Spec.skip
      · refine update_spec _ (fun th h => ?_) fun _ h => h
        refine tasks_map (f := fun t => if t.role = .active then { t with pendingCut := some _ } else t)
          (fun k t ht => ?_) _ h
        split
        · exact hp.setCut k t _ ht
        · exact ht

end Poll

section Barrier

variable (hC : PrefixClosed C)

section Snapshots

variable {F : StreamsClientError → Assn Event (World E)}
  (hm : ∀ k, Spec C (p.between k b) snapshotTask (fun _ => p.between k b)
    fun e h s => F e h s.world ∧ p.task k s.own)

include hC hm

theorem snapshotLoop_spec : ∀ (keys : List TaskKey) (acc : List (String × TaskSnapshot)),
    Spec C (p.resting g b) (snapshotLoop keys acc) (fun _ => p.resting g b)
      fun e h s => F e h s.world ∧ Tasks p.task s.own ∧ own g b s.own
  | [], _ => Spec.skip
  | key :: keys, acc => by
    refine Spec.bind hC (spec_onTask (I := fun h w => p.idle h w ∧ w.begun = b) (J := p.task)
      (L := own g b) own_setTasks (hm key)) fun _ => ?_
    exact spec_read fun th => (snapshotLoop_spec keys _)

theorem takeBarrierSnapshots_spec :
    Spec C (p.resting g b) takeBarrierSnapshots (fun _ => p.resting g b)
      fun e h s => F e h s.world ∧ Tasks p.task s.own ∧ own g b s.own := by
  refine spec_read fun th => ?_
  refine Spec.ite (fun _ => ?_) fun _ => Spec.skip
  split
  · exact Spec.skip
  · exact Spec.bind hC (snapshotLoop_spec hC hm _ _) fun _ => Spec.skip

end Snapshots

omit [StateStore S V] [Processor P M S V] in
theorem persistBarrier_spec {I : Assn Event (World E)}
    {F : StreamsClientError → Assn Event (World E)} {N : StreamThread P M S V → Prop}
    (hI : ∀ h w env, I h w → I h { w with env := env })
    (hF : ∀ e h w env, I h w →
      F e (h ++ World.fencedEvent (.error e : Except StreamsClientError Unit)) { w with env := env })
    (hC : PrefixClosed C) (cut : BarrierCut) (snaps : List (String × TaskSnapshot)) :
    Spec C (fun h s => I h s.world ∧ N s.own) (persistBarrier cut snaps)
      (fun _ h s => I h s.world ∧ N s.own) fun e h s => F e h s.world ∧ N s.own := by
  refine spec_read fun th => ?_
  split
  · exact Spec.skip
  · refine Spec.forM hC snaps fun x _ => Spec.onWorld fun _ => World.spec_call
      (fun h w _ env hs _ => ⟨hI h w env hs.1, hs.2⟩)
      fun h w e env hs _ => ⟨hF e h w env hs.1, hs.2⟩

end Barrier

section AtLeastOnce

variable (hC : PrefixClosed C) (hp : p.Polls C g)

include hC hp

theorem fireBarrier_spec (hg : g = .atLeastOnce) : Keeps C (p.resting (E := E) g b) fireBarrier := by
  refine Spec.bind hC (takeBarrierSnapshots_spec hC (F := fun _ h w => p.idle h w ∧ w.begun = b)
    fun k => hp.snapshot hg k b) fun r => ?_
  rcases r with _ | ⟨cut, snaps⟩
  · exact Spec.skip
  · refine Spec.bind hC (persistBarrier_spec (I := fun h w => p.idle h w ∧ w.begun = b)
      (F := fun _ h w => p.idle h w ∧ w.begun = b) (N := fun th => Tasks p.task th ∧ own g b th)
      (fun h w env hs => ⟨hp.answer h w env hs.1, hs.2⟩)
      (fun e h w env hs => ⟨hp.idle_fencedEvent (hp.answer h w env hs.1) _, hs.2⟩) hC cut snaps)
      fun _ => spec_read fun th => ?_
    refine Spec.bind hC (Spec.forM hC _ fun key _ => onTask_spec key
      (Spec.bind hC (hp.commitPending hg key b) fun _ => Spec.skip)) fun _ => ?_
    exact update_spec _ (fun th h => tasks_map (fun k t => hp.setCut k t none) th h) fun _ h => h

theorem finishPoll_spec : Keeps C (p.resting (E := E) g b) finishPoll := by
  refine Spec.bind hC (hp.call_spec _) fun now => ?_
  refine Spec.bind hC (forTasks_spec hC fun k => hp.tick k b now) fun _ => ?_
  refine spec_current fun th => ?_
  refine Spec.bind hC (R := fun _ => p.resting g b) (Spec.ite (fun hg => ?_)
    fun _ => Spec.pure fun _ _ h => h.2) fun _ => ?_
  · rintro h s ⟨rfl, hs⟩ hCw
    exact hp.fireBarrier_spec hC (hs.2.2.2.symm.trans hg) h s hs hCw
  · exact forTasks_spec hC fun k => Spec.bind hC (hp.computeChangelogOffsets k b) fun _ =>
      Spec.skip

end AtLeastOnce

section ExactlyOnce

variable (hC : PrefixClosed C) (hp : p.Polls C g) (hg : g = .exactlyOnceV2)

omit [Broker E] [StateStore S V] [Processor P M S V] in
theorem setInTxn_spec {Pre : Assn Event (ThreadState E P M S V)}
    {F : StreamsClientError → Assn Event (ThreadState E P M S V)} (b : Bool)
    (h : ∀ w s, Pre w s → p.idle w { s.world with begun := b } ∧ Tasks p.task s.own ∧
      s.own.guarantee = g) :
    Spec C Pre (setInTxn b) (fun _ => p.resting g b) F := by
  intro w s hs _
  obtain ⟨hidle, htasks, hguar⟩ := h w s hs
  show p.resting g b (w ++ []) _
  rw [List.append_nil]
  exact ⟨⟨hidle, rfl⟩, htasks, rfl, hguar⟩

include hC hp hg

theorem rollbackAll_spec :
    Spec C (fun h s => (p.rolling h s.world ∧ s.world.begun = false) ∧ Tasks p.task s.own ∧
        own g false s.own) rollbackAll
      (fun _ => p.settled g) fun _ => p.settled g := by
  refine Spec.bind hC ((spec_forTasks hC (I := fun h w => p.rolling h w ∧ w.begun = false)
    (F := fun _ h w => p.idle h w ∧ w.begun = false) (J := p.task) (L := own g false) own_setTasks
    fun k => hp.rollback hg k).failing fun _ h s hs => ⟨false, hs⟩) fun _ => ?_
  exact Spec.tell fun h s hs hCw =>
    ⟨false, ⟨hp.recovered hg h s.world hs.1.1 hs.1.2 hCw, hs.1.2⟩, hs.2⟩

theorem abortAndRollback_spec {e : StreamsClientError} (he : e.isProducerFenced = false) :
    Spec C (p.stuck g e) abortAndRollback (fun _ => p.settled g) fun _ => p.settled g := by
  refine Spec.bind hC (R := fun r h s => (match r with
      | .ok _ => p.rolling h { s.world with begun := false }
      | .error e' => if e'.isProducerFenced then p.idle h { s.world with begun := false }
        else p.rolling h { s.world with begun := false }) ∧ Tasks p.task s.own ∧ s.own.guarantee = g)
    (Spec.attempt (Spec.onWorld fun own => ?_)) fun r => ?_
  · intro h w hs hCw
    have habort := hp.abort hg e he h w hs.1 hCw
    split at habort <;> exact ⟨habort, hs.2⟩
  · have hset : ∀ (h : List Event) (s : ThreadState E P M S V), Tasks p.task s.own ∧
        s.own.guarantee = g → Tasks p.task { s.own with inTxn := false } ∧
          own g false { s.own with inTxn := false } := fun _ _ hs => ⟨hs.1, rfl, hs.2⟩
    refine Spec.bind hC (R := fun _ h s => ((match r with
      | .ok _ => p.rolling h s.world
      | .error e' => if e'.isProducerFenced then p.idle h s.world else p.rolling h s.world) ∧
        s.world.begun = false) ∧ Tasks p.task s.own ∧ own g false s.own)
      (Spec.modify fun h s hs => ⟨⟨hs.1, rfl⟩, hset h s hs.2⟩) fun _ => ?_
    cases r with
    | ok u => exact hp.rollbackAll_spec hC hg
    | error e' =>
      cases hf : e'.isProducerFenced with
      | true =>
        simp only [hf, if_true]
        exact Spec.throw fun h s hs => ⟨false, hs⟩
      | false =>
        simp only [hf, Bool.false_eq_true, if_false]
        exact hp.rollbackAll_spec hC hg

theorem recover_spec (e : StreamsClientError) :
    Spec C (p.stuck g e) (recover e) (fun _ => p.settled g) fun _ => p.settled g := by
  refine Spec.ite (fun he => ?_) fun he => hp.abortAndRollback_spec hC hg (by simpa using he)
  exact Spec.bind hC (setInTxn_spec false fun h s hs => ⟨hp.fatal hg e h s.world hs.1 he, hs.2⟩)
    fun _ => Spec.throw fun h s hs => ⟨false, hs⟩

theorem eosBeginAndProcess_spec :
    Spec C (p.resting g b) eosBeginAndProcess (fun _ => p.settled g) (p.stuck g) := by
  refine spec_current fun th => Spec.bind hC (R := fun _ h s => p.idle h s.world ∧
    Tasks p.task s.own ∧ s.own.guarantee = g) (Spec.modify fun h s hs => ?_) fun _ => ?_
  · obtain ⟨rfl, hs⟩ := hs
    have hgate : { s.world with begun := s.own.inTxn } = s.world := by
      rw [hs.2.2.1, ← hs.1.2]
    exact ⟨hgate ▸ hs.1.1, hs.2.1, hs.2.2.2⟩
  refine Spec.bind hC (R := fun r h s => (match r with
      | .ok _ => p.idle h s.world
      | .error e => p.failed e h s.world) ∧ Tasks p.task s.own ∧ s.own.guarantee = g)
    (Spec.attempt (spec_forTasks hC (I := p.idle) (F := p.failed) (J := p.task)
      (L := fun th => th.guarantee = g) (fun _ _ _ h => h) fun k => hp.process hg k)) fun r => ?_
  refine Spec.bind hC (R := fun _ h s => (match r with
      | .ok _ => p.idle h s.world ∧ s.own.inTxn = s.world.begun
      | .error e => p.failed e h s.world) ∧ Tasks p.task s.own ∧ s.own.guarantee = g)
    (Spec.modify fun h s hs => ?_) fun _ => ?_
  · cases r with
    | ok u => exact ⟨⟨hs.1, rfl⟩, hs.2⟩
    | error e => exact hs
  · cases r with
    | ok u =>
      exact Spec.pure fun h s hs => ⟨s.world.begun, ⟨hs.1.1, rfl⟩, hs.2.1, hs.1.2, hs.2.2⟩
    | error e => exact Spec.throw fun h s hs => hs

theorem eosSendOffsetsAndCommit_spec :
    Spec C (p.resting g true) eosSendOffsetsAndCommit
      (fun _ h s => p.ended h s.world ∧ Tasks p.task s.own ∧ s.own.guarantee = g) (p.stuck g) := by
  refine Spec.bind hC ((takeBarrierSnapshots_spec hC (F := p.failed) (hp.eosSnapshot hg)).failing fun e h s hs => ⟨hs.1, hs.2.1, hs.2.2.2⟩) fun barrier => ?_
  refine spec_current fun th => Spec.pre (P := fun h s => Tasks p.task th ∧ p.resting g true h s)
    (Spec.assume fun htasks => ?_) fun h s hs => ⟨hs.1 ▸ hs.2.2.1, hs.2⟩
  refine Spec.bind hC ((Spec.frame (N := fun th => Tasks p.task th ∧ own g true th)
    (hp.sendOffsets hg th.tasks htasks)).failing fun e h s hs => ⟨hs.1, hs.2.1, hs.2.2.2⟩) fun _ => ?_
  refine Spec.bind hC ((Spec.frame (N := fun th => Tasks p.task th ∧ th.guarantee = g)
    (hp.commitTransaction hg)).pre fun h s hs => ⟨hs.1, hs.2.1, hs.2.2.2⟩) fun _ => ?_
  rcases barrier with _ | ⟨cut, snaps⟩
  · exact Spec.skip
  · refine Spec.bind hC (persistBarrier_spec (I := p.ended) (F := p.failed)
      (N := fun th => Tasks p.task th ∧ th.guarantee = g) (hp.endedAnswer hg) (hp.endedRefusal hg) hC
      cut snaps) fun _ => ?_
    exact spec_update fun h s hs =>
      ⟨hs.1, tasks_map (fun k t => hp.setCut k t none) s.own hs.2.1, hs.2.2⟩

theorem eosCommitOpen_spec :
    Spec C (p.resting g true) eosCommitOpen (fun _ => p.settled g) fun _ => p.settled g := by
  refine Spec.bind hC (R := fun r h s => match r with
      | .ok _ => p.resting g true h s
      | .error e => p.stuck g e h s) (Spec.attempt ((spec_forTasks hC
        (I := fun h w => p.idle h w ∧ w.begun = true) (F := p.failed) (J := p.task) (L := own g true)
        own_setTasks fun k => hp.flush hg k).post (fun _ _ _ h => h)
        fun e h s hs => ⟨hs.1, hs.2.1, hs.2.2.2⟩)) fun r => ?_
  cases r with
  | error e => exact hp.recover_spec hC hg e
  | ok u =>
    refine Spec.bind hC (R := fun r h s => match r with
        | .ok _ => p.ended h s.world ∧ Tasks p.task s.own ∧ s.own.guarantee = g
        | .error e => p.stuck g e h s) (Spec.attempt (hp.eosSendOffsetsAndCommit_spec hC hg))
      fun r => ?_
    cases r with
    | error e => exact hp.recover_spec hC hg e
    | ok u =>
      refine Spec.bind hC ((spec_forTasks hC (I := p.ended) (F := fun _ _ _ => False) (J := p.task)
        (L := fun th => th.guarantee = g) (fun _ _ _ h => h) fun _ => StreamTask.spec_update
          fun h s hs => ⟨hs.1, hp.clearPending _ s.own hs.2⟩).failing fun e h s hs => hs.1.elim) fun _ => ?_
      exact (setInTxn_spec false fun h s hs => ⟨hp.endedDone hg h s.world hs.1, hs.2⟩).post
        (fun _ h s hs => ⟨false, hs⟩) fun _ _ _ h => h

end ExactlyOnce

section Calls

variable (hC : PrefixClosed C) (hp : p.Polls C g)

include hC hp

theorem pollAll_spec : Keeps C (p.settled (E := E) g) pollAll := by
  refine Spec.elim fun b => spec_current fun th => Spec.pre
    (P := fun h s => th.guarantee = g ∧ p.resting g b h s) (Spec.assume fun hth => ?_)
    fun h s hs => ⟨hs.1 ▸ hs.2.2.2.2, hs.2⟩
  have hrest : ∀ {m : ThreadM E P M S V Unit}, Keeps C (p.resting g b) m →
      Spec C (p.resting g b) m (fun _ => p.resting g b) fun _ => p.settled g :=
    fun hm => hm.failing fun _ _ _ h => ⟨b, h⟩
  have hdone : ∀ {m : ThreadM E P M S V Unit}, Keeps C (p.resting g b) m →
      Spec C (p.resting g b) m (fun _ => p.settled g) fun _ => p.settled g :=
    fun hm => hm.post (fun _ _ _ h => ⟨b, h⟩) fun _ _ _ h => ⟨b, h⟩
  refine Spec.bind hC (hrest (Spec.ite (fun _ => Spec.skip)
    fun _ => hp.pollGlobals_spec hC)) fun _ => ?_
  refine Spec.bind hC (hrest (hp.refreshBarrier_spec hC)) fun _ => ?_
  rw [hth]
  rcases hg : g with _ | _
  · subst hg
    exact Spec.bind hC (hrest (forTasks_spec hC fun k => hp.processAny rfl k b)) fun _ =>
      hdone (hp.finishPoll_spec hC)
  · subst hg
    refine Spec.bind hC (R := fun r h s => match r with
        | .ok _ => p.settled .exactlyOnceV2 h s
        | .error e => p.stuck .exactlyOnceV2 e h s) (Spec.attempt (hp.eosBeginAndProcess_spec hC rfl)) fun r => ?_
    cases r with
    | error e => exact hp.recover_spec hC rfl e
    | ok u =>
      exact Spec.elim fun b' => (hp.finishPoll_spec hC).post (fun _ _ _ h => ⟨b', h⟩)
        fun _ _ _ h => ⟨b', h⟩

theorem commitAll_spec : Keeps C (p.settled (E := E) g) commitAll := by
  refine Spec.elim fun b => spec_current fun th => Spec.pre
    (P := fun h s => (th.guarantee = g ∧ th.inTxn = b) ∧ p.resting g b h s)
    (Spec.assume fun hth => ?_) fun h s hs => ⟨hs.1 ▸ ⟨hs.2.2.2.2, hs.2.2.2.1⟩, hs.2⟩
  rw [hth.1, hth.2]
  rcases hg : g with _ | _
  · subst hg
    exact (forTasks_spec hC fun k => hp.commit rfl k b).post (fun _ _ _ h => ⟨b, h⟩)
      fun _ _ _ h => ⟨b, h⟩
  · subst hg
    cases b with
    | true => exact hp.eosCommitOpen_spec hC rfl
    | false =>
      refine Spec.ite (fun h => absurd h (by simp)) fun _ => Spec.ite (fun _ => ?_)
        fun _ => Spec.pure fun h s hs => ⟨false, hs⟩
      refine Spec.bind hC (R := fun (r : Except StreamsClientError Unit) h
          (s : ThreadState E P M S V) => (match r with
          | .ok _ => p.idle h { s.world with begun := true }
          | .error e => (p.failed e h s.world ∧ p.idle h s.world) ∧ s.world.begun = false) ∧
          Tasks p.task s.own ∧ own .exactlyOnceV2 false s.own)
        (Spec.attempt (Spec.frame (N := fun th => Tasks p.task th ∧ own .exactlyOnceV2 false th)
          (hp.beginTransaction rfl))) fun r => ?_
      cases r with
      | ok u =>
        refine Spec.bind hC (setInTxn_spec true fun h s hs => ⟨hs.1, hs.2.1, hs.2.2.2⟩) fun _ => ?_
        exact hp.eosCommitOpen_spec hC rfl
      | error e =>
        refine Spec.ite (fun _ => Spec.throw fun h s hs =>
          ⟨false, ⟨hs.1.1.2, hs.1.2⟩, hs.2⟩) fun he => ?_
        exact (hp.abortAndRollback_spec hC rfl (by simpa using he)).pre
          fun h s hs => ⟨hs.1.1.1, hs.2.1, hs.2.2.2⟩

end Calls

end Polls

def unassigned (p : ThreadInvariant E P M S V) : ThreadInvariant E P M S V :=
  { p with task := fun _ _ => False }

/-- Between two calls: either the thread has an assignment, or it has no task and still the default
guarantee. -/
def calm : Assn Event (ThreadState E P M S V) :=
  fun h s => p.settled g h s ∨ p.unassigned.settled .atLeastOnce h s

theorem Polls.unassigned {p : ThreadInvariant E P M S V} {C : List Event → Prop} {g : ProcessingGuarantee}
    (hp : p.Polls C g) : p.unassigned.Polls C .atLeastOnce := by
  constructor
  case answer => exact hp.answer
  case fenced => exact hp.fenced
  case lend => exact fun _ _ _ h => h
  case setCut => exact fun _ _ _ h => h
  case clearPending => exact fun _ _ h => h
  all_goals first
    | exact fun hg => absurd hg (by decide)
    | intros; exact Spec.vacuous fun _ _ h => h.2

theorem Polls.perform_spec {p : ThreadInvariant E P M S V} {C : List Event → Prop} {g : ProcessingGuarantee}
    (hC : PrefixClosed C) (hp : p.Polls C g) (c : StreamThread.Call P M S V)
    (hassign : ∀ a topology, c = .applyAssignment a topology → ∀ b, Keeps C (p.resting (E := E) g b) (assigning a topology)) :
    Keeps C (p.calm g) (StreamThread.perform g c) := by
  have hcases : ∀ {m : ThreadM E P M S V Unit}, Keeps C (p.settled g) m →
      Keeps C (p.unassigned.settled .atLeastOnce) m → Keeps C (p.calm g) m := fun h₁ h₂ =>
    Spec.or (h₁.post (fun _ _ _ => .inl) fun _ _ _ => .inl)
      (h₂.post (fun _ _ _ => .inr) fun _ _ _ => .inr)
  cases c with
  | pollAll => exact hcases (hp.pollAll_spec hC) (hp.unassigned.pollAll_spec hC)
  | commitAll => exact hcases (hp.commitAll_spec hC) (hp.unassigned.commitAll_spec hC)
  | applyAssignment a topology =>
    -- Both kinds of rest lead to one: a thread without tasks has nothing to show about them.
    have happly : ∀ {A : Assn Event (ThreadState E P M S V)} (b : Bool), (∀ h s, A h s →
        (p.idle h s.world ∧ s.world.begun = b) ∧ StreamThread.Tasks p.task s.own ∧ s.own.inTxn = b) →
        Spec C A (StreamThread.applyAssignment a topology g) (fun _ => p.calm g) fun _ => p.calm g := by
      intro A b hA
      refine Spec.bind hC (R := fun _ => p.resting g b) (StreamThread.spec_update fun h s hs => ?_) fun _ => ?_
      · obtain ⟨hi, ht, ho⟩ := hA h s hs
        exact ⟨hi, ht, ho, rfl⟩
      · exact (hassign a topology rfl b).post (fun _ _ _ h => .inl ⟨b, h⟩) fun _ _ _ h => .inl ⟨b, h⟩
    refine Spec.or (Spec.elim fun b => ?_) (Spec.elim fun b => ?_)
    · exact happly b fun h s hs => ⟨hs.1, hs.2.1, hs.2.2.1⟩
    · exact happly b fun h s hs => ⟨hs.1, fun e he => (hs.2.1 e he).elim, hs.2.2.1⟩

namespace Sound

open StreamThread

variable {p : ThreadInvariant E P M S V} {C : List Event → Prop} {g : ProcessingGuarantee}

theorem assign_spec (hC : PrefixClosed C) (hp : p.Sound C g) (hnew : p.Starts g) {b : Bool} (a : StreamsAssignment)
    (topology : BuiltTopology P M S V) (hassign : ∀ e ∈ desired a, p.assigns e.1 e.2.1) :
    Keeps C (p.resting (E := E) g b) (assigning a topology) := by
  refine hp.toPolls.assign_spec hC a topology (Polls.removeTask_spec fun key => hp.retire key b)
    (fun e he => hp.changeRole e.1 b e.2.1 (hassign e he)) fun e he => ?_
  refine Polls.addTask_spec topology e.1 e.2.1 e.2.2 fun app cache graph hgraph globals => ?_
  have hstarts := hnew topology app cache graph hgraph e.1 globals (sourcesOf e.2.2 e.1.2) e.2.1 (hassign e he)
  refine Spec.ite (fun hrole => (hp.startTask e.1 b).pre fun h s hs => ?_) fun _ => Spec.pure fun h s hs => ?_
  · exact ⟨⟨hs.1, hs.2 ▸ hstarts⟩, by rw [hs.2]; exact hrole⟩
  · exact ⟨hs.1, hs.2 ▸ hstarts⟩

theorem perform_spec (hC : PrefixClosed C) (hp : p.Sound C g) (hnew : p.Starts g)
    (c : Call P M S V) (hassign : ∀ a topology, c = .applyAssignment a topology →
      ∀ e ∈ desired a, p.assigns e.1 e.2.1) : Keeps C (p.calm g) (perform g c) :=
  hp.toPolls.perform_spec hC c fun a topology hc _ => hp.assign_spec hC hnew a topology (hassign a topology hc)

theorem run_spec (hC : PrefixClosed C) (hp : p.Sound C g) (hnew : p.Starts g)
    (hassign : ∀ key role, p.assigns key role) (app : String)
    (cache : Nat) (group : Option String) {w : World E} (hw : w.begun = false) (hidle : p.idle [] w)
    (calls : List (Call P M S V)) (hok : C (run g calls ⟨.new app cache group, w⟩).2) :
    p.calm g (run g calls ⟨.new app cache group, w⟩).2 (run g calls ⟨.new app cache group, w⟩).1 := by
  have hstart : p.calm g [] ⟨.new app cache group, w⟩ :=
    .inr ⟨false, ⟨hidle, hw⟩, fun e he => (List.not_mem_nil he).elim, rfl, rfl⟩
  exact Keeps.runAll hC (fun c => hp.perform_spec hC hnew c fun _ _ _ _ _ => hassign _ _) calls [] _ hstart hok

end Sound

omit [Broker E] [StateStore S V] [Processor P M S V] in
theorem idle_of_calm {p : ThreadInvariant E P M S V} {g : ProcessingGuarantee} {h : List Event}
    {s : ThreadState E P M S V} (hs : p.calm g h s) : p.idle h s.world := by
  rcases hs with ⟨b, hs⟩ | ⟨b, hs⟩ <;> exact hs.1.1

end ThreadInvariant

end KrabkaStreams
