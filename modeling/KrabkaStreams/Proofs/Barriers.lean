import KrabkaStreams.Barriers
import KrabkaStreams.Proofs.KeyValue
import KrabkaStreams.Proofs.TaskInvariant
import KrabkaStreams.Proofs.ThreadRuns
import KrabkaStreams.Script

/-!
# The copies of the pending cut agree

`Agreeing c`: `c` is the pending cut of the thread and of every active task. A poll and a commit keep it
up to the end of the barrier, which clears all copies at once.
-/

namespace KrabkaStreams

open Effect StateStore

variable {E P M S V : Type} {th : StreamThread P M S V} {key : TaskKey} {s : ThreadState E P M S V}
  {cut : BarrierCut} {G : Bool → Prop} {b : ThreadBarrier}

def Holding (c : Option BarrierCut) (t : StreamTask P M S V) : Prop :=
  (t.role = .active → t.pendingCut = c) ∧ (c = none → t.pendingCut = none)

theorem Holding.of_none {t : StreamTask P M S V} (h : t.pendingCut = none) : Holding none t := ⟨fun _ => h, fun _ => h⟩

structure Aligned (J : TaskKey → StreamTask P M S V → Prop) (L : Option BarrierCut → List TaskKey → Prop)
    (th : StreamThread P M S V) : Prop where
  tasks : StreamThread.Tasks J th
  keys : L th.pendingBarrier th.tasks.keys

abbrev Agreeing (c : Option BarrierCut) : StreamThread P M S V → Prop :=
  Aligned (fun _ => Holding c) fun pending keys => pending = c ∧ keys.Nodup

theorem Aligned.cutsAgree {c : Option BarrierCut} (h : Agreeing c th) : th.CutsAgree := by
  refine ⟨fun cut hcut e he => ?_, fun hnone e he => (h.tasks e he).2 (h.keys.1.symm.trans hnone)⟩
  rw [← h.keys.1.symm.trans hcut]
  exact (h.tasks e he).1

section Tasks

variable [Broker E] [StateStore S V] [Processor P M S V]

theorem taskInvariant_of_cut (B : TaskRole → Option BarrierCut → Prop) :
    TaskInvariant E fun t : StreamTask P M S V => B t.role t.pendingCut where
  ran _ _ _ h := h
  takeOutput _ h := h
  takeChangelogs _ h := h
  close _ h := h
  replay t t' hreplay h := by cases hreplay <;> exact h
  moved _ _ _ h := h

theorem holding_invariant (c : Option BarrierCut) : TaskInvariant E (Holding (P := P) (M := M) (S := S) (V := V) c) :=
  taskInvariant_of_cut fun role cut => (role = .active → cut = c) ∧ (c = none → cut = none)

end Tasks

open StreamThread

section Passes

variable {C : List Event → Prop} {J J' : TaskKey → StreamTask P M S V → Prop} {L L' : Option BarrierCut → List TaskKey → Prop}
  {c : Option BarrierCut}

theorem Aligned.mapTasks {th th' : StreamThread P M S V} (h : Aligned J L th)
    (f : StreamTask P M S V → StreamTask P M S V) (hf : ∀ k t, J k t → J' k (f t))
    (htasks : th'.tasks = th.tasks.map fun e => (e.1, f e.2)) (hL : L' th'.pendingBarrier th.tasks.keys) :
    Aligned J' L' th' := by
  refine ⟨fun e he => ?_, ?_⟩
  · rw [htasks] at he
    obtain ⟨e', he', rfl⟩ := List.mem_map.mp he
    exact hf e'.1 e'.2 (h.tasks e' he')
  · rw [htasks, OrdMap.keys, List.map_map]
    exact hL

def aligned (J : TaskKey → StreamTask P M S V → Prop) (L : Option BarrierCut → List TaskKey → Prop) :
    Assn Event (ThreadState E P M S V) :=
  fun _ s => Aligned J L s.own

theorem call_aligned {α : Type} {m : WorldM E α} : Keeps C (aligned J L) m.onWorld := Spec.own

theorem modify_aligned {f : ThreadState E P M S V → ThreadState E P M S V} (htasks : ∀ s, (f s).own.tasks = s.own.tasks)
    (hbarrier : ∀ s, (f s).own.pendingBarrier = s.own.pendingBarrier) :
    Keeps C (aligned J L) (modify f : ThreadM E P M S V PUnit) :=
  Spec.modify fun _ s hs => ⟨fun e he => hs.tasks e (htasks s ▸ he), by rw [htasks, hbarrier]; exact hs.keys⟩

theorem forTasks_aligned (hC : PrefixClosed C) {m : TaskKey → TaskM E P M S V Unit}
    (hm : ∀ k, Keeps C (TaskInvariant.holds (fun _ => True) (J k)) (m k)) : Keeps C (aligned J L) (forTasks m) :=
  (spec_forTasks hC (I := fun _ _ => True) (F := fun _ _ _ => True) (J := J)
    (L := fun th => L th.pendingBarrier th.tasks.keys) (fun th _ hkeys h => by rw [← hkeys] at h; exact h) hm).mono
    (fun _ _ hs => ⟨trivial, hs.tasks, hs.keys⟩) (fun _ _ _ hs => ⟨hs.2.1, hs.2.2⟩) fun _ _ _ hs => ⟨hs.2.1, hs.2.2⟩

theorem onTask_aligned {m : TaskM E P M S V Unit}
    (hm : Keeps C (TaskInvariant.holds (fun _ => True) (J key)) m) : Keeps C (aligned J L) (onTask key m) :=
  (spec_onTask (I := fun _ _ => True) (F := fun _ _ _ => True) (J := J)
    (L := fun th => L th.pendingBarrier th.tasks.keys) (fun th _ hkeys h => by rw [← hkeys] at h; exact h) hm).mono
    (fun _ _ hs => ⟨trivial, hs.tasks, hs.keys⟩) (fun _ _ _ hs => ⟨hs.2.1, hs.2.2⟩) fun _ _ _ hs => ⟨hs.2.1, hs.2.2⟩

section Globals

variable (hlend : ∀ k t globals, J k t → J k (t.setGraph { t.graph with globals := globals }))

include hlend

theorem Aligned.lendGlobals (h : Aligned J L th) : Aligned J L th.lendGlobals :=
  h.mapTasks (fun t => t.setGraph { t.graph with globals := th.globals }) (fun k t => hlend k t _) rfl h.keys

theorem onGlobals_aligned {α : Type} {m : GlobalM E S α} : Keeps C (aligned J L) (onGlobals m) := by
  intro h s hs _
  have hkept : aligned J L (h ++ (onGlobals m s).2.2) (onGlobals m s).2.1 :=
    Aligned.lendGlobals hlend ⟨hs.tasks, hs.keys⟩
  split <;> exact hkept

theorem setGlobals_aligned (globals : StoreRegistry S) :
    Keeps C (aligned (E := E) J L) (setGlobals globals : ThreadM E P M S V Unit) :=
  spec_update fun _ _ hs => Aligned.lendGlobals hlend ⟨hs.tasks, hs.keys⟩

end Globals

def agreed : Assn Event (ThreadState E P M S V) := fun _ s => ∃ c, Agreeing c s.own

theorem Keeps.agreed {α : Type} {m : ThreadM E P M S V α}
    (h : ∀ c, Keeps C (fun _ s => Agreeing c s.own) m) : Keeps C agreed m :=
  Spec.elim fun c => (h c).post (fun _ _ _ hs => ⟨c, hs⟩) fun _ _ _ hs => ⟨c, hs⟩

end Passes

section Polls

variable [Broker E] [StateStore S V] [Processor P M S V] {C : List Event → Prop} (hC : PrefixClosed C) {c : Option BarrierCut}

omit [StateStore S V] [Processor P M S V] in
include hC in
theorem refreshBarrier_agreed : Keeps C (agreed (E := E) (P := P) (M := M) (S := S) (V := V)) refreshBarrier := by
  refine spec_read fun th => ?_
  split
  · exact Spec.skip
  · split
    · exact Spec.skip
    · refine Spec.bind hC (Keeps.agreed fun _ => call_aligned) fun cuts => ?_
      rcases cuts with _ | ⟨cut, _⟩
      · exact Spec.skip
      · refine spec_update fun _ s ⟨c, hs⟩ => ⟨some cut, hs.mapTasks
          (fun t => if t.role = .active then { t with pendingCut := some cut } else t) (fun _ t _ => ?_) rfl ⟨rfl, hs.keys.2⟩⟩
        split
        · exact ⟨fun _ => rfl, nofun⟩
        · rename_i hrole
          exact ⟨fun h => absurd h hrole, nofun⟩

include hC

omit [Processor P M S V] in
theorem beginPoll_agreed : Keeps C (agreed (E := E) (P := P) (M := M) (S := S) (V := V)) beginPoll := by
  refine spec_read fun th => ?_
  refine Spec.seq hC ?_ fun _ => refreshBarrier_agreed hC
  refine Spec.ite (fun _ => Spec.skip) fun _ => Keeps.agreed fun c => ?_
  exact spec_read fun _ => (onGlobals_aligned fun _ _ _ ht => ht)

variable [LawfulStateStore S] [LawfulProcessor P M S V]

theorem snapshotLoop_agreeing : ∀ (keys : List TaskKey) (acc : List (String × TaskSnapshot)),
    Keeps C (fun _ (s : ThreadState E P M S V) => Agreeing c s.own) (snapshotLoop keys acc)
  | [], _ => Spec.skip
  | key :: keys, acc => by
    refine Spec.bind hC (onTask_aligned ((holding_invariant c).snapshotTask hC)) fun _ => ?_
    exact spec_read fun th => (snapshotLoop_agreeing keys _)

theorem takeBarrierSnapshots_agreeing :
    Keeps C (fun _ (s : ThreadState E P M S V) => Agreeing c s.own) takeBarrierSnapshots := by
  refine spec_read fun th => ?_
  refine Spec.ite (fun _ => ?_) fun _ => Spec.skip
  split
  · exact Spec.skip
  · exact Spec.bind hC (snapshotLoop_agreeing hC _ _) fun _ => Spec.skip

omit [StateStore S V] [Processor P M S V] [LawfulStateStore S] [LawfulProcessor P M S V] in
theorem persistBarrier_agreeing (cut : BarrierCut) (snaps : List (String × TaskSnapshot)) :
    Keeps C (fun _ (s : ThreadState E P M S V) => Agreeing c s.own) (persistBarrier cut snaps) := by
  refine spec_read fun th => ?_
  split
  · exact Spec.skip
  · exact Spec.forM hC snaps fun _ _ => call_aligned

omit hC [Broker E] [StateStore S V] [Processor P M S V] [LawfulStateStore S] [LawfulProcessor P M S V] in
theorem finishBarrier_agreed (cut : BarrierCut) :
    Keeps C (agreed (E := E) (P := P) (M := M) (S := S) (V := V)) (finishBarrier cut) := by
  refine spec_update fun _ s ⟨c, hs⟩ => ⟨none, hs.mapTasks (fun t => { t with pendingCut := none })
    (fun _ _ _ => .of_none rfl) rfl ⟨?_, hs.keys.2⟩⟩
  cases s.own.barrier <;> rfl

theorem fireBarrier_agreed : Keeps C (agreed (E := E) (P := P) (M := M) (S := S) (V := V)) fireBarrier := by
  refine Spec.bind hC (Keeps.agreed fun _ => takeBarrierSnapshots_agreeing hC) fun r => ?_
  rcases r with _ | ⟨cut, snaps⟩
  · exact Spec.skip
  · refine Spec.bind hC (Keeps.agreed fun _ => persistBarrier_agreeing hC cut snaps) fun _ => ?_
    refine spec_read fun th => ?_
    refine Spec.seq hC (Keeps.agreed fun c => Spec.forM hC _ fun key _ => onTask_aligned ?_)
      fun _ => finishBarrier_agreed cut
    exact Spec.bind hC ((holding_invariant c).commitPending hC) fun _ => Spec.skip

theorem finishPoll_agreed : Keeps C (agreed (E := E) (P := P) (M := M) (S := S) (V := V)) finishPoll := by
  refine Spec.bind hC (Keeps.agreed fun _ => call_aligned) fun now => ?_
  refine Spec.bind hC (Keeps.agreed fun c => forTasks_aligned hC fun _ => (holding_invariant c).tick hC now) fun _ => ?_
  refine spec_read fun th => ?_
  refine Spec.seq hC (Spec.ite (fun _ => fireBarrier_agreed hC) fun _ => Spec.skip)
    fun _ => Keeps.agreed fun c => forTasks_aligned hC fun _ => ?_
  exact Spec.bind hC ((holding_invariant c).quiet.computeChangelogOffsets_spec hC) fun _ => Spec.skip

omit hC [Broker E] [StateStore S V] [Processor P M S V] [LawfulStateStore S] [LawfulProcessor P M S V] in
theorem setInTxn_agreed (b : Bool) : Keeps C (agreed (E := E) (P := P) (M := M) (S := S) (V := V)) (setInTxn b) :=
  Keeps.agreed fun _ => modify_aligned (fun _ => rfl) fun _ => rfl

omit [LawfulStateStore S] [LawfulProcessor P M S V] in
theorem rollbackAll_agreed : Keeps C (agreed (E := E) (P := P) (M := M) (S := S) (V := V)) rollbackAll := by
  refine Spec.seq hC (Keeps.agreed fun c => forTasks_aligned hC fun _ => ?_) fun _ =>
    Spec.tell fun _ _ hs _ => hs
  exact (holding_invariant c).quiet.rollback_spec hC TaskInvariant.failed

omit [LawfulStateStore S] [LawfulProcessor P M S V] in
theorem abortAndRollback_agreed : Keeps C (agreed (E := E) (P := P) (M := M) (S := S) (V := V)) abortAndRollback := by
  refine Spec.seq hC (Spec.attempt (Keeps.agreed fun _ => call_aligned)) fun r => ?_
  refine Spec.bind hC (setInTxn_agreed false) fun _ => ?_
  cases r with
  | ok u => exact rollbackAll_agreed hC
  | error e => exact Spec.ite (fun _ => Spec.throw fun _ _ hs => hs) fun _ => rollbackAll_agreed hC

omit [LawfulStateStore S] [LawfulProcessor P M S V] in
theorem recover_agreed (e : StreamsClientError) : Keeps C (agreed (E := E) (P := P) (M := M) (S := S) (V := V)) (recover e) :=
  Spec.ite (fun _ => Spec.bind hC (setInTxn_agreed false) fun _ => Spec.throw fun _ _ hs => hs) fun _ =>
    abortAndRollback_agreed hC

theorem eosBeginAndProcess_agreed : Keeps C (agreed (E := E) (P := P) (M := M) (S := S) (V := V)) eosBeginAndProcess := by
  refine spec_read fun th => ?_
  refine Spec.bind hC (setInTxn_agreed _) fun _ => Spec.seq hC (Spec.attempt (Keeps.agreed fun c =>
    forTasks_aligned hC fun _ => (holding_invariant c).processOrStep hC trivial)) fun r => ?_
  refine Spec.seq hC (Keeps.agreed fun _ => modify_aligned (fun _ => rfl) fun _ => rfl) fun _ => ?_
  cases r with
  | ok u => exact Spec.skip
  | error e => exact Spec.throw fun _ _ hs => hs

theorem pollAll_agreed : Keeps C (agreed (E := E) (P := P) (M := M) (S := S) (V := V)) pollAll := by
  refine spec_read fun th => ?_
  refine Spec.seq hC (Spec.ite (fun _ => Spec.skip) fun _ =>
    Keeps.agreed fun c => spec_read fun _ => (onGlobals_aligned fun _ _ _ ht => ht)) fun _ => ?_
  refine Spec.bind hC (refreshBarrier_agreed hC) fun _ => ?_
  cases th.guarantee with
  | atLeastOnce =>
    exact Spec.bind hC (Keeps.agreed fun c => forTasks_aligned hC fun _ => (holding_invariant c).processAny hC) fun _ =>
      finishPoll_agreed hC
  | exactlyOnceV2 =>
    refine Spec.seq hC (Spec.attempt (eosBeginAndProcess_agreed hC)) fun r => ?_
    cases r with
    | ok u => exact finishPoll_agreed hC
    | error e => exact recover_agreed hC e

theorem eosSendOffsetsAndCommit_agreed :
    Keeps C (agreed (E := E) (P := P) (M := M) (S := S) (V := V)) eosSendOffsetsAndCommit := by
  refine Spec.bind hC (Keeps.agreed fun _ => takeBarrierSnapshots_agreeing hC) fun r => ?_
  refine spec_read fun th => ?_
  refine Spec.bind hC (Keeps.agreed fun _ => call_aligned) fun _ =>
    Spec.bind hC (Keeps.agreed fun _ => call_aligned) fun _ => ?_
  rcases r with _ | ⟨cut, snaps⟩
  · exact Spec.skip
  · exact Spec.bind hC (Keeps.agreed fun _ => persistBarrier_agreeing hC cut snaps) fun _ => finishBarrier_agreed cut

theorem eosCommitOpen_agreed : Keeps C (agreed (E := E) (P := P) (M := M) (S := S) (V := V)) eosCommitOpen := by
  refine Spec.seq hC (Spec.attempt (Keeps.agreed fun c => forTasks_aligned hC fun _ =>
    (holding_invariant c).flushTask hC)) fun r => ?_
  cases r with
  | error e => exact recover_agreed hC e
  | ok u =>
    refine Spec.seq hC (Spec.attempt (eosSendOffsetsAndCommit_agreed hC)) fun r => ?_
    cases r with
    | error e => exact recover_agreed hC e
    | ok u =>
      exact Spec.bind hC (Keeps.agreed fun c => forTasks_aligned hC fun _ => StreamTask.spec_update fun _ _ hs => hs)
        fun _ => setInTxn_agreed false

theorem commitAll_agreed : Keeps C (agreed (E := E) (P := P) (M := M) (S := S) (V := V)) commitAll := by
  refine spec_read fun th => ?_
  cases th.guarantee with
  | atLeastOnce => exact Keeps.agreed fun c => forTasks_aligned hC fun _ => (holding_invariant c).commitTask hC
  | exactlyOnceV2 =>
    refine Spec.ite (fun _ => eosCommitOpen_agreed hC) fun _ => Spec.ite (fun _ => ?_) fun _ => Spec.skip
    refine Spec.seq hC (Spec.attempt (Keeps.agreed fun _ => call_aligned)) fun r => ?_
    cases r with
    | ok u => exact Spec.bind hC (setInTxn_agreed true) fun _ => eosCommitOpen_agreed hC
    | error e => exact Spec.ite (fun _ => Spec.throw fun _ _ hs => hs) fun _ => abortAndRollback_agreed hC

end Polls

section Assignment

variable [Broker E] [StateStore S V] [Processor P M S V] {C : List Event → Prop} (hC : PrefixClosed C) {c : Option BarrierCut}
  {a : StreamsAssignment} (B : TaskRole → Option BarrierCut → Prop)

def Named (c : Option BarrierCut) (a : StreamsAssignment) (key : TaskKey) (t : StreamTask P M S V) : Prop :=
  Holding c t ∧ (roleOf a key = some .active → t.pendingCut = c)

def Present (c : Option BarrierCut) (a : StreamsAssignment) (pending : Option BarrierCut) (keys : List TaskKey) : Prop :=
  (pending = c ∧ keys.Nodup) ∧ (c ≠ none → ∀ key, roleOf a key = some .active → key ∈ keys)

abbrev Assigning (c : Option BarrierCut) (a : StreamsAssignment) : StreamThread P M S V → Prop :=
  Aligned (Named c a) (Present c a)

omit [Broker E] in
theorem init_cut :
    Keeps C (TaskInvariant.holds (E := E) G fun t : StreamTask P M S V => B t.role t.pendingCut) StreamTask.init := by
  rintro h ⟨t, w⟩ hs _
  unfold StreamTask.init
  rw [StreamTask.runGraph_cases]
  exact hs

include hC

theorem startTask_cut :
    Keeps C (TaskInvariant.holds (E := E) G fun t : StreamTask P M S V => B t.role t.pendingCut) startTask := by
  have hB : TaskInvariant E fun t : StreamTask P M S V => B t.role t.pendingCut := taskInvariant_of_cut B
  exact Spec.bind hC (hB.quiet.seekToStart_spec hC) fun _ => Spec.bind hC (hB.quiet.restore_spec hC) fun _ => init_cut B

variable [LawfulStateStore S] [LawfulProcessor P M S V]

theorem leaveRole_cut (old new : TaskRole) :
    Keeps C (TaskInvariant.holds (E := E) G fun t : StreamTask P M S V => B t.role t.pendingCut) (leaveRole old new) := by
  have hB : TaskInvariant E fun t : StreamTask P M S V => B t.role t.pendingCut := taskInvariant_of_cut B
  refine Spec.ite (fun _ => ?_) fun _ => Spec.ite (fun _ => hB.retire hC) fun _ => Spec.skip
  exact Spec.bind hC (hB.quiet.restore_spec hC) fun _ => Spec.bind hC (hB.quiet.seekToStart_spec hC) fun _ => init_cut B

theorem changeRole_named {role : TaskRole} (hrole : roleOf a key = some role) :
    Keeps C (TaskInvariant.holds (E := E) (fun _ => True) (Named (P := P) (M := M) (S := S) (V := V) c a key))
      (changeRole role) := by
  refine StreamTask.spec_current fun t => Spec.pre (P := TaskInvariant.holds (fun _ => True) (Named c a key)) ?_
    fun _ _ hs => hs.2
  refine Spec.ite (fun _ => Spec.skip) fun _ => Spec.bind hC (leaveRole_cut hC
    (fun r cut => ((r = .active → cut = c) ∧ (c = none → cut = none)) ∧ (roleOf a key = some .active → cut = c)) _ _) fun _ => ?_
  exact StreamTask.spec_update fun _ s hs => ⟨trivial, ⟨fun h => hs.2.2 (h ▸ hrole), hs.2.1.2⟩, hs.2.2⟩

omit hC [Broker E] [StateStore S V] [Processor P M S V] [LawfulStateStore S] [LawfulProcessor P M S V] in
theorem Aligned.eraseTask (h : Assigning c a th) (hkey : roleOf a key = none) :
    Assigning c a (th.setTasks (th.tasks.erase key)) := by
  refine ⟨ThreadInvariant.tasks_erase h.tasks key, ⟨h.keys.1.1, ?_⟩, fun hc k hk => ?_⟩
  · exact h.keys.1.2.sublist (List.filter_sublist.map Prod.fst)
  · obtain ⟨e, he, rfl⟩ := List.mem_map.mp (h.keys.2 hc k hk)
    refine List.mem_map_of_mem (List.mem_filter.mpr ⟨he, decide_eq_true fun heq => ?_⟩)
    rw [heq, hkey] at hk
    cases hk

omit hC [LawfulStateStore S] [LawfulProcessor P M S V] in
theorem removeTask_assigning (hkey : roleOf a key = none) :
    Keeps C (fun _ (s : ThreadState E P M S V) => Assigning c a s.own) (removeTask key) := by
  intro h s hs _
  have hkept : Assigning c a (removeTask key s).2.1.own := by
    unfold removeTask
    split
    · exact hs
    · split
      · exact hs.eraseTask hkey
      · exact hs.eraseTask hkey
  split <;> exact hkept

omit hC [Broker E] [StateStore S V] [Processor P M S V] [LawfulStateStore S] [LawfulProcessor P M S V] in
theorem Aligned.insertTask {role : TaskRole} (h : Assigning c a th) (hkey : roleOf a key = some role)
    (hnew : key ∉ th.tasks.keys) {t : StreamTask P M S V} (hrole : t.role = role) (hcut : t.pendingCut = none) :
    Assigning c a (th.setTasks (th.tasks.insert key t)) := by
  have hnone : role = .active → c = none := fun hr => by
    by_contra hc
    exact hnew (h.keys.2 hc key (hr ▸ hkey))
  refine ⟨fun e he => ?_, ⟨h.keys.1.1, OrdMap.nodup_keys_insert h.keys.1.2 _ _⟩, fun hc k hk => ?_⟩
  · rcases OrdMap.mem_insert he with rfl | he
    · refine ⟨⟨fun hr => hcut.trans (hnone (hrole.symm.trans hr)).symm, fun _ => hcut⟩, fun hr => hcut.trans (hnone ?_).symm⟩
      exact Option.some.inj (hkey.symm.trans hr)
    · exact h.tasks e he
  · show k ∈ OrdMap.keys (th.tasks.insert key t)
    rw [OrdMap.keys_insert_of_notMem t hnew]
    exact List.mem_append_left _ (h.keys.2 hc k hk)

omit hC [LawfulStateStore S] [LawfulProcessor P M S V] in
theorem addTask_assigning {role : TaskRole} (hkey : roleOf a key = some role)
    (topology : BuiltTopology P M S V) (ta : TaskAssignment) :
    Keeps C (fun _ (s : ThreadState E P M S V) => Assigning c a s.own) (addTask topology key role ta) := by
  refine spec_current fun th => Spec.ite (fun _ => Spec.pure fun _ _ hs => hs.2) fun hnew => ?_
  rcases topology.instantiate th.applicationId th.cacheMaxBytes with e | graph
  · exact Spec.throw fun _ _ hs => hs.2
  · rintro h s ⟨rfl, hs⟩ -
    have hstart : Keeps (fun _ => True) (TaskInvariant.holds (E := E) (fun _ => True)
        fun t : StreamTask P M S V => t.role = role ∧ t.pendingCut = none) (if role = .active then startTask else pure ()) :=
      Spec.ite (fun _ => startTask_cut (fun _ _ _ => trivial) fun r cut => r = role ∧ cut = none) fun _ =>
        Spec.pure fun _ _ ht => ht
    have hkept := hstart.after (w := h) (s := ⟨.new key.1 { graph with globals := s.own.globals } (sourcesOf ta key.2) role
      s.own.guarantee, s.world⟩) ⟨trivial, rfl, rfl⟩ trivial
    simp only
    rcases hx : (if role = .active then startTask else pure () : TaskM E P M S V Unit)
        ⟨.new key.1 { graph with globals := s.own.globals } (sourcesOf ta key.2) role s.own.guarantee, s.world⟩
      with ⟨e | u, s', evs⟩
    · exact hs
    · rw [hx] at hkept
      refine Aligned.insertTask hs hkey (fun hmem => ?_) hkept.2.1 hkept.2.2
      obtain ⟨t, ht⟩ := (OrdMap.mem_keys_iff _ _).mp hmem
      exact hnew (by rw [OrdMap.contains, ht]; rfl)

omit hC [Broker E] [StateStore S V] [Processor P M S V] [LawfulStateStore S] [LawfulProcessor P M S V] in
theorem assigning_of_namesHolding [StateStore S V] (h : Agreeing c th) (ha : NamesHolding a th) :
    Assigning c a th := by
  have hholds : ∀ cut, c = some cut → ∀ key, roleOf a key = some .active → (th.tasks.get? key).bind (·.pendingCut) = some cut := by
    intro cut hc key hkey
    obtain ⟨⟨role, ta⟩, hget, rfl⟩ := Option.map_eq_some_iff.mp hkey
    exact ha cut (h.keys.1.trans hc) _ (OrdMap.mem_of_get?_eq_some hget) rfl
  refine ⟨fun e he => ⟨h.tasks e he, fun hkey => ?_⟩, h.keys, fun hc key hkey => ?_⟩
  · rcases hc : c with _ | cut
    · exact (h.tasks e he).2 hc
    · have hbind := hholds cut hc e.1 hkey
      rw [OrdMap.get?_of_mem h.keys.2 he] at hbind
      exact hbind
  · obtain ⟨cut, hcut⟩ := Option.ne_none_iff_exists'.mp hc
    obtain ⟨t, ht, -⟩ := Option.bind_eq_some_iff.mp (hholds cut hcut key hkey)
    exact (OrdMap.mem_keys_iff _ _).mpr ⟨t, ht⟩

theorem applyAssignment_assigning (topology : BuiltTopology P M S V) (g : ProcessingGuarantee) :
    Keeps C (fun _ (s : ThreadState E P M S V) => Assigning c a s.own) (applyAssignment a topology g) := by
  have hlend : ∀ k (t : StreamTask P M S V) globals, Named c a k t → Named c a k (t.setGraph { t.graph with globals := globals }) :=
    fun _ _ _ ht => ht
  have hfields : ∀ {f : ThreadState E P M S V → ThreadState E P M S V}, (∀ s, (f s).own.tasks = s.own.tasks) →
      (∀ s, (f s).own.pendingBarrier = s.own.pendingBarrier) → Keeps C (fun _ s => Assigning c a s.own) (modify f) :=
    fun h₁ h₂ => modify_aligned h₁ h₂
  refine Spec.bind hC (hfields (fun _ => rfl) fun _ => rfl) fun _ => ?_
  refine Spec.bind hC (R := fun _ _ s => Assigning c a s.own) ?_ fun _ => Spec.bind hC (R := fun _ _ s => Assigning c a s.own) ?_
    fun _ => ?_
  · refine spec_read fun th => ?_
    refine Spec.ite (fun _ => ?_) fun _ => Spec.skip
    exact Spec.bind hC call_aligned fun _ => hfields (fun _ => rfl) fun _ => rfl
  · refine spec_read fun th => ?_
    refine Spec.ite (fun _ => Spec.skip) fun _ => Spec.ite (fun _ => hfields (fun _ => rfl) fun _ => rfl)
      fun _ => Spec.bind hC (hfields (fun _ => rfl) fun _ => rfl) fun _ => ?_
    refine Spec.bind hC (setGlobals_aligned hlend _) fun _ => Spec.bind hC (onGlobals_aligned hlend) fun _ => ?_
    exact hfields (fun _ => rfl) fun _ => rfl
  · refine spec_read fun th => ?_
    refine Spec.bind hC (R := fun _ _ s => Assigning c a s.own) (Spec.forM hC _ fun key hkey => removeTask_assigning ?_) fun _ =>
      Spec.bind hC (R := fun _ _ s => Assigning c a s.own) (Spec.forM hC _ fun e he => ?_) fun _ => Spec.forM hC _ fun e he => ?_
    · -- a key to remove is not named
      have hnone := (List.mem_filter.mp hkey).2
      unfold roleOf
      cases hget : (desired a).get? key with
      | none => rfl
      | some x => simp [OrdMap.contains, hget] at hnone
    · exact onTask_aligned (changeRole_named hC (roleOf_of_mem he))
    · exact addTask_assigning (roleOf_of_mem he) topology e.2.2

end Assignment

section Rewind

variable [StateStore S V] {C : List Event → Prop} (hC : PrefixClosed C)

omit [StateStore S V] in
theorem seekToMarker_all (cut : BarrierCut) : ∀ (tps : List (Topic × Int)) (s : TaskState E P M S V),
    ∃ t, (tps.forM (StreamTask.seekToMarker cut)) s = (.ok (), ⟨t, s.world⟩, []) ∧ t.role = s.own.role ∧
      t.pendingCut = s.own.pendingCut
  | [], s => ⟨s.own, rfl, rfl, rfl⟩
  | tp :: tps, s => by
    have hstep : ∃ t, StreamTask.seekToMarker cut tp s = (.ok (), ⟨t, s.world⟩, []) ∧ t.role = s.own.role ∧
        t.pendingCut = s.own.pendingCut := by
      unfold StreamTask.seekToMarker
      rcases cut.offset tp.1 tp.2 with _ | offset
      · exact ⟨s.own, rfl, rfl, rfl⟩
      · exact ⟨_, rfl, rfl, rfl⟩
    obtain ⟨t, ht, hrole, hcut⟩ := hstep
    obtain ⟨t', ht', hrole', hcut'⟩ := seekToMarker_all cut tps ⟨t, s.world⟩
    refine ⟨t', ?_, hrole'.trans hrole, hcut'.trans hcut⟩
    exact (Eff.bind_of_ok ht).trans (congrArg (fun r => (r.1, r.2.1, [] ++ r.2.2)) ht')

theorem restoreToCut_cases (cut : BarrierCut) (snapshot : TaskSnapshot) (t : StreamTask P M S V) (w : World E) :
    ∃ t', StreamTask.restoreToCut cut snapshot ⟨t, w⟩ = ((t.graph.restoreStoreSnapshots snapshot).1, ⟨t', w⟩, []) ∧
      t'.role = t.role ∧ t'.pendingCut = none := by
  let t₁ : StreamTask P M S V :=
    { t with pendingCut := none, pending := [] }.setGraph (t.graph.restoreStoreSnapshots snapshot).2
  simp only [StreamTask.restoreToCut, StreamTask.update, StreamTask.current, bind, modify, modifyGet,
    MonadStateOf.modifyGet, get, getThe, MonadStateOf.get, pure]
  rcases (t.graph.restoreStoreSnapshots snapshot).1 with e | u
  · exact ⟨t₁, rfl, rfl, rfl⟩
  · exact seekToMarker_all cut t.positions.keys ⟨t₁, w⟩

theorem restoreToCut_holding (cut : BarrierCut) (snapshot : TaskSnapshot) :
    Keeps C (TaskInvariant.holds (E := E) (fun _ => True) (Holding (P := P) (M := M) (S := S) (V := V) none))
      (StreamTask.restoreToCut cut snapshot) := by
  rintro h ⟨t, w⟩ - -
  obtain ⟨t', hx, -, hcut⟩ := restoreToCut_cases cut snapshot t w
  rw [hx]
  cases (t.graph.restoreStoreSnapshots snapshot).1 <;> exact ⟨trivial, .of_none hcut⟩

variable [CutArchive E]

include hC in
theorem restoreToCut_agreeing (cut : BarrierCut) :
    Keeps C (fun _ (s : ThreadState E P M S V) => Agreeing none s.own) (restoreToCut cut) := by
  refine spec_read fun th => ?_
  rcases th.barrier with _ | b
  · exact Spec.throw fun _ _ hs => hs
  · refine Spec.bind hC (R := fun _ _ s => Agreeing none s.own) (Spec.forM hC _ fun key _ => ?_) fun _ =>
      Spec.bind hC (R := fun _ _ s => Agreeing none s.own) ?_ fun _ => Spec.skip
    · refine Spec.bind hC call_aligned fun found => ?_
      rcases found with _ | snapshot
      · exact Spec.throw fun _ _ hs => hs
      · exact onTask_aligned (restoreToCut_holding cut snapshot)
    · refine spec_update fun _ s hs => ⟨hs.tasks, ?_, hs.keys.2⟩
      cases s.own.barrier <;> rfl

theorem loads_congr {group : String} (th th' : StreamThread P M S V) : ∀ (keys : List TaskKey) (w : World E),
    (∀ k ∈ keys, th'.tasks.get? k = th.tasks.get? k) → Loads group cut th' keys w = Loads group cut th keys w
  | [], _, _ => rfl
  | key :: keys, w, h => by
    unfold Loads
    rw [h key List.mem_cons_self]
    rcases loadSnapshot group cut key w with ⟨_ | _ | snapshot, w', evs⟩
    · rfl
    · rfl
    · simp only [loads_congr th th' keys w' fun k hk => h k (List.mem_cons_of_mem _ hk)]

theorem rewindTask_of_accepts {group : String} {snapshot : TaskSnapshot} {w : World E} {evs : List Event}
    (hnodup : s.own.tasks.keys.Nodup)
    (hload : loadSnapshot group cut key s.world = (.ok (some snapshot), w, evs))
    (haccepts : (s.own.tasks.get? key).all (Accepts snapshot) = true) :
    ∃ ts evs', rewindTask group cut key s = (.ok (), ⟨s.own.setTasks ts, w⟩, evs') ∧ OrdMap.keys ts = s.own.tasks.keys ∧
      (∀ k, k ≠ key → OrdMap.get? ts k = s.own.tasks.get? k) ∧
      ∀ e ∈ ts, e.2.pendingCut = none ∨ (e ∈ s.own.tasks ∧ e.1 ≠ key) := by
  have hcall : (loadSnapshot group cut key).onWorld s = (.ok (some snapshot), ⟨s.own, w⟩, evs) := by
    simp only [Eff.onWorld, hload]
  have hx : rewindTask group cut key s = _ := Eff.bind_of_ok hcall
  rw [hx]
  rcases ht : s.own.tasks.get? key with _ | t
  · refine ⟨s.own.tasks, _, by simp only [onTask, ht]; rfl, rfl, fun _ _ => rfl, fun e he => .inr ⟨he, fun heq => ?_⟩⟩
    exact (OrdMap.get?_eq_none_iff _ _).mp ht (heq ▸ List.mem_map_of_mem he)
  · obtain ⟨t', hrun, -, hcut⟩ := restoreToCut_cases cut snapshot t w
    rw [ht] at haccepts
    have hok : (t.graph.restoreStoreSnapshots snapshot).1 = .ok () := by
      rcases h : (t.graph.restoreStoreSnapshots snapshot).1 with e | u
      · simp [Accepts, h, Except.isOk, Except.toBool] at haccepts
      · rfl
    have hkeys := OrdMap.keys_insert_of_mem t' ((OrdMap.mem_keys_iff _ _).mpr ⟨t, ht⟩)
    refine ⟨s.own.tasks.insert key t', _, by simp only [onTask, ht, hrun, hok]; rfl, hkeys,
      fun k hk => OrdMap.get?_insert_of_ne (Ne.symm hk), fun e he => ?_⟩
    by_cases hkey : e.1 = key
    · have hget := OrdMap.get?_of_mem (hkeys ▸ hnodup) he
      rw [hkey, OrdMap.get?_insert_self] at hget
      exact .inl (Option.some.inj hget ▸ hcut)
    · rcases OrdMap.mem_insert he with rfl | he
      · exact absurd rfl hkey
      · exact .inr ⟨he, hkey⟩

theorem rewindTasks_of_loads {group : String} : ∀ (keys : List TaskKey) (s : ThreadState E P M S V),
    keys.Nodup → s.own.tasks.keys.Nodup → Loads group cut s.own keys s.world = true →
    ∃ ts w evs, (keys.forM (rewindTask group cut) : ThreadM E P M S V PUnit) s = (.ok ⟨⟩, ⟨s.own.setTasks ts, w⟩, evs) ∧
      OrdMap.keys ts = s.own.tasks.keys ∧ ∀ e ∈ ts, e.2.pendingCut = none ∨ (e ∈ s.own.tasks ∧ e.1 ∉ keys)
  | [], s, _, _, _ => ⟨s.own.tasks, s.world, [], rfl, rfl, fun e he => .inr ⟨he, List.not_mem_nil⟩⟩
  | key :: keys, s, hkeys, hnodup, hloads => by
    obtain ⟨hkey, hkeys⟩ := List.nodup_cons.mp hkeys
    unfold Loads at hloads
    rcases hload : loadSnapshot group cut key s.world with ⟨_ | _ | snapshot, w, evs⟩
    · simp only [hload] at hloads
      cases hloads
    · simp only [hload] at hloads
      cases hloads
    · simp only [hload, Bool.and_eq_true] at hloads
      obtain ⟨ts, evs', hstep, hsame, hother, htasks⟩ := rewindTask_of_accepts hnodup hload hloads.1
      have hrest : Loads group cut (s.own.setTasks ts) keys w = true := by
        rw [loads_congr s.own _ keys w fun k hk => hother k fun heq => hkey (heq ▸ hk)]
        exact hloads.2
      obtain ⟨ts', w', evs'', hrun, hsame', htasks'⟩ :=
        rewindTasks_of_loads keys ⟨s.own.setTasks ts, w⟩ hkeys (hsame.symm ▸ hnodup) hrest
      refine ⟨ts', w', _, (Eff.bind_of_ok hstep).trans (congrArg (fun r => (r.1, r.2.1, evs' ++ r.2.2)) hrun),
        hsame'.trans hsame, fun e he => ?_⟩
      rcases htasks' e he with hnone | ⟨he, hmem⟩
      · exact .inl hnone
      · refine (htasks e he).imp id fun ⟨he, hne⟩ => ⟨he, fun h => ?_⟩
        rcases List.mem_cons.mp h with h | h
        · exact hne h
        · exact hmem h

omit [StateStore S V] [CutArchive E] in
theorem mem_activeTaskKeys {e : TaskKey × StreamTask P M S V} (he : e ∈ th.tasks) (hrole : e.2.role = .active) :
    e.1 ∈ th.activeTaskKeys := by
  unfold activeTaskKeys
  rw [List.mem_insertionSort]
  exact List.mem_map_of_mem (List.mem_filter.mpr ⟨he, decide_eq_true hrole⟩)

omit [StateStore S V] [CutArchive E] in
theorem nodup_activeTaskKeys (h : th.tasks.keys.Nodup) : th.activeTaskKeys.Nodup := by
  exact ((List.perm_insertionSort _ _).nodup_iff).mpr (h.sublist (List.filter_sublist.map Prod.fst))

theorem restoreToCut_eq (cut : BarrierCut) (hb : s.own.barrier = some b) :
    restoreToCut cut s = (do
      s.own.activeTaskKeys.forM (rewindTask b.group cut)
      finishRewind cut
      pure cut : ThreadM E P M S V BarrierCut) s := by
  obtain ⟨th, w⟩ := s
  obtain ⟨⟩ := th
  cases hb
  rfl

theorem restoreToCut_of_loads (hb : s.own.barrier = some b) (hnodup : s.own.tasks.keys.Nodup)
    (hloads : Loads b.group cut s.own s.own.activeTaskKeys s.world = true)
    (hother : ∀ e ∈ s.own.tasks, e.2.role ≠ .active → e.2.pendingCut = none) :
    Agreeing none ((restoreToCut cut).final s).own := by
  obtain ⟨ts, w, evs, hrun, hkeys, htasks⟩ := rewindTasks_of_loads _ s (nodup_activeTaskKeys hnodup) hnodup hloads
  unfold Eff.final
  rw [restoreToCut_eq cut hb, Eff.bind_of_ok hrun]
  refine ⟨fun e he => .of_none ?_, ?_, hkeys ▸ hnodup⟩
  · rcases htasks e he with hnone | ⟨he, hmem⟩
    · exact hnone
    · exact hother e he fun hrole => hmem (mem_activeTaskKeys he hrole)
  · show (s.own.barrier.map _).bind _ = none
    rw [hb]
    rfl

theorem restoreToCut_of_misses (hb : s.own.barrier = some b)
    (hmisses : Misses b.group cut s.own.activeTaskKeys s.world = true) :
    ((restoreToCut cut).final s).own = s.own := by
  unfold Eff.final
  rw [restoreToCut_eq cut hb]
  rcases hkeys : s.own.activeTaskKeys with _ | ⟨key, keys⟩
  · rw [hkeys] at hmisses
    cases hmisses
  · rw [hkeys] at hmisses
    unfold Misses at hmisses
    have hfails : ∃ e w evs, rewindTask b.group cut key s = (.error e, ⟨s.own, w⟩, evs) := by
      rcases hload : loadSnapshot b.group cut key s.world with ⟨e | _ | snapshot, w, evs⟩
      · have hcall : (loadSnapshot b.group cut key).onWorld s = (.error e, ⟨s.own, w⟩, evs) := by
          simp only [Eff.onWorld, hload]
        exact ⟨e, w, evs, Eff.bind_of_error hcall⟩
      · have hcall : (loadSnapshot b.group cut key).onWorld s = (.ok none, ⟨s.own, w⟩, evs) := by
          simp only [Eff.onWorld, hload]
        exact ⟨noSnapshot (taskId key) b.group cut.epoch, w, evs ++ [], Eff.bind_of_ok hcall⟩
      · simp only [hload] at hmisses
        cases hmisses
    obtain ⟨e, w, evs, hfails⟩ := hfails
    have hloop : ((key :: keys).forM (rewindTask b.group cut) : ThreadM E P M S V PUnit) s = (.error e, ⟨s.own, w⟩, evs) :=
      Eff.bind_of_error hfails
    rw [Eff.bind_of_error hloop]

omit [StateStore S V] in
theorem completeCut_own (epoch : Option Int) (s : ThreadState E P M S V) : (completeCut epoch s).2.1.own = s.own := by
  have hC : PrefixClosed fun _ : List Event => True := fun _ _ _ => trivial
  have hkeeps : Keeps (fun _ => True) (fun _ (s' : ThreadState E P M S V) => s'.own = s.own) (completeCut epoch) := by
    refine spec_read fun th => ?_
    rcases th.barrier with _ | b
    · exact Spec.throw fun _ _ hs => hs
    · refine Spec.bind hC (R := fun _ _ s' => s'.own = s.own) (Spec.own (N := fun th => th = s.own)) fun found => ?_
      rcases found with _ | cut
      · exact Spec.throw fun _ _ hs => hs
      · exact Spec.skip
  exact hkeeps.after (w := []) rfl trivial

theorem rewind_agreed (epoch : Option Int) (s : ThreadState E P M S V) (h : agreed [] s) (hrewinds : RewindsAll epoch s) :
    agreed [] ((completeCut epoch >>= restoreToCut).final s) := by
  obtain ⟨c, h⟩ := h
  have hown := completeCut_own epoch s
  unfold RewindsAll Eff.result Eff.final at hrewinds
  unfold Eff.final
  rcases hx : completeCut epoch s with ⟨e | cut, s', evs⟩
  · rw [hx] at hown
    rw [Eff.bind_of_error hx]
    exact ⟨c, hown.symm ▸ h⟩
  · rw [hx] at hown hrewinds
    rw [Eff.bind_of_ok hx]
    rcases c with _ | pending
    · have hnone : Agreeing none s'.own := hown.symm ▸ h
      have hkeeps := restoreToCut_agreeing (E := E) (P := P) (M := M) (S := S) (V := V) (C := fun _ => True)
        (fun _ _ _ => trivial) cut
      exact ⟨none, (hkeeps.after (w := []) (s := s') hnone trivial)⟩
    · obtain ⟨b, hb, hpending⟩ := Option.bind_eq_some_iff.mp h.keys.1
      rcases hrewinds b hb with hnone | hrewinds
      · rw [hpending] at hnone
        cases hnone
      · rw [← hown] at h hb hrewinds
        rcases hrewinds cut rfl with hmisses | ⟨hloads, hother⟩
        · have hsame := restoreToCut_of_misses hb hmisses
          exact ⟨some pending, hsame.symm ▸ h⟩
        · exact ⟨none, restoreToCut_of_loads hb h.keys.2 hloads hother⟩

end Rewind

section Runs

variable [Broker E] [StateStore S V] [Processor P M S V]

variable [CutArchive E] [LawfulStateStore S] [LawfulProcessor P M S V] {g : ProcessingGuarantee}

theorem perform_agreed (c : BarrierCall P M S V) (s : ThreadState E P M S V) (h : agreed [] s) (hc : c.KeepsCuts s) :
    agreed [] ((c.perform g).final s) := by
  have hC : PrefixClosed fun _ : List Event => True := fun _ _ _ => trivial
  have hafter : ∀ {m : ThreadM E P M S V Unit}, Keeps (fun _ => True) agreed m → agreed [] (m.final s) :=
    fun hm => hm.after h trivial
  have hrewind : ∀ epoch, RewindsAll epoch s → agreed []
      ((do let _ ← (completeCut epoch >>= restoreToCut); pure () : ThreadM E P M S V Unit).final s) := by
    intro epoch hall
    have hkept := rewind_agreed epoch s h hall
    unfold Eff.final at hkept ⊢
    rcases hx : (completeCut epoch >>= restoreToCut : ThreadM E P M S V BarrierCut) s with ⟨e | cut, s', evs⟩
    · rw [Eff.bind_of_error hx]
      rwa [hx] at hkept
    · rw [Eff.bind_of_ok hx]
      rwa [hx] at hkept
  cases c with
  | call c =>
    cases c with
    | applyAssignment a topology =>
      obtain ⟨c, h⟩ := h
      have hkept := (applyAssignment_assigning (E := E) hC topology g).after (w := []) (s := s) (assigning_of_namesHolding h hc) trivial
      exact ⟨c, fun e he => (hkept.tasks e he).1, hkept.keys.1⟩
    | pollAll => exact hafter (pollAll_agreed hC)
    | commitAll => exact hafter (commitAll_agreed hC)
  | restoreToEpoch epoch => exact hrewind (some epoch) hc
  | restoreToLatestCut => exact hrewind none hc

/-- In every run of a new thread whose assignments name as active, while a cut is pending, only tasks that hold it, and
whose rewinds go through for all active tasks, a poll finds the cut of the thread in every active task. -/
theorem pollsInStep_of_keepsCuts (calls : List (BarrierCall P M S V)) (app : String) (cache : Nat) (group : Option String)
    (w : World E) (hmeets : Eff.Meets (BarrierCall.perform g) BarrierCall.KeepsCuts calls ⟨.new app cache group, w⟩) :
    Eff.Throughout (BarrierCall.perform g) PollsInStep calls ⟨.new app cache group, w⟩ := by
  have hnew : agreed (E := E) [] (⟨.new app cache group, w⟩ : ThreadState E P M S V) := by
    refine ⟨none, fun e he => (List.not_mem_nil he).elim, ?_, List.nodup_nil⟩
    cases group <;> rfl
  refine Eff.throughout_of_meets perform_agreed (fun s hs _ => ?_) calls _ hnew hmeets
  obtain ⟨c, hc⟩ := (beginPoll_agreed (C := fun _ => True) fun _ _ _ => trivial).after hs trivial
  exact hc.cutsAgree

end Runs

def cutAhead : ThreadState Script Relay Unit (KeyValueBytesStore Bytes) (Value Bytes) :=
  ⟨.new "app" 0 (some "group"), (⟨[("in", [⟨0, none, some [7], 5⟩])], [], 0, [], [],
    [⟨"group", 3, [(("in", 0), 5), (("in", 1), 5)]⟩]⟩ : Script).world (.broker [])⟩

def tasksOf (role : TaskRole) (partitions : List Int) : StreamsAssignment :=
  let task : TaskAssignment := ⟨"0", partitions, partitions.map fun p => ⟨"in", p⟩⟩
  match role with
  | .active => ⟨[task], [], []⟩
  | .standby => ⟨[], [task], []⟩
  | .warmup => ⟨[], [], [task]⟩

def assignments (as : List StreamsAssignment) :
    List (StreamThread.BarrierCall Relay Unit (KeyValueBytesStore Bytes) (Value Bytes)) :=
  as.flatMap fun a => (assign (relayTopology .forward) a ++ [Call.pollAll, Call.commitAll]).map .call

/-- A task keeps the cut while it is a standby, so that it may be active again, and a rewind takes it from the thread and
from the task. -/
theorem pollsInStep_relay : Eff.Throughout (BarrierCall.perform .atLeastOnce) PollsInStep
    (assignments [tasksOf .active [0], tasksOf .standby [0], tasksOf .active [0]] ++ [.restoreToEpoch 3, .call .pollAll])
    cutAhead :=
  pollsInStep_of_keepsCuts _ "app" 0 (some "group") _ (by decide +kernel)

/-- A second task becomes active while the cut of the first one is pending: it has no cut when the next poll starts. -/
theorem not_pollsInStep_added : ¬ Eff.Throughout (BarrierCall.perform .atLeastOnce) PollsInStep
    (assignments [tasksOf .active [0], tasksOf .active [0, 1]]) cutAhead := by
  decide +kernel

end KrabkaStreams
