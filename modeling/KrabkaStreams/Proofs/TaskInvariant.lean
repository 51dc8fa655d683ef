import KrabkaStreams.Proofs.Producing
import KrabkaStreams.Proofs.Quiet
import KrabkaStreams.Proofs.ThreadInvariant

/-!
# Invariants of a task alone

`TaskInvariant E I` asks that graph operations, drains, replays and the bookkeeping of offsets keep `I`;
then every method does, and so does a thread all of whose tasks have it (`polls`).
-/

namespace KrabkaStreams

open Effect StateStore

variable {E P M S V : Type} [Broker E] [StateStore S V] [Processor P M S V]

/-- What has to be shown of an assertion about a task. -/
structure TaskInvariant (E : Type) [Broker E] (I : StreamTask P M S V → Prop) : Prop where
  ran : ∀ t g, Graph.Ran t.graph g → I t → I (t.setGraph g)
  takeOutput : ∀ t, I t → I (t.setGraph t.graph.takeOutput.2)
  takeChangelogs : ∀ t, I t → I (t.setGraph (t.graph.drainChangelogs t.sourceTopics).2)
  close : ∀ t, I t → I (t.setGraph t.graph.closeProcessors)
  replay : ∀ t t', StreamTask.Replay E t t' → I t → I t'
  moved : ∀ t positions pending, I t → I { t with positions := positions, pending := pending }

namespace TaskInvariant

variable {I : StreamTask P M S V → Prop} {C : List Event → Prop} {G : Bool → Prop}

def holds (G : Bool → Prop) (I : StreamTask P M S V → Prop) : Assn Event (TaskState E P M S V) :=
  fun _ s => G s.world.begun ∧ I s.own

omit [Broker E] [StateStore S V] [Processor P M S V] in
theorem call_keeps {α : Type} (op : E → Except StreamsClientError α × E) :
    Keeps C (fun _ (w : World E) => G w.begun) (World.call op) :=
  World.spec_call (fun _ _ _ _ hw _ => hw) fun _ _ _ _ hw _ => hw

omit [StateStore S V] [Processor P M S V] in
theorem flush_keeps (hC : PrefixClosed C) : Keeps C (holds (E := E) G I) (World.flush.onWorld) :=
  Spec.frame (I := fun _ (w : World E) => G w.begun) (World.flush_spec hC call_keeps (fun _ _ _ _ hw => hw)
    (fun _ _ hw => hw) fun _ _ _ hw => hw)

omit [Broker E] [StateStore S V] [Processor P M S V] in
theorem failed {step : TaskStep} : StreamTask.Fails C step (fun _ => holds (E := E) G I) fun _ => holds G I :=
  fun _ _ _ hs _ => hs

section Rules

variable (hI : TaskInvariant E I)

include hI

theorem producing {K : EmitKind → Prop} :
    StreamTask.Producing C K (fun _ => holds (E := E) G I) fun _ => holds G I where
  emit _ _ _ t _ g _ hran hs _ := ⟨hs.1, hI.ran t g hran hs.2⟩
  takeOutput _ t _ hs := ⟨hs.1, hI.takeOutput t hs.2⟩
  takeChangelogs _ t _ hs := ⟨hs.1, hI.takeChangelogs t hs.2⟩
  sent _ _ _ _ _ _ hs _ := hs
  unsent _ _ _ _ _ _ _ hs _ := hs
  opError _ _ _ hs := hs

theorem quiet : StreamTask.Quiet (holds (E := E) G I) fun _ => holds G I where
  answer _ _ _ _ hs := hs
  refusal _ _ _ _ _ hs := hs
  exhausted _ _ hs := hs
  fetched _ _ _ _ _ hs := hs
  failed _ _ _ _ _ hs := hs
  replay _ t t' _ hstep hs := ⟨hs.1, hI.replay t t' hstep hs.2⟩

variable (hC : PrefixClosed C)

include hC

theorem processing {gated : Bool} (hG : gated = true → G true) :
    StreamTask.Processing C gated (holds (E := E) G I) (fun _ => holds G I) fun _ => holds G I where
  producing := hI.producing
  passFailed := failed
  stepFailed := failed
  gate := by
    refine Spec.ite (fun hg => ?_) fun _ => Spec.skip
    exact Spec.frame (I := fun _ (w : World E) => G w.begun)
      (World.ensureBegun_spec hC (fun _ _ _ _ => hG hg) fun _ _ _ _ hw => hw)
  settle _ _ hs _ := hs
  piped _ _ _ _ _ hs := hs
  fetched _ _ _ _ _ hs := hs
  answer _ _ _ _ hs := hs
  refusal _ _ _ _ _ hs := hs
  moved _ t _ positions pending hs := ⟨hs.1, hI.moved t positions pending hs.2⟩

theorem commitPending : Keeps C (holds (E := E) G I) StreamTask.commitPending := by
  refine StreamTask.spec_read fun t => ?_
  refine Spec.ite (fun _ => Spec.skip) fun _ => ?_
  have hlog : ∀ offsets ok, Keeps C (holds (E := E) G I) (StreamTask.log (.offsetsCommitted · offsets ok)) :=
    fun _ _ => StreamTask.spec_log fun _ _ hs _ => hs
  refine Spec.seq hC ?_ fun _ => Spec.seq hC
    (StreamTask.spec_update fun _ s hs => ⟨hs.1, hI.moved s.own s.own.positions [] hs.2⟩) fun _ => Spec.skip
  refine Spec.seq hC (Spec.attempt (hI.quiet.call_spec _)) fun r => ?_
  cases r with
  | ok u => exact hlog _ _
  | error e => exact Spec.bind hC (hlog _ _) fun _ => Spec.throw fun _ _ hs => hs

omit hI hC [Broker E] [Processor P M S V] in
theorem noteFlush : Keeps C (holds (E := E) G I) StreamThread.noteFlush :=
  StreamTask.spec_current fun _ => Spec.tell fun _ _ hs _ => hs.2

variable [LawfulStateStore S] [LawfulProcessor P M S V]

theorem flushCaches (kind : EmitKind) : Keeps C (holds (E := E) G I) (StreamTask.flushCaches kind) :=
  (StreamTask.flushCaches_spec hC (hI.producing (K := fun _ => True)) trivial failed).post
    (fun _ _ _ hs => hs.1) fun _ _ _ hs => hs

theorem commit : Keeps C (holds (E := E) G I) StreamTask.commit := by
  refine StreamTask.spec_span hC (Spec.bind hC (hI.flushCaches hC .close) fun _ =>
    Spec.bind hC (flush_keeps hC) fun _ => ?_) failed
  exact Spec.bind hC (hI.commitPending hC) fun _ => Spec.skip

theorem snapshotTask : Keeps C (holds (E := E) G I) StreamThread.snapshotTask := by
  refine Spec.bind hC noteFlush fun _ => Spec.seq hC
    (StreamTask.spec_span hC ?_ failed) fun _ => Spec.skip
  refine Spec.bind hC (hI.flushCaches hC .flush) fun _ => Spec.bind hC (flush_keeps hC) fun _ => ?_
  exact StreamTask.spec_read fun _ => Spec.skip

theorem retire : Keeps C (holds (E := E) G I) StreamThread.retire := by
  refine Spec.get fun s => Spec.bind hC (R := fun _ => holds G I) (Spec.tell fun _ _ hs _ => hs.2) fun _ => ?_
  refine Spec.bind hC (R := fun _ => holds G I) ?_ fun _ => hI.commit hC
  exact Spec.bind hC (R := fun _ => holds G I) (Spec.attempt (hI.flushCaches hC .close)) fun _ =>
    StreamTask.spec_update fun _ s hs => ⟨hs.1, hI.close s.own hs.2⟩

theorem tick (now : Int) : Keeps C (holds (E := E) G I) (StreamThread.tick now) := by
  refine Spec.get fun s => Spec.ite (fun _ => ?_) fun _ => Spec.pure fun _ _ hs => hs.2
  refine Spec.bind hC (R := fun _ => holds G I) (Spec.tell fun _ _ hs _ => hs.2) fun _ => ?_
  exact (StreamTask.punctuateWallClock_spec hC (hI.producing (K := fun _ => True)) trivial failed now).post
    (fun _ _ _ hs => hs.1) fun _ _ _ hs => hs

theorem processAny : Keeps C (holds (E := E) G I) StreamThread.processAny := by
  refine StreamTask.spec_current fun _ => Spec.bind hC (R := fun _ => holds G I) (Spec.tell fun _ _ hs _ => hs.2)
    fun _ => ?_
  exact StreamTask.processOnce_spec hC (hI.processing hC fun h => absurd h Bool.false_ne_true)

theorem processOrStep (hG : G true) : Keeps C (holds (E := E) G I) StreamThread.processOrStep := by
  refine StreamTask.spec_read fun _ => ?_
  exact Spec.ite (fun _ => StreamTask.processOnce_spec hC (hI.processing hC fun _ => hG))
    fun _ => hI.quiet.restoreStep_spec hC

theorem flushTask : Keeps C (holds (E := E) G I) StreamThread.flushTask :=
  Spec.bind hC noteFlush fun _ => hI.flushCaches hC .flush

theorem commitTask : Keeps C (holds (E := E) G I) StreamThread.commitTask :=
  Spec.bind hC noteFlush fun _ => hI.commit hC

end Rules

end TaskInvariant

def ThreadInvariant.ofTasks (E : Type) {P M S V : Type} (J : TaskKey → StreamTask P M S V → Prop) :
    ThreadInvariant E P M S V where
  idle _ _ := True
  failed _ _ _ := True
  rolling _ _ := True
  ended _ _ := True
  task := J
  assigns _ _ := True

/-- Everything a thread does when it polls or commits keeps what its tasks keep. -/
theorem TaskInvariant.polls [LawfulStateStore S] [LawfulProcessor P M S V] {g : ProcessingGuarantee}
    {C : List Event → Prop} (hC : PrefixClosed C) {J : TaskKey → StreamTask P M S V → Prop}
    (hJ : ∀ k, TaskInvariant E (J k))
    (hlend : ∀ k t globals, J k t → J k (t.setGraph { t.graph with globals := globals }))
    (hcut : ∀ k t cut, J k t → J k { t with pendingCut := cut }) : (ThreadInvariant.ofTasks E J).Polls C g := by
  have hgate : ∀ {b : Bool} {k : TaskKey} {α : Type} {m : TaskM E P M S V α},
      Keeps C (TaskInvariant.holds (· = b) (J k)) m → Keeps C ((ThreadInvariant.ofTasks E J).between k b) m :=
    fun hm => hm.mono (fun _ _ hs => ⟨hs.1.2, hs.2⟩) (fun _ _ _ hs => ⟨⟨trivial, hs.1⟩, hs.2⟩)
      fun _ _ _ hs => ⟨⟨trivial, hs.1⟩, hs.2⟩
  have hsteady : ∀ {k : TaskKey} {α : Type} {m : TaskM E P M S V α}, Keeps C (TaskInvariant.holds (fun _ => True) (J k)) m →
      Spec C ((ThreadInvariant.ofTasks E J).steady k) m (fun _ => (ThreadInvariant.ofTasks E J).steady k)
        ((ThreadInvariant.ofTasks E J).broken k) :=
    fun hm => hm.mono (fun _ _ hs => ⟨trivial, hs.2⟩) (fun _ _ _ hs => ⟨trivial, hs.2⟩) fun _ _ _ hs => ⟨trivial, hs.2⟩
  have hopen : ∀ {k : TaskKey} {α : Type} {m : TaskM E P M S V α}, Keeps C (TaskInvariant.holds (· = true) (J k)) m →
      Spec C ((ThreadInvariant.ofTasks E J).between k true) m (fun _ => (ThreadInvariant.ofTasks E J).between k true)
        ((ThreadInvariant.ofTasks E J).broken k) :=
    fun hm => (hgate hm).failing fun _ _ _ hs => ⟨trivial, hs.2⟩
  constructor
  case answer => exact fun _ _ _ _ => trivial
  case fenced => exact fun _ _ _ => trivial
  case lend => exact hlend
  case setCut => exact hcut
  case clearPending => exact fun k t ht => (hJ k).moved t t.positions [] ht
  case tick => exact fun k _ now => hgate ((hJ k).tick hC now)
  case computeChangelogOffsets => exact fun k _ => hgate ((hJ k).quiet.computeChangelogOffsets_spec hC)
  case processAny => exact fun _ k _ => hgate ((hJ k).processAny hC)
  case commit => exact fun _ k _ => hgate ((hJ k).commitTask hC)
  case snapshot => exact fun _ k _ => hgate ((hJ k).snapshotTask hC)
  case commitPending => exact fun _ k _ => hgate ((hJ k).commitPending hC)
  case process => exact fun _ k => hsteady ((hJ k).processOrStep hC trivial)
  case flush => exact fun _ k => hopen ((hJ k).flushTask hC)
  case eosSnapshot => exact fun _ k => hopen ((hJ k).snapshotTask hC)
  case sendOffsets =>
    rintro - ts - h w ⟨-, hw⟩ -
    rcases World.sendOffsets_cases (ts.map fun e => (e.2.ref, e.2.pendingOffsets)) w with ⟨env, hx⟩ | ⟨e, env, hx⟩ <;> rw [hx]
    · exact ⟨trivial, hw⟩
    · trivial
  case commitTransaction => exact fun _ => Spec.anything
  case beginTransaction =>
    rintro - h w ⟨-, hw⟩ -
    rcases World.beginTransaction_cases w with ⟨env, hx⟩ | ⟨e, env, hx⟩ <;> rw [hx]
    · trivial
    · exact ⟨⟨trivial, trivial⟩, hw⟩
  case endedAnswer => exact fun _ _ _ _ _ => trivial
  case endedRefusal => exact fun _ _ _ _ _ _ => trivial
  case endedDone => exact fun _ _ _ _ => trivial
  case fatal => exact fun _ _ _ _ _ _ => trivial
  case abort =>
    intro _ e _
    refine Spec.anything.post (fun _ _ _ _ => trivial) fun e' _ _ _ => ?_
    split <;> trivial
  case rollback =>
    refine fun _ k => ((hJ k).quiet (G := (· = false)) |>.rollback_spec hC TaskInvariant.failed).mono
      (fun _ _ hs => ⟨hs.1.2, hs.2⟩) (fun _ _ _ hs => ⟨⟨trivial, hs.1⟩, hs.2⟩) fun _ _ _ hs => ⟨⟨trivial, hs.1⟩, hs.2⟩
  case recovered => exact fun _ _ _ _ _ _ => trivial

end KrabkaStreams
