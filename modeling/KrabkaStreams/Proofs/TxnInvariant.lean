import KrabkaStreams.Proofs.Passes
import KrabkaStreams.Proofs.Quiet
import KrabkaStreams.Proofs.ThreadInvariant
import KrabkaStreams.Transactions

/-!
# Invariants of the exactly-once cycle

An invariant of the exactly-once cycle that reads the history and the gate alone. `Closed` lists how the
events take it along; the four passes that produce are left to show (`Closed.sound`).
-/

namespace KrabkaStreams

open Effect StateStore

variable {E P M S V : Type}

def Event.isQuiet : Event → Bool
  | .sourceFetched .. => true
  | .changelogFetched .. => true
  | .piped .. => true
  | .emitted _ kind _ => kind = .init
  | .flushed _ => true
  | .deliveryFailed _ => true
  | .txnBegun ok => !ok
  | .txnOffsetsSent .. => true
  | .fenced => true
  | .failed _ step => !step.spoils && !decide (step = .rollback)
  | .closing .. => true
  | .ticking .. => true
  | .flushing .. => true
  | _ => false

def Event.isRefusal : Event → Bool
  | .txnBegun ok => !ok
  | .txnOffsetsSent _ ok => !ok
  | .txnCommitted ok => !ok
  | .fenced => true
  | .failed _ step => !decide (step = .rollback)
  | _ => false

structure TxnInvariant where
  idle : Bool → List Event → Prop
  failed : StreamsClientError → List Event → Prop
  rolling : List Event → Prop
  ended : List Event → Prop

namespace TxnInvariant

def onThread (q : TxnInvariant) : ThreadInvariant E P M S V where
  idle h w := q.idle w.begun h
  failed e h _ := q.failed e h
  rolling h _ := q.rolling h
  ended h _ := q.ended h
  task _ _ := True
  assigns _ _ := True

theorem between_iff {q : TxnInvariant} {k : TaskKey} {b : Bool} {h : List Event} {s : TaskState E P M S V} :
    q.onThread.between k b h s ↔ q.idle b h ∧ s.world.begun = b := by
  constructor
  · rintro ⟨⟨hidle, hb⟩, -⟩
    have hidle' : q.idle s.world.begun h := hidle
    rw [hb] at hidle'
    exact ⟨hidle', hb⟩
  · rintro ⟨hidle, rfl⟩
    exact ⟨⟨hidle, rfl⟩, trivial⟩

/-- How the events of the cycle take the invariant on. -/
structure Closed (q : TxnInvariant) (C : List Event → Prop) : Prop where
  quiet : ∀ b h ev, ev.isQuiet → q.idle b h → q.idle b (h ++ [ev])
  refused : ∀ b h e, q.idle b h → (e.isProducerFenced = true → Event.fenced ∈ h) → q.failed e h
  noted : ∀ e h ev, ev.isRefusal → q.failed e h → q.failed e (h ++ [ev])
  begun : ∀ h, q.idle false h → C (h ++ [.txnBegun true]) → q.idle true (h ++ [.txnBegun true])
  committed : ∀ h, q.idle true h → C (h ++ [.txnCommitted true]) → q.ended (h ++ [.txnCommitted true])
  done : ∀ h, q.ended h → q.idle false h
  fatal : ∀ e h, q.failed e h → e.isProducerFenced = true → q.idle false h
  aborted : ∀ e h ok, q.failed e h → q.rolling (h ++ [.txnAborted ok])
  abortFenced : ∀ e h, q.failed e h → Event.fenced ∈ h → q.idle false (h ++ [.txnAborted false])
  replayed : ∀ h ev, ev.isQuiet → q.rolling h → q.rolling (h ++ [ev])
  rollbackFailed : ∀ h task, q.rolling h → C (h ++ [.failed task .rollback]) →
    q.idle false (h ++ [.failed task .rollback])
  recovered : ∀ h, q.rolling h → C (h ++ [.recovered]) → q.idle false (h ++ [.recovered])

theorem mem_fencedEvent {e : StreamsClientError} (h : List Event) (he : e.isProducerFenced = true) :
    Event.fenced ∈ h ++ World.fencedEvent (.error e : Except StreamsClientError Unit) := by
  simp [World.fencedEvent, he]

theorem of_fencedEvent {I : List Event → Prop} (hI : ∀ h, I h → I (h ++ [.fenced])) {h : List Event}
    (hh : I h) (e : StreamsClientError) :
    I (h ++ World.fencedEvent (.error e : Except StreamsClientError Unit)) := by
  unfold World.fencedEvent
  split
  · split
    · exact hI h hh
    · simpa using hh
  · simpa using hh

namespace Closed

variable {q : TxnInvariant} {C : List Event → Prop} {k : TaskKey} {b : Bool}

theorem refusal (hq : q.Closed C) {h : List Event} (hh : q.idle b h) (e : StreamsClientError) :
    q.failed e (h ++ World.fencedEvent (.error e : Except StreamsClientError Unit)) :=
  hq.refused b _ e (of_fencedEvent (fun h => hq.quiet b h _ rfl) hh e) (mem_fencedEvent h)

theorem noted_refusal (hq : q.Closed C) {h : List Event} (hh : q.idle b h) (e : StreamsClientError)
    {ev : Event} (hev : ev.isRefusal) :
    q.failed e (h ++ (World.fencedEvent (.error e : Except StreamsClientError Unit) ++ [ev])) := by
  rw [← List.append_assoc]
  exact hq.noted e _ ev hev (hq.refusal hh e)

theorem isQuiet_failed {task : TaskRef} {step : TaskStep} (h : step ∈ StreamTask.replaySteps) :
    (Event.failed task step).isQuiet ∧ (Event.failed task step).isRefusal := by
  simp only [StreamTask.replaySteps, List.mem_cons, List.not_mem_nil, or_false] at h
  rcases h with rfl | rfl | rfl | rfl <;> exact ⟨rfl, rfl⟩

section Tasks

variable [StateStore S V] [Broker E]

theorem replays (hq : q.Closed C) (b : Bool) : StreamTask.Quiet
    (q.onThread.between (E := E) (P := P) (M := M) (S := S) k b) (fun _ => q.onThread.between k b) where
  answer _ _ _ _ hs := hs
  refusal e _ _ _ _ hs :=
    ⟨⟨of_fencedEvent (fun h => hq.quiet _ h _ rfl) hs.1.1 e, hs.1.2⟩, trivial⟩
  exhausted _ _ hs := hs
  fetched h _ _ _ _ hs := ⟨⟨hq.quiet _ h _ rfl hs.1.1, hs.1.2⟩, trivial⟩
  failed _ h _ _ hstep hs := ⟨⟨hq.quiet _ h _ (isQuiet_failed hstep).1 hs.1.1, hs.1.2⟩, trivial⟩
  replay _ _ _ _ _ hs := hs

theorem steps (hq : q.Closed C) : StreamTask.Quiet
    (q.onThread.steady (E := E) (P := P) (M := M) (S := S) k) (q.onThread.broken k) where
  answer _ _ _ _ hs := hs
  refusal e _ _ _ _ hs := ⟨hq.refusal hs.1 e, trivial⟩
  exhausted h _ hs := ⟨hq.refused _ h _ hs.1 (fun he => (Bool.false_ne_true he).elim), trivial⟩
  fetched h _ _ _ _ hs := ⟨hq.quiet _ h _ rfl hs.1, trivial⟩
  failed e h _ _ hstep hs := ⟨hq.noted e h _ (isQuiet_failed hstep).2 hs.1, trivial⟩
  replay _ _ _ _ _ hs := hs

theorem rolls (hq : q.Closed C) : StreamTask.Quiet
    (q.onThread.rollingBack (E := E) (P := P) (M := M) (S := S) k) fun _ => q.onThread.rollingBack k where
  answer _ _ _ _ hs := hs
  refusal e _ _ _ _ hs :=
    ⟨⟨of_fencedEvent (fun h => hq.replayed h _ rfl) hs.1.1 e, hs.1.2⟩, trivial⟩
  exhausted _ _ hs := hs
  fetched h _ _ _ _ hs := ⟨⟨hq.replayed h _ rfl hs.1.1, hs.1.2⟩, trivial⟩
  failed _ h _ _ hstep hs := ⟨⟨hq.replayed h _ (isQuiet_failed hstep).1 hs.1.1, hs.1.2⟩, trivial⟩
  replay _ _ _ _ _ hs := hs

variable [Processor P M S V]

omit [Broker E] in
theorem init_spec (hq : q.Closed C) (b : Bool) :
    Keeps C (q.onThread.between (E := E) (P := P) (M := M) (S := S) k b) StreamTask.init := by
  rintro h ⟨t, w⟩ hs hCw
  unfold StreamTask.init
  rw [StreamTask.runGraph_cases]
  exact ⟨⟨hq.quiet _ h _ rfl hs.1.1, hs.1.2⟩, trivial⟩

theorem changeRole_spec (hC : PrefixClosed C) (hq : q.Closed C) (b : Bool)
    (hretire : Keeps C (q.onThread.between (E := E) (P := P) (M := M) (S := S) k b) StreamThread.retire)
    (role : TaskRole) : Keeps C (q.onThread.between (E := E) (P := P) (M := M) (S := S) k b)
      (StreamThread.changeRole role) := by
  refine StreamTask.spec_read fun t => ?_
  refine Spec.ite (fun _ => Spec.skip) fun _ => Spec.bind hC ?_ fun _ =>
    StreamTask.spec_update fun _ _ h => h
  refine Spec.ite (fun _ => ?_) fun _ => Spec.ite (fun _ => hretire) fun _ => Spec.skip
  refine Spec.bind hC ((hq.replays b).restore_spec hC) fun _ => ?_
  exact Spec.bind hC ((hq.replays b).seekToStart_spec hC) fun _ => hq.init_spec b

end Tasks

section Producer

variable [Broker E]

def Gate (q : TxnInvariant) (b : Bool) (h : List Event) (w : World E) : Prop :=
  q.idle w.begun h ∧ w.begun = b

def Refused (q : TxnInvariant) (b : Bool) (e : StreamsClientError) (h : List Event) (w : World E) :
    Prop :=
  Gate q b h w ∧ (e.isProducerFenced = true → Event.fenced ∈ h)

omit [Broker E] in
theorem call_spec {α : Type} (hq : q.Closed C) (b : Bool) (op : E → Except StreamsClientError α × E) :
    Spec C (Gate q b) (World.call op) (fun _ => Gate q b) (Refused q b) :=
  World.spec_call (fun _ _ _ _ hw _ => hw) fun h _ e _ hw _ =>
    ⟨⟨of_fencedEvent (fun h => hq.quiet _ h _ rfl) hw.1 e, hw.2⟩, mem_fencedEvent h⟩

theorem flush_spec (hC : PrefixClosed C) (hq : q.Closed C) (b : Bool) :
    Spec C (Gate (E := E) q b) World.flush (fun _ => Gate q b) (Refused q b) := by
  refine World.flush_spec hC (hq.call_spec b) (fun _ h _ _ hw => ?_) (fun _ _ hw => hw)
    fun h _ _ hw => ⟨hq.quiet _ h _ rfl hw.1, hw.2⟩
  exact ⟨⟨hq.quiet _ h _ rfl hw.1.1, hw.1.2⟩, fun he => List.mem_append_left _ (hw.2 he)⟩

theorem sendOffsets_spec (hq : q.Closed C) (parts : List (TaskRef × Offsets)) :
    Spec C (Gate (E := E) q true) (World.sendOffsetsToTransaction parts) (fun _ => Gate q true)
      fun e h _ => q.failed e h := by
  intro h w hw hCw
  rcases World.sendOffsets_cases parts w with ⟨env, hx⟩ | ⟨e, env, hx⟩
  · rw [hx]
    exact ⟨hq.quiet _ h _ rfl hw.1, hw.2⟩
  · rw [hx]
    exact hq.noted_refusal hw.1 e rfl

theorem commitTransaction_spec (hq : q.Closed C) :
    Spec C (Gate (E := E) q true) World.commitTransaction (fun _ h _ => q.ended h)
      fun e h _ => q.failed e h := by
  rintro h w ⟨hidle, hb⟩ hCw
  rw [hb] at hidle
  rcases World.endTransaction_cases Broker.commitTransaction .txnCommitted w with
    ⟨env, hx⟩ | ⟨e, env, hx⟩
  · simp only [World.commitTransaction, hx] at hCw ⊢
    exact hq.committed h hidle hCw
  · simp only [World.commitTransaction, hx]
    exact hq.noted_refusal hidle e rfl

theorem beginTransaction_spec (hq : q.Closed C) :
    Spec C (Gate (E := E) q false) World.beginTransaction (fun _ h _ => q.idle true h)
      fun e h w => (q.failed e h ∧ q.idle w.begun h) ∧ w.begun = false := by
  rintro h w ⟨hidle, hb⟩ hCw
  rcases World.beginTransaction_cases w with ⟨env, hx⟩ | ⟨e, env, hx⟩
  · simp only [hx] at hCw ⊢
    rw [hb] at hidle
    exact hq.begun h hidle hCw
  · simp only [hx]
    refine ⟨⟨hq.noted_refusal hidle e rfl, ?_⟩, hb⟩
    rw [← List.append_assoc]
    exact hq.quiet _ _ _ rfl (of_fencedEvent (fun h => hq.quiet _ h _ rfl) hidle e)

theorem abortTransaction_spec (hq : q.Closed C) (e : StreamsClientError) :
    Spec C (fun h (_ : World E) => q.failed e h) World.abortTransaction (fun _ h _ => q.rolling h)
      fun e' h _ => if e'.isProducerFenced then q.idle false h else q.rolling h := by
  intro h w hw hCw
  rcases World.endTransaction_cases Broker.abortTransaction .txnAborted w with
    ⟨env, hx⟩ | ⟨e', env, hx⟩
  · simp only [World.abortTransaction, hx]
    exact hq.aborted e h true hw
  · simp only [World.abortTransaction, hx]
    rw [← List.append_assoc]
    have hw' : q.failed e (h ++ World.fencedEvent (.error e' : Except StreamsClientError Unit)) :=
      of_fencedEvent (fun h => hq.noted e h _ rfl) hw e'
    split
    · exact hq.abortFenced e _ hw' (mem_fencedEvent h ‹_›)
    · exact hq.aborted e _ false hw'

end Producer

section Passes

theorem noteFlush_spec [StateStore S V] {F : StreamsClientError → Assn Event (TaskState E P M S V)}
    (hq : q.Closed C) : Spec C (q.onThread.between k b) StreamThread.noteFlush
      (fun _ => q.onThread.between k b) F :=
  StreamTask.spec_current fun _ => Spec.tell fun h _ hs _ =>
    ⟨⟨hq.quiet _ h _ rfl hs.2.1.1, hs.2.1.2⟩, trivial⟩

variable [Broker E]

theorem openGate_spec (hC : PrefixClosed C) (hq : q.Closed C) :
    Spec C (q.onThread.steady (E := E) (P := P) (M := M) (S := S) (V := V) k) (StreamTask.openGate true)
      (fun _ h s => q.idle true h ∧ s.world.begun = true) (q.onThread.broken k) := by
  refine Spec.onWorld fun t => Spec.get fun w₀ => ?_
  rcases hb : w₀.begun with _ | _
  · refine Spec.bind hC (R := fun _ h _ => q.idle true h) ?_ fun _ => Spec.modify fun h w hw => ⟨hw, rfl⟩
    refine hq.beginTransaction_spec.mono (fun h w hw => ?_) (fun _ _ _ hw => hw)
      fun e h w hw => ⟨hw.1.1, trivial⟩
    obtain ⟨rfl, hw⟩ := hw
    exact ⟨hw.1, hb⟩
  · refine Spec.pure fun h w hw => ?_
    obtain ⟨rfl, hw⟩ := hw
    have hidle : q.idle w.begun h := hw.1
    rw [hb] at hidle
    exact ⟨hidle, hb⟩

variable [StateStore S V] [LawfulStateStore S] [Processor P M S V] [LawfulProcessor P M S V]

theorem processOnce_spec (hC : PrefixClosed C) (hq : q.Closed C)
    {A : List ProducerRecord → Assn Event (TaskState E P M S V)}
    (hA : StreamTask.Producing C (· = .records) A (q.onThread.broken k))
    (hin : ∀ h s, q.idle true h → s.world.begun = true → A [] h s)
    (hout : ∀ h s, A [] h s → s.own.buffered = [] → q.onThread.steady k h s)
    (hpiped : ∀ h s topic partition offset, A [] h s →
      A [] (h ++ [.piped s.own.ref topic partition offset]) s) :
    Spec C (q.onThread.steady (E := E) (P := P) (M := M) (S := S) k) (StreamTask.processOnce true)
      (fun _ => q.onThread.steady k) (q.onThread.broken k) :=
  StreamTask.processOnce_spec (A := A) hC
    { producing := hA
      passFailed := fun e h _ hs _ => ⟨hq.noted e h _ rfl hs.1, trivial⟩
      stepFailed := fun e h _ hs _ => ⟨hq.noted e h _ rfl hs.1, trivial⟩
      gate := (hq.openGate_spec hC).post (fun _ h s hs => hin h s hs.1 hs.2) fun _ _ _ h => h
      settle := hout
      piped := hpiped
      fetched := fun h _ _ _ _ hs => ⟨hq.quiet _ h _ rfl hs.1, trivial⟩
      answer := fun _ _ _ _ hs => hs
      refusal := fun e _ _ _ _ hs => ⟨hq.refusal hs.1 e, trivial⟩
      moved := fun _ _ _ _ _ hs => hs }

structure Produces (C : List Event → Prop) (K : EmitKind → Prop) (J : List Event → Prop)
    (F : StreamsClientError → List Event → Prop) : Prop where
  emit : ∀ kind h task records, K kind → J h → J (h ++ [.emitted task kind records])
  sent : ∀ h task r n, J h → J (h ++ [.sent task r (some n)])
  unsent : ∀ h task r e, J h → F e (h ++
    (World.fencedEvent (.error e : Except StreamsClientError Unit) ++ [.sent task r none]))
  opError : ∀ h e, J h → F (.processor e) h

section Produces

variable {K : EmitKind → Prop} {F G : StreamsClientError → List Event → Prop}
  {N : StreamTask P M S V → Prop}

omit [Broker E] [LawfulStateStore S] [LawfulProcessor P M S V] in
theorem Produces.producing {J : List Event → Prop} (hJ : Produces C K J F)
    (hN : ∀ t g, N t → N (t.setGraph g)) (b : Bool) :
    StreamTask.Producing (E := E) C K (fun _ h s => (J h ∧ s.world.begun = b) ∧ N s.own)
      fun e h s => (F e h ∧ s.world.begun = b) ∧ N s.own where
  emit kind hk h _ _ _ _ _ hs _ := ⟨⟨hJ.emit kind h _ _ hk hs.1.1, hs.1.2⟩, hN _ _ hs.2⟩
  takeOutput _ _ _ hs := ⟨hs.1, hN _ _ hs.2⟩
  takeChangelogs _ _ _ hs := ⟨hs.1, hN _ _ hs.2⟩
  sent r _ h _ _ _ hs _ := ⟨⟨hJ.sent h _ r _ hs.1.1, hs.1.2⟩, hs.2⟩
  unsent r _ h _ _ _ e hs _ := ⟨⟨hJ.unsent h _ r e hs.1.1, hs.1.2⟩, hs.2⟩
  opError h _ e hs := ⟨⟨hJ.opError h e hs.1.1, hs.1.2⟩, hs.2⟩

theorem Produces.flushCaches_spec (hC : PrefixClosed C) (hJ : Produces C K (q.idle b) F)
    (kind : EmitKind) (hk : K kind) (hN : ∀ t g, N t → N (t.setGraph g))
    (hF : ∀ e h task, F e h → C (h ++ [.failed task (.flushCaches kind)]) →
      G e (h ++ [.failed task (.flushCaches kind)])) :
    Spec C (fun h s => q.onThread.between (E := E) k b h s ∧ N s.own) (StreamTask.flushCaches kind)
      (fun _ h s => q.onThread.between k b h s ∧ N s.own)
      fun e h s => (G e h ∧ s.world.begun = b) ∧ N s.own :=
  (StreamTask.flushCaches_spec hC (hJ.producing hN b) hk fun e h _ hs hCw =>
    ⟨⟨hF e h _ hs.1.1 hCw, hs.1.2⟩, hs.2⟩).mono (fun _ _ hs => ⟨between_iff.mp hs.1, hs.2⟩)
    (fun _ _ _ hs => ⟨between_iff.mpr hs.1.1, hs.1.2⟩) fun _ _ _ hs => hs

theorem Produces.punctuateWallClock_spec (hC : PrefixClosed C) (hJ : Produces C K (q.idle b) F)
    (hk : K .wallClock) (hF : ∀ e h task, F e h → C (h ++ [.failed task .punctuateWallClock]) →
      q.idle b (h ++ [.failed task .punctuateWallClock])) (now : Int) :
    Keeps C (q.onThread.between (E := E) (P := P) (M := M) (S := S) k b)
      (StreamTask.punctuateWallClock now) :=
  (StreamTask.punctuateWallClock_spec hC (hJ.producing (N := fun _ => True) (fun _ _ h => h) b) hk
    (fun e h _ hs hCw => between_iff.mpr ⟨hF e h _ hs.1.1 hCw, hs.1.2⟩) now).mono
    (fun _ _ hs => ⟨between_iff.mp hs, trivial⟩) (fun _ _ _ hs => between_iff.mpr hs.1.1)
    fun _ _ _ hs => hs

end Produces

omit [LawfulStateStore S] [LawfulProcessor P M S V] in
theorem tick_spec (hC : PrefixClosed C) (hq : q.Closed C) (b : Bool) (now : Int)
    {N : StreamTask P M S V → Prop}
    (hticking : ∀ h t, C (h ++ [.ticking t.ref b (t.drained && !t.wallClockDue now)]) → N t)
    (hpass : Spec C (fun h s => q.onThread.between (E := E) k b h s ∧ N s.own)
      (StreamTask.punctuateWallClock now) (fun _ => q.onThread.between k b)
      fun _ => q.onThread.between k b) :
    Keeps C (q.onThread.between k b) (StreamThread.tick now : TaskM E P M S V Unit) := by
  refine Spec.get fun s₀ => Spec.ite (fun _ => ?_) fun _ => Spec.pure fun _ _ h => h.2
  refine Spec.bind hC (Spec.tell fun h s hs hCw => ?_) fun _ => hpass
  obtain ⟨rfl, hs⟩ := hs
  rw [hs.1.2] at hCw ⊢
  exact ⟨⟨⟨hq.quiet _ h _ rfl hs.1.1, hs.1.2⟩, trivial⟩, hticking h s.own hCw⟩

omit [LawfulStateStore S] [LawfulProcessor P M S V] in
theorem retire_spec (hC : PrefixClosed C) (hq : q.Closed C) (b : Bool) {N : StreamTask P M S V → Prop}
    (hclosing : ∀ h t, C (h ++ [.closing t.ref b (t.drained && t.clean) t.pending.isEmpty]) → N t)
    (hflush : Keeps C (fun h s => q.onThread.between (E := E) k b h s ∧ N s.own)
      (StreamTask.flushCaches .close))
    (hclose : ∀ t, N t → N (t.setGraph t.graph.closeProcessors))
    (hcommit : Spec C (fun h s => q.onThread.between (E := E) k b h s ∧ N s.own)
      StreamTask.commitPending (fun _ => q.onThread.between k b) fun _ => q.onThread.between k b) :
    Keeps C (q.onThread.between k b) (StreamThread.retire : TaskM E P M S V Unit) := by
  refine Spec.get fun s₀ => Spec.bind hC (R := fun _ h s => q.onThread.between k b h s ∧ N s.own)
    (Spec.tell fun h s hs hCw => ?_) fun _ => ?_
  · obtain ⟨rfl, hs⟩ := hs
    rw [hs.1.2] at hCw ⊢
    exact ⟨⟨⟨hq.quiet _ h _ rfl hs.1.1, hs.1.2⟩, trivial⟩, hclosing h s.own hCw⟩
  refine Spec.bind hC (R := fun _ h s => q.onThread.between k b h s ∧ N s.own) ?_ fun _ => ?_
  · refine Spec.bind hC (R := fun _ h s => q.onThread.between k b h s ∧ N s.own)
      (Spec.attempt (hflush.failing fun _ _ _ h => h)) fun _ => ?_
    exact StreamTask.spec_update fun h s hs => ⟨hs.1, hclose s.own hs.2⟩
  refine StreamTask.spec_span hC (Spec.bind hC (hflush.failing fun _ _ _ h => h.1)
    fun _ => ?_) fun _ h s (hs : q.onThread.between k b h s) _ =>
      ⟨⟨hq.quiet _ h _ rfl hs.1.1, hs.1.2⟩, trivial⟩
  refine Spec.bind hC (R := fun _ h s => q.onThread.between k b h s ∧ N s.own) ?_ fun _ =>
    Spec.bind hC hcommit fun _ => Spec.skip
  exact (Spec.frame (N := N) (hq.flush_spec hC b)).mono (fun _ _ h => ⟨h.1.1, h.2⟩)
    (fun _ _ _ h => ⟨⟨h.1, trivial⟩, h.2⟩) fun _ _ _ h => ⟨h.1.1, trivial⟩

omit [LawfulStateStore S] [Processor P M S V] [LawfulProcessor P M S V] in
theorem commitPending_spec (hC : PrefixClosed C) (hq : q.Closed C) (b : Bool)
    (hstored : ∀ h task offsets ok, q.idle b h → q.idle b (h ++ [.offsetsCommitted task offsets ok])) :
    Keeps C (q.onThread.between k b) (StreamTask.commitPending : TaskM E P M S V Offsets) := by
  refine StreamTask.spec_read fun t => ?_
  have hlog : ∀ offsets ok, Keeps C (q.onThread.between k b)
      (StreamTask.log (.offsetsCommitted · offsets ok) : TaskM E P M S V Unit) := by
    refine fun offsets ok => StreamTask.spec_log fun h s hs _ => between_iff.mpr ⟨?_, hs.1.2⟩
    exact hstored h _ _ _ (between_iff.mp hs).1
  refine Spec.ite (fun _ => Spec.skip) fun _ => Spec.seq hC ?_ fun _ => Spec.seq hC (StreamTask.spec_update fun _ _ h => h) fun _ =>
      Spec.skip
  refine Spec.seq hC (Spec.attempt ((hq.replays b).call_spec _))
    fun r => ?_
  cases r with
  | ok u => exact hlog _ _
  | error e => exact Spec.bind hC (hlog _ _) fun _ => Spec.throw fun _ _ h => h

end Passes

section Thread

variable [Broker E] [StateStore S V] [Processor P M S V]

/-- The four passes that produce, and all else follows from the events of the cycle. -/
theorem sound (hC : PrefixClosed C) (hq : q.Closed C)
    (hprocess : ∀ k, Spec C (q.onThread.steady (E := E) (P := P) (M := M) (S := S) k)
      (StreamTask.processOnce true) (fun _ => q.onThread.steady k) (q.onThread.broken k))
    (hflush : ∀ k, Spec C (q.onThread.between (E := E) (P := P) (M := M) (S := S) k true)
      (StreamTask.flushCaches .flush) (fun _ => q.onThread.between k true) (q.onThread.broken k))
    (htick : ∀ k b now, Keeps C (q.onThread.between (E := E) (P := P) (M := M) (S := S) k b)
      (StreamThread.tick now))
    (hretire : ∀ k b, Keeps C (q.onThread.between (E := E) (P := P) (M := M) (S := S) k b)
      StreamThread.retire) :
    (q.onThread (E := E) (P := P) (M := M) (S := S)).Sound C .exactlyOnceV2 where
  answer _ _ _ hw := hw
  fenced h _ hw := hq.quiet _ h _ rfl hw
  lend _ _ _ _ := trivial
  setCut _ _ _ _ := trivial
  clearPending _ _ _ := trivial
  startTask k b := by
    refine Spec.mono (Spec.bind hC ((hq.replays b).seekToStart_spec hC) fun _ => Spec.bind hC
      ((hq.replays b).restore_spec hC) fun _ => hq.init_spec (k := k) b) (fun _ _ h => h.1)
      (fun _ _ _ h => h) fun _ _ _ h => h.1
  retire k b := (hretire k b).mono (fun _ _ h => h.1) (fun _ _ _ h => h.1) fun _ _ _ h => h.1
  changeRole k b role _ := hq.changeRole_spec hC b (hretire k b) role
  tick := htick
  computeChangelogOffsets _ b := (hq.replays b).computeChangelogOffsets_spec hC
  processAny hg := by cases hg
  commit hg := by cases hg
  snapshot hg := by cases hg
  commitPending hg := by cases hg
  process _ k := by
    refine StreamTask.spec_read fun t => ?_
    exact Spec.ite (fun _ => hprocess k) fun _ => hq.steps.restoreStep_spec hC
  flush _ k := Spec.bind hC hq.noteFlush_spec fun _ => hflush k
  eosSnapshot _ k := by
    refine Spec.bind hC hq.noteFlush_spec fun _ => Spec.seq hC ?_ fun _ => Spec.skip
    refine StreamTask.spec_span hC (Spec.bind hC (hflush k) fun _ => ?_)
      fun e h s hs _ => ⟨hq.noted e h _ rfl hs.1, trivial⟩
    refine Spec.seq hC ?_ fun _ =>
      StreamTask.spec_read fun t => Spec.skip
    refine (Spec.frame (N := fun _ => True) (hq.flush_spec hC true)).failing fun e h s hs => ⟨hq.refused _ h e hs.1.1.1 hs.1.2, trivial⟩
  sendOffsets _ _ _ := hq.sendOffsets_spec _
  commitTransaction _ := hq.commitTransaction_spec
  beginTransaction _ := hq.beginTransaction_spec
  endedAnswer _ _ _ _ hw := hw
  endedRefusal _ e h _ _ hw := hq.refusal (hq.done h hw) e
  endedDone _ h _ hw := hq.done h hw
  fatal _ e h _ hw he := hq.fatal e h hw he
  abort _ e _ := hq.abortTransaction_spec e
  rollback _ k := hq.rolls.rollback_spec hC fun _ h s hs hCw =>
    between_iff.mpr ⟨hq.rollbackFailed h _ hs.1.1 hCw, hs.1.2⟩
  recovered _ h w hw hb hCw := by
    show q.idle w.begun _
    rw [hb]
    exact hq.recovered h hw hCw

end Thread

end Closed

end TxnInvariant

end KrabkaStreams
