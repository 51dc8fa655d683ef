import KrabkaStreams.Proofs.Passes
import KrabkaStreams.Proofs.Restore
import KrabkaStreams.Proofs.ThreadInvariant
import KrabkaStreams.Proofs.ThreadRuns
import KrabkaStreams.Roles

/-!
# Who works, and what a standby does

An active task may do everything (`Working`); another one takes standby steps and leaves none of the
events of an active one (`StandingBy`), under conditions on the run. `byRole` puts the two together.
-/

namespace KrabkaStreams

open Effect StateStore

variable {E P M S V : Type} {C : List Event → Prop}
  {F : StreamsClientError → Assn Event (TaskState E P M S V)}

def Disciplined (G : Bool → Prop) : Assn Event (World E) :=
  fun h w => Always RoleDisciplined h ∧ G w.begun

namespace Disciplined

variable {G : Bool → Prop}

theorem note {h : List Event} {w : World E} (hh : Disciplined G h w) {ev : Event}
    (hev : ev.workers = []) : Disciplined G (h ++ [ev]) w := by
  refine ⟨hh.1.snoc fun task htask => ?_, hh.2⟩
  rw [hev] at htask
  exact (List.not_mem_nil htask).elim

theorem refusal {α : Type} {h : List Event} {w : World E} (hh : Disciplined G h w)
    (r : Except StreamsClientError α) : Disciplined G (h ++ World.fencedEvent r) w := by
  unfold World.fencedEvent
  split
  · split
    · exact hh.note rfl
    · simpa using hh
  · simpa using hh

theorem call_spec {α : Type} (op : E → Except StreamsClientError α × E) :
    Keeps C (Disciplined G) (World.call op) :=
  World.spec_call (fun _ _ _ _ hw _ => hw) fun h w e _ hw _ =>
    refusal (w := { w with env := _ }) (h := h) hw (.error e : Except StreamsClientError α)

variable [Broker E]

theorem flush_spec (hC : PrefixClosed C) : Keeps C (Disciplined (E := E) G) World.flush :=
  World.flush_spec hC call_spec (fun _ _ _ _ hw => hw.note rfl) (fun _ _ hw => hw)
    fun _ _ _ hw => hw.note rfl

omit [Broker E] in
theorem endTransaction_spec (op : E → Except StreamsClientError Unit × E) {ev : Bool → Event}
    (hev : ∀ ok, (ev ok).workers = []) : Keeps C (Disciplined G) (World.endTransaction op ev) := by
  intro h w hw _
  rcases World.endTransaction_cases op ev w with ⟨env, hx⟩ | ⟨e, env, hx⟩
  · rw [hx]
    exact note (w := { w with env := _, producer := _ }) hw (hev true)
  · rw [hx, ← List.append_assoc]
    exact note (w := { w with env := _ }) (hw.refusal _) (hev false)

theorem beginTransaction_spec : Keeps C (Disciplined (E := E) G) World.beginTransaction := by
  intro h w hw _
  rcases World.beginTransaction_cases w with ⟨env, hx⟩ | ⟨e, env, hx⟩
  · rw [hx]
    exact note (w := { w with env := _, producer := _ }) hw rfl
  · rw [hx, ← List.append_assoc]
    exact note (w := { w with env := _ }) (hw.refusal _) rfl

theorem sendOffsets_spec {parts : List (TaskRef × Offsets)}
    (hparts : ∀ part ∈ parts, part.2 ≠ [] → part.1.role = .active) :
    Keeps C (Disciplined (E := E) G) (World.sendOffsetsToTransaction parts) := by
  have hev : ∀ h ok, RoleDisciplined h (.txnOffsetsSent parts ok) := by
    intro h ok task htask
    obtain ⟨part, hpart, rfl⟩ := List.mem_map.mp htask
    obtain ⟨hpart, hne⟩ := List.mem_filter.mp hpart
    exact hparts part hpart (by simpa using hne)
  intro h w hw _
  rcases World.sendOffsets_cases parts w with ⟨env, hx⟩ | ⟨e, env, hx⟩
  · rw [hx]
    exact ⟨hw.1.snoc (hev _ _), hw.2⟩
  · rw [hx, ← List.append_assoc]
    exact ⟨(hw.refusal _).1.snoc (hev _ _), hw.2⟩

end Disciplined

section Active

variable {G : Bool → Prop}

def Working (G : Bool → Prop) : Assn Event (TaskState E P M S V) :=
  fun h s => Disciplined G h s.world ∧ s.own.role = .active

theorem working_producing [StateStore S V] [Processor P M S V] {K : EmitKind → Prop} :
    StreamTask.Producing C K (fun _ => Working (E := E) (P := P) (M := M) (S := S) G)
      fun _ => Working G where
  emit _ _ _ _ _ _ _ _ hs _ := ⟨hs.1.note rfl, hs.2⟩
  takeOutput _ _ _ hs := hs
  takeChangelogs _ _ _ hs := hs
  sent _ _ _ _ _ _ hs _ := ⟨⟨hs.1.1.snoc fun _ htask => List.mem_singleton.mp htask ▸ hs.2, hs.1.2⟩, hs.2⟩
  unsent _ _ h t w env e hs _ := by
    rw [← List.append_assoc]
    refine ⟨⟨(hs.1.refusal _).1.snoc fun _ htask => List.mem_singleton.mp htask ▸ hs.2, hs.1.2⟩, hs.2⟩
  opError _ _ _ hs := hs

theorem working_failed {step : TaskStep} :
    StreamTask.Fails C step (fun _ => Working (E := E) (P := P) (M := M) (S := S) (V := V) G)
      fun _ => Working G :=
  fun _ _ _ hs _ => ⟨hs.1.note rfl, hs.2⟩

variable [Broker E] [StateStore S V]

theorem working_quiet :
    StreamTask.Quiet (Working (E := E) (P := P) (M := M) (S := S) G) fun _ => Working G where
  answer _ _ _ _ hs := hs
  refusal _ _ _ _ _ hs := ⟨hs.1.refusal _, hs.2⟩
  exhausted _ _ hs := hs
  fetched _ _ _ _ _ hs := ⟨hs.1.note rfl, hs.2⟩
  failed _ _ _ _ _ hs := ⟨hs.1.note rfl, hs.2⟩
  replay _ _ _ _ hstep hs := by cases hstep <;> exact hs

omit [StateStore S V] in
theorem working_flush (hC : PrefixClosed C) :
    Keeps C (Working (E := E) (P := P) (M := M) (S := S) (V := V) G) (World.flush.onWorld) :=
  Spec.frame (N := fun t : StreamTask P M S V => t.role = .active) (Disciplined.flush_spec hC)

theorem working_commitPending (hC : PrefixClosed C) :
    Spec C (Working (E := E) (P := P) (M := M) (S := S) (V := V) G) StreamTask.commitPending
      (fun _ h s => Working G h s ∧ s.own.pending = []) fun _ => Working G := by
  refine StreamTask.spec_current fun t => Spec.ite (fun hp => Spec.pure fun _ _ hs =>
    ⟨hs.2, hs.1 ▸ hp⟩) fun _ => Spec.pre (P := Working G) ?_ fun _ _ h => h.2
  have hlog : ∀ offsets ok, Keeps C (Working (E := E) (P := P) (M := M) (S := S) (V := V) G)
      (StreamTask.log (.offsetsCommitted · offsets ok)) := fun offsets ok =>
    StreamTask.spec_log fun h s hs _ =>
      ⟨⟨hs.1.1.snoc fun _ htask => List.mem_singleton.mp htask ▸ hs.2, hs.1.2⟩, hs.2⟩
  refine Spec.seq hC ?_ fun _ => Spec.bind hC
    (R := fun _ h s => Working G h s ∧ s.own.pending = [])
    (StreamTask.spec_update fun _ _ hs => ⟨hs, rfl⟩) fun _ => Spec.skip
  refine Spec.seq hC (Spec.attempt (working_quiet.call_spec _)) fun r => ?_
  cases r with
  | ok u => exact hlog _ _
  | error e => exact Spec.bind hC (hlog _ _) fun _ => Spec.throw fun _ _ hs => hs

omit [Broker E] in
theorem working_noteFlush : Spec C (Working (E := E) G) StreamThread.noteFlush (fun _ => Working G) F :=
  StreamTask.spec_current fun _ => Spec.tell fun _ _ hs _ => ⟨hs.2.1.note rfl, hs.2.2⟩

variable [Processor P M S V]

theorem working_processing (hC : PrefixClosed C) {gated : Bool} (hG : gated = true → G true) :
    StreamTask.Processing C gated (Working (E := E) (P := P) (M := M) (S := S) G) (fun _ => Working G)
      fun _ => Working G where
  producing := working_producing
  passFailed := working_failed
  stepFailed := working_failed
  gate := by
    refine Spec.ite (fun hg => ?_) fun _ => Spec.skip
    refine Spec.onWorld fun t => Spec.get fun w₀ => Spec.ite (fun _ => Spec.pure fun _ _ hs => hs.2)
      fun _ => ?_
    refine Spec.bind hC (R := fun _ h w => Working G h ⟨t, w⟩) ?_ fun _ =>
      Spec.modify fun h w hs => ⟨⟨hs.1.1, hG hg⟩, hs.2⟩
    intro h w hs hCw
    have hbegin := Disciplined.beginTransaction_spec (C := C) h w hs.2.1 hCw
    split at hbegin <;> exact ⟨hbegin, hs.2.2⟩
  settle _ _ hs _ := hs
  piped _ _ _ _ _ hs := ⟨⟨hs.1.1.snoc fun _ htask => List.mem_singleton.mp htask ▸ hs.2, hs.1.2⟩, hs.2⟩
  fetched _ _ _ _ _ hs := ⟨⟨hs.1.1.snoc fun _ htask => List.mem_singleton.mp htask ▸ hs.2, hs.1.2⟩, hs.2⟩
  answer _ _ _ _ hs := hs
  refusal _ _ _ _ _ hs := ⟨hs.1.refusal _, hs.2⟩
  moved _ _ _ _ _ hs := hs

omit [Broker E] in
theorem working_init : Keeps C (Working (E := E) (P := P) (M := M) (S := S) G) StreamTask.init := by
  rintro h ⟨t, w⟩ hs _
  unfold StreamTask.init
  rw [StreamTask.runGraph_cases]
  exact ⟨hs.1.note rfl, hs.2⟩

theorem working_startTask (hC : PrefixClosed C) :
    Keeps C (Working (E := E) (P := P) (M := M) (S := S) G) StreamThread.startTask :=
  Spec.bind hC (working_quiet.seekToStart_spec hC) fun _ =>
    Spec.bind hC (working_quiet.restore_spec hC) fun _ => working_init

variable [LawfulStateStore S] [LawfulProcessor P M S V]

theorem working_flushCaches (hC : PrefixClosed C) (kind : EmitKind) :
    Keeps C (Working (E := E) (P := P) (M := M) (S := S) G) (StreamTask.flushCaches kind) :=
  (StreamTask.flushCaches_spec hC (working_producing (K := fun _ => True)) trivial working_failed).post
    (fun _ _ _ h => h.1) fun _ _ _ h => h

theorem working_commit (hC : PrefixClosed C) :
    Spec C (Working (E := E) (P := P) (M := M) (S := S) G) StreamTask.commit
      (fun _ h s => Working G h s ∧ s.own.pending = []) fun _ => Working G := by
  refine StreamTask.spec_span hC (Spec.bind hC (working_flushCaches hC .close) fun _ =>
    Spec.bind hC (working_flush hC) fun _ => ?_) working_failed
  exact Spec.bind hC (working_commitPending hC) fun _ => Spec.skip

theorem working_snapshotTask (hC : PrefixClosed C) :
    Keeps C (Working (E := E) (P := P) (M := M) (S := S) G) StreamThread.snapshotTask := by
  refine Spec.bind hC working_noteFlush fun _ => Spec.seq hC
    (StreamTask.spec_span hC ?_ working_failed) fun _ => Spec.skip
  refine Spec.bind hC (working_flushCaches hC .flush) fun _ => Spec.bind hC (working_flush hC) fun _ => ?_
  exact StreamTask.spec_read fun _ => Spec.skip

theorem working_retire (hC : PrefixClosed C) :
    Spec C (Working (E := E) (P := P) (M := M) (S := S) G) StreamThread.retire
      (fun _ h s => Working G h s ∧ s.own.pending = []) fun _ => Working G := by
  refine Spec.get fun s => Spec.bind hC (R := fun _ => Working G)
    (Spec.tell fun _ _ hs _ => ⟨hs.2.1.note rfl, hs.2.2⟩) fun _ => ?_
  refine Spec.seq hC ?_ fun _ => working_commit hC
  exact Spec.seq hC (Spec.attempt (working_flushCaches hC .close)) fun _ =>
    StreamTask.spec_update fun _ _ hs => hs

end Active

section Standby

variable [Broker E]

theorem ReadFrom.inOrder (hfetch : OrderedFetch E) {topic : Topic} {partition : Int}
    {level : IsolationLevel} {offset : Int} {recs : List FetchedRec}
    (h : ReadFrom E topic partition level offset recs) : InOrder offset recs := by
  induction h with
  | nil offset => exact ⟨.nil, fun _ hr => (List.not_mem_nil hr).elim⟩
  | @batch env offset b recs hb _ ih =>
    obtain ⟨hsorted, hfrom⟩ := hfetch _ _ _ _ _ _ hb
    refine ⟨List.pairwise_append.mpr ⟨hsorted, ih.1, fun r hr r' hr' => ?_⟩, fun r hr => ?_⟩
    · exact (lt_offsetAfter_of_mem offset hr).trans_le (ih.2 r' hr')
    · rcases List.mem_append.mp hr with hr | hr
      · exact hfrom r hr
      · exact (le_offsetAfter b.records offset).trans (ih.2 r hr)

variable [StateStore S V]

theorem standbyStep_of_replay (hfetch : OrderedFetch E) {t t' : StreamTask P M S V}
    (h : StreamTask.Replay E t t') : StandbyStep E t t' := by
  cases h with
  | positions => exact .other rfl rfl rfl rfl
  | dropPending => exact .other rfl rfl rfl rfl
  | logging on => exact .logging t on
  | wipe => exact .wipe t
  | lookup topic => exact .lookup t topic
  | replayed hread => exact .replay hread (hread.inOrder hfetch) (.inr rfl)
  | interrupted hread => exact .replay hread (hread.inOrder hfetch) (.inl rfl)

/-- A task that stood at `t` with a role other than active, some standby steps later. -/
def StandingBy (G : Bool → Prop) (t : StreamTask P M S V) : Assn Event (TaskState E P M S V) :=
  fun h s => Disciplined G h s.world ∧ (s.own.role = t.role ∧ s.own.pending = []) ∧
    Relation.ReflTransGen (StandbyStep E) t s.own

variable {G : Bool → Prop} {t : StreamTask P M S V}

theorem standingBy_quiet (hfetch : OrderedFetch E) :
    StreamTask.Quiet (StandingBy (E := E) G t) fun _ => StandingBy G t where
  answer _ _ _ _ hs := hs
  refusal _ _ _ _ _ hs := ⟨hs.1.refusal _, hs.2⟩
  exhausted _ _ hs := hs
  fetched _ _ _ _ _ hs := ⟨hs.1.note rfl, hs.2⟩
  failed _ _ _ _ _ hs := ⟨hs.1.note rfl, hs.2⟩
  replay h t₁ t₂ w hstep hs := by
    refine ⟨hs.1, ?_, hs.2.2.tail (standbyStep_of_replay hfetch hstep)⟩
    cases hstep with
    | dropPending => exact ⟨hs.2.1.1, rfl⟩
    | _ => exact hs.2.1

theorem standingBy_failed {step : TaskStep} :
    StreamTask.Fails C step (fun _ => StandingBy (E := E) G t) fun _ => StandingBy G t :=
  fun _ _ _ hs _ => ⟨hs.1.note rfl, hs.2⟩

def StandbysIdle (h : List Event) : Prop := Always StandbysHeld h ∧ Always StandbysClean h

theorem standbysIdle_prefixClosed : PrefixClosed StandbysIdle :=
  fun h w hw => ⟨Always.prefixClosed h w hw.1, Always.prefixClosed h w hw.2⟩

theorem standingBy_noteFlush (ht : t.role ≠ .active) :
    Spec StandbysIdle (StandingBy (E := E) G t) StreamThread.noteFlush
      (fun _ h s => StandingBy G t h s ∧ s.own.buffered = [] ∧ s.own.clean = true) F := by
  refine StreamTask.spec_current fun t' => Spec.tell fun h s hs hCw => ?_
  obtain ⟨rfl, hs⟩ := hs
  have hquiet : s.own.role = .active ∨ (s.own.drained && s.own.clean) = true := hCw.2.last
  have hne : s.own.role ≠ .active := by rwa [hs.2.1.1]
  have hidle := hquiet.resolve_left hne
  simp only [Bool.and_eq_true, StreamTask.drained, List.isEmpty_iff] at hidle
  exact ⟨⟨hs.1.note rfl, hs.2⟩, hidle⟩

variable [Processor P M S V] [LawfulStateStore S]

theorem standingBy_flushCaches (kind : EmitKind) :
    Spec C (fun h s => StandingBy (E := E) G t h s ∧ s.own.buffered = [] ∧ s.own.clean = true)
      (StreamTask.flushCaches kind) (fun _ => StandingBy G t) F := by
  rintro h ⟨t', w⟩ ⟨hs, hb, hclean⟩ _
  rw [StreamTask.flushCaches_idle kind hb hclean]
  exact ⟨hs.1.note rfl, hs.2.1, hs.2.2.tail (.drained hb)⟩

omit [Processor P M S V] [LawfulStateStore S] in
theorem standingBy_flush (hC : PrefixClosed C) :
    Keeps C (StandingBy (E := E) G t) (World.flush.onWorld) :=
  Spec.frame (N := fun t' : StreamTask P M S V => (t'.role = t.role ∧ t'.pending = []) ∧
    Relation.ReflTransGen (StandbyStep E) t t') (Disciplined.flush_spec hC)

omit [Processor P M S V] [LawfulStateStore S] in
theorem standingBy_commitPending :
    Keeps C (StandingBy (E := E) G t) StreamTask.commitPending := by
  refine StreamTask.spec_current fun t' => Spec.ite (fun _ => Spec.pure fun _ _ hs => hs.2) fun hne => ?_
  exact Spec.vacuous fun _ _ hs => hne (hs.1 ▸ hs.2.2.1.2)

theorem standingBy_commitTask (ht : t.role ≠ .active) :
    Keeps StandbysIdle (StandingBy (E := E) G t) StreamThread.commitTask := by
  have hC := standbysIdle_prefixClosed
  refine Spec.bind hC (standingBy_noteFlush ht) fun _ => StreamTask.spec_span hC ?_ standingBy_failed
  refine Spec.bind hC (standingBy_flushCaches .close) fun _ => Spec.bind hC (standingBy_flush hC) fun _ => ?_
  exact Spec.bind hC standingBy_commitPending fun _ => Spec.skip

theorem standingBy_snapshotTask (ht : t.role ≠ .active) :
    Keeps StandbysIdle (StandingBy (E := E) G t) StreamThread.snapshotTask := by
  have hC := standbysIdle_prefixClosed
  refine Spec.bind hC (standingBy_noteFlush ht) fun _ => Spec.bind hC (R := fun _ => StandingBy G t)
    (StreamTask.spec_span hC ?_ standingBy_failed) fun _ => Spec.skip
  refine Spec.bind hC (standingBy_flushCaches .flush) fun _ => Spec.bind hC (standingBy_flush hC) fun _ => ?_
  exact StreamTask.spec_read fun _ => Spec.skip

omit [LawfulStateStore S] in
theorem processOnce_held {t : StreamTask P M S V} (hheld : t.held = true) (gated : Bool) (w : World E) :
    StreamTask.processOnce gated ⟨t, w⟩ = (.ok (), ⟨t, w⟩, []) := by
  have hpart : ∀ tp ∈ OrdMap.keys t.positions,
      StreamTask.processPartition gated tp ⟨t, w⟩ = (.ok (), ⟨t, w⟩, []) := by
    intro tp htp
    obtain ⟨o, ho⟩ := (OrdMap.mem_keys_iff _ _).mp htp
    have hcut := List.all_eq_true.mp hheld _ (OrdMap.mem_of_get?_eq_some ho)
    show (if (t.cutOffset tp).any (· ≤ (t.positions.get? tp).getD 0) then _ else _ : TaskM E P M S V Unit)
      ⟨t, w⟩ = _
    rw [ho, Option.getD_some, if_pos hcut]
    rfl
  have hloop : ∀ tps : List (Topic × Int), (∀ tp ∈ tps, tp ∈ OrdMap.keys t.positions) →
      tps.forM (StreamTask.processPartition gated) ⟨t, w⟩ = (.ok (), ⟨t, w⟩, []) := by
    intro tps hmem
    induction tps with
    | nil => rfl
    | cons tp tps ih =>
      show (StreamTask.processPartition gated tp >>= fun _ =>
        tps.forM (StreamTask.processPartition gated)) ⟨t, w⟩ = _
      rw [Eff.bind_of_ok (hpart tp (hmem tp List.mem_cons_self)),
        ih fun tp' htp' => hmem tp' (List.mem_cons_of_mem tp htp')]
      rfl
  exact StreamTask.span_of_ok (hloop _ fun _ h => h)

omit [LawfulStateStore S] in
theorem standingBy_processAny (ht : t.role ≠ .active) :
    Keeps StandbysIdle (StandingBy (E := E) G t) StreamThread.processAny := by
  refine StreamTask.spec_current fun t' => Spec.bind standbysIdle_prefixClosed
    (R := fun _ h s => StandingBy G t h s ∧ s.own.held = true)
    (Spec.tell fun h s hs hCw => ?_) fun _ => ?_
  · obtain ⟨rfl, hs⟩ := hs
    have hheld : s.own.role = .active ∨ s.own.held = true := hCw.1.last
    exact ⟨⟨hs.1.note rfl, hs.2⟩, hheld.resolve_left (by rwa [hs.2.1.1])⟩
  · rintro h ⟨t'', w⟩ ⟨hs, hheld⟩ _
    rw [processOnce_held hheld]
    simpa using hs

end Standby

section Invariant

variable [Broker E] [StateStore S V] {g : ProcessingGuarantee}
  {before : OrdMap TaskKey (StreamTask P M S V)} {asg : TaskKey → TaskRole → Prop} {k : TaskKey}
  {t t' : StreamTask P M S V} {G : Bool → Prop} {b : Bool}

/-- Where the task at `key` comes from in the course of one call, which assigns the roles `asg`. -/
structure Follows (E : Type) [Broker E] (g : ProcessingGuarantee)
    (before : OrdMap TaskKey (StreamTask P M S V)) (asg : TaskKey → TaskRole → Prop) (key : TaskKey)
    (t : StreamTask P M S V) : Prop where
  active : t.role = .active → asg key .active ∨ ∃ t₀, (key, t₀) ∈ before ∧ t₀.role = .active
  pending : t.role ≠ .active → t.pending = []
  trail : t.role ≠ .active →
    (∃ t₀, Created g key t₀ ∧ Relation.ReflTransGen (StandbyStep E) t₀ t) ∨
      ∃ t₀, (key, t₀) ∈ before ∧ (t₀.role = .active ∨ Relation.ReflTransGen (StandbyStep E) t₀ t)

theorem Follows.working (hf : asg k .active ∨ ∃ t₀, (k, t₀) ∈ before ∧ t₀.role = .active)
    (ht : t.role = .active) : Follows E g before asg k t :=
  ⟨fun _ => hf, fun h => absurd ht h, fun h => absurd ht h⟩

theorem Follows.later (hf : Follows E g before asg k t) (ht : t.role ≠ .active)
    (hrole : t'.role ≠ .active) (hpending : t'.pending = [])
    (hsteps : Relation.ReflTransGen (StandbyStep E) t t') : Follows E g before asg k t' := by
  refine ⟨fun h => absurd h hrole, fun _ => hpending, fun _ => ?_⟩
  rcases hf.trail ht with ⟨t₀, hnew, hsteps₀⟩ | ⟨t₀, hbefore, hactive | hsteps₀⟩
  · exact .inl ⟨t₀, hnew, hsteps₀.trans hsteps⟩
  · exact .inr ⟨t₀, hbefore, .inl hactive⟩
  · exact .inr ⟨t₀, hbefore, .inr (hsteps₀.trans hsteps)⟩

theorem Follows.other (hf : Follows E g before asg k t) (hrole : t'.role = t.role)
    (hpending : t.pending = [] → t'.pending = []) (hstep : StandbyStep E t t') :
    Follows E g before asg k t' := by
  by_cases ht : t.role = .active
  · exact .working (hf.active ht) (hrole.trans ht)
  · exact hf.later ht (by rwa [hrole]) (hpending (hf.pending ht)) (.single hstep)

def standing (E : Type) [Broker E] (g : ProcessingGuarantee)
    (before : OrdMap TaskKey (StreamTask P M S V)) (asg : TaskKey → TaskRole → Prop) :
    ThreadInvariant E P M S V where
  idle h _ := Always RoleDisciplined h
  failed _ h _ := Always RoleDisciplined h
  rolling h _ := Always RoleDisciplined h
  ended h _ := Always RoleDisciplined h
  task := Follows E g before asg
  assigns := asg

theorem byRole {α : Type} {m : TaskM E P M S V α} (hwork : Keeps C (Working G) m)
    (hstand : ∀ t : StreamTask P M S V, t.role ≠ .active → Keeps C (StandingBy G t) m) :
    Keeps C (fun h s => Disciplined G h s.world ∧ Follows E g before asg k s.own) m := by
  rintro h ⟨t, w⟩ ⟨hd, hf⟩ hCw
  by_cases ht : t.role = .active
  · have hrun := hwork h ⟨t, w⟩ ⟨hd, ht⟩ hCw
    split at hrun <;> exact ⟨hrun.1, .working (hf.active ht) hrun.2⟩
  · have hrun := hstand t ht h ⟨t, w⟩ ⟨hd, ⟨rfl, hf.pending ht⟩, .refl⟩ hCw
    split at hrun <;> exact ⟨hrun.1, hf.later ht (by rwa [hrun.2.1.1]) hrun.2.1.2 hrun.2.2⟩

theorem follows_changeRole [Processor P M S V] [LawfulStateStore S] [LawfulProcessor P M S V]
    (hC : PrefixClosed C) (hfetch : OrderedFetch E) (hasg : ∀ r r', asg k r → asg k r' → r = r')
    {role : TaskRole} (hrole : asg k role) :
    Keeps C (fun h (s : TaskState E P M S V) => Disciplined G h s.world ∧ Follows E g before asg k s.own)
      (StreamThread.changeRole role) := by
  refine StreamTask.spec_current fun t => Spec.ite (fun _ => Spec.pure fun _ _ hs => hs.2) fun hne => ?_
  refine Spec.pre (P := fun h s => Follows E g before asg k t ∧ (s.own = t ∧ Disciplined G h s.world))
    (Spec.assume fun hf => ?_) fun h s hs => ⟨hs.1 ▸ hs.2.2, hs.1, hs.2.1⟩
  have hstands : ∀ h (s : TaskState E P M S V), t.role ≠ .active →
      s.own = t ∧ Disciplined G h s.world → StandingBy G t h s := fun h s ht hs =>
    ⟨hs.2, by rw [hs.1]; exact ⟨⟨rfl, hf.pending ht⟩, .refl⟩⟩
  have hback : ∀ h (s : TaskState E P M S V), t.role ≠ .active → StandingBy G t h s →
      Disciplined G h s.world ∧ Follows E g before asg k s.own := fun h s ht hs =>
    ⟨hs.1, hf.later ht (by rwa [hs.2.1.1]) hs.2.1.2 hs.2.2⟩
  by_cases hnew : role = .active
  · -- a promotion: the standby replays and seeks, then `init` runs and the role changes
    have ht : t.role ≠ .active := fun ht => hne (ht.trans hnew.symm)
    have hquiet := standingBy_quiet (G := G) (t := t) hfetch
    refine Spec.bind hC (R := fun _ h s => Disciplined G h s.world) ?_ fun _ => StreamTask.spec_update
      fun _ _ hs => ⟨hs, .working (.inl (hnew ▸ hrole)) hnew⟩
    simp only [StreamThread.leaveRole, if_pos hnew]
    refine Spec.mono (Spec.bind hC (hquiet.restore_spec hC) fun _ => Spec.bind hC
      (hquiet.seekToStart_spec hC) fun _ => ?_) (fun h s hs => hstands h s ht hs)
      (fun _ _ _ hs => hs) fun _ h s hs => hback h s ht hs
    rintro h ⟨t', w⟩ hs _
    unfold StreamTask.init
    rw [StreamTask.runGraph_cases]
    exact hs.1.note rfl
  · by_cases ht : t.role = .active
    · -- a demotion: the call names no other role for the task, so it was active before the call
      have hbefore := (hf.active ht).resolve_left fun h => hnew (hasg _ _ hrole h)
      refine Spec.bind hC (R := fun _ h s => Working G h s ∧ s.own.pending = []) ?_ fun _ =>
        StreamTask.spec_update fun h s hs => ⟨hs.1.1, fun h => absurd h hnew, fun _ => hs.2, fun _ => ?_⟩
      · simp only [StreamThread.leaveRole, if_neg hnew, if_pos ht]
        exact (working_retire hC).mono (fun h s hs => ⟨hs.2, hs.1 ▸ ht⟩) (fun _ _ _ hs => hs)
          fun _ _ _ hs => ⟨hs.1, .working (hf.active ht) hs.2⟩
      · obtain ⟨t₀, hmem, hactive⟩ := hbefore
        exact .inr ⟨t₀, hmem, .inl hactive⟩
    · simp only [StreamThread.leaveRole, if_neg hnew, if_neg ht]
      refine Spec.bind hC (R := fun _ h s => s.own = t ∧ Disciplined G h s.world)
        (Spec.skip) fun _ => StreamTask.spec_update fun h s hs => ⟨hs.2, ?_⟩
      rw [hs.1]
      exact hf.later ht hnew (hf.pending ht) (.single (.other rfl rfl rfl rfl))

section Methods

variable [Processor P M S V] [LawfulStateStore S] [LawfulProcessor P M S V]

theorem follows_tick (hC : PrefixClosed C) (now : Int) :
    Keeps C (fun h (s : TaskState E P M S V) => Disciplined G h s.world ∧ Follows E g before asg k s.own)
      (StreamThread.tick now) := by
  refine byRole ?_ fun t ht => ?_
  · refine Spec.get fun s => Spec.ite (fun _ => ?_) fun _ => Spec.pure fun _ _ hs => hs.2
    refine Spec.bind hC (R := fun _ => Working G) (Spec.tell fun _ _ hs _ => ⟨hs.2.1.note rfl, hs.2.2⟩)
      fun _ => ?_
    exact (StreamTask.punctuateWallClock_spec hC (working_producing (K := fun _ => True)) trivial
      working_failed now).post (fun _ _ _ hs => hs.1) fun _ _ _ hs => hs
  · refine Spec.get fun s => Spec.ite (fun hactive => ?_) fun _ => Spec.pure fun _ _ hs => hs.2
    exact Spec.vacuous fun _ _ hs => ht (hs.2.2.1.1.symm.trans (hs.1 ▸ hactive))

theorem follows_processAny :
    Keeps StandbysIdle (fun h (s : TaskState E P M S V) => Disciplined G h s.world ∧
      Follows E g before asg k s.own) StreamThread.processAny := by
  refine byRole ?_ fun _ => standingBy_processAny
  have hC := standbysIdle_prefixClosed
  refine StreamTask.spec_current fun t => Spec.bind hC (R := fun _ => Working G)
    (Spec.tell fun _ _ hs _ => ⟨hs.2.1.note rfl, hs.2.2⟩) fun _ => ?_
  exact StreamTask.processOnce_spec hC (working_processing hC fun h => absurd h Bool.false_ne_true)

theorem follows_commitTask :
    Keeps StandbysIdle (fun h (s : TaskState E P M S V) => Disciplined G h s.world ∧
      Follows E g before asg k s.own) StreamThread.commitTask := by
  refine byRole ?_ fun _ => standingBy_commitTask
  have hC := standbysIdle_prefixClosed
  exact Spec.bind hC working_noteFlush fun _ => (working_commit hC).post (fun _ _ _ hs => hs.1)
    fun _ _ _ hs => hs

theorem follows_flushTask :
    Keeps StandbysIdle (fun h (s : TaskState E P M S V) => Disciplined G h s.world ∧
      Follows E g before asg k s.own) StreamThread.flushTask := by
  have hC := standbysIdle_prefixClosed
  refine byRole (Spec.bind hC working_noteFlush fun _ => working_flushCaches hC .flush) fun t ht => ?_
  exact Spec.bind hC (standingBy_noteFlush ht) fun _ => standingBy_flushCaches .flush

theorem follows_processOrStep (hfetch : OrderedFetch E) (hG : G true) :
    Keeps StandbysIdle (fun h (s : TaskState E P M S V) => Disciplined G h s.world ∧
      Follows E g before asg k s.own) StreamThread.processOrStep := by
  have hC := standbysIdle_prefixClosed
  refine byRole (StreamTask.spec_current fun t => Spec.pre (P := Working G) (Spec.ite (fun _ => ?_)
    fun _ => working_quiet.restoreStep_spec hC) fun _ _ hs => hs.2) fun t ht => ?_
  · exact StreamTask.processOnce_spec hC (working_processing hC fun _ => hG)
  · refine StreamTask.spec_current fun t' => Spec.ite (fun hactive => ?_) fun _ =>
      ((standingBy_quiet hfetch).restoreStep_spec hC).pre fun _ _ hs => hs.2
    exact Spec.vacuous fun _ _ hs => ht (hs.2.2.1.1.symm.trans (hs.1 ▸ hactive))

/-- Every call keeps the discipline, and every task that is not active follows its changelogs. -/
theorem standing_sound (hfetch : OrderedFetch E) (hasg : ∀ k r r', asg k r → asg k r' → r = r') :
    (standing E g before asg).Sound StandbysIdle g where
  answer _ _ _ hw := hw
  fenced _ _ hw := hw.snoc fun _ h => (List.not_mem_nil h).elim
  lend _ _ _ hf := hf.other rfl id (.other rfl rfl rfl rfl)
  setCut _ _ _ hf := hf.other rfl id (.other rfl rfl rfl rfl)
  clearPending _ _ hf := hf.other rfl (fun _ => rfl) (.other rfl rfl rfl rfl)
  startTask k b := by
    intro h s hs hCw
    have hrun := working_startTask (G := (· = b)) standbysIdle_prefixClosed h s ⟨hs.1.1, hs.2⟩ hCw
    split at hrun
    · exact ⟨hrun.1, .working (hs.1.2.active hs.2) hrun.2⟩
    · exact hrun.1
  retire _ b := (working_retire (G := (· = b)) standbysIdle_prefixClosed).mono (fun _ _ hs => ⟨hs.1.1, hs.2⟩)
    (fun _ _ _ hs => hs.1.1) fun _ _ _ hs => hs.1
  changeRole k b _ hrole := follows_changeRole (G := (· = b)) standbysIdle_prefixClosed hfetch (hasg k) hrole
  tick _ b now := follows_tick (G := (· = b)) standbysIdle_prefixClosed now
  computeChangelogOffsets _ b :=
    byRole (G := (· = b)) (working_quiet.computeChangelogOffsets_spec standbysIdle_prefixClosed) fun _ _ =>
      (standingBy_quiet hfetch).computeChangelogOffsets_spec standbysIdle_prefixClosed
  processAny _ _ b := follows_processAny (G := (· = b))
  commit _ _ b := follows_commitTask (G := (· = b))
  snapshot _ _ b := byRole (G := (· = b)) (working_snapshotTask standbysIdle_prefixClosed) fun _ =>
    standingBy_snapshotTask
  commitPending _ _ b := byRole (G := (· = b)) ((working_commitPending standbysIdle_prefixClosed).post
    (fun _ _ _ hs => hs.1) fun _ _ _ hs => hs) fun _ _ => standingBy_commitPending
  process _ _ := (follows_processOrStep (G := fun _ => True) hfetch trivial).mono
    (fun _ _ hs => ⟨⟨hs.1, trivial⟩, hs.2⟩) (fun _ _ _ hs => ⟨hs.1.1, hs.2⟩)
    fun _ _ _ hs => ⟨hs.1.1, hs.2⟩
  flush _ _ := (follows_flushTask (G := (· = true))).failing fun _ _ _ hs => ⟨hs.1.1, hs.2⟩
  eosSnapshot _ _ := (byRole (G := (· = true)) (working_snapshotTask standbysIdle_prefixClosed) fun _ =>
    standingBy_snapshotTask).failing fun _ _ _ hs => ⟨hs.1.1, hs.2⟩
  sendOffsets _ ts hts := by
    refine (Disciplined.sendOffsets_spec (G := (· = true)) fun part hpart hne => ?_).failing fun _ _ _ hs => hs.1
    obtain ⟨e, he, rfl⟩ := List.mem_map.mp hpart
    by_contra hrole
    refine hne ?_
    simp [StreamTask.pendingOffsets, (hts e he).pending hrole]
  commitTransaction _ := (Disciplined.endTransaction_spec (G := (· = true)) _ fun _ => rfl).post (fun _ _ _ hs => hs.1)
    fun _ _ _ hs => hs.1
  beginTransaction _ := (Disciplined.beginTransaction_spec (G := (· = false))).post (fun _ _ _ hs => hs.1)
    fun _ _ _ hs => ⟨⟨hs.1, hs.1⟩, hs.2⟩
  endedAnswer _ _ _ _ hw := hw
  endedRefusal _ _ _ w _ hw := (Disciplined.refusal (w := w) (G := fun _ => True) ⟨hw, trivial⟩ _).1
  endedDone _ _ _ hw := hw
  fatal _ _ _ _ hw _ := hw
  abort _ _ _ := by
    refine (Disciplined.endTransaction_spec (G := fun _ => True) _ fun _ => rfl).mono
      (fun _ _ hw => ⟨hw, trivial⟩) (fun _ _ _ hs => hs.1) fun _ _ _ hs => ?_
    split <;> exact hs.1
  rollback _ _ := byRole (G := (· = false))
    (working_quiet.rollback_spec standbysIdle_prefixClosed working_failed)
    fun _ _ => (standingBy_quiet hfetch).rollback_spec standbysIdle_prefixClosed standingBy_failed
  recovered _ _ _ hw _ _ := hw.snoc fun _ h => (List.not_mem_nil h).elim

end Methods

end Invariant

section Runs

variable [Broker E] [StateStore S V] {g : ProcessingGuarantee}

def assignedBy : StreamThread.Call P M S V → TaskKey → TaskRole → Prop
  | .applyAssignment a _, key, role => ((StreamThread.desired a).get? key).map Prod.fst = some role
  | .pollAll, _, _ => False
  | .commitAll, _, _ => False

theorem assignedBy_unique (c : StreamThread.Call P M S V) (k : TaskKey) (r r' : TaskRole)
    (h : assignedBy c k r) (h' : assignedBy c k r') : r = r' := by
  cases c with
  | applyAssignment a topology => exact Option.some.inj (h.symm.trans h')
  | pollAll => exact h.elim
  | commitAll => exact h.elim

theorem standing_starts [Processor P M S V] {before : OrdMap TaskKey (StreamTask P M S V)}
    {asg : TaskKey → TaskRole → Prop} : (standing E g before asg).Starts g := by
  intro topology app cache graph hgraph key globals sources role hrole
  refine ⟨fun hactive => .inl (hactive ▸ hrole), fun _ => rfl, fun _ => .inl ⟨_, ?_, .refl⟩⟩
  exact ⟨topology, app, cache, graph, globals, sources, role, hgraph, rfl⟩

def Rested (E : Type) [Broker E] (g : ProcessingGuarantee) : Assn Event (ThreadState E P M S V) :=
  fun h s => (standing E g s.own.tasks fun _ _ => False).calm g h s

theorem calm_restart {before : OrdMap TaskKey (StreamTask P M S V)}
    {asg asg' : TaskKey → TaskRole → Prop} {h : List Event} {s : ThreadState E P M S V}
    (hs : (standing E g before asg).calm g h s) : (standing E g s.own.tasks asg').calm g h s := by
  refine hs.imp (fun ⟨b, hidle, htasks, hown⟩ => ⟨b, hidle, fun e he => ?_, hown⟩) fun hs => hs
  exact ⟨fun hactive => .inr ⟨e.2, he, hactive⟩, (htasks e he).pending,
    fun _ => .inr ⟨e.2, he, .inr .refl⟩⟩

variable [Processor P M S V] [LawfulStateStore S] [LawfulProcessor P M S V]

theorem perform_standing (hfetch : OrderedFetch E) (c : StreamThread.Call P M S V)
    (before : OrdMap TaskKey (StreamTask P M S V)) :
    Keeps StandbysIdle ((standing E g before (assignedBy c)).calm g) (StreamThread.perform g c) := by
  refine (standing_sound hfetch (assignedBy_unique c)).perform_spec standbysIdle_prefixClosed
    standing_starts c fun a topology hc e he => ?_
  subst hc
  show ((StreamThread.desired a).get? e.1).map Prod.fst = some e.2.1
  rw [OrdMap.get?_of_mem (nodup_keys_desired a) he]
  rfl

theorem perform_rested (hfetch : OrderedFetch E) (c : StreamThread.Call P M S V) :
    Keeps StandbysIdle (Rested E g) (StreamThread.perform g c) := by
  intro h s hs hCw
  have hrun := (perform_standing hfetch c s.own.tasks).after (calm_restart hs) hCw
  split <;> exact calm_restart hrun

variable (app : String) (cache : Nat) (group : Option String) (env : E) (producer : ProducerState)
  (budget : Nat)

theorem run_rested (hfetch : OrderedFetch E) (calls : List (StreamThread.Call P M S V))
    (hidle : StandbysIdle (StreamThread.run g calls
      ⟨.new app cache group, .start env producer budget⟩).2) :
    Rested E g (StreamThread.run g calls ⟨.new app cache group, .start env producer budget⟩).2
      (StreamThread.run g calls ⟨.new app cache group, .start env producer budget⟩).1 := by
  have hstart : Rested E g [] (⟨.new app cache group, .start env producer budget⟩ :
      ThreadState E P M S V) :=
    .inr ⟨false, ⟨Always.nil, rfl⟩, fun e he => (List.not_mem_nil he).elim, rfl, rfl⟩
  exact Keeps.runAll standbysIdle_prefixClosed (perform_rested hfetch) calls [] _ hstart hidle

end Runs

section Sample

def standbyHistory (log : List FetchedRec) : List Event :=
  (StreamThread.run .atLeastOnce (assign (relayTopology .forward) (oneTask .standby) ++ [.pollAll])
    ⟨.new "app" 0 none, (⟨[("in", log)], [], 10, [], [], []⟩ : Script).world (.broker [])⟩).2

theorem orderedFetch_servingBroker (logs : CommittedLogs) :
    @OrderedFetch Unit (servingBroker logs) := by
  intro env topic partition offset level b hb
  cases hb
  exact ⟨(logs.sorted topic).filter _, fun r hr => of_decide_eq_true (List.mem_filter.mp hr).2⟩

def sampleLog : CommittedLogs := singleLog "in" ⟨0, none, some [7], 5⟩ rfl

def standbyCalls : List (StreamThread.Call Relay Unit (KeyValueBytesStore Bytes) (Value Bytes)) :=
  assign (relayTopology .forward) (oneTask .standby) ++ [.pollAll, .commitAll] ++
    assign (relayTopology .forward) (oneTask .active) ++ [.pollAll, .commitAll]

def promotedHistory : List Event :=
  let _ : Broker Unit := servingBroker sampleLog
  (StreamThread.run .exactlyOnceV2 standbyCalls
    ⟨.new "app" 0 none, .start () (.transactional false) 4⟩).2

end Sample

end KrabkaStreams
