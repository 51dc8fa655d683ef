import KrabkaStreams.Schedules
import KrabkaStreams.Proofs.KeyValue
import KrabkaStreams.Proofs.Punctuation
import KrabkaStreams.Proofs.TaskInvariant
import KrabkaStreams.Proofs.ThreadRuns
import KrabkaStreams.Lib.Runs

/-!
# One set of schedules for each activation

No operation registers a schedule, and a pass takes out cancelled ones only (`Prunes`). `init` makes one
set when nothing was scheduled (`oneSet_initProcessors`), so every promotion must find nothing
(`schedulesOnce_of_promotes`).
-/

namespace KrabkaStreams

open Effect StateStore

variable {P M S V : Type} {list : P → List (ScheduleRequest P)} {g : Graph P M S V}

namespace Graph

/-- Nothing was registered, and what was taken out had been cancelled. -/
structure Prunes (g g' : Graph P M S V) : Prop where
  nodes : g'.nodes = g.nodes
  cancelled : g.cancelled ⊆ g'.cancelled
  schedules : (g'.schedules.map ScheduleEntry.request).filter g'.unset = (g.schedules.map ScheduleEntry.request).filter g'.unset
  sublist : (g'.schedules.map ScheduleEntry.request).Sublist (g.schedules.map ScheduleEntry.request)

namespace Prunes

variable {g g' g'' : Graph P M S V}

theorem unset (h : Prunes g g') {q : Nat × ScheduleRequest P} (hq : g'.unset q = true) : g.unset q = true := by
  simp only [Graph.unset, Bool.not_eq_true', List.contains_eq_mem, decide_eq_false_iff_not] at hq ⊢
  exact fun hmem => hq (h.cancelled hmem)

theorem filter_unset (h : Prunes g g') (qs : List (Nat × ScheduleRequest P)) :
    (qs.filter g.unset).filter g'.unset = qs.filter g'.unset := by
  rw [List.filter_filter]
  refine List.filter_congr fun q _ => ?_
  rcases hq : g'.unset q with _ | _
  · rfl
  · rw [h.unset hq]
    rfl

theorem of_eq (hn : g'.nodes = g.nodes) (hc : g'.cancelled = g.cancelled) (hs : g'.schedules = g.schedules) : Prunes g g' :=
  ⟨hn, hc ▸ fun _ hmem => hmem, by rw [hs], by rw [hs]⟩

theorem refl (g : Graph P M S V) : Prunes g g := of_eq rfl rfl rfl

theorem trans (h : Prunes g g') (h' : Prunes g' g'') : Prunes g g'' := by
  refine ⟨h'.nodes.trans h.nodes, List.Subset.trans h.cancelled h'.cancelled, ?_, h'.sublist.trans h.sublist⟩
  rw [h'.schedules, ← h'.filter_unset, h.schedules, h'.filter_unset]

theorem absorb (g : Graph P M S V) (i : Nat) {o : Outcome P M S V} (ho : o.schedules = []) : Prunes g (g.absorb i o) := by
  have hs : (g.absorb i o).schedules = g.schedules := by
    show g.schedules ++ o.schedules.map (g.newSchedule i) = g.schedules
    rw [ho, List.map_nil, List.append_nil]
  exact ⟨rfl, List.subset_append_left _ _, by rw [hs], by rw [hs]⟩

theorem setNextTime (g : Graph P M S V) (i : Nat) (t : Int) : Prunes g (g.setNextTime i t) := by
  have hs : (g.setNextTime i t).schedules.map ScheduleEntry.request = g.schedules.map ScheduleEntry.request := by
    refine List.ext_getElem? fun k => ?_
    unfold Graph.setNextTime
    rw [List.getElem?_map, List.getElem?_map, List.getElem?_modify]
    by_cases hk : i = k
    · rcases g.schedules[k]? with _ | e <;> simp [hk, ScheduleEntry.request]
    · simp [hk]
  exact ⟨rfl, fun _ hmem => hmem, by rw [hs], by rw [hs]⟩

theorem dropCancelled (g : Graph P M S V) : Prunes g g.dropCancelled := by
  refine ⟨rfl, fun _ hmem => hmem, ?_, List.filter_sublist.map _⟩
  show (List.map _ (g.schedules.filter _)).filter g.unset = _
  rw [List.filter_map, List.filter_map, List.filter_filter]
  congr 1
  refine List.filter_congr fun e _ => ?_
  simp [Graph.unset, ScheduleEntry.request, Graph.dropCancelled]

variable [StateStore S V] [Processor P M S V]

theorem movesPass (hfixed : FixedSchedules P M S V list) : MovesPass (Prunes (P := P) (M := M) (S := S) (V := V)) where
  refl := refl
  trans _ _ _ h h' := h.trans h'
  dispatch g g' _ i _ _ h := by
    rcases dispatch_ok h with ⟨_, _, _, _, -, -, -, rfl⟩ | ⟨p, o, -, ho, -, rfl⟩
    · exact of_eq rfl rfl rfl
    · exact absorb g i (hfixed.process p _ _ _ o ho)
  punctuate g i p ts := absorb g i (hfixed.punctuate p g.mem _ ts)
  flush _ _ _ _ := of_eq rfl rfl rfl
  clocks _ _ _ := of_eq rfl rfl rfl
  setNextTime := setNextTime
  dropCancelled := dropCancelled

end Prunes

theorem OneSet.prunes {g g' : Graph P M S V} (h : g.OneSet list) (hp : Prunes g g') : g'.OneSet list := by
  have hexpected : g'.expected list = g.expected list := by
    unfold expected
    rw [hp.nodes]
  unfold OneSet at h ⊢
  rw [hp.schedules, hexpected, ← hp.filter_unset, h, hp.filter_unset]

section Init

variable [Processor P M S V]

theorem initNodes_schedules (hfixed : FixedSchedules P M S V list) : ∀ (ns : List (ErasedNode P V × Nat)) (g : Graph P M S V),
    (ns.foldl (fun g n => g.initNode n.2 n.1) g).nodes = g.nodes ∧
      (ns.foldl (fun g n => g.initNode n.2 n.1) g).schedules.map ScheduleEntry.request =
        g.schedules.map ScheduleEntry.request ++ ns.flatMap (nodeSchedules list)
  | [], g => ⟨rfl, by simp⟩
  | (n, i) :: ns, g => by
    obtain ⟨hnodes, hschedules⟩ := initNodes_schedules hfixed ns (g.initNode i n)
    rw [List.foldl_cons, hnodes, hschedules, List.flatMap_cons, ← List.append_assoc]
    rcases n with p | ⟨topic, serialize⟩
    · refine ⟨rfl, ?_⟩
      congr 1
      show (g.schedules ++ (Processor.init (V := V) p g.mem _).schedules.map (g.newSchedule i)).map _ = _
      rw [hfixed.init p, List.map_append, List.map_map]
      rfl
    · exact ⟨rfl, by simp [initNode, nodeSchedules]⟩

theorem oneSet_initProcessors (hfixed : FixedSchedules P M S V list) (h : g.schedules = []) :
    g.initProcessors.OneSet list := by
  obtain ⟨hnodes, hschedules⟩ := initNodes_schedules hfixed g.nodes.zipIdx g
  rw [h, List.map_nil, List.nil_append] at hschedules
  unfold OneSet expected
  unfold initProcessors at *
  rw [hschedules, hnodes]

end Init

section Fires

variable [Processor P M S V]

omit [Processor P M S V] in
theorem filterMap_range_getElem? (l : List (ScheduleEntry P)) :
    (List.range l.length).filterMap (fun i => l[i]?.map ScheduleEntry.request) = l.map ScheduleEntry.request := by
  induction l using List.reverseRecOn with
  | nil => rfl
  | append_singleton l e ih =>
    rw [List.length_append, List.length_singleton, List.range_succ, List.filterMap_append, List.map_append, ← ih]
    congr 1
    · refine List.filterMap_congr fun i hi => ?_
      rw [List.getElem?_append_left (List.mem_range.mp hi)]
    · simp

theorem firedRequests_sublist (g : Graph P M S V) (ty : PunctuationType) (now : Int) :
    (g.firedRequests ty now).Sublist (g.dropCancelled.schedules.map ScheduleEntry.request) := by
  rw [← filterMap_range_getElem?]
  exact (fired_sublist ty now _ _).filterMap _

theorem OneSet.scheduled (h : g.OneSet list) : g.Scheduled list := by
  refine ⟨h, fun ty now => (firedRequests_sublist g ty now).trans ?_⟩
  have hlive : g.dropCancelled.schedules.map ScheduleEntry.request = (g.schedules.map ScheduleEntry.request).filter g.unset := by
    rw [List.filter_map]
    rfl
  rw [hlive, h]
  exact List.filter_sublist

end Fires

end Graph

section Tasks

variable {E : Type} [Broker E] [StateStore S V] [Processor P M S V]

theorem taskInvariant_of_prunes (hfixed : FixedSchedules P M S V list) {B : TaskRole → Graph P M S V → Prop}
    (hB : ∀ r g g', Graph.Prunes g g' → B r g → B r g') : TaskInvariant E fun t : StreamTask P M S V => B t.role t.graph where
  ran t g hran h := hB t.role t.graph g ((Graph.Prunes.movesPass hfixed).ran hran) h
  takeOutput t h := hB t.role t.graph _ (.of_eq rfl rfl rfl) h
  takeChangelogs t h := hB t.role t.graph _ (.of_eq rfl rfl rfl) h
  close t h := hB t.role t.graph _ (.of_eq rfl rfl rfl) h
  replay t t' hreplay h := by
    cases hreplay with
    | positions => exact h
    | dropPending => exact h
    | logging on => exact hB t.role t.graph _ (.of_eq rfl rfl rfl) h
    | wipe => exact hB t.role t.graph _ (.of_eq rfl rfl rfl) h
    | lookup => exact h
    | replayed => exact hB t.role t.graph _ (.of_eq rfl rfl rfl) h
    | interrupted => exact hB t.role t.graph _ (.of_eq rfl rfl rfl) h
  moved _ _ _ h := h

/-- An active task has one set of schedules, and one that is to become active has none. -/
def Activated (list : P → List (ScheduleRequest P)) (W : TaskKey → Prop) (k : TaskKey) (r : TaskRole) (g : Graph P M S V) :
    Prop :=
  (r = .active → g.OneSet list) ∧ (r ≠ .active → W k → g.schedules = [])

omit [StateStore S V] [Processor P M S V] in
theorem Graph.Prunes.schedules_nil {g g' : Graph P M S V} (h : Prunes g g') (hg : g.schedules = []) : g'.schedules = [] := by
  have hsub := h.sublist
  rw [hg] at hsub
  exact List.map_eq_nil_iff.mp (List.sublist_nil.mp hsub)

omit [StateStore S V] [Processor P M S V] in
theorem Activated.prunes {W : TaskKey → Prop} {k : TaskKey} (r : TaskRole) (g g' : Graph P M S V) (hp : Graph.Prunes g g')
    (h : Activated list W k r g) : Activated list W k r g' :=
  ⟨fun hr => (h.1 hr).prunes hp, fun hr hw => hp.schedules_nil (h.2 hr hw)⟩

variable {C : List Event → Prop} (hC : PrefixClosed C) (hfixed : FixedSchedules P M S V list) {G : Bool → Prop}

include hfixed

omit [Broker E] in
theorem init_oneSet {r : TaskRole} :
    Spec C (TaskInvariant.holds (E := E) G fun t : StreamTask P M S V => t.role = r ∧ t.graph.schedules = []) StreamTask.init
      (fun _ => TaskInvariant.holds G fun t => t.role = r ∧ t.graph.OneSet list)
      fun _ => TaskInvariant.holds G fun t => t.role = r ∧ t.graph.schedules = [] := by
  rintro h ⟨t, w⟩ hs _
  unfold StreamTask.init
  rw [StreamTask.runGraph_cases]
  exact ⟨hs.1, hs.2.1, Graph.oneSet_initProcessors hfixed hs.2.2⟩

include hC

theorem promote_oneSet {r : TaskRole} :
    Spec C (TaskInvariant.holds (E := E) G fun t : StreamTask P M S V => t.role = r ∧ t.graph.schedules = [])
      StreamThread.promote (fun _ => TaskInvariant.holds G fun t => t.role = r ∧ t.graph.OneSet list)
      fun _ => TaskInvariant.holds G fun t => t.role = r ∧ t.graph.schedules = [] := by
  have hI : TaskInvariant E fun t : StreamTask P M S V => t.role = r ∧ t.graph.schedules = [] :=
    taskInvariant_of_prunes hfixed (B := fun r' g => r' = r ∧ g.schedules = []) fun _ _ _ hp h => ⟨h.1, hp.schedules_nil h.2⟩
  exact Spec.bind hC (hI.quiet.restore_spec hC) fun _ => Spec.bind hC (hI.quiet.seekToStart_spec hC) fun _ =>
    init_oneSet hfixed

theorem startTask_oneSet {r : TaskRole} :
    Spec C (TaskInvariant.holds (E := E) G fun t : StreamTask P M S V => t.role = r ∧ t.graph.schedules = [])
      StreamThread.startTask (fun _ => TaskInvariant.holds G fun t => t.role = r ∧ t.graph.OneSet list)
      fun _ => TaskInvariant.holds G fun t => t.role = r ∧ t.graph.schedules = [] := by
  have hI : TaskInvariant E fun t : StreamTask P M S V => t.role = r ∧ t.graph.schedules = [] :=
    taskInvariant_of_prunes hfixed (B := fun r' g => r' = r ∧ g.schedules = []) fun _ _ _ hp h => ⟨h.1, hp.schedules_nil h.2⟩
  exact Spec.bind hC (hI.quiet.seekToStart_spec hC) fun _ => Spec.bind hC (hI.quiet.restore_spec hC) fun _ =>
    init_oneSet hfixed

variable [LawfulStateStore S] [LawfulProcessor P M S V]

theorem changeRole_activated {W : TaskKey → Prop} {k : TaskKey} {role : TaskRole} (hrole : W k ↔ role = .active) :
    Keeps C (TaskInvariant.holds (E := E) G fun t : StreamTask P M S V => Activated list W k t.role t.graph)
      (StreamThread.changeRole role) := by
  refine StreamTask.spec_current fun t => Spec.ite (fun _ => Spec.pure fun _ _ hs => hs.2) fun hne => ?_
  refine Spec.bind hC (R := fun _ => TaskInvariant.holds G fun t' => role = .active → t'.graph.OneSet list) ?_ fun _ =>
    StreamTask.spec_update fun _ _ hs => ⟨hs.1, hs.2, fun hr hw => absurd (hrole.mp hw) hr⟩
  refine Spec.ite (fun hnew => ?_) fun hnew => Spec.ite (fun hold => ?_) fun _ => ?_
  · -- a promotion
    have ht : t.role ≠ .active := fun ht => hne (ht.trans hnew.symm)
    refine (promote_oneSet (r := t.role) hC hfixed).mono (fun h s hs => ?_) (fun _ _ _ hs => ⟨hs.1, fun _ => hs.2.2⟩) fun _ _ _ hs => ?_
    · obtain ⟨hown, hG, hs⟩ := hs
      rw [hown] at hs
      exact ⟨hG, hown ▸ rfl, hown ▸ hs.2 ht (hrole.mpr hnew)⟩
    · exact ⟨hs.1, fun hr => absurd (hs.2.1.symm.trans hr) ht, fun _ _ => hs.2.2⟩
  · -- a demotion
    have hI : TaskInvariant E fun t : StreamTask P M S V => t.role = .active ∧ t.graph.OneSet list :=
      taskInvariant_of_prunes hfixed (B := fun r g => r = .active ∧ g.OneSet list) fun _ _ _ hp h => ⟨h.1, h.2.prunes hp⟩
    refine (hI.retire hC).mono (fun h s hs => ?_) (fun _ _ _ hs => ⟨hs.1, fun hr => absurd hr hnew⟩) fun _ _ _ hs =>
      ⟨hs.1, fun _ => hs.2.2, fun hr => absurd hs.2.1 hr⟩
    obtain ⟨hown, hG, hs⟩ := hs
    rw [hown] at hs
    exact ⟨hG, hown ▸ hold, hown ▸ hs.1 hold⟩
  · exact Spec.pure fun _ _ hs => ⟨hs.2.1, fun hr => absurd hr hnew⟩

end Tasks

section Runs

open StreamThread

variable {E : Type} [Broker E] [StateStore S V] [Processor P M S V] [LawfulStateStore S] [LawfulProcessor P M S V]

omit [Processor P M S V] [LawfulStateStore S] [LawfulProcessor P M S V] in
theorem BuiltTopology.instantiate_schedules {b : BuiltTopology P M S V} {app : String} {cache : Nat}
    (hg : b.instantiate app cache = .ok g) : g.schedules = [] := by
  obtain ⟨nodes, -, hg⟩ := Runs.bind_eq_ok.mp hg
  cases hg
  rfl

def activation (E : Type) (list : P → List (ScheduleRequest P)) (W : TaskKey → Prop) : ThreadInvariant E P M S V :=
  .ofTasks E fun k t => Activated list W k t.role t.graph

variable {C : List Event → Prop} (hC : PrefixClosed C) (hfixed : FixedSchedules P M S V list) {g : ProcessingGuarantee}

include hC hfixed

theorem activation_polls (W : TaskKey → Prop) : (activation (M := M) (S := S) (V := V) E list W).Polls C g :=
  TaskInvariant.polls hC (fun k => taskInvariant_of_prunes hfixed (Activated.prunes (k := k)))
    (fun _ t _ h => h.prunes t.role t.graph _ (.of_eq rfl rfl rfl)) fun _ _ _ h => h

theorem assigning_activated (a : StreamsAssignment) (topology : BuiltTopology P M S V) (b : Bool) :
    Keeps C ((activation E list fun k => roleOf a k = some .active).resting g b) (ThreadInvariant.assigning a topology) := by
  have hwants : ∀ e ∈ desired a, roleOf a e.1 = some .active ↔ e.2.1 = .active := fun e he => by
    rw [roleOf_of_mem he, Option.some.injEq]
  refine (activation_polls hC hfixed _).assign_spec hC a topology
    (ThreadInvariant.Polls.removeTask_spec fun key => ?_) (fun e he => ?_) fun e he => ?_
  · exact ((taskInvariant_of_prunes hfixed (Activated.prunes (W := fun k => roleOf a k = some .active)
      (k := key))).retire hC (G := (· = b))).mono
      (fun _ _ hs => ⟨hs.1.1.2, hs.1.2⟩) (fun _ _ _ hs => ⟨trivial, hs.1⟩) fun _ _ _ hs => ⟨trivial, hs.1⟩
  · exact (changeRole_activated hC hfixed (G := (· = b)) (W := fun k => roleOf a k = some .active) (k := e.1)
      (hwants e he)).mono (fun _ _ hs => ⟨hs.1.2, hs.2⟩)
      (fun _ _ _ hs => ⟨⟨trivial, hs.1⟩, hs.2⟩) fun _ _ _ hs => ⟨⟨trivial, hs.1⟩, hs.2⟩
  · refine ThreadInvariant.Polls.addTask_spec topology e.1 e.2.1 e.2.2 fun app cache graph hgraph globals => ?_
    have hnone := BuiltTopology.instantiate_schedules hgraph
    refine Spec.ite (fun hrole => ?_) fun hrole => Spec.pure fun h s hs => ?_
    · refine (startTask_oneSet hC hfixed (G := (· = b)) (r := .active)).mono (fun h s hs => ?_) (fun _ _ _ hs => ?_)
        fun _ _ _ hs => ⟨trivial, hs.1⟩
      · exact ⟨hs.1.2, by rw [hs.2]; exact hrole, by rw [hs.2]; exact hnone⟩
      · exact ⟨⟨trivial, hs.1⟩, fun _ => hs.2.2, fun hr => absurd hs.2.1 hr⟩
    · refine ⟨hs.1, ?_⟩
      rw [hs.2]
      exact ⟨fun hr => absurd hr hrole, fun _ _ => hnone⟩

def Scheduling (E : Type) (list : P → List (ScheduleRequest P)) (g : ProcessingGuarantee) (s : ThreadState E P M S V) : Prop :=
  (activation E list fun _ => False).calm g [] s

omit hC in
theorem scheduling_perform (c : Call P M S V) (s : ThreadState E P M S V) (h : Scheduling E list g s)
    (hc : PromotesUnscheduled c s) : Scheduling E list g ((perform g c).final s) := by
  have hC : PrefixClosed fun _ : List Event => True := fun _ _ _ => trivial
  rcases c with ⟨a, topology⟩ | _ | _
  · -- what is asked of the call is what the invariant adds for the tasks that are to become active
    have hwants : (activation E list fun k => roleOf a k = some .active).calm g [] s :=
      h.imp (fun ⟨b, hidle, htasks, hown⟩ => ⟨b, hidle, fun e he => ⟨(htasks e he).1, hc e he⟩, hown⟩) id
    have hrun := ((activation_polls hC hfixed _).perform_spec hC (.applyAssignment a topology) fun a' topology' heq b => by
      cases heq
      exact assigning_activated hC hfixed a topology b).after hwants trivial
    exact hrun.imp (fun ⟨b, hidle, htasks, hown⟩ => ⟨b, hidle, fun e he => ⟨(htasks e he).1, fun _ hw => hw.elim⟩, hown⟩) id
  · exact ((activation_polls hC hfixed _).perform_spec hC .pollAll fun _ _ heq => by cases heq).after h trivial
  · exact ((activation_polls hC hfixed _).perform_spec hC .commitAll fun _ _ heq => by cases heq).after h trivial

omit hC [Broker E] [LawfulStateStore S] [LawfulProcessor P M S V] in
theorem Graph.Prunes.within {g g' : Graph P M S V} (h : g.Within g') : Prunes g g' := by
  have hmoves := movesPass hfixed
  induction h with
  | here => exact refl g
  | pipe topic partition offset key value timestamp _ ih => exact ih.trans (hmoves.pipe _ topic partition offset key value timestamp)
  | takeOutput _ ih => exact ih.trans (of_eq rfl rfl rfl)
  | drainChangelogs _ _ ih => exact ih.trans (of_eq rfl rfl rfl)
  | punctuateStreamTime streamTime _ ih => exact ih.trans (hmoves.ran (.punctuateStreamTime streamTime))

omit hC in
/-- In every run of a new thread in which an assignment makes a task active only when nothing is scheduled in its graph,
an active task has one set of schedules at every point, and every pass fires each of them at most once. -/
theorem schedulesOnce_of_promotes (calls : List (Call P M S V)) (app : String) (cache : Nat) (group : Option String)
    {w : World E} (hw : w.begun = false) (hmeets : Meets g PromotesUnscheduled calls ⟨.new app cache group, w⟩) :
    Throughout g (SchedulesOnce list) calls ⟨.new app cache group, w⟩ := by
  have hstart : Scheduling E list g (⟨.new app cache group, w⟩ : ThreadState E P M S V) :=
    .inr ⟨false, ⟨trivial, hw⟩, fun e he => (List.not_mem_nil he).elim, rfl, rfl⟩
  refine Eff.throughout_of_meets (scheduling_perform hfixed) (fun s hs e he hrole g' hg' => ?_) calls _ hstart hmeets
  rcases hs with ⟨b, hs⟩ | ⟨b, hs⟩
  · exact (((hs.2.1 e he).1 hrole).prunes (.within hfixed hg')).scheduled
  · exact (hs.2.1 e he).elim

end Runs

def Relay.schedules : Relay → List (ScheduleRequest Relay)
  | .ticker interval => [⟨interval, .wallClockTime, .ticker interval, 0⟩]
  | .forward | .refuse => []

theorem Relay.fixedSchedules {S : Type} : FixedSchedules Relay Unit S (Value Bytes) Relay.schedules where
  init p _ _ := by cases p <;> rfl
  process p _ _ _ _ h := by cases p <;> cases h <;> rfl
  punctuate _ _ _ _ := rfl

def tickerStart : ThreadState Script Relay Unit (KeyValueBytesStore Bytes) (Value Bytes) :=
  ⟨.new "app" 0 none, (⟨[("in", [⟨0, none, some [7], 5⟩])], [], 30, [], [], []⟩ : Script).world (.broker [])⟩

def roleCalls (roles : List TaskRole) : List (StreamThread.Call Relay Unit (KeyValueBytesStore Bytes) (Value Bytes)) :=
  roles.flatMap fun r => assign (relayTopology (.ticker 10)) (oneTask r) ++ [.pollAll, .commitAll]

theorem schedulesOnce_ticker : StreamThread.Throughout .atLeastOnce (StreamThread.SchedulesOnce Relay.schedules)
    (roleCalls [.standby, .warmup, .active, .standby, .warmup]) tickerStart :=
  schedulesOnce_of_promotes Relay.fixedSchedules _ "app" 0 none rfl (by decide +kernel)

/-- A task that was active before is made active again: its graph holds the ticker twice. -/
theorem not_schedulesOnce_ticker : ¬ StreamThread.Throughout .atLeastOnce (StreamThread.SchedulesOnce Relay.schedules)
    (roleCalls [.active, .standby, .active]) tickerStart := by
  intro h
  let tasks := (StreamThread.run .atLeastOnce (roleCalls [.active, .standby, .active]) tickerStart).1.own.tasks
  have hcounts : (tasks.get? ("0", 0)).map (fun t => (t.role, ((t.graph.schedules.map ScheduleEntry.request).filter
      t.graph.unset).length, ((t.graph.expected Relay.schedules).filter t.graph.unset).length)) = some (.active, 2, 1) := by
    decide +kernel
  obtain ⟨t, ht, hcounts⟩ := Option.map_eq_some_iff.mp hcounts
  obtain ⟨hrole, htwo, hone⟩ : _ ∧ _ ∧ _ := by simpa only [Prod.mk.injEq] using hcounts
  have hend : StreamThread.SchedulesOnce Relay.schedules (StreamThread.run .atLeastOnce (roleCalls [.active, .standby, .active])
    tickerStart).1 := h.last
  have hset := (hend (("0", 0), t) (OrdMap.mem_of_get?_eq_some ht) hrole _ .here).oneSet
  rw [hset, hone] at htwo
  cases htwo

end KrabkaStreams
