import KrabkaStreams.Membership
import KrabkaStreams.Stores.KeyValue

/-!
# The heartbeats of a member

A turn has one of three outcomes, and each keeps what the state remembers of the beats before it
(`Remembers.turn`), so every beat follows the protocol (`follows_run`). The owned lists and the last
assignment are kept in step (`InStep.turn`).
-/

namespace KrabkaStreams

namespace Membership

variable {P M S V : Type} [StateStore S V] {m : Member P M S V} {s : CoordinatorState} {reply : Reply}

theorem success?_eq_some {r : Response} : success? reply = some r ↔ reply = .ok r ∧ r.errorCode = 0 := by
  rcases reply with e | r'
  · simp [success?]
  · simp only [success?, Except.ok.injEq]
    split
    · simp only [Option.some.injEq, iff_self_and]
      rintro rfl
      assumption
    · simp only [reduceCtorEq, false_iff, not_and]
      rintro rfl
      assumption

theorem success?_of_fences (h : fences reply = true) : success? reply = none := by
  rcases reply with e | r
  · rfl
  · have h := of_decide_eq_true h
    simp only [fencedMemberEpoch, unknownMemberId, staleMemberEpoch] at h
    exact if_neg (by omega)

theorem nextRequest_join (h : s.memberEpoch = 0) :
    nextRequest m s = (joinHeartbeat m, { s with lastSentTasks := none }) := if_pos h

theorem nextRequest_steady (h : s.memberEpoch ≠ 0) : nextRequest m s =
    (steadyHeartbeat m s.memberEpoch (if s.lastSentTasks = some s.owned then none else some s.owned),
      { s with lastSentTasks := some s.owned }) := by
  unfold nextRequest CoordinatorState.changedTaskLists
  by_cases hsent : s.lastSentTasks = some s.owned
  · simp only [if_neg h, if_pos hsent]
    rw [← hsent]
  · simp only [if_neg h, if_neg hsent]

theorem nextRequest_epoch : (nextRequest m s).1.memberEpoch = s.memberEpoch := by
  by_cases h : s.memberEpoch = 0
  · rw [nextRequest_join h, h]
    rfl
  · rw [nextRequest_steady h]
    rfl

theorem nextRequest_snd (m : Member P M S V) (s : CoordinatorState) :
    ∃ sent, (nextRequest m s).2 = { s with lastSentTasks := sent } := by
  by_cases h : s.memberEpoch = 0
  · exact ⟨none, by rw [nextRequest_join h]⟩
  · exact ⟨some s.owned, by rw [nextRequest_steady h]⟩

@[simp] theorem lists?_steadyHeartbeat (epoch : Int) (lists : Option TaskLists) :
    (steadyHeartbeat m epoch lists).lists? = lists := by
  cases lists <;> rfl

theorem emitResponse_eq (m : Member P M S V) (s : CoordinatorState) (r : Response) :
    emitResponse m s r =
      { s with
        ownedActive := r.activeTasks.getD s.ownedActive
        ownedStandby := r.standbyTasks.getD s.ownedStandby
        ownedWarmup := r.warmupTasks.getD s.ownedWarmup
        lastAssignment := adoptAssignment m.topology s.lastAssignment r
        events := s.events ++ statusEvents r ++
          if adoptAssignment m.topology s.lastAssignment r = s.lastAssignment then []
          else [.assigned (adoptAssignment m.topology s.lastAssignment r)] } := by
  unfold emitResponse assignmentEvent
  dsimp only
  split
  · rename_i h
    rw [h]
    rfl
  · rfl

/-! ### One turn -/

theorem turn_ok {r : Response} (h : success? reply = some r) :
    (turn m s reply).2 = emitResponse m { (nextRequest m s).2 with memberEpoch := r.memberEpoch } r := by
  obtain ⟨rfl, hr⟩ := success?_eq_some.mp h
  simp [turn, heartbeatOnce, sendAndAdopt, hr]

theorem turn_fenced (h : fences reply = true) :
    (turn m s reply).2 =
      ({ (nextRequest m s).2 with lastSentTasks := none } : CoordinatorState).resetForRejoin.send .fenced := by
  have hs := success?_of_fences h
  rcases reply with e | r
  · cases h
  · have hr : r.errorCode ≠ 0 := fun h0 => by simp [success?, h0] at hs
    have hf := of_decide_eq_true h
    simp [turn, heartbeatOnce, sendAndAdopt, hr, hf]

theorem turn_transient (hs : success? reply = none) (hf : fences reply = false) :
    (turn m s reply).2 = { (nextRequest m s).2 with lastSentTasks := none } := by
  rcases reply with e | r
  · simp [turn, heartbeatOnce, sendAndAdopt]
  · have hr : r.errorCode ≠ 0 := fun h0 => by simp [success?, h0] at hs
    have hf := of_decide_eq_false hf
    simp [turn, heartbeatOnce, sendAndAdopt, hr, hf]

theorem turn_initial (m : Member P M S V) {join : Response} (h : join.errorCode = 0) :
    turn m .initial (.ok join) = (⟨joinHeartbeat m, .ok join⟩, start m join) := by
  refine Prod.ext rfl ?_
  rw [turn_ok (success?_eq_some.mpr ⟨rfl, h⟩), emitResponse_eq, nextRequest_join rfl]
  have hadopt : adoptAssignment m.topology noTasks join =
      ⟨resolve join.activeTasks m.topology, resolve join.standbyTasks m.topology, resolve join.warmupTasks m.topology⟩ := by
    unfold adoptAssignment
    rcases join.activeTasks <;> rcases join.standbyTasks <;> rcases join.warmupTasks <;> rfl
  simp only [CoordinatorState.initial, start, hadopt, List.nil_append]

theorem run_snoc (m : Member P M S V) (reply : Reply) : ∀ (replies : List Reply) (s : CoordinatorState),
    run m s (replies ++ [reply]) =
      ((run m s replies).1 ++ [(turn m (run m s replies).2 reply).1], (turn m (run m s replies).2 reply).2)
  | [], s => rfl
  | r :: rest, s => by
    simp only [List.cons_append, run, run_snoc m reply rest]

/-! ### The protocol -/

theorem lastEpoch_snoc (h : List Beat) (b : Beat) :
    lastEpoch (h ++ [b]) = ((success? b.reply).map (·.memberEpoch)).or (lastEpoch h) := by
  unfold lastEpoch
  cases hb : success? b.reply <;> simp [hb]

theorem ownedSinceJoin_snoc (h : List Beat) (b : Beat) : ownedSinceJoin (h ++ [b]) =
    (success? b.reply).elim (if b.joins then ⟨[], [], []⟩ else ownedSinceJoin h)
      (if b.joins then ⟨[], [], []⟩ else ownedSinceJoin h).adopt := by
  unfold ownedSinceJoin
  rw [Effect.fromLast_snoc]
  cases hb : success? b.reply <;> cases b.joins <;> simp [hb]

theorem lastCarried_snoc (h : List Beat) (b : Beat) : lastCarried (h ++ [b]) =
    if b.joins || b.fails then none else b.request.lists?.or (lastCarried h) := by
  unfold lastCarried
  rw [Effect.sinceLast_snoc]
  split
  · rfl
  · cases hb : b.request.lists? <;> simp [hb]

/-- What the state knows of the beats before. A member at epoch 0 owns nothing. -/
structure Remembers (h : List Beat) (s : CoordinatorState) : Prop where
  nonneg : 0 ≤ s.memberEpoch
  fresh : s.memberEpoch = 0 → s.owned = ⟨[], [], []⟩
  epoch : s.memberEpoch ≠ 0 → lastEpoch h = some s.memberEpoch
  owned : s.memberEpoch ≠ 0 → s.owned = ownedSinceJoin h
  sent : s.memberEpoch ≠ 0 → s.lastSentTasks = lastCarried h

namespace Remembers

variable {h : List Beat}

theorem follows (hs : Remembers h s) (reply : Reply) : Follows m h (turn m s reply).1 := by
  have hepoch : (turn m s reply).1.request.memberEpoch = s.memberEpoch := nextRequest_epoch
  have hsteady : s.memberEpoch ≠ 0 → (turn m s reply).1.request = steadyHeartbeat m s.memberEpoch
      (if lastCarried h = some (ownedSinceJoin h) then none else some (ownedSinceJoin h)) := fun hne => by
    show (nextRequest m s).1 = _
    rw [nextRequest_steady hne, hs.owned hne, hs.sent hne]
  refine ⟨hepoch ▸ hs.nonneg, fun h0 => ?_, fun hpos => ?_, fun hpos => ?_⟩
  · have hjoin : (turn m s reply).1.request = joinHeartbeat m :=
      congrArg Prod.fst (nextRequest_join (hepoch.symm.trans h0))
    rw [hjoin]
    exact ⟨rfl, rfl⟩
  · have hne : s.memberEpoch ≠ 0 := by omega
    rw [hepoch, hsteady hne, lists?_steadyHeartbeat, hs.epoch hne]
    refine ⟨rfl, rfl, ?_⟩
    split
    · exact .inr ⟨rfl, rfl, rfl⟩
    · exact .inl rfl
  · rw [hsteady (by omega), lists?_steadyHeartbeat]
    split <;> simp_all

theorem turn (hs : Remembers h s) (reply : Reply) (hreply : ∀ r ∈ success? reply, 1 ≤ r.memberEpoch) :
    Remembers (h ++ [(turn m s reply).1]) (turn m s reply).2 := by
  have hjoins : (Membership.turn m s reply).1.joins = decide (s.memberEpoch = 0) := by
    rw [Beat.joins, show (Membership.turn m s reply).1.request.memberEpoch = s.memberEpoch from nextRequest_epoch]
  have hfails : (Membership.turn m s reply).1.fails = (success? reply).isNone := rfl
  obtain ⟨sent, hsent⟩ := nextRequest_snd m s
  rcases hr : success? reply with _ | r
  · cases hf : fences reply with
    | true =>
      rw [turn_fenced hf]
      exact ⟨le_rfl, fun _ => rfl, fun h => absurd rfl h, fun h => absurd rfl h, fun h => absurd rfl h⟩
    | false =>
      rw [turn_transient hr hf]
      rw [hsent]
      refine ⟨hs.nonneg, hs.fresh, fun hne => ?_, fun hne => ?_, fun _ => ?_⟩
      · rw [lastEpoch_snoc]
        show ((success? reply).map _).or _ = some s.memberEpoch
        rw [hr]
        exact hs.epoch hne
      · rw [ownedSinceJoin_snoc, hjoins]
        show s.owned = (success? reply).elim _ _
        rw [hr, hs.owned hne]
        exact (if_neg (by simpa using hne)).symm
      · rw [lastCarried_snoc, hfails, hr]
        simp
  · rw [turn_ok hr, emitResponse_eq]
    have hpos := hreply r hr
    have hne : r.memberEpoch ≠ 0 := by omega
    refine ⟨by show 0 ≤ r.memberEpoch; omega, fun h => absurd h hne, fun _ => ?_, fun _ => ?_, fun _ => ?_⟩
    · rw [lastEpoch_snoc]
      simp [show (Membership.turn m s reply).1.reply = reply from rfl, hr]
    · rw [ownedSinceJoin_snoc, hjoins]
      show TaskLists.adopt (nextRequest m s).2.owned r = (success? reply).elim _ _
      rw [hr, hsent]
      show TaskLists.adopt s.owned r = TaskLists.adopt (if _ then _ else _) r
      by_cases h0 : s.memberEpoch = 0
      · simp [h0, hs.fresh h0]
      · simp [h0, hs.owned h0]
    · rw [lastCarried_snoc, hjoins, hfails, hr]
      show (nextRequest m s).2.lastSentTasks = if _ then none else (nextRequest m s).1.lists?.or _
      by_cases h0 : s.memberEpoch = 0
      · rw [nextRequest_join h0]
        simp [h0]
      · rw [nextRequest_steady h0, lists?_steadyHeartbeat, ← hs.sent h0]
        by_cases hsent : s.lastSentTasks = some s.owned <;> simp [h0, hsent]

end Remembers

theorem remembers_run (m : Member P M S V) (replies : List Reply)
    (hreplies : ∀ reply ∈ replies, ∀ r ∈ success? reply, 1 ≤ r.memberEpoch) :
    Effect.Always (Follows m) (run m .initial replies).1 ∧ Remembers (run m .initial replies).1 (run m .initial replies).2 := by
  induction replies using List.reverseRecOn with
  | nil => exact ⟨.nil, le_rfl, fun _ => rfl, fun h => absurd rfl h, fun h => absurd rfl h, fun h => absurd rfl h⟩
  | append_singleton replies reply ih =>
    obtain ⟨hfollows, hs⟩ := ih fun x hx => hreplies x (List.mem_append_left _ hx)
    rw [run_snoc]
    exact ⟨hfollows.snoc (hs.follows reply), hs.turn reply (hreplies reply (by simp))⟩

/-- Whatever the replies are, every heartbeat of a member follows the protocol. -/
theorem follows_run (m : Member P M S V) (replies : List Reply)
    (hreplies : ∀ reply ∈ replies, ∀ r ∈ success? reply, 1 ≤ r.memberEpoch) :
    Effect.Always (Follows m) (run m .initial replies).1 :=
  (remembers_run m replies hreplies).1

def soloMember : Member Unit Unit (KeyValueBytesStore Bytes) (Value Bytes) :=
  ⟨"app", "member", "process", none, 45000, ⟨[("0", ["in"])], [], [], [], [], [], [], [], [], (), 0⟩, ⟨0, []⟩⟩

def rejoins : List Reply :=
  [.ok ⟨0, 1, none, some [⟨"0", [0]⟩], none, none⟩, .ok ⟨0, 1, none, none, none, none⟩, .ok ⟨0, 2, none, none, none, none⟩,
    .error "timed out", .ok ⟨110, 0, none, none, none, none⟩, .ok ⟨0, 5, none, some [], none, none⟩]

theorem follows_rejoins : Effect.Always (Follows soloMember) (run soloMember .initial rejoins).1 ∧
    (run soloMember .initial rejoins).1.map (·.request.memberEpoch) = [0, 1, 1, 2, 2, 0] :=
  ⟨follows_run soloMember rejoins (by decide), by decide⟩

/-! ### The assignment -/

section Assignment

variable {topology : BuiltTopology P M S V}

variable (topology) in
theorem assignmentOf_snoc (replies : List Reply) (reply : Reply) : assignmentOf topology (replies ++ [reply]) =
    if fences reply then noTasks
    else (success? reply).elim (assignmentOf topology replies) (adoptAssignment topology (assignmentOf topology replies)) := by
  have hrole : ∀ role : Response → Option (List TaskIds), roleTasks topology role (replies ++ [reply]) =
      if fences reply then [] else (success? reply).elim (roleTasks topology role replies) fun r =>
        if (role r).isSome then resolve (role r) topology else roleTasks topology role replies := by
    intro role
    unfold roleTasks
    rw [Effect.sinceLast_snoc]
    split
    · rfl
    · rcases hr : success? reply with _ | r
      · simp [hr]
      · cases hrole : role r <;> simp [hr, hrole]
  simp only [assignmentOf, hrole]
  split
  · rfl
  · cases success? reply <;> rfl

theorem adoptAssignment_resolved (lists : TaskLists) (r : Response) :
    adoptAssignment topology (lists.resolved topology) r = (lists.adopt r).resolved topology := by
  simp only [adoptAssignment, TaskLists.adopt, TaskLists.resolved]
  rcases r.activeTasks <;> rcases r.standbyTasks <;> rcases r.warmupTasks <;> rfl

theorem announced_snoc (events : List StreamsEvent) (ev : StreamsEvent) :
    announced (events ++ [ev]) = if ev = .fenced then noTasks else ev.assigned?.getD (announced events) := by
  unfold announced
  rw [Effect.sinceLast_snoc]
  cases ev <;> simp [StreamsEvent.assigned?]

theorem announced_statusEvents (events : List StreamsEvent) (r : Response) :
    announced (events ++ statusEvents r) = announced events := by
  unfold statusEvents
  split
  · rw [announced_snoc]
    rfl
  · rw [List.append_nil]

/-- The last assignment is what the responses made of it, the owned lists name it, and the events tell it. -/
structure InStep (topology : BuiltTopology P M S V) (replies : List Reply) (s : CoordinatorState) : Prop where
  last : s.lastAssignment = assignmentOf topology replies
  owned : s.owned.resolved topology = s.lastAssignment
  told : announced s.events = s.lastAssignment

theorem InStep.turn {replies : List Reply} (h : InStep m.topology replies s) (reply : Reply) :
    InStep m.topology (replies ++ [reply]) (turn m s reply).2 := by
  obtain ⟨sent, hsent⟩ := nextRequest_snd m s
  have hsnoc := assignmentOf_snoc m.topology replies reply
  cases hf : fences reply with
  | true =>
    rw [turn_fenced hf, hsent]
    rw [hf] at hsnoc
    refine ⟨hsnoc.symm, rfl, ?_⟩
    exact (announced_snoc _ _).trans (if_pos rfl)
  | false =>
    rw [hf, if_neg (by simp)] at hsnoc
    rcases hr : success? reply with _ | r
    · rw [turn_transient hr hf, hsent]
      rw [hr] at hsnoc
      exact ⟨h.last.trans hsnoc.symm, h.owned, h.told⟩
    · rw [turn_ok hr, emitResponse_eq, hsent]
      rw [hr, ← h.last] at hsnoc
      refine ⟨hsnoc.symm, ?_, ?_⟩
      · show (s.owned.adopt r).resolved m.topology = adoptAssignment m.topology s.lastAssignment r
        rw [← adoptAssignment_resolved, h.owned]
      · split
        · rename_i hsame
          rw [List.append_nil, announced_statusEvents, h.told, hsame]
        · rw [announced_snoc]
          rfl

theorem inStep_run (m : Member P M S V) (replies : List Reply) :
    InStep m.topology replies (run m .initial replies).2 := by
  induction replies using List.reverseRecOn with
  | nil => exact ⟨rfl, rfl, rfl⟩
  | append_singleton replies reply ih =>
    rw [run_snoc]
    exact ih.turn reply

/-- After every successful response the events sent since the last fence tell the assignment that the responses since
then make up, an event is sent exactly if it changed, and the owned lists name it. -/
theorem announced_run (m : Member P M S V) (before : List Reply) {r : Response} (hr : r.errorCode = 0) :
    announced (run m .initial (before ++ [.ok r])).2.events = assignmentOf m.topology (before ++ [.ok r]) ∧
    (∃ sent, (run m .initial (before ++ [.ok r])).2.events = (run m .initial before).2.events ++ sent ∧
      sent.filterMap StreamsEvent.assigned? =
        if assignmentOf m.topology (before ++ [.ok r]) = assignmentOf m.topology before then []
        else [assignmentOf m.topology (before ++ [.ok r])]) ∧
    (run m .initial (before ++ [.ok r])).2.owned.resolved m.topology = assignmentOf m.topology (before ++ [.ok r]) := by
  have hbefore := inStep_run m before
  have hafter := inStep_run m (before ++ [.ok r])
  refine ⟨hafter.told.trans hafter.last, ?_, hafter.owned.trans hafter.last⟩
  rw [← hafter.last, ← hbefore.last, run_snoc, turn_ok (success?_eq_some.mpr ⟨rfl, hr⟩), emitResponse_eq]
  obtain ⟨sent, hsent⟩ := nextRequest_snd m (run m .initial before).2
  rw [hsent]
  refine ⟨_, List.append_assoc _ _ _, ?_⟩
  have hstatus : (statusEvents r).filterMap StreamsEvent.assigned? = [] := by
    unfold statusEvents
    split <;> rfl
  rw [List.filterMap_append, hstatus]
  split <;> rfl

theorem announced_rejoins : announced (run soloMember .initial rejoins).2.events = noTasks ∧
    announced (run soloMember .initial (rejoins.take 4)).2.events = ⟨[⟨"0", [0], [⟨"in", 0⟩]⟩], [], []⟩ :=
  ⟨(announced_run soloMember (rejoins.take 5) rfl).1, by decide⟩

end Assignment

end Membership

end KrabkaStreams
