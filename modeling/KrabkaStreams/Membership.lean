import KrabkaStreams.Thread
import KrabkaStreams.Wire
import KrabkaStreams.Lib.History

/-!
# Group membership

The heartbeat loop of a member. It adopts the epoch and the task lists of a response, echoes the lists
it owns when they changed, and joins again when it is fenced. A beat takes the reply to its request as
an argument.
-/

namespace KrabkaStreams

namespace Membership

structure TaskIds where
  subtopologyId : String
  partitions : List Int
  deriving DecidableEq, Repr

structure TaskLists where
  active : List TaskIds
  standby : List TaskIds
  warmup : List TaskIds
  deriving DecidableEq, Repr

structure Request where
  groupId : String
  memberId : String
  memberEpoch : Int
  processId : Option String
  instanceId : Option String
  rebalanceTimeoutMs : Int
  topology : Option Wire.Topology
  activeTasks : Option (List TaskIds)
  standbyTasks : Option (List TaskIds)
  warmupTasks : Option (List TaskIds)
  deriving DecidableEq, Repr

structure Status where
  statusCode : Int
  statusDetail : String
  deriving DecidableEq, Repr

/-- `StreamsGroupHeartbeatResponse`. An absent task list leaves the tasks of its role as they are. -/
structure Response where
  errorCode : Int
  memberEpoch : Int
  status : Option (List Status)
  activeTasks : Option (List TaskIds)
  standbyTasks : Option (List TaskIds)
  warmupTasks : Option (List TaskIds)
  deriving DecidableEq, Repr

abbrev Reply := Except String Response

inductive StreamsStatus
  | staleTopology (detail : String)
  | missingSourceTopics (detail : String)
  | incorrectlyPartitionedTopics (detail : String)
  | missingInternalTopics (detail : String)
  | shutdownApplication
  | assignmentDelayed (detail : String)
  | unknown (code : Int) (detail : String)
  deriving DecidableEq, Repr

def mapStatus (s : Status) : StreamsStatus :=
  match s.statusCode with
  | 0 => .staleTopology s.statusDetail
  | 1 => .missingSourceTopics s.statusDetail
  | 2 => .incorrectlyPartitionedTopics s.statusDetail
  | 3 => .missingInternalTopics s.statusDetail
  | 4 => .shutdownApplication
  | 5 => .assignmentDelayed s.statusDetail
  | other => .unknown other s.statusDetail

inductive StreamsEvent
  | assigned (assignment : StreamsAssignment)
  | notReady (statuses : List StreamsStatus)
  | fenced
  deriving DecidableEq, Repr

inductive Outcome
  | ok
  | rejoin
  | transient
  deriving DecidableEq, Repr

def fencedMemberEpoch : Int := 110

def unknownMemberId : Int := 25

def staleMemberEpoch : Int := 113

structure TaskOffsetTracker where
  taskOffsets : OrdMap (String × Int) Int
  taskEndOffsets : OrdMap (String × Int) Int
  deriving DecidableEq, Repr

def noTasks : StreamsAssignment := ⟨[], [], []⟩

structure Member (P M S V : Type) [StateStore S V] where
  groupId : String
  memberId : String
  processId : String
  instanceId : Option String
  rebalanceTimeout : Int
  topology : BuiltTopology P M S V
  wire : Wire.Topology

structure CoordinatorState where
  memberEpoch : Int
  ownedActive : List TaskIds
  ownedStandby : List TaskIds
  ownedWarmup : List TaskIds
  lastSentTasks : Option TaskLists
  tracker : TaskOffsetTracker
  lastAssignment : StreamsAssignment
  events : List StreamsEvent
  deriving DecidableEq, Repr

variable (s : CoordinatorState)

namespace CoordinatorState

def initial : CoordinatorState := ⟨0, [], [], [], none, ⟨[], []⟩, noTasks, []⟩

def owned : TaskLists := ⟨s.ownedActive, s.ownedStandby, s.ownedWarmup⟩

def send (ev : StreamsEvent) : CoordinatorState :=
  { s with events := s.events ++ [ev] }

def resetForRejoin : CoordinatorState :=
  { s with
    memberEpoch := 0
    ownedActive := []
    ownedStandby := []
    ownedWarmup := []
    tracker := ⟨[], []⟩
    lastAssignment := noTasks }

def changedTaskLists : Option TaskLists × CoordinatorState :=
  if s.lastSentTasks = some s.owned then (none, s)
  else (some s.owned, { s with lastSentTasks := some s.owned })

end CoordinatorState

section

variable {P M S V : Type} [StateStore S V] (m : Member P M S V) (topology : BuiltTopology P M S V)
  (s : CoordinatorState) (r : Response)

def resolve (tasks : Option (List TaskIds)) (topology : BuiltTopology P M S V) : List TaskAssignment :=
  (tasks.getD []).map fun t =>
    ⟨t.subtopologyId, t.partitions,
      t.partitions.flatMap fun p => (topology.sourceTopicsFor t.subtopologyId).map fun topic => ⟨topic, p⟩⟩

/-- An omitted role keeps its previous assignment; an explicit empty list clears it. -/
def adoptAssignment (last : StreamsAssignment) (r : Response) : StreamsAssignment where
  active := if r.activeTasks.isSome then resolve r.activeTasks topology else last.active
  standby := if r.standbyTasks.isSome then resolve r.standbyTasks topology else last.standby
  warmup := if r.warmupTasks.isSome then resolve r.warmupTasks topology else last.warmup

def assignmentEvent (topology : BuiltTopology P M S V) (last : StreamsAssignment) :
    Option StreamsEvent × StreamsAssignment :=
  let assignment := adoptAssignment topology last r
  if assignment = last then (none, last) else (some (.assigned assignment), assignment)

def joinHeartbeat : Request where
  groupId := m.groupId
  memberId := m.memberId
  memberEpoch := 0
  processId := some m.processId
  instanceId := m.instanceId
  rebalanceTimeoutMs := m.rebalanceTimeout
  topology := some m.wire
  activeTasks := some []
  standbyTasks := some []
  warmupTasks := some []

def steadyHeartbeat (epoch : Int) (lists : Option TaskLists) : Request where
  groupId := m.groupId
  memberId := m.memberId
  memberEpoch := epoch
  processId := some m.processId
  instanceId := m.instanceId
  rebalanceTimeoutMs := m.rebalanceTimeout
  topology := none
  activeTasks := lists.map (·.active)
  standbyTasks := lists.map (·.standby)
  warmupTasks := lists.map (·.warmup)

def statusEvents : List StreamsEvent :=
  match r.status with
  | some (st :: rest) => [.notReady ((st :: rest).map mapStatus)]
  | _ => []

def emitResponse : CoordinatorState :=
  let (ev, last) := assignmentEvent r m.topology s.lastAssignment
  { s with
    ownedActive := r.activeTasks.getD s.ownedActive
    ownedStandby := r.standbyTasks.getD s.ownedStandby
    ownedWarmup := r.warmupTasks.getD s.ownedWarmup
    lastAssignment := last
    events := s.events ++ statusEvents r ++ ev.toList }

def sendAndAdopt : Reply → Outcome × CoordinatorState
  | .ok r =>
    if r.errorCode = 0 then (.ok, emitResponse m { s with memberEpoch := r.memberEpoch } r)
    else if r.errorCode = fencedMemberEpoch ∨ r.errorCode = unknownMemberId ∨ r.errorCode = staleMemberEpoch then
      (.rejoin, s)
    else (.transient, s)
  | .error _ => (.transient, s)

def nextRequest : Request × CoordinatorState :=
  if s.memberEpoch = 0 then (joinHeartbeat m, { s with lastSentTasks := none })
  else
    let (lists, s') := s.changedTaskLists
    (steadyHeartbeat m s.memberEpoch lists, s')

/-- One heartbeat. After a failed one the next reports the owned tasks again. -/
def heartbeatOnce (reply : Reply) : Request × Outcome × CoordinatorState :=
  let (request, s₁) := nextRequest m s
  let (outcome, s₂) := sendAndAdopt m s₁ reply
  (request, outcome, if outcome = .ok then s₂ else { s₂ with lastSentTasks := none })

structure Beat where
  request : Request
  reply : Reply

def turn (reply : Reply) : Beat × CoordinatorState :=
  let (request, outcome, s') := heartbeatOnce m s reply
  (⟨request, reply⟩, if outcome = .rejoin then s'.resetForRejoin.send .fenced else s')

def run (m : Member P M S V) (s : CoordinatorState) : List Reply → List Beat × CoordinatorState
  | [] => ([], s)
  | reply :: rest =>
    let (b, s') := turn m s reply
    let (bs, s'') := run m s' rest
    (b :: bs, s'')

def start (join : Response) : CoordinatorState :=
  let assignment : StreamsAssignment := ⟨resolve join.activeTasks m.topology, resolve join.standbyTasks m.topology,
    resolve join.warmupTasks m.topology⟩
  { memberEpoch := join.memberEpoch
    ownedActive := join.activeTasks.getD []
    ownedStandby := join.standbyTasks.getD []
    ownedWarmup := join.warmupTasks.getD []
    lastSentTasks := none
    tracker := ⟨[], []⟩
    lastAssignment := assignment
    events := statusEvents join ++ if assignment = noTasks then [] else [.assigned assignment] }

/-! What the replies of a run ask of a member, read off the history of its beats. -/

def success? : Reply → Option Response
  | .ok r => if r.errorCode = 0 then some r else none
  | .error _ => none

def fences : Reply → Bool
  | .ok r => r.errorCode = fencedMemberEpoch ∨ r.errorCode = unknownMemberId ∨ r.errorCode = staleMemberEpoch
  | .error _ => false

def Request.lists? (r : Request) : Option TaskLists :=
  match r.activeTasks, r.standbyTasks, r.warmupTasks with
  | some active, some standby, some warmup => some ⟨active, standby, warmup⟩
  | _, _, _ => none

def Beat.joins (b : Beat) : Bool := b.request.memberEpoch = 0

def Beat.fails (b : Beat) : Bool := (success? b.reply).isNone

def TaskLists.adopt (lists : TaskLists) (r : Response) : TaskLists :=
  ⟨r.activeTasks.getD lists.active, r.standbyTasks.getD lists.standby, r.warmupTasks.getD lists.warmup⟩

def lastEpoch (h : List Beat) : Option Int := (h.filterMap (success? ·.reply)).getLast?.map (·.memberEpoch)

def ownedSinceJoin (h : List Beat) : TaskLists :=
  ((Effect.fromLast Beat.joins h).filterMap (success? ·.reply)).foldl TaskLists.adopt ⟨[], [], []⟩

def lastCarried (h : List Beat) : Option TaskLists :=
  ((Effect.sinceLast (fun b => b.joins || b.fails) h).filterMap (·.request.lists?)).getLast?

/-- A join has the topology and three empty lists. A steady heartbeat has the epoch of the last
successful response, and the lists the member owns or none at all. -/
structure Follows (before : List Beat) (b : Beat) : Prop where
  epoch : 0 ≤ b.request.memberEpoch
  joins : b.request.memberEpoch = 0 → b.request.topology = some m.wire ∧ b.request.lists? = some ⟨[], [], []⟩
  steady : 0 < b.request.memberEpoch → b.request.topology = none ∧
    lastEpoch before = some b.request.memberEpoch ∧
    (b.request.lists? = some (ownedSinceJoin before) ∨
      b.request.activeTasks = none ∧ b.request.standbyTasks = none ∧ b.request.warmupTasks = none)
  omits : 0 < b.request.memberEpoch →
    (b.request.lists? = none ↔ lastCarried before = some (ownedSinceJoin before))

def TaskLists.resolved (lists : TaskLists) (topology : BuiltTopology P M S V) : StreamsAssignment :=
  ⟨resolve (some lists.active) topology, resolve (some lists.standby) topology, resolve (some lists.warmup) topology⟩

def StreamsEvent.assigned? : StreamsEvent → Option StreamsAssignment
  | .assigned a => some a
  | _ => none

/-- The last assignment sent since the last fence, or the empty one. -/
def announced (events : List StreamsEvent) : StreamsAssignment :=
  ((Effect.sinceLast (· = .fenced) events).filterMap StreamsEvent.assigned?).getLast?.getD noTasks

def roleTasks (role : Response → Option (List TaskIds)) (replies : List Reply) : List TaskAssignment :=
  ((Effect.sinceLast fences replies).filterMap success?).foldl
    (fun tasks r => match role r with
      | some l => resolve (some l) topology
      | none => tasks) []

def assignmentOf (replies : List Reply) : StreamsAssignment :=
  ⟨roleTasks topology (·.activeTasks) replies, roleTasks topology (·.standbyTasks) replies,
    roleTasks topology (·.warmupTasks) replies⟩

end

end Membership

end KrabkaStreams
