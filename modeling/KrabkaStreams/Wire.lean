import KrabkaStreams.Topology

/-!
# The wire topology

What a member tells the broker when it joins: the subtopologies by id, with sorted topics. A copartition
group travels as indices into the topic arrays of its subtopology.
-/

namespace KrabkaStreams

namespace Wire

structure KeyValue where
  key : String
  value : String
  deriving DecidableEq, Repr

/-- An internal topic. Zero partitions leave the count to the broker, as the negative replication
factor does. -/
structure TopicInfo where
  name : Topic
  partitions : Int
  replicationFactor : Int
  topicConfigs : List KeyValue
  deriving DecidableEq, Repr

structure CopartitionGroup where
  sourceTopics : List Int
  sourceTopicRegex : List Int
  repartitionSourceTopics : List Int
  deriving DecidableEq, Repr

structure Subtopology where
  subtopologyId : String
  sourceTopics : List Topic
  sourceTopicRegex : List String
  stateChangelogTopics : List TopicInfo
  repartitionSinkTopics : List Topic
  repartitionSourceTopics : List TopicInfo
  copartitionGroups : List CopartitionGroup
  deriving DecidableEq, Repr

structure Topology where
  epoch : Int
  subtopologies : List Subtopology
  deriving DecidableEq, Repr

def internalTopicDefaultRf : Int := -1

def repartitionSegmentSize : Int := 50 * 1024 * 1024

def topicConfigs (pairs : List (String × String)) : List KeyValue :=
  pairs.map fun p => ⟨p.1, p.2⟩

/-- The configurations of the internal topics: a cleanup policy, the timestamp type, and extents. -/
def internalTopicConfigs (policy : String) (extents : List (String × Int)) : List KeyValue :=
  topicConfigs ([("cleanup.policy", policy), ("message.timestamp.type", "CreateTime")] ++
    extents.map fun e => (e.1, toString e.2))

/-- A repartition topic has no retention bound, which the wire writes as `-1`. -/
def repartitionTopicConfigs : List KeyValue :=
  internalTopicConfigs "delete" [("retention.ms", -1), ("segment.bytes", repartitionSegmentSize)]

def changelogTopicConfigs : List KeyValue := internalTopicConfigs "compact" []

def windowedChangelogTopicConfigs (retention : Int) : List KeyValue :=
  internalTopicConfigs "compact,delete" [("retention.ms", retention)]

def versionedChangelogTopicConfigs (minCompactionLag : Int) : List KeyValue :=
  internalTopicConfigs "compact" [("min.compaction.lag.ms", minCompactionLag)]

def joinWindowChangelogTopicConfigs (retention : Int) : List KeyValue :=
  internalTopicConfigs "delete" [("retention.ms", retention)]

def kindConfigs : ChangelogKind → List KeyValue
  | .kv => changelogTopicConfigs
  | .aggWindow retention => windowedChangelogTopicConfigs retention
  | .joinWindow retention => joinWindowChangelogTopicConfigs retention
  | .versioned minCompactionLag => versionedChangelogTopicConfigs minCompactionLag

def wireIndex (i : Nat) : Int := if i ≤ 32767 then i else 32767

/-- A member is looked for among the source topics first. One that neither array has is left out. -/
def copartitionGroup (sources repartition members : List Topic) : CopartitionGroup where
  sourceTopics := (members.filterMap fun m => (sources.idxOf? m).map wireIndex).insertionSort (· ≤ ·)
  sourceTopicRegex := []
  repartitionSourceTopics := (members.filterMap fun m =>
    if m ∈ sources then none else (repartition.idxOf? m).map wireIndex).insertionSort (· ≤ ·)

def internalTopic (name : Topic) (configs : List KeyValue) : TopicInfo :=
  ⟨name, 0, internalTopicDefaultRf, configs⟩

def subtopology (g : GroupTopics) (app : String) : Subtopology :=
  let sourceTopics := g.sourceTopics.insertionSort (· ≤ ·)
  let repartitionSourceTopics := (g.repartitionSourceTopics.map fun name =>
    internalTopic name repartitionTopicConfigs).insertionSort (·.name ≤ ·.name)
  { subtopologyId := g.id
    sourceTopics := sourceTopics
    sourceTopicRegex := []
    stateChangelogTopics := (g.changelogStores.map fun s =>
      internalTopic (BuiltTopology.changelogName app s.1 s.2.1) (kindConfigs s.2.2)).insertionSort
        (·.name ≤ ·.name)
    repartitionSinkTopics := g.repartitionSinkTopics.insertionSort (· ≤ ·)
    repartitionSourceTopics := repartitionSourceTopics
    copartitionGroups := g.copartitionGroups.map
      (copartitionGroup sourceTopics (repartitionSourceTopics.map (·.name))) }

def toWire (groups : List GroupTopics) (app : String) : Topology where
  epoch := 0
  subtopologies := (groups.map (subtopology · app)).insertionSort (·.subtopologyId ≤ ·.subtopologyId)

end Wire

/-- The wire topology that `build` keeps: `to_wire_request` of what it returns. The hash map of the
groups is walked in the order `visit`. -/
def Topology.wire {P M S V : Type} [StateStore S V] (t : Topology P M S V) (visit : List Nat) (app : String) :
    Wire.Topology :=
  Wire.toWire (t.reg.groupNodes visit) app

end KrabkaStreams
