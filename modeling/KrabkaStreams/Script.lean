import KrabkaStreams.Processes
import KrabkaStreams.Stores.KeyValue
import KrabkaStreams.ThreadRewind

/-!
# A scripted environment and a few nodes

An environment with the logs of a broker whose producer answers from a script: each list holds the
outcomes of the next calls of one kind. `Relay` are nodes without stores. The concrete runs use both.
-/

namespace KrabkaStreams

structure Script where
  logs : OrdMap Topic (List FetchedRec)
  committed : OrdMap (Topic × Int) Int
  now : Int
  sends : List (Option StreamsClientError)
  deliveries : List (Option StreamsClientError)
  cuts : List BarrierCut

namespace Script

def next : List (Option StreamsClientError) → Except StreamsClientError Unit × List (Option StreamsClientError)
  | [] => (.ok (), [])
  | none :: rest => (.ok (), rest)
  | some e :: rest => (.error e, rest)

def log (s : Script) (topic : Topic) : List FetchedRec := (s.logs.get? topic).getD []

def store (s : Script) (offsets : Offsets) : Script :=
  { s with committed := offsets.foldl (fun m o => m.insert (o.1, o.2.1) o.2.2) s.committed }

end Script

instance : Broker Script where
  fetch s topic _ offset _ := (.ok ⟨recordsFrom (s.log topic) offset⟩, s)
  partitions s _ := (.ok [0], s)
  committed s topic partition := (.ok (s.committed.get? (topic, partition)), s)
  earliest s _ _ := (.ok 0, s)
  latest s topic _ := (.ok (offsetAfter 0 (s.log topic)), s)
  commit s offsets := (.ok (), s.store offsets)
  enqueue s _ := ((Script.next s.sends).1, { s with sends := (Script.next s.sends).2 })
  flushInner s := (.ok (), s)
  awaitDelivery s _ :=
    ((Script.next s.deliveries).1, { s with deliveries := (Script.next s.deliveries).2 })
  initTransactions s := (.ok (), s)
  beginTransaction s := (.ok (), s)
  sendOffsets s _ := (.ok (), s)
  commitTransaction s := (.ok (), s)
  abortTransaction s := (.ok (), s)
  completeCutsAfter s _ _ := (.ok s.cuts, s)
  saveSnapshot s _ _ := (.ok (), s)
  nowMs s := (s.now, s)

instance : CutArchive Script where
  completeCutAt s _ epoch := (.ok (s.cuts.find? fun cut => cut.epoch = epoch), s)
  latestCompleteCut s _ := (.ok s.cuts.getLast?, s)
  loadSnapshot s _ := (.ok (some []), s)

def Script.world (s : Script) (producer : ProducerState) : World Script := .start s producer 4

/-- A broker that always has the logs `log`, and the offsets committed to it. -/
structure Archive (log : Topic × Int → List FetchedRec) where
  committed : OrdMap (Topic × Int) Int

instance {log : Topic × Int → List FetchedRec} : Broker (Archive log) where
  fetch a topic partition offset _ := (.ok ⟨recordsFrom (log (topic, partition)) offset⟩, a)
  partitions a _ := (.ok [0], a)
  committed a topic partition := (.ok (a.committed.get? (topic, partition)), a)
  earliest a _ _ := (.ok 0, a)
  latest a topic partition := (.ok (offsetAfter 0 (log (topic, partition))), a)
  commit a offsets := (.ok (), ⟨offsets.foldl (fun m o => m.insert (o.1, o.2.1) o.2.2) a.committed⟩)
  enqueue a _ := (.ok (), a)
  flushInner a := (.ok (), a)
  awaitDelivery a _ := (.ok (), a)
  initTransactions a := (.ok (), a)
  beginTransaction a := (.ok (), a)
  sendOffsets a _ := (.ok (), a)
  commitTransaction a := (.ok (), a)
  abortTransaction a := (.ok (), a)
  completeCutsAfter a _ _ := (.ok [], a)
  saveSnapshot a _ _ := (.ok (), a)
  nowMs a := (0, a)

theorem SourceLogs.servedBy_archive (logs : SourceLogs) : logs.ServedBy (Archive logs.records) := by
  intro a topic partition offset b hb
  cases hb
  exact List.prefix_rfl

inductive Relay
  | forward
  | ticker (interval : Int)
  | refuse
  deriving DecidableEq, Repr

def Relay.outcome {S : Type} (stores : StoreRegistry S) (recs : List (ErasedRecord (Value Bytes)))
    (schedules : List (ScheduleRequest Relay)) : Outcome Relay Unit S (Value Bytes) :=
  ⟨(), stores, recs, schedules, []⟩

instance {S : Type} : Processor Relay Unit S (Value Bytes) where
  init p _ c :=
    match p with
    | .ticker interval => Relay.outcome c.stores [] [⟨interval, .wallClockTime, p, 0⟩]
    | _ => Relay.outcome c.stores [] []
  process p _ c rec :=
    match p with
    | .refuse => .error (.downcast "refuse")
    | _ => .ok (Relay.outcome c.stores [rec] [])
  close _ m := m
  punctuate _ _ c now := Relay.outcome c.stores [⟨none, .atom [1], now⟩] []

instance {S : Type} [StateStore S (Value Bytes)] : LawfulProcessor Relay Unit S (Value Bytes) where
  init_stores p _ c := by
    cases p <;> exact .refl StateStore.Evolves.refl c.stores
  process_stores p _ c r o h := by
    cases p <;> cases h <;> exact .refl StateStore.Evolves.refl c.stores
  punctuate_stores _ _ c _ := .refl StateStore.Evolves.refl c.stores

def relaySerialize (rec : ErasedRecord (Value Bytes)) :
    Except ProcessorError (Option Bytes × Bytes) :=
  match rec.value.asAtom with
  | some b => .ok (none, b)
  | none => .error (.downcast "sink")

def relayDeserialize (key : Option Bytes) (value : Bytes) (timestamp : Int) :
    Except ProcessorError (ErasedRecord (Value Bytes)) :=
  .ok ⟨key.map .atom, .atom value, timestamp⟩

def relaySink (topic : Topic) : ErasedNode Relay (Value Bytes) := .sinkNode topic relaySerialize

def relaySource (node : String) (topic : Topic) (children : List Nat) : GraphSource (Value Bytes) :=
  ⟨node, topic, relayDeserialize, children⟩

def relayGraph (nodes : List (ErasedNode Relay (Value Bytes))) (children : List (List Nat))
    (sources : List (GraphSource (Value Bytes))) (stores : StoreRegistry (KeyValueBytesStore Bytes))
    (cacheOwner : OrdMap String Nat) :
    Graph Relay Unit (KeyValueBytesStore Bytes) (Value Bytes) where
  nodes := nodes
  children := children
  sources := sources
  output := []
  stores := stores
  globals := []
  schedules := []
  cancelled := []
  streamTime := i64Min
  wallClock := 0
  cacheOwner := cacheOwner
  mem := ()
  budget := 8

def relayTopology (p : Relay) : Topology Relay Unit (KeyValueBytesStore Bytes) (Value Bytes) :=
  (((Topology.new () 8).addSource "src" ["in"] relayDeserialize).addProcessor "relay" p ["src"]).addSink
    "sink" "out" ["relay"] relaySerialize

def oneTask (role : TaskRole) : StreamsAssignment :=
  let task : TaskAssignment := ⟨"0", [0], [⟨"in", 0⟩]⟩
  match role with
  | .active => ⟨[task], [], []⟩
  | .standby => ⟨[], [task], []⟩
  | .warmup => ⟨[], [], [task]⟩

def noTask : StreamsAssignment := ⟨[], [], []⟩

def assign (topology : Topology Relay Unit (KeyValueBytesStore Bytes) (Value Bytes))
    (a : StreamsAssignment) :
    List (StreamThread.Call Relay Unit (KeyValueBytesStore Bytes) (Value Bytes)) :=
  match topology.build with
  | .error _ => []
  | .ok built => [.applyAssignment a built]

end KrabkaStreams
