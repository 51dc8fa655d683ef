import KrabkaStreams.Recovery

/-!
# What a task processes

`Graph.Pass` is what a graph goes through while its task processes records. `StreamTask.Processed` ties
a pass to the source logs: of each partition, the records between the positions were piped once and in
order.
-/

namespace KrabkaStreams

open Effect StateStore

variable {P M S V : Type}

/-- The records of every source partition in offset order. A fetch may not see all of them yet. -/
structure SourceLogs where
  records : Topic × Int → List FetchedRec
  sorted : ∀ tp, (records tp).Pairwise fun a b => a.offset < b.offset

def recordsBetween (log : List FetchedRec) (start stop : Int) : List FetchedRec :=
  log.filter fun r => start ≤ r.offset ∧ r.offset < stop

namespace SourceLogs

def between (logs : SourceLogs) (tp : Topic × Int) (start stop : Int) : List FetchedRec :=
  recordsBetween (logs.records tp) start stop

/-- A fetch for processing returns consecutive records of the log from the offset on. -/
def ServedBy (logs : SourceLogs) (E : Type) [Broker E] : Prop :=
  ∀ (e : E) topic partition offset b, (Broker.fetch e topic partition offset .readUncommitted).1 = .ok b →
    b.records <+: recordsFrom (logs.records (topic, partition)) offset

end SourceLogs

inductive Graph.Pass [StateStore S V] [Processor P M S V] :
    Graph P M S V → List ((Topic × Int) × FetchedRec) → List OutputRecord → Graph P M S V → Prop
  | done (g : Graph P M S V) : Pass g [] [] g
  | pipe {g g' g'' : Graph P M S V} {tp : Topic × Int} {r : FetchedRec} {recs : List ((Topic × Int) × FetchedRec)}
    {outs : List OutputRecord} : g.pipe tp.1 tp.2 r.offset r.key (r.value.getD []) r.timestamp = (.ok (), g') →
    Pass g' recs outs g'' → Pass g ((tp, r) :: recs) outs g''
  | takeOutput {g g'' : Graph P M S V} {recs : List ((Topic × Int) × FetchedRec)} {outs : List OutputRecord} :
    Pass g.takeOutput.2 recs outs g'' → Pass g recs (g.output ++ outs) g''
  | drainChangelogs {g g'' : Graph P M S V} {recs : List ((Topic × Int) × FetchedRec)} {outs : List OutputRecord}
    (reuse : List Topic) : Pass (g.drainChangelogs reuse).2 recs outs g'' → Pass g recs outs g''
  | punctuateStreamTime {g g' g'' : Graph P M S V} {recs : List ((Topic × Int) × FetchedRec)}
    {outs : List OutputRecord} : g.punctuateStreamTime g.streamTime = (.ok (), g') → Pass g' recs outs g'' →
    Pass g recs outs g''
  | punctuateWallClock {g g' g'' : Graph P M S V} {recs : List ((Topic × Int) × FetchedRec)}
    {outs : List OutputRecord} (now : Int) : g.punctuateWallClock now = (.ok (), g') → Pass g' recs outs g'' →
    Pass g recs outs g''
  | flushCaches {g g' g'' : Graph P M S V} {recs : List ((Topic × Int) × FetchedRec)} {outs : List OutputRecord} :
    g.flushCaches = (.ok (), g') → Pass g' recs outs g'' → Pass g recs outs g''

namespace StreamTask

def position (t : StreamTask P M S V) (tp : Topic × Int) : Int := (t.positions.get? tp).getD 0

/-- The task `t` processed `recs`, emitted `outs` and became `t'`. -/
structure Processed [StateStore S V] [Processor P M S V] (logs : SourceLogs) (t : StreamTask P M S V)
    (recs : List ((Topic × Int) × FetchedRec)) (outs : List OutputRecord) (t' : StreamTask P M S V) : Prop where
  pass : Graph.Pass t.graph recs outs t'.graph
  same : t' = { t with graph := t'.graph, positions := t'.positions, pending := t'.pending }
  keys : t'.positions.keys = t.positions.keys
  reads : ∀ tp, (recs.filter fun x => x.1 = tp).map Prod.snd = logs.between tp (t.position tp) (t'.position tp)
  forward : ∀ tp, t.position tp ≤ t'.position tp
  /-- A position below the cut stays below it, or moves onto it. -/
  held : ∀ tp c, t.cutOffset tp = some c → t.position tp ≤ c → t'.position tp ≤ c
  advanced : ∀ tp, (t'.position tp = t.position tp ∧ t'.pending.get? tp = t.pending.get? tp) ∨
    t'.pending.get? tp = some (t'.position tp)

end StreamTask

def sinkSends (h : List Event) : List ProducerRecord :=
  h.filterMap fun
    | .sent _ record _ => if record.partition = none then some record else none
    | _ => none

inductive SourceMark
  | fetched (tp : Topic × Int) (offset : Int)
  | piped (tp : Topic × Int) (offset : Int)
  deriving DecidableEq, Repr

def sourceMarks (h : List Event) : List SourceMark :=
  h.filterMap fun
    | .sourceFetched _ topic partition offset => some (.fetched (topic, partition) offset)
    | .piped _ topic partition offset => some (.piped (topic, partition) offset)
    | _ => none

def fetchOffsets (tp : Topic × Int) (marks : List SourceMark) : List Int :=
  marks.filterMap fun
    | .fetched tp' offset => if tp' = tp then some offset else none
    | .piped _ _ => none

def pipedOffsets (tp : Topic × Int) (marks : List SourceMark) : List Int :=
  marks.filterMap fun
    | .fetched _ _ => none
    | .piped tp' offset => if tp' = tp then some offset else none

/-- Fetches of one partition from `start` on, each from where the last one left the position: with the batches
returned, and where the position stands after them. -/
inductive Fetches (E : Type) [Broker E] (tp : Topic × Int) (cut : Option Int) : Int → List (Int × FetchBatch) → Int → Prop
  | done (start : Int) : Fetches E tp cut start [] start
  | fetch (env : E) {start stop : Int} {b : FetchBatch} {batches : List (Int × FetchBatch)} :
    (Broker.fetch env tp.1 tp.2 start .readUncommitted).1 = .ok b → (∀ c, cut = some c → start < c) →
    Fetches E tp cut (StreamTask.splitAtCut b cut start).2 batches stop →
    Fetches E tp cut start ((start, b) :: batches) stop

def pipedFrom (cut : Option Int) (batches : List (Int × FetchBatch)) : List FetchedRec :=
  batches.flatMap fun x => (StreamTask.splitAtCut x.2 cut x.1).1

/-- What a task did with the source partition `tp` on its way from `t` to `t'`, with `marks` left behind. -/
structure StreamTask.ReadsAlong (E : Type) [Broker E] (logs : SourceLogs) (t t' : StreamTask P M S V)
    (marks : List SourceMark) (tp : Topic × Int) (batches : List (Int × FetchBatch)) : Prop where
  fetched : fetchOffsets tp marks = batches.map Prod.fst
  answered : ∀ x ∈ batches, ∃ env : E, (Broker.fetch env tp.1 tp.2 x.1 .readUncommitted).1 = .ok x.2
  piped : pipedOffsets tp marks = (logs.between tp (t.position tp) (t'.position tp)).map FetchedRec.offset
  forward : t.position tp ≤ t'.position tp

/-- A partition that was at or below the cut `c`: nothing from the cut on is piped, the position stays at or below it, and
a batch that reaches it moves the position onto it. -/
structure StreamTask.HeldAt (t' : StreamTask P M S V) (marks : List SourceMark) (tp : Topic × Int)
    (batches : List (Int × FetchBatch)) (c : Int) : Prop where
  below : ∀ offset ∈ pipedOffsets tp marks, offset < c
  stays : t'.position tp ≤ c
  reached : (∃ x ∈ batches, ∃ r ∈ x.2.records, c ≤ r.offset) → t'.position tp = c

/-- A partition the cut does not name: all that was fetched is piped, and the position moves past it. -/
structure StreamTask.Unheld (t t' : StreamTask P M S V) (marks : List SourceMark) (tp : Topic × Int)
    (batches : List (Int × FetchBatch)) : Prop where
  all : pipedOffsets tp marks = (batches.flatMap fun x => x.2.records).map FetchedRec.offset
  position : t'.position tp = batches.foldl (fun offset x => x.2.nextOffset offset) (t.position tp)

end KrabkaStreams
