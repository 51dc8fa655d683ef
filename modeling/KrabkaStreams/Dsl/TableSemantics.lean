import KrabkaStreams.Dsl.GroupedTable
import KrabkaStreams.Dsl.WindowSemantics
import KrabkaStreams.Lib.GroupedFold

/-!
# What the aggregate of a grouped table is for

The rows of a table behind some nodes are read off the source table (`TableChain.row`), and the
aggregate of a group is the fold of the adder over its rows (`FoldsRows`).
-/

namespace KrabkaStreams

variable {K V V' W KR VR T : Type}

def TableNode.row : TableNode K V V' → K → V → Option V'
  | .filter p _, k, v => if p.predicate k v then some v else none
  | .mapValues p _, _, v => some (p.f v)
  | .mapValuesView p, _, v => some (p.f v)

def TableChain.row {K V V' : Type} : TableChain K V V' → K → V → Option V'
  | .nil, _, v => some v
  | .cons node rest, k, v => (node.row k v).bind (rest.row k)

/-- The stores of the group hold, for every list of the rows, the folds of the adder over the groups of
the list; a group without an aggregate is at the initial value. -/
def GroupedTable.FoldsRows [DecidableEq KR] (g : GroupedTable K V KR VR T) (store : TableStore KR T)
    (rows : K → Option V) : Prop :=
  (∃ l, GroupedFold.Lists l rows) ∧ ∀ l, GroupedFold.Lists l rows → ∀ x, ∃ agg, store.get x = .ok agg ∧
    agg.getD g.aggregate.init = (l.filter fun e => (g.select.mapper e.1 e.2).1 = x).foldr
      (fun e t => g.aggregate.adder x (g.select.mapper e.1 e.2).2 t) g.aggregate.init

def rowsOf [DecidableEq K] (recs : List (KeyedRecord K V)) : K → Option V :=
  recs.foldl (fun f r => Function.update f r.key (some r.value)) fun _ => none

/-- A table from a topic, nodes behind it, and a grouping of the last one. -/
structure TableGroupBy (K V W KR VR T : Type) where
  source : KTableSourceProcessor
  grouped : GroupedTable K W KR VR T

namespace TableGroupBy

structure State (K V W KR T : Type) where
  source : TableStore K V
  chain : TableChain K V W
  aggregate : TableStore KR T

def step [DecidableEq KR] (t : TableGroupBy K V W KR VR T) (s : State K V W KR T)
    (r : KeyedRecord K V) (reading : Reading) : Except ProcessorError (State K V W KR T) :=
  match t.source.process s.source r.ctx ⟨some r.key, r.value, r.timestamp⟩ with
  | .error e => .error e
  | .ok (source, changes) => match s.chain.process r.ctx changes with
    | .error e => .error e
    | .ok (chain, changes) => match t.grouped.feedAll reading changes s.aggregate with
      | .error e => .error e
      | .ok aggregate => .ok ⟨source, chain, aggregate⟩

def run [DecidableEq KR] (t : TableGroupBy K V W KR VR T) (s : State K V W KR T) :
    List (KeyedRecord K V × Reading) → Except ProcessorError (State K V W KR T)
  | [] => .ok s
  | (r, reading) :: rest => match t.step s r reading with
    | .error e => .error e
    | .ok s => t.run s rest

/-- The run returns, and the aggregates are the folds of the rows behind the nodes. -/
def AggregatesExactly [DecidableEq K] [DecidableEq KR] (t : TableGroupBy K V W KR VR T)
    (start : State K V W KR T) (xs : List (KeyedRecord K V × Reading)) : Prop :=
  ∃ s, t.run start xs = .ok s ∧
    t.grouped.FoldsRows s.aggregate fun k => (rowsOf (xs.map Prod.fst) k).bind (start.chain.row k)

end TableGroupBy

end KrabkaStreams
