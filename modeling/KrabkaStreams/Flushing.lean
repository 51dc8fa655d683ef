import KrabkaStreams.Piping
import KrabkaStreams.Stores.Erased

/-!
# A flush pass over the cached stores

`flushTurns` is `Graph::flush_caches` with the graph at the turn of each store. `FlushesOnce`: a pass
leaves nothing dirty, and an entry that is dirty at some moment of it is written, logged and forwarded
once.
-/

namespace KrabkaStreams

open StateStore

class CachedStore (S : Type) {V : outParam Type} [StateStore S V] where
  cacheOf : S → Option CachingKeyValueStore
  logging : S → Bool
  /-- The record that is forwarded for a flushed entry: its key, its old and its new value, and its context. -/
  changeOf : S → Bytes × Option Bytes × Option Bytes × RecordContext → Except ProcessorError (ErasedRecord V)

namespace CachedStore

variable {S V : Type} [StateStore S V] [CachedStore S]

def dirtyKeys (s : S) : List Bytes := (cacheOf s).elim [] (·.cache.dirty)

/-- What a node can do to a store through its typed surface: a cached one stages entries and does nothing else. -/
structure Stages (s s' : S) : Prop where
  inner : (cacheOf s').map (·.inner) = (cacheOf s).map (·.inner)
  dirty : dirtyKeys s ⊆ dirtyKeys s'
  changelog : (cacheOf s).isSome → StateStore.changelog s' = StateStore.changelog s
  logging : CachedStore.logging s' = CachedStore.logging s

/-- A store that was `s₀` when the pass began, `s` at its turn and is `s'` at the end. `c` and `c'` are its caches at
the turn and at the end. -/
structure FlushedThrough (s₀ s s' : S) (c c' : CachingKeyValueStore) : Prop where
  staged : cacheOf s = some c
  left : cacheOf s' = some c'
  clean : c'.cache.dirty = []
  written : ∀ k ∈ c.cache.dirty, ∃ e, c.cache.map.get? k = some e ∧ c'.inner.get? k = e.value
  logged : StateStore.changelog s' = StateStore.changelog s₀ ++
    if CachedStore.logging s₀ then c.cache.dirtyEntries.map fun e => ⟨e.1, e.2.value, none⟩ else []

end CachedStore

open CachedStore

class LawfulCachedStore (S : Type) {V : outParam Type} [StateStore S V] [CachedStore S] : Prop where
  dirty_eq : ∀ s : S, isDirty s = !(dirtyKeys s).isEmpty
  flush_plain : ∀ s : S, cacheOf s = none → flushCacheInto s = (.ok [], s)
  flush_changes : ∀ (s : S) c, cacheOf s = some c → (flushCacheInto s).1 = c.flushWithOld.1.mapM (changeOf s)
  flush_cache : ∀ (s : S) c, cacheOf s = some c → cacheOf (flushCacheInto s).2 = some c.flushWithOld.2
  flush_changelog : ∀ (s : S) c, cacheOf s = some c → changelog (flushCacheInto s).2 = changelog s ++
    if CachedStore.logging s then c.flushWithOld.1.map fun d => ⟨d.1, d.2.2.1, none⟩ else []

/-- The processors reach the stores through their typed surface. -/
class StagingProcessor (P M S V : Type) [StateStore S V] [CachedStore S] [Processor P M S V] : Prop where
  process_stores : ∀ (p : P) (m : M) (c : ProcessorContext S) (r : ErasedRecord V) o,
    Processor.process p m c r = .ok o → StoreRegistry.Rel Stages c.stores o.stores

namespace Graph

variable {P M S V : Type} [StateStore S V] [Processor P M S V] (g : Graph P M S V)

def flushStoreServed (n : Nat) (name : String) (idx : Nat) (rc : RecordContext) :
    List (Dispatched V) × Except ProcessorError Unit × Graph P M S V :=
  match g.stores.get? name with
  | none => ([], .ok (), g)
  | some s =>
    let g' := { g with stores := g.stores.insert name (flushCacheInto s).2 }
    match (flushCacheInto s).1 with
    | .ok changes =>
      Worklist.run (serve rc) .outOfBudget n ((fanOut (g.childrenOf idx) changes).map fun q => ⟨none, q.1, q.2⟩) g'
    | .error e => if g.childrenOf idx = [] then ([], .ok (), g') else ([], .error e, g')

structure Turn (P M S V : Type) where
  name : String
  owner : Nat
  before : Graph P M S V
  log : List (Dispatched V)
  after : Graph P M S V

def flushTurns (rc : RecordContext) : List (String × Nat) → Graph P M S V → List (Turn P M S V)
  | [], _ => []
  | (name, idx) :: rest, g =>
    let r := g.flushStoreServed g.budget name idx rc
    ⟨name, idx, g, r.1, r.2.2⟩ ::
      match r.2.1 with
      | .ok () => flushTurns rc rest r.2.2
      | .error _ => []

def turns : List (Turn P M S V) := flushTurns (syntheticContext g.streamTime) g.cacheOwners g

/-- The graph after the flush of the store and the first `n` dispatches of its turn. -/
def Turn.moment (rc : RecordContext) (t : Turn P M S V) (n : Nat) : Graph P M S V :=
  (t.before.flushStoreServed n t.name t.owner rc).2.2

variable [CachedStore S]

/-- Each child of the owner processed the change of each dirty entry once for each time it is listed. -/
def Turn.Delivers (t : Turn P M S V) (s : S) (c : CachingKeyValueStore) : Prop :=
  ∀ child ∈ t.before.childrenOf t.owner, ∃ changes,
    List.Forall₂ (fun k r => ∃ e, c.cache.map.get? k = some e ∧
      changeOf s (k, c.inner.get? k, e.value, e.context) = .ok r) c.cache.dirty changes ∧
    (t.log.filter fun d => d.item.origin = none ∧ d.item.node = child).map (·.item.record) =
      changes.flatMap fun r => List.replicate ((t.before.childrenOf t.owner).count child) r

/-- A pass from `g` to `g'` leaves no entry dirty. Each cached store has one turn, at the node that owns it, and what was
dirty in it at the start or at any moment of the pass is dirty when the turn comes, and is then written through, logged
and forwarded. -/
def FlushesOnce (g g' : Graph P M S V) : Prop :=
  (∀ name s, g'.stores.get? name = some s → isDirty s = false) ∧
    ∀ name s₀, g.stores.get? name = some s₀ → (cacheOf s₀).isSome → ∃ t s s' c c',
      t ∈ g.turns ∧ t.name = name ∧ (∀ t' ∈ g.turns, t'.name = name → t' = t) ∧
      g.cacheOwner.get? name = some t.owner ∧
      t.before.stores.get? name = some s ∧ g'.stores.get? name = some s' ∧
      FlushedThrough s₀ s s' c c' ∧ t.Delivers s c ∧ dirtyKeys s₀ ⊆ c.cache.dirty ∧
      ∀ t' ∈ g.turns, ∀ n s'', (t'.moment (syntheticContext g.streamTime) n).stores.get? name = some s'' →
        dirtyKeys s'' ⊆ c.cache.dirty

/-- Each cached store is written by the node that owns it alone. -/
def WritesOwn : Prop :=
  ∀ i p, g.nodes[i]? = some (.processorNode p) →
    ∀ (m : M) (c : ProcessorContext S) (r : ErasedRecord V) o, Processor.process p m c r = .ok o →
      ∀ name owner, g.cacheOwner.get? name = some owner → owner ≠ i →
        OrdMap.get? o.stores name = OrdMap.get? c.stores name

omit [Processor P M S V] in
/-- `g` is the graph `g₀` in some state: its nodes, child lists and owners are never written, and no store gets a cache
after the graph was built. -/
structure StateOf (g₀ g : Graph P M S V) : Prop where
  nodes : g.nodes = g₀.nodes
  children : g.children = g₀.children
  cacheOwner : g.cacheOwner = g₀.cacheOwner
  cached : ∀ name s, g.stores.get? name = some s → (cacheOf s).isSome →
    ∃ s₀, g₀.stores.get? name = some s₀ ∧ (cacheOf s₀).isSome

end Graph

/-! The three kinds of stores with a record cache. -/

def Backing.cache? : Backing → Option CachingKeyValueStore
  | .plain _ => none
  | .cached c => some c

instance {A : Type} : CachedStore (KeyValueBytesStore A) where
  cacheOf s := s.backing.cache?
  logging s := s.logging
  changeOf s d := s.flushedChange d

instance {A : Type} : CachedStore (WindowBytesStore A A) where
  cacheOf s := s.backing.cache?
  logging s := s.logging
  changeOf s d := eraseWindowed <$> s.flushedChange d

instance {A : Type} : CachedStore (SessionBytesStore A A) where
  cacheOf s := s.backing.cache?
  logging s := s.logging
  changeOf s d := eraseWindowed <$> s.flushedChange d

def BuiltTopology.MakesPlain {P M S V : Type} [StateStore S V] [CachedStore S] (b : BuiltTopology P M S V) : Prop :=
  ∀ e ∈ b.storeFactories, ∀ name topic, cacheOf (e.2.2.make name topic) = none

end KrabkaStreams
