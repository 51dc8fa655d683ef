import KrabkaStreams.Lib.OrdMap
import KrabkaStreams.Record

/-!
# State stores

`StateStore` is the object-safe surface through which a task drives a store. A processor reaches the
typed surface instead, bounded by `StateStore.Evolves`: the changelog buffer only grows.
-/

namespace KrabkaStreams

class StateStore (S : Type) (V : outParam Type) where
  changelogTopic : S → Topic
  takeChangelogTs : S → List ChangelogEntry × S
  applyChangelogTs : S → Bytes → Option Bytes → Int → S
  setLogging : S → Bool → S
  /-- `flush_cache_into`: write the dirty entries through. The changes go to every child, and the
  error is the panic of a change that does not deserialize. -/
  flushCacheInto : S → Except ProcessorError (List (ErasedRecord V)) × S
  /-- Whether the dirty set of the record cache holds an entry. -/
  isDirty : S → Bool
  enableCache : S → Option S
  clear : S → S
  snapshot : S → Bytes
  restoreSnapshot : S → Bytes → Except StreamsClientError S

namespace StateStore

variable {S V : Type} [StateStore S V] (s : S)

def changelog : List ChangelogEntry := (takeChangelogTs s).1

/-- Replay fetched records in order; a record without a key applies to the empty one. -/
def applyAll (recs : List FetchedRec) : S :=
  recs.foldl (fun s r => applyChangelogTs s (r.key.getD []) r.value r.timestamp) s

@[simp] theorem applyAll_nil : applyAll s [] = s := rfl

theorem applyAll_cons (r : FetchedRec) (recs : List FetchedRec) :
    applyAll s (r :: recs) = applyAll (applyChangelogTs s (r.key.getD []) r.value r.timestamp) recs :=
  rfl

theorem applyAll_append (recs recs' : List FetchedRec) :
    applyAll s (recs ++ recs') = applyAll (applyAll s recs) recs' :=
  List.foldl_append

/-- What a processor can do to a store through its typed surface. -/
def Evolves (s s' : S) : Prop :=
  changelogTopic s' = changelogTopic s ∧ changelog s <+: changelog s'

theorem Evolves.refl : Evolves s s := ⟨rfl, List.prefix_rfl⟩

theorem Evolves.trans {s s' s'' : S} (h : Evolves s s') (h' : Evolves s' s'') : Evolves s s'' :=
  ⟨h'.1.trans h.1, h.2.trans h'.2⟩

end StateStore

open StateStore

class LawfulStateStore (S : Type) {V : outParam Type} [StateStore S V] : Prop where
  changelog_take : ∀ s : S, changelog (takeChangelogTs s).2 = []
  changelog_apply : ∀ (s : S) k v t, changelog (applyChangelogTs s k v t) = changelog s
  changelog_setLogging : ∀ (s : S) b, changelog (setLogging s b) = changelog s
  changelog_clear : ∀ s : S, changelog (clear s) = []
  changelog_flush : ∀ s : S, changelog s <+: changelog (flushCacheInto s).2
  topic_take : ∀ s : S, changelogTopic (takeChangelogTs s).2 = changelogTopic s
  topic_apply : ∀ (s : S) k v t, changelogTopic (applyChangelogTs s k v t) = changelogTopic s
  topic_setLogging : ∀ (s : S) b, changelogTopic (setLogging s b) = changelogTopic s
  topic_clear : ∀ s : S, changelogTopic (clear s) = changelogTopic s
  topic_flush : ∀ s : S, changelogTopic (flushCacheInto s).2 = changelogTopic s
  dirty_take : ∀ s : S, isDirty (takeChangelogTs s).2 = isDirty s
  dirty_apply : ∀ (s : S) k v t, isDirty (applyChangelogTs s k v t) = isDirty s
  dirty_setLogging : ∀ (s : S) b, isDirty (setLogging s b) = isDirty s
  dirty_clear : ∀ s : S, isDirty (clear s) = false
  dirty_flush : ∀ s : S, isDirty (flushCacheInto s).2 = false
  flush_clean : ∀ s : S, isDirty s = false → flushCacheInto s = (.ok [], s)
  enableCache_fresh : ∀ s s' : S, enableCache s = some s' →
    changelog s' = changelog s ∧ changelogTopic s' = changelogTopic s ∧ isDirty s' = isDirty s
  clear_apply : ∀ (s : S) k v t, clear (applyChangelogTs s k v t) = clear s
  /-- A wiped store keeps some record that is replayed into it. -/
  apply_kept : ∀ s : S, ∃ k v t, setLogging (applyChangelogTs (setLogging (clear s) false) k v t) true
    ≠ setLogging (setLogging (clear s) false) true

attribute [simp] LawfulStateStore.changelog_take LawfulStateStore.changelog_apply
  LawfulStateStore.changelog_setLogging LawfulStateStore.changelog_clear
  LawfulStateStore.topic_take LawfulStateStore.topic_apply LawfulStateStore.topic_setLogging
  LawfulStateStore.topic_clear LawfulStateStore.topic_flush LawfulStateStore.dirty_take
  LawfulStateStore.dirty_apply LawfulStateStore.dirty_setLogging LawfulStateStore.dirty_clear
  LawfulStateStore.dirty_flush LawfulStateStore.clear_apply

/-- The logging switch of a store: the last setting counts, and the restore path neither reads nor
writes it. -/
class SwitchedStore (S : Type) {V : outParam Type} [StateStore S V] : Prop where
  setLogging_setLogging : ∀ (s : S) a b, setLogging (setLogging s a) b = setLogging s b
  setLogging_apply : ∀ (s : S) k v t b,
    setLogging (applyChangelogTs s k v t) b = applyChangelogTs (setLogging s b) k v t

attribute [simp] SwitchedStore.setLogging_setLogging

/-- A store factory: what it makes has an empty changelog buffer and a clean cache. -/
structure StoreFactory (S : Type) {V : outParam Type} [StateStore S V] where
  make : String → Topic → S
  changelog_make : ∀ name topic, changelog (make name topic) = []
  dirty_make : ∀ name topic, isDirty (make name topic) = false

abbrev StoreRegistry (S : Type) := OrdMap String S

namespace StoreRegistry

variable {S V : Type} [StateStore S V] {R : S → S → Prop}

def mapStores (f : S → S) (r : StoreRegistry S) : StoreRegistry S := r.map fun e => (e.1, f e.2)

def names (r : StoreRegistry S) : List String := r.map Prod.fst

@[simp] theorem names_mapStores (f : S → S) (r : StoreRegistry S) :
    names (mapStores f r) = names r := by
  simp [names, mapStores]

theorem get?_mapStores (f : S → S) (r : StoreRegistry S) (n : String) :
    (mapStores f r).get? n = (OrdMap.get? r n).map f := by
  induction r with
  | nil => rfl
  | cons e r ih =>
    obtain ⟨n', s⟩ := e
    simp only [mapStores, List.map_cons, OrdMap.get?_cons] at ih ⊢
    split
    · rfl
    · exact ih

def Rel (R : S → S → Prop) (r r' : StoreRegistry S) : Prop :=
  List.Forall₂ (fun e e' => e'.1 = e.1 ∧ R e.2 e'.2) r r'

def All (p : S → Prop) (r : StoreRegistry S) : Prop := ∀ e ∈ r, p e.2

theorem Rel.refl (h : ∀ s, R s s) (r : StoreRegistry S) : Rel R r r :=
  List.forall₂_same.mpr fun e _ => ⟨rfl, h e.2⟩

theorem Rel.trans (h : ∀ a b c, R a b → R b c → R a c) {r r' r'' : StoreRegistry S} (h₁ : Rel R r r')
    (h₂ : Rel R r' r'') : Rel R r r'' := by
  induction h₁ generalizing r'' with
  | nil =>
    cases h₂
    exact .nil
  | cons he _ ih =>
    cases h₂ with
    | cons he' ht => exact .cons ⟨he'.1.trans he.1, h _ _ _ he.2 he'.2⟩ (ih ht)

theorem Rel.insert (h : ∀ s, R s s) {r : StoreRegistry S} {n : String} {s s' : S}
    (hs : OrdMap.get? r n = some s) (hR : R s s') : Rel R r (OrdMap.insert r n s') := by
  induction r with
  | nil => simp at hs
  | cons e r ih =>
    obtain ⟨n₀, s₀⟩ := e
    rw [OrdMap.get?_cons] at hs
    unfold OrdMap.insert
    split
    · rename_i hn
      rw [if_pos hn] at hs
      cases hs
      exact .cons ⟨rfl, hR⟩ (Rel.refl h r)
    · rename_i hn
      rw [if_neg hn] at hs
      exact .cons ⟨rfl, h s₀⟩ (ih hs)

end StoreRegistry

end KrabkaStreams
