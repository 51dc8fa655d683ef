import KrabkaStreams.Proofs.TaskRules
import KrabkaStreams.Script
import KrabkaStreams.Storage

/-!
# Which tasks share their stores

An operation writes to the places of its handles only (`save_of_ne`). Files are told apart by the name
of the store alone, so tasks are separate exactly when they share no store name (`separate_iff_apart`).
-/

namespace KrabkaStreams

open Effect StateStore BackedStore

variable {E P M S V : Type} {a b : TaskKey} {name : String}

theorem get?_map_keyed (f : String → S → S) (r : StoreRegistry S) (name : String) :
    OrdMap.get? (r.map fun e => (e.1, f e.1 e.2)) name = (OrdMap.get? r name).map (f name) := by
  induction r with
  | nil => rfl
  | cons e r ih =>
    obtain ⟨name', s⟩ := e
    by_cases h : name' = name
    · subst h
      simp [OrdMap.get?]
    · simp [OrdMap.get?, h, ih]

theorem StoreBackend.place_memory_ne (h : a ≠ b) (appId name name' : String) :
    StoreBackend.place .inMemory appId a name ≠ StoreBackend.place .inMemory appId b name' := by
  intro heq
  cases heq
  exact h rfl

section Rewind

variable [StateStore S V]

theorem get?_restoreStores {data : Bytes} {s s' : S} (hs : restoreSnapshot s data = .ok s') :
    ∀ {r : StoreRegistry S}, OrdMap.get? r name = some s →
      OrdMap.get? (restoreStores [(name, data)] r).2 name = some s'
  | (name', x) :: r, h => by
    rw [OrdMap.get?_cons] at h
    by_cases hn : name' = name
    · subst hn
      rw [if_pos rfl] at h
      cases h
      simp [restoreStores, OrdMap.get?, hs]
    · rw [if_neg hn] at h
      simp [restoreStores, OrdMap.get?, hn, Ne.symm hn, get?_restoreStores hs h]

theorem stores_restoreToCut (cut : BarrierCut) (snapshot : TaskSnapshot) (t : StreamTask P M S V) (w : World E) :
    ((StreamTask.restoreToCut cut snapshot).final ⟨t, w⟩).own.graph.stores
      = (restoreStores snapshot t.graph.stores).2 := by
  have hC : PrefixClosed fun _ : List Event => True := fun _ _ _ => trivial
  have hspec : Spec (fun _ => True) (fun _ (s : TaskState E P M S V) => s.own.graph = t.graph)
      (StreamTask.restoreToCut cut snapshot)
      (fun _ _ s => s.own.graph.stores = (restoreStores snapshot t.graph.stores).2)
      fun _ _ s => s.own.graph.stores = (restoreStores snapshot t.graph.stores).2 := by
    refine Spec.bind hC (StreamTask.spec_update (Q := fun _ _ s => s.own.graph = t.graph) fun _ _ h => h) fun _ => ?_
    refine StreamTask.spec_current fun t' => Spec.bind hC
      (R := fun _ _ s => s.own.graph.stores = (restoreStores snapshot t.graph.stores).2)
      (StreamTask.spec_update fun _ s h => ?_) fun _ => ?_
    · obtain ⟨rfl, hg⟩ := h
      show (restoreStores snapshot s.own.graph.stores).2 = _
      rw [hg]
    · rcases (t'.graph.restoreStoreSnapshots snapshot).1 with e | u
      · exact Spec.throw fun _ _ h => h
      · refine Spec.forM hC _ fun tp _ => ?_
        unfold StreamTask.seekToMarker
        rcases cut.offset tp.1 tp.2 with _ | offset
        · exact Spec.skip
        · exact StreamTask.spec_update fun _ _ h => h
  have hrun := hspec [] ⟨t, w⟩ rfl trivial
  split at hrun <;> exact hrun

end Rewind

namespace StoredThread

variable [BackedStore S] {st : StoredThread P M S V}

theorem mem_handles {t : StreamTask P M S V} :
    name ∈ handles t ↔ ∃ s m, OrdMap.get? t.graph.stores name = some s ∧ bytes s = some m := by
  unfold handles
  rw [List.mem_filter]
  constructor
  · rintro ⟨-, h⟩
    obtain ⟨m, hm⟩ := Option.isSome_iff_exists.mp h
    obtain ⟨s, hs, hm⟩ := Option.bind_eq_some_iff.mp hm
    exact ⟨s, m, hs, hm⟩
  · rintro ⟨s, m, hs, hm⟩
    refine ⟨List.mem_map_of_mem (OrdMap.mem_of_get?_eq_some hs), ?_⟩
    simp [hs, hm]

theorem save_of_ne {key : TaskKey} {t t' : StreamTask P M S V} {p : Place}
    (h : ∀ name ∈ handles t, st.place key name ≠ p) : st.save key t t' p = st.cells p := by
  unfold save
  rw [List.find?_eq_none.mpr fun name hname => by simpa using h name hname]

omit [BackedStore S] in
theorem place_injective {key : TaskKey} {name name' : String} (h : st.place key name = st.place key name') :
    name = name' := by
  unfold place StoreBackend.place at h
  split at h <;> cases h <;> rfl

theorem save_of_mem {key : TaskKey} {t t' : StreamTask P M S V} (h : name ∈ handles t) :
    st.save key t t' (st.place key name)
      = ((OrdMap.get? t'.graph.stores name).bind bytes).getD (st.cells (st.place key name)) := by
  unfold save
  rcases hf : (handles t).find? fun name' => st.place key name' = st.place key name with _ | name'
  · have hnone := List.find?_eq_none.mp hf name h
    simp at hnone
  · have hsame : st.place key name' = st.place key name := by simpa using List.find?_some hf
    rw [place_injective hsame]

theorem get?_load (key : TaskKey) (t : StreamTask P M S V) (name : String) :
    OrdMap.get? (st.load key t).graph.stores name = (OrdMap.get? t.graph.stores name).map (st.attach key name) :=
  get?_map_keyed _ _ _

theorem content_onTask (hab : a ≠ b) {ta : StreamTask P M S V} (hta : st.thread.tasks.get? a = some ta)
    (m : TaskM E P M S V Unit) (w : World E) (name : String) :
    ((onTask a m).final ⟨st, w⟩).own.content b name
      = (st.thread.tasks.get? b).bind fun t => (OrdMap.get? t.graph.stores name).map fun s =>
        withBytes s (st.save a ta (m ⟨st.load a ta, w⟩).2.1.own (st.place b name)) := by
  have hrun : (onTask a m).final ⟨st, w⟩ = ⟨{ st with
      thread := st.thread.setTasks (st.thread.tasks.insert a (m ⟨st.load a ta, w⟩).2.1.own)
      cells := st.save a ta (m ⟨st.load a ta, w⟩).2.1.own }, (m ⟨st.load a ta, w⟩).2.1.world⟩ := by
    simp only [Eff.final, onTask, hta]
  rw [hrun]
  show ((st.thread.tasks.insert a _).get? b).bind _ = _
  rw [OrdMap.get?_insert_of_ne hab]
  rfl

theorem place_ne (h : st.Apart) (hab : a ≠ b) {ta tb : StreamTask P M S V}
    (hta : st.thread.tasks.get? a = some ta) (htb : st.thread.tasks.get? b = some tb) {name name' : String}
    (hname : name ∈ handles ta) (hname' : name' ∈ handles tb) : st.place a name ≠ st.place b name' := by
  intro heq
  unfold place at heq
  rcases hb : st.backend with _ | dir
  · rw [hb] at heq
    exact StoreBackend.place_memory_ne hab _ _ _ heq
  · rcases h with h | h
    · rw [h] at hb
      cases hb
    · rw [hb] at heq
      cases heq
      exact h a b ta tb name hab hta htb hname hname'

section Separate

variable [StateStore S V] [Processor P M S V] [LawfulBackedStore S]

omit [Processor P M S V] in
theorem content_of_apart (h : st.Apart) (hab : a ≠ b) (m : TaskM E P M S V Unit) (w : World E) (name : String) :
    ((onTask a m).final ⟨st, w⟩).own.content b name = st.content b name := by
  rcases hta : st.thread.tasks.get? a with _ | ta
  · have hrun : (onTask a m).final ⟨st, w⟩ = ⟨st, w⟩ := by simp only [Eff.final, onTask, hta]
    rw [hrun]
  · rw [content_onTask hab hta]
    unfold content
    rcases htb : st.thread.tasks.get? b with _ | tb
    · rfl
    · rcases hs : OrdMap.get? tb.graph.stores name with _ | s
      · simp [hs]
      · simp only [Option.bind_some, hs, Option.map_some, attach, Option.some.injEq]
        rcases hm : bytes s with _ | bs
        · rw [LawfulBackedStore.withBytes_of_none s _ hm, LawfulBackedStore.withBytes_of_none s _ hm]
        · rw [save_of_ne fun name' hname' => place_ne h hab hta htb hname' (mem_handles.mpr ⟨s, bs, hs, hm⟩)]

theorem not_separate_of_shared {dir : String} (hdir : st.backend = .turso dir) (hab : a ≠ b)
    {ta tb : StreamTask P M S V} (hta : st.thread.tasks.get? a = some ta)
    (htb : st.thread.tasks.get? b = some tb) (ha : name ∈ handles ta) (hb : name ∈ handles tb) :
    ¬ st.Separate := by
  intro hsep
  obtain ⟨sa, ma, hsa, hma⟩ := mem_handles.mp ha
  obtain ⟨sb, mb, hsb, hmb⟩ := mem_handles.mp hb
  have hplace : st.place a name = st.place b name := by
    unfold place
    rw [hdir]
    rfl
  have hbytes : bytes (st.attach a name sa) = some (st.cells (st.place a name)) := by
    unfold attach
    rw [LawfulBackedStore.bytes_withBytes, hma, Option.map_some]
  obtain ⟨data, s', m', hs', hm', hne⟩ := LawfulBackedStore.rewritable (st.attach a name sa) _ hbytes
  have hload : OrdMap.get? (st.load a ta).graph.stores name = some (st.attach a name sa) := by
    rw [get?_load, hsa, Option.map_some]
  set w : World Script := (⟨[], [], 0, [], [], []⟩ : Script).world (.broker [])
  set cut : BarrierCut := ⟨"", 0, []⟩
  have hstore := get?_restoreStores hs' hload
  rw [← stores_restoreToCut cut [(name, data)] (st.load a ta) w] at hstore
  have hafter := hsep Script w a b (.restoreToCut cut [(name, data)]) name hab
  rw [content_onTask hab hta, content, htb, Option.bind_some, Option.bind_some, hsb, Option.map_some, Option.map_some,
    ← hplace, save_of_mem ha] at hafter
  have hcell : ((OrdMap.get? ((TaskOp.restoreToCut cut [(name, data)]).perform
      (⟨st.load a ta, w⟩ : TaskState Script P M S V)).2.1.own.graph.stores name).bind bytes) = some m' := by
    show (OrdMap.get? ((StreamTask.restoreToCut cut [(name, data)]).final ⟨st.load a ta, w⟩).own.graph.stores name).bind
      bytes = some m'
    rw [hstore, Option.bind_some, hm']
  rw [hcell] at hafter
  have hb' := congrArg (Option.bind · bytes) hafter
  simp only [Option.bind_some, Option.getD_some, attach, LawfulBackedStore.bytes_withBytes, hmb, Option.map_some,
    ← hplace] at hb'
  exact hne (Option.some.inj hb')

theorem separate_iff_apart (st : StoredThread P M S V) : st.Separate ↔ st.Apart := by
  constructor
  · intro hsep
    rcases hb : st.backend with _ | dir
    · exact .inl hb
    · refine .inr fun a b ta tb name hab hta htb ha hb' => ?_
      exact not_separate_of_shared hb hab hta htb ha hb' hsep
  · intro h E _ w a b op name hab
    exact content_of_apart h hab _ w name

end Separate

end StoredThread

instance {A : Type} : LawfulBackedStore (KeyValueBytesStore A) where
  bytes_withBytes s m := by
    unfold BackedStore.bytes BackedStore.withBytes instBackedStoreKeyValueBytesStore
    rcases hb : s.backing with inner | c <;> simp [hb]
  withBytes_of_none s m h := by
    unfold BackedStore.bytes instBackedStoreKeyValueBytesStore at h
    rcases hb : s.backing with inner | c <;> simp [hb] at h
  rewritable s m _ := by
    have hnone : decodeByteEntries (encodeByteEntries []) = .ok [] := by decide +kernel
    have hone : decodeByteEntries (encodeByteEntries [([], [0])]) = .ok [([], [0])] := by decide +kernel
    have hrestore : ∀ {entries}, decodeByteEntries (encodeByteEntries entries) = .ok entries →
        restoreSnapshot s (encodeByteEntries entries)
          = .ok { s with
            backing := entries.foldl (fun b e => b.apply e.1 (some e.2)) s.backing.clear, changelog := [] } := by
      intro entries hd
      show KeyValueBytesStore.restoreSnapshot s (encodeByteEntries entries) = _
      simp only [KeyValueBytesStore.restoreSnapshot, Backing.restore, hd]
      rfl
    -- An empty store is given an entry, and any other one is emptied.
    by_cases hm : m = .empty
    · refine ⟨_, _, putOrDelete .empty [] (some [0]), hrestore hone, ?_, ?_⟩
      · rcases hb : s.backing with inner | c <;> rfl
      · subst hm
        intro heq
        have hget := congrArg (SortedMap.get? · []) heq
        simp [putOrDelete] at hget
    · refine ⟨_, _, .empty, hrestore hnone, ?_, Ne.symm hm⟩
      rcases hb : s.backing with inner | c <;> rfl

/-! Two tasks of one topology with a store, and a changelog with one record for the first task. -/

def countsFactory : StoreFactory (KeyValueBytesStore Bytes) where
  make name topic := .inMemory name bytesSerde bytesSerde topic
  changelog_make _ _ := rfl
  dirty_make _ _ := rfl

def countsTopology : Topology Relay Unit (KeyValueBytesStore Bytes) (Value Bytes) :=
  (relayTopology .forward).addStateStore "counts" countsFactory ["relay"] none

def twoTasks : StreamThread Relay Unit (KeyValueBytesStore Bytes) (Value Bytes) :=
  (StreamThread.run .atLeastOnce (assign countsTopology ⟨[⟨"0", [0, 1], [⟨"in", 0⟩, ⟨"in", 1⟩]⟩], [], []⟩)
    ⟨.new "app" 0 none, (⟨[], [], 0, [], [], []⟩ : Script).world (.broker [])⟩).1.own

def countsOver (backend : StoreBackend) : StoredThread Relay Unit (KeyValueBytesStore Bytes) (Value Bytes) :=
  ⟨twoTasks, backend, fun _ => .empty⟩

theorem separate_inMemory : (countsOver .inMemory).Separate :=
  (StoredThread.separate_iff_apart (countsOver .inMemory)).mpr (.inl rfl)

def changelogWorld : World Script :=
  (⟨[("app-counts-changelog", [⟨0, some [1], some [2], 0⟩])], [], 0, [], [], []⟩ : Script).world (.broker [])

/-- The restore of the task of partition 0 fills the store of the task of partition 1. -/
theorem not_separate_turso : ¬ (countsOver (.turso "state")).Separate := by
  intro h
  have hafter := h Script changelogWorld ("0", 0) ("0", 1) .restore "counts" (by decide)
  have hbytes := congrArg (Option.map fun s => s.backing.get [1]) hafter
  have hfilled : ((((StoredThread.onTask ("0", 0) TaskOp.restore.perform).final
      (⟨countsOver (.turso "state"), changelogWorld⟩ : Shared _ (World Script))).own.content ("0", 1) "counts").map
      fun s => s.backing.get [1]) = some (some [2]) := by
    decide +kernel
  have hempty : ((countsOver (.turso "state")).content ("0", 1) "counts").map (fun s => s.backing.get [1])
      = some none := by
    decide +kernel
  rw [hfilled, hempty] at hbytes
  cases hbytes

end KrabkaStreams
