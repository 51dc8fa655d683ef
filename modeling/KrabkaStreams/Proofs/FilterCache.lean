import KrabkaStreams.Dsl.FilterCache
import KrabkaStreams.Proofs.TableCache
import KrabkaStreams.Proofs.TableGroupBy

/-!
# When a cached filter collapses the changes

A flush forwards one step for every key with a change, from the flushed row to the current one. That is
right exactly if every such key has a change that passes (`collapses_iff_somePass`).
-/

namespace KrabkaStreams

variable {K V : Type} {c : Change V}

theorem collapse_snoc {cs : List (Change V)} {d : Change V} (h : collapse cs = [d]) (c : Change V) :
    collapse (cs ++ [c]) = [⟨d.old, c.new⟩] := by
  cases cs with
  | nil => cases h
  | cons x xs =>
    obtain ⟨rfl, -⟩ := List.cons.inj h
    simp [collapse]

theorem changesAt_append [DecidableEq K] (rs rs' : List (Record K (Change V))) (k : K) :
    changesAt (rs ++ rs') k = changesAt rs k ++ changesAt rs' k := by
  unfold changesAt
  rw [List.filter_append, List.map_append]

namespace TableStore

theorem isCached_put (s : TableStore K V) (k : K) (v : V) : (s.put k v).isCached = s.isCached := by
  unfold TableStore.put
  rw [ByteStore.put_eq]
  show (s.backing.put _ _ _).isCached = s.backing.isCached
  cases s.backing <;> rfl

theorem isCached_without (s : TableStore K V) (k : K) : (s.without k).isCached = s.isCached := by
  unfold TableStore.without
  rw [ByteStore.remove_eq]
  show (s.backing.delete _ _).2.isCached = s.backing.isCached
  cases s.backing <;> rfl

variable [DecidableEq K] {s : TableStore K V} {f g : K → Option V}

theorem Rows.reconcile_plain (h : s.Rows f) (k : K) (o : Option V) :
    ∃ s', s.reconcile k o = .ok s' ∧ s'.Rows (Function.update f k o) ∧ s'.isCached = s.isCached := by
  cases o with
  | some v => exact ⟨_, rfl, h.put k v, isCached_put s k v⟩
  | none =>
    refine ⟨s.without k, ?_, h.without k, isCached_without s k⟩
    unfold TableStore.reconcile
    rw [h.delete]
    rfl

theorem Stages.reconcile_cached (h : s.Stages f g) (hcached : s.isCached = true) (k : K) (o : Option V) :
    ∃ s', s.reconcile k o = .ok s' ∧ s'.Stages (Function.update f k o) g ∧ s'.isCached = true ∧
      ∀ k', s'.Dirty k' ↔ k' = k ∨ s.Dirty k' := by
  cases o with
  | some v => exact ⟨_, rfl, h.put_cached hcached k v⟩
  | none =>
    refine ⟨s.without k, ?_, h.without_cached hcached k⟩
    unfold TableStore.reconcile
    rw [h.rows.delete]
    rfl

end TableStore

theorem KTableFilterProcessor.process_eq {p : KTableFilterProcessor K V} {store store' : TableStore K V}
    {rc : RecordContext} {k : K}
    (h : (store.setRecordContext rc).reconcile k (c.new.filter (p.predicate k)) = .ok store') (ts : Int) :
    p.process store rc ⟨some k, c, ts⟩ = .ok (store',
      if (c.new.filter (p.predicate k)).isSome || (c.old.filter (p.predicate k)).isSome then
        p.forwarder.maybeForwardChange k ⟨c.old.filter (p.predicate k), c.new.filter (p.predicate k)⟩ ts else []) := by
  refine Runs.bind_eq_ok.mpr ⟨store', h, ?_⟩
  by_cases hsome : ((c.new.filter (p.predicate k)).isSome || (c.old.filter (p.predicate k)).isSome) = true
  · rw [if_pos hsome, if_pos hsome]
    rfl
  · rw [if_neg hsome, if_neg hsome]
    rfl

namespace FilterEvent

variable [DecidableEq K] {predicate : K → V → Bool} {rows g : K → Option V} {seen : List (K × Change V)}
  {pending : List (Record K (Change V))} {plain cached : TableStore K V}

def kept (predicate : K → V → Bool) (rows : K → Option V) (k : K) : Option V := (rows k).filter (predicate k)

omit [DecidableEq K] in
theorem kept_update [DecidableEq K] (rows : K → Option V) (k : K) (o : Option V) :
    kept predicate (Function.update rows k o) = Function.update (kept predicate rows) k (o.filter (predicate k)) := by
  funext k'
  unfold kept
  by_cases h : k' = k
  · subst h
    rw [Function.update_self, Function.update_self]
  · rw [Function.update_of_ne h, Function.update_of_ne h]

/-- Both filters after some events: the current rows, those of the last flush `g`, the changes `seen` since and
those the plain filter has forwarded of them. -/
structure Tracks (predicate : K → V → Bool) (rows g : K → Option V) (seen : List (K × Change V))
    (pending : List (Record K (Change V))) (plain cached : TableStore K V) : Prop where
  isPlain : plain.isCached = false
  isCached : cached.isCached = true
  holds : plain.Rows (kept predicate rows)
  stages : cached.Stages (kept predicate rows) g
  dirty : ∀ k, cached.Dirty k ↔ ∃ e ∈ seen, e.1 = k
  forwarded : ∀ k,
    (changesAt pending k = [] ∧ kept predicate rows k = g k ∧ ∀ e ∈ seen, e.1 = k → ¬ Passes predicate e) ∨
      (collapse (changesAt pending k) = [⟨g k, kept predicate rows k⟩] ∧ ∃ e ∈ seen, e.1 = k ∧ Passes predicate e)

def forwards (predicate : K → V → Bool) (k : K) (c : Change V) (ts : Int) : List (Record K (Change V)) :=
  if (c.new.filter (predicate k)).isSome || (c.old.filter (predicate k)).isSome then
    [⟨some k, ⟨c.old.filter (predicate k), c.new.filter (predicate k)⟩, ts⟩] else []

theorem changesAt_forwards_of_ne {k k' : K} (h : k' ≠ k) (c : Change V) (ts : Int) :
    changesAt (forwards predicate k c ts) k' = [] := by
  unfold forwards changesAt
  split
  · rw [List.filter_cons_of_neg (by simpa using Ne.symm h)]
    rfl
  · rfl

theorem changesAt_forwards {k : K} (h : Passes predicate (k, c)) (ts : Int) :
    changesAt (forwards predicate k c ts) k = [⟨c.old.filter (predicate k), c.new.filter (predicate k)⟩] := by
  unfold forwards changesAt
  rw [if_pos (by rw [Bool.or_eq_true]; exact h.symm), List.filter_cons_of_pos (by simp)]
  rfl

omit [DecidableEq K] in
theorem forwards_eq_nil {k : K} (h : ¬ Passes predicate (k, c)) (ts : Int) :
    forwards predicate k c ts = [] := by
  unfold forwards
  rw [if_neg fun hor => h ((Bool.or_eq_true _ _).mp hor).symm]

theorem Tracks.forwarded_snoc (h : Tracks predicate rows g seen pending plain cached) (k : K)
    (hold : c.old = rows k) (ts : Int) (k' : K) :
    (changesAt (pending ++ forwards predicate k c ts) k' = [] ∧
        kept predicate (Function.update rows k c.new) k' = g k' ∧
        ∀ e ∈ seen ++ [(k, c)], e.1 = k' → ¬ Passes predicate e) ∨
      (collapse (changesAt (pending ++ forwards predicate k c ts) k')
          = [⟨g k', kept predicate (Function.update rows k c.new) k'⟩] ∧
        ∃ e ∈ seen ++ [(k, c)], e.1 = k' ∧ Passes predicate e) := by
  rw [changesAt_append, kept_update]
  have hmem : ∀ {e}, e ∈ seen → e ∈ seen ++ [(k, c)] := fun he => List.mem_append_left _ he
  by_cases hk : k' = k
  · subst hk
    rw [Function.update_self]
    have hkept : c.old.filter (predicate k') = kept predicate rows k' := by
      rw [hold]
      rfl
    by_cases hpass : Passes predicate (k', c)
    · refine .inr ⟨?_, (k', c), List.mem_append_right _ (List.mem_singleton_self _), rfl, hpass⟩
      rw [changesAt_forwards hpass, hkept]
      rcases h.forwarded k' with ⟨hnil, hsame, -⟩ | ⟨hcollapse, -⟩
      · rw [hnil, hsame]
        rfl
      · exact collapse_snoc hcollapse _
    · have hgone : kept predicate rows k' = none ∧ c.new.filter (predicate k') = none := by
        rw [← hkept]
        exact ⟨Option.not_isSome_iff_eq_none.mp fun ho => hpass (.inl ho),
          Option.not_isSome_iff_eq_none.mp fun ho => hpass (.inr ho)⟩
      rw [forwards_eq_nil hpass]
      rcases h.forwarded k' with ⟨hnil, hsame, hnone⟩ | ⟨hcollapse, e, he, hkey, hp⟩
      · refine .inl ⟨by rw [hnil]; rfl, by rw [hgone.2, ← hgone.1, hsame], fun e he hkey => ?_⟩
        rcases List.mem_append.mp he with he | he
        · exact hnone e he hkey
        · rw [List.mem_singleton.mp he]
          exact hpass
      · refine .inr ⟨?_, e, hmem he, hkey, hp⟩
        rw [show changesAt ([] : List (Record K (Change V))) k' = [] from rfl, List.append_nil, hcollapse, hgone.1,
          hgone.2]
  · rw [Function.update_of_ne hk, changesAt_forwards_of_ne hk, List.append_nil]
    rcases h.forwarded k' with ⟨hnil, hsame, hnone⟩ | ⟨hcollapse, e, he, hkey, hp⟩
    · refine .inl ⟨hnil, hsame, fun e he hkey => ?_⟩
      rcases List.mem_append.mp he with he | he
      · exact hnone e he hkey
      · rw [List.mem_singleton.mp he] at hkey
        exact absurd hkey.symm hk
    · exact .inr ⟨hcollapse, e, hmem he, hkey, hp⟩

theorem Tracks.change (h : Tracks predicate rows g seen pending plain cached) (k : K) (hold : c.old = rows k)
    (ts : Int) (ctx : RecordContext) :
    ∃ plain' cached',
      KTableFilterProcessor.process ⟨predicate, ⟨plain.isCached⟩⟩ plain ctx ⟨some k, c, ts⟩
        = .ok (plain', forwards predicate k c ts) ∧
      KTableFilterProcessor.process ⟨predicate, ⟨cached.isCached⟩⟩ cached ctx ⟨some k, c, ts⟩ = .ok (cached', []) ∧
      Tracks predicate (Function.update rows k c.new) g (seen ++ [(k, c)]) (pending ++ forwards predicate k c ts)
        plain' cached' := by
  obtain ⟨plain', hplain, hrows, hpc⟩ :=
    (h.holds.setRecordContext ctx).reconcile_plain k (c.new.filter (predicate k))
  obtain ⟨cached', hcached, hstages, hcc, hdirty⟩ :=
    (h.stages.setRecordContext ctx).reconcile_cached h.isCached k (c.new.filter (predicate k))
  refine ⟨plain', cached', ?_, ?_, hpc.trans h.isPlain, hcc, ?_, ?_, fun k' => ?_, h.forwarded_snoc k hold ts⟩
  · rw [KTableFilterProcessor.process_eq hplain, h.isPlain]
    rfl
  · rw [KTableFilterProcessor.process_eq hcached, h.isCached]
    exact congrArg (fun l => Except.ok (cached', l)) (ite_self _)
  · rw [kept_update rows k c.new]
    exact hrows
  · rw [kept_update rows k c.new]
    exact hstages
  · rw [hdirty]
    have hold' : cached.Dirty k' ↔ _ := h.dirty k'
    show k' = k ∨ cached.Dirty k' ↔ _
    rw [hold']
    constructor
    · rintro (rfl | ⟨e, he, hkey⟩)
      · exact ⟨_, List.mem_append_right _ (List.mem_singleton_self _), rfl⟩
      · exact ⟨e, List.mem_append_left _ he, hkey⟩
    · rintro ⟨e, he, hkey⟩
      rcases List.mem_append.mp he with he | he
      · exact .inr ⟨e, he, hkey⟩
      · rw [List.mem_singleton.mp he] at hkey
        exact .inl hkey.symm

theorem Tracks.flush (h : Tracks predicate rows g seen pending plain cached) :
    ∃ changes cached', cached.flushCache = .ok (changes, cached') ∧
      ((∀ k, changesAt changes k = collapse (changesAt pending k)) ↔
        ∀ e ∈ seen, ∃ e' ∈ seen, e'.1 = e.1 ∧ Passes predicate e') ∧
      Tracks predicate rows (kept predicate rows) [] [] plain cached' := by
  obtain ⟨ks, ts, cached', hflush, hnodup, hmem, hstages, hclean, hcc⟩ := h.stages.flushCache
  have hat : ∀ k, changesAt (ks.map fun k => (⟨some k, ⟨g k, kept predicate rows k⟩, ts k⟩ : Record K (Change V))) k
      = if k ∈ ks then [⟨g k, kept predicate rows k⟩] else [] := by
    intro k
    unfold changesAt
    rw [Lists.filter_map_of_nodup _ hnodup (a := k) (by simp)]
    split <;> rfl
  have hdirty : ∀ k, k ∈ ks ↔ ∃ e ∈ seen, e.1 = k := fun k => (hmem k).trans (h.dirty k)
  refine ⟨_, cached', hflush, ⟨fun heq e he => ?_, fun hpass k => ?_⟩, h.isPlain, hcc.trans h.isCached, h.holds,
    hstages, fun k => iff_of_false (hclean k) (by simp), fun k => .inl ⟨rfl, rfl, by simp⟩⟩
  · have hk := heq e.1
    rw [hat, if_pos ((hdirty e.1).mpr ⟨e, he, rfl⟩)] at hk
    rcases h.forwarded e.1 with ⟨hnil, -⟩ | ⟨-, hsome⟩
    · rw [hnil] at hk
      cases hk
    · exact hsome
  · rw [hat]
    rcases h.forwarded k with ⟨hnil, -, hnone⟩ | ⟨hcollapse, e, he, hkey, -⟩
    · rw [hnil, if_neg]
      · rfl
      · intro hk
        obtain ⟨e, he, rfl⟩ := (hdirty k).mp hk
        obtain ⟨e', he', hkey, hp⟩ := hpass e he
        exact hnone e' he' hkey hp
    · rw [hcollapse, if_pos ((hdirty k).mpr ⟨e, he, hkey⟩)]

theorem collapses_iff : ∀ (xs : List (FilterEvent K V)) {rows g : K → Option V} {seen : List (K × Change V)}
    {pending : List (Record K (Change V))} {plain cached : TableStore K V},
    Tracks predicate rows g seen pending plain cached → Coherent rows xs →
      (Collapses predicate plain cached pending xs ↔ SomePass predicate seen xs)
  | [], _, _, _, _, _, _, _, _ => Iff.rfl
  | .change k c ts ctx :: xs, _, _, _, _, _, _, h, ⟨hold, hrest⟩ => by
    obtain ⟨plain', cached', hplain, hcached, h'⟩ := h.change k hold ts ctx
    unfold Collapses SomePass
    rw [hplain, hcached]
    exact collapses_iff xs h' hrest
  | .flush :: xs, _, _, _, _, _, _, h, hrest => by
    obtain ⟨changes, cached', hflush, hiff, h'⟩ := h.flush
    unfold Collapses SomePass
    rw [hflush]
    exact and_congr hiff (collapses_iff xs h' hrest)

end FilterEvent

/-- With a cached store, the filter forwards at each flush the changes since the last one in one step, exactly if
of the changes of a key between two flushes one at least passes. -/
theorem collapses_iff_somePass [DecidableEq K] (predicate : K → V → Bool) (plain cached : TableStore K V)
    (hplain : plain.Rows fun _ => none) (hp : plain.isCached = false) (hcached : cached.Stages (fun _ => none) fun _ => none)
    (hc : cached.isCached = true) (hclean : ∀ k, ¬ cached.Dirty k) (xs : List (FilterEvent K V))
    (hcoherent : FilterEvent.Coherent (fun _ => none) xs) :
    Collapses predicate plain cached [] xs ↔ FilterEvent.SomePass predicate [] xs := by
  have hstart : FilterEvent.Tracks predicate (fun _ => none) (fun _ => none) [] [] plain cached :=
    ⟨hp, hc, hplain, hcached, fun k => iff_of_false (hclean k) (by simp), fun _ => .inl ⟨rfl, rfl, by simp⟩⟩
  exact FilterEvent.collapses_iff xs hstart hcoherent

def octetChanges : List (FilterEvent UInt8 UInt8) :=
  [.change 1 ⟨none, some 10⟩ 0 ⟨"octets", 0, 0, 0⟩, .change 1 ⟨some 10, some 4⟩ 1 ⟨"octets", 0, 1, 1⟩,
    .change 2 ⟨none, some 11⟩ 2 ⟨"octets", 0, 2, 2⟩, .flush, .change 2 ⟨some 11, some 12⟩ 3 ⟨"octets", 0, 3, 3⟩, .flush]

theorem collapses_octetChanges : FilterEvent.SomePass (fun _ v => 9 < v) [] octetChanges ∧
    Collapses (fun _ v => 9 < v) TableGroupBy.octetTable TableGroupBy.octetTable.enableCache [] octetChanges := by
  have hpass : FilterEvent.SomePass (fun _ v => 9 < v) [] octetChanges := by
    refine ⟨?_, ?_, trivial⟩ <;> decide
  exact ⟨hpass, (collapses_iff_somePass _ TableGroupBy.octetTable TableGroupBy.octetTable.enableCache
    TableGroupBy.octetTable_rows rfl (.enableCache Changed.octetSerde_lawful Changed.octetSerde_lawful _) rfl
    (fun _ => List.not_mem_nil) octetChanges ⟨rfl, rfl, rfl, rfl, trivial⟩).mpr hpass⟩

/-- A row that does not pass: the flush forwards a change from nothing to nothing. -/
theorem not_collapses_rejected :
    FilterEvent.Coherent (fun _ => none) [.change (1 : UInt8) ⟨none, some (4 : UInt8)⟩ 0 ⟨"octets", 0, 0, 0⟩, .flush] ∧
    ¬ Collapses (fun _ v => 9 < v) TableGroupBy.octetTable TableGroupBy.octetTable.enableCache []
      [.change 1 ⟨none, some 4⟩ 0 ⟨"octets", 0, 0, 0⟩, .flush] := by
  refine ⟨⟨rfl, trivial⟩, ?_⟩
  rintro ⟨hflush, -⟩
  exact absurd (hflush 1) (by decide)

end KrabkaStreams
