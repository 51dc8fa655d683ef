import KrabkaStreams.Dsl.TableSemantics
import KrabkaStreams.Proofs.GroupedTable

/-!
# The aggregates of a table are the folds of its rows

A node that is not cached forwards the images of the two sides of a change, unless both are gone
(`TableChain.process_spec`), so the aggregate sees the true old side of each change.
-/

namespace KrabkaStreams

open GroupedFold

variable {K V V' W KR VR T : Type} {f : K → Option V}

theorem TableStore.Rows.setRecordContext {s : TableStore K V} (h : s.Rows f) (rc : RecordContext) :
    (s.setRecordContext rc).Rows f :=
  ⟨h.key, h.value, h.table⟩

theorem TableStore.Rows.reconcile [DecidableEq K] {s : TableStore K V} (h : s.Rows f) (k : K) (o : Option V) :
    ∃ s', s.reconcile k o = .ok s' ∧ s'.Rows (Function.update f k o) := by
  cases o with
  | some v => exact ⟨_, rfl, h.put k v⟩
  | none =>
    refine ⟨_, ?_, h.without k⟩
    unfold TableStore.reconcile
    rw [h.delete]
    rfl

def TableNode.Ready : TableNode K V V' → Prop
  | .filter p store => p.forwarder.cached = false ∧ ∃ f, store.Rows f
  | .mapValues p store => p.forwarder.cached = false ∧ ∃ f, store.Rows f
  | .mapValuesView _ => True

def TableChain.Ready {K V V' : Type} : TableChain K V V' → Prop
  | .nil => True
  | .cons node rest => node.Ready ∧ rest.Ready

def imageOf (row : V → Option V') (k : K) (c : Change V) (ts : Int) : List (Record K (Change V')) :=
  if (c.old.bind row).isSome ∨ (c.new.bind row).isSome then
    [⟨some k, ⟨c.old.bind row, c.new.bind row⟩, ts⟩]
  else []

theorem imageOf_map (f : V → V') (k : K) {c : Change V} (hc : c.old.isSome ∨ c.new.isSome) (ts : Int) :
    imageOf (fun v => some (f v)) k c ts = [⟨some k, c.map f, ts⟩] := by
  have hbind : ∀ o : Option V, o.bind (fun v => some (f v)) = o.map f := fun o => by cases o <;> rfl
  unfold imageOf
  rw [hbind, hbind, if_pos (by simpa using hc)]
  rfl

theorem TableNode.process_spec [DecidableEq K] {node : TableNode K V V'} (h : node.Ready)
    (rc : RecordContext) (k : K) {c : Change V} (hc : c.old.isSome ∨ c.new.isSome) (ts : Int) :
    ∃ node', node.process rc ⟨some k, c, ts⟩ = .ok (node', imageOf (node.row k) k c ts) ∧ node'.Ready ∧
      node'.row = node.row := by
  cases node with
  | filter p store =>
    obtain ⟨hfwd, f, hrows⟩ := h
    obtain ⟨store', hrec, hrows'⟩ := (hrows.setRecordContext rc).reconcile k (c.new.filter (p.predicate k))
    refine ⟨.filter p store', ?_, ⟨hfwd, _, hrows'⟩, rfl⟩
    have hbind : ∀ o : Option V, o.bind (TableNode.row (.filter p store) k) = o.filter (p.predicate k) :=
      fun o => by
        cases o with
        | none => rfl
        | some v => simp [TableNode.row, Option.filter]
    unfold TableNode.process KTableFilterProcessor.process TupleForwarder.maybeForwardChange imageOf
    rw [hbind, hbind]
    simp only [hrec, hfwd]
    by_cases hgone : (c.old.filter (p.predicate k)).isSome ∨ (c.new.filter (p.predicate k)).isSome
    · rw [if_pos hgone]
      have hor : ((c.new.filter (p.predicate k)).isSome || (c.old.filter (p.predicate k)).isSome) = true := by
        rw [Bool.or_eq_true]
        exact hgone.symm
      simp only [bind, Except.bind, hor, if_true]
      rfl
    · rw [if_neg hgone]
      have hor : ¬ ((c.new.filter (p.predicate k)).isSome || (c.old.filter (p.predicate k)).isSome) = true := by
        rw [Bool.or_eq_true]
        exact fun h => hgone h.symm
      simp only [bind, Except.bind, hor]
      rfl
  | mapValues p store =>
    obtain ⟨hfwd, f, hrows⟩ := h
    obtain ⟨store', hrec, hrows'⟩ := (hrows.setRecordContext rc).reconcile k (c.map p.f).new
    refine ⟨.mapValues p store', ?_, ⟨hfwd, _, hrows'⟩, rfl⟩
    have himage : imageOf (TableNode.row (.mapValues p store) k) k c ts = [⟨some k, c.map p.f, ts⟩] :=
      imageOf_map p.f k hc ts
    rw [himage]
    unfold TableNode.process KTableMapValuesProcessor.process TupleForwarder.maybeForwardChange
    simp only [hrec, hfwd]
    rfl
  | mapValuesView p =>
    refine ⟨.mapValuesView p, ?_, trivial, rfl⟩
    have himage : imageOf (TableNode.row (.mapValuesView p) k) k c ts = [⟨some k, c.map p.f, ts⟩] :=
      imageOf_map p.f k hc ts
    rw [himage]
    rfl

theorem TableChain.process_nil (rc : RecordContext) :
    ∀ {V V' : Type} (chain : TableChain K V V'), chain.process rc [] = .ok (chain, [])
  | _, _, .nil => rfl
  | _, _, .cons node rest => by
    simp only [TableChain.process, TableNode.processAll, TableChain.process_nil rc rest]

theorem TableNode.processAll_singleton {node node' : TableNode K V V'} {rc : RecordContext}
    {r : Record K (Change V)} {out : List (Record K (Change V'))} (h : node.process rc r = .ok (node', out)) :
    node.processAll rc [r] = .ok (node', out) := by
  unfold TableNode.processAll
  rw [h]
  show Except.ok (node', out ++ []) = _
  rw [List.append_nil]

theorem TableChain.process_spec [DecidableEq K] (rc : RecordContext) (k : K) (ts : Int) :
    ∀ {V V' : Type} {chain : TableChain K V V'}, chain.Ready → ∀ {c : Change V},
      c.old.isSome ∨ c.new.isSome →
      ∃ chain', chain.process rc [⟨some k, c, ts⟩] = .ok (chain', imageOf (chain.row k) k c ts) ∧
        chain'.Ready ∧ chain'.row = chain.row
  | V, _, .nil, h, c, hc => by
    refine ⟨.nil, ?_, h, rfl⟩
    have hid : imageOf (TableChain.row .nil k) k c ts = [⟨some k, c, ts⟩] := by
      have hbind : ∀ o : Option V, o.bind (TableChain.row (.nil : TableChain K V V) k) = o := fun o => by
        cases o <;> rfl
      unfold imageOf
      rw [hbind, hbind, if_pos hc]
    rw [hid]
    rfl
  | _, _, .cons node rest, h, c, hc => by
    obtain ⟨node', hnode, hready, hrow⟩ := TableNode.process_spec h.1 rc k hc ts
    have hassoc : ∀ o : Option _, o.bind (TableChain.row (.cons node rest) k)
        = (o.bind (node.row k)).bind (rest.row k) := fun o => (Option.bind_assoc _ _ _).symm
    unfold TableChain.process
    rw [TableNode.processAll_singleton hnode]
    by_cases hsome : (c.old.bind (node.row k)).isSome ∨ (c.new.bind (node.row k)).isSome
    · obtain ⟨rest', hrest, hready', hrow'⟩ := process_spec rc k ts h.2
        (c := ⟨c.old.bind (node.row k), c.new.bind (node.row k)⟩) hsome
      refine ⟨.cons node' rest', ?_, ⟨hready, hready'⟩, ?_⟩
      · have himage : imageOf (node.row k) k c ts = [_] := if_pos hsome
        have himages : imageOf (TableChain.row (.cons node rest) k) k c ts
            = imageOf (rest.row k) k ⟨c.old.bind (node.row k), c.new.bind (node.row k)⟩ ts := by
          unfold imageOf
          rw [hassoc, hassoc]
        rw [himage, himages]
        dsimp only
        rw [hrest]
      · funext k' v
        unfold TableChain.row
        rw [hrow, hrow']
    · refine ⟨.cons node' rest, ?_, ⟨hready, h.2⟩, ?_⟩
      · have himage : imageOf (node.row k) k c ts = [] := if_neg hsome
        have hold : c.old.bind (node.row k) = none := by
          simpa using fun ho : (c.old.bind (node.row k)).isSome = true => hsome (.inl ho)
        have hnew : c.new.bind (node.row k) = none := by
          simpa using fun ho : (c.new.bind (node.row k)).isSome = true => hsome (.inr ho)
        have himages : imageOf (TableChain.row (.cons node rest) k) k c ts = [] := by
          unfold imageOf
          rw [hassoc, hassoc, hold, hnew]
          rfl
        rw [himage, himages]
        dsimp only
        rw [TableChain.process_nil]
      · funext k' v
        unfold TableChain.row
        rw [hrow]

theorem KTableSourceProcessor.process_rows [DecidableEq K] {p : KTableSourceProcessor}
    (hfwd : p.forwarder.cached = false) {store : TableStore K V} (h : store.Rows f) (rc : RecordContext)
    (k : K) (v : V) (ts : Int) :
    ∃ store', p.process store rc ⟨some k, v, ts⟩ = .ok (store', [⟨some k, ⟨f k, some v⟩, ts⟩]) ∧
      store'.Rows (Function.update f k (some v)) := by
  have hctx := h.setRecordContext rc
  refine ⟨_, ?_, hctx.put k v⟩
  unfold KTableSourceProcessor.process TupleForwarder.maybeForwardChange
  simp only [hctx.get k, hfwd]
  rfl

namespace TableGroupBy

variable [DecidableEq K] [DecidableEq KR] {t : TableGroupBy K V W KR VR T}

structure Reached (t : TableGroupBy K V W KR VR T) (hinv : t.grouped.aggregate.Invertible)
    (row : K → V → Option W) (s : State K V W KR T) (rows : K → Option V) : Prop where
  source : s.source.Rows rows
  ready : s.chain.Ready
  same : s.chain.row = row
  folds : ∃ f, s.aggregate.Rows f ∧
    (t.grouped.grouping hinv).Folds (t.grouped.aggregateOf f) fun k => (rows k).bind (row k)

theorem bind_update (rows : K → Option V) (row : K → V → Option W) (k : K) (v : V) :
    (fun k' => (Function.update rows k (some v) k').bind (row k'))
      = Function.update (fun k' => (rows k').bind (row k')) k (row k v) := by
  funext k'
  by_cases h : k' = k
  · subst h
    rw [Function.update_self, Function.update_self]
    rfl
  · rw [Function.update_of_ne h, Function.update_of_ne h]

theorem Reached.step {hinv : t.grouped.aggregate.Invertible} {row : K → V → Option W}
    {s : State K V W KR T} {rows : K → Option V} (h : Reached t hinv row s rows)
    (hsource : t.source.forwarder.cached = false) (hops : t.grouped.Hops) (r : KeyedRecord K V)
    (reading : Reading) :
    ∃ s', t.step s r reading = .ok s' ∧
      Reached t hinv row s' (Function.update rows r.key (some r.value)) := by
  obtain ⟨f, hagg, hfolds⟩ := h.folds
  obtain ⟨source', hproc, hsrc⟩ :=
    KTableSourceProcessor.process_rows hsource h.source r.ctx r.key r.value r.timestamp
  obtain ⟨chain', hchain, hready, hrow⟩ := TableChain.process_spec r.ctx r.key r.timestamp h.ready
    (c := ⟨rows r.key, some r.value⟩) (.inr rfl)
  have hrow' : chain'.row = row := hrow.trans h.same
  rw [h.same] at hchain
  unfold TableGroupBy.step
  rw [hproc]
  dsimp only
  rw [hchain]
  by_cases hsome : ((rows r.key).bind (row r.key)).isSome ∨ ((some r.value).bind (row r.key)).isSome
  · obtain ⟨agg', f', hfeed, hagg', hfolds'⟩ :=
      GroupedTable.feed_folds hops hinv hagg hfolds r.key (row r.key r.value) r.timestamp reading
    have hall : t.grouped.feedAll reading (imageOf (row r.key) r.key ⟨rows r.key, some r.value⟩ r.timestamp)
        s.aggregate = .ok agg' := by
      unfold imageOf
      rw [if_pos hsome]
      exact Runs.bind_eq_ok.mpr ⟨agg', hfeed, rfl⟩
    dsimp only
    rw [hall]
    refine ⟨_, rfl, hsrc, hready, hrow', f', hagg', ?_⟩
    rw [bind_update]
    exact hfolds'
  · have hold : (rows r.key).bind (row r.key) = none := by
      simpa using fun ho : ((rows r.key).bind (row r.key)).isSome = true => hsome (.inl ho)
    have hnew : row r.key r.value = none := by
      simpa using fun ho : (row r.key r.value).isSome = true => hsome (.inr ho)
    have hall : t.grouped.feedAll reading (imageOf (row r.key) r.key ⟨rows r.key, some r.value⟩ r.timestamp)
        s.aggregate = .ok s.aggregate := by
      unfold imageOf
      rw [if_neg hsome]
      rfl
    dsimp only
    rw [hall]
    refine ⟨_, rfl, hsrc, hready, hrow', f, hagg, ?_⟩
    have hsame : Function.update (fun k => (rows k).bind (row k)) r.key (row r.key r.value)
        = fun k => (rows k).bind (row k) := by
      rw [hnew, ← hold]
      exact Function.update_eq_self r.key _
    rw [bind_update, hsame]
    exact hfolds

theorem Reached.run {hinv : t.grouped.aggregate.Invertible} {row : K → V → Option W}
    (hsource : t.source.forwarder.cached = false) (hops : t.grouped.Hops) :
    ∀ (xs : List (KeyedRecord K V × Reading)) {s : State K V W KR T} {rows : K → Option V},
      Reached t hinv row s rows → ∃ s', t.run s xs = .ok s' ∧ Reached t hinv row s'
        ((xs.map Prod.fst).foldl (fun f r => Function.update f r.key (some r.value)) rows)
  | [], s, rows, h => ⟨s, rfl, h⟩
  | (r, reading) :: rest, s, rows, h => by
    obtain ⟨s₁, hstep, h₁⟩ := h.step hsource hops r reading
    obtain ⟨s', hrest, h'⟩ := Reached.run hsource hops rest h₁
    refine ⟨s', ?_, h'⟩
    unfold TableGroupBy.run
    rw [hstep]
    exact hrest

/-- The aggregates of a table that was filtered and mapped are the folds of its rows. -/
theorem aggregatesExactly (t : TableGroupBy K V W KR VR T) (hinv : t.grouped.aggregate.Invertible)
    (hops : t.grouped.Hops) (hsource : t.source.forwarder.cached = false) (start : State K V W KR T)
    (hstore : start.source.Rows fun _ => none) (hchain : start.chain.Ready)
    (hagg : start.aggregate.Rows fun _ => none) (xs : List (KeyedRecord K V × Reading)) :
    t.AggregatesExactly start xs := by
  have hstart : Reached t hinv start.chain.row start fun _ => none :=
    ⟨hstore, hchain, rfl, _, hagg, .empty _⟩
  obtain ⟨s, hrun, -, -, -, f, hrows, hfolds⟩ := hstart.run hsource hops xs
  exact ⟨s, hrun, hfolds.finite, fun l hl x => ⟨f x, hrows.get x, hfolds.eq hl x⟩⟩

def sumOfOctets : GroupedTable UInt8 UInt8 UInt8 UInt8 UInt8 where
  select := ⟨fun _ v => (v % 3, v)⟩
  aggregate := ⟨0, fun _ v t => t + v, fun _ v t => t - v, ⟨false⟩⟩
  keySerde := Changed.octetSerde
  valueSerde := Changed.octetSerde
  topic := "octets-repartition"
  sourceName := "octets-source"

theorem sumOfOctets_invertible : sumOfOctets.aggregate.Invertible :=
  ⟨fun _ a b t => by
    show t + b + a = t + a + b
    rw [UInt8.add_assoc, UInt8.add_comm b a, ← UInt8.add_assoc],
  fun _ a t => UInt8.add_sub_cancel t a⟩

theorem sumOfOctets_hops : sumOfOctets.Hops :=
  ⟨fun _ => rfl, fun _ => rfl, Changed.octetSerde_fits _⟩

def octetTable : TableStore UInt8 UInt8 := .inMemory Changed.octetSerde Changed.octetSerde "octets-changelog"

theorem octetTable_rows : octetTable.Rows fun _ => none :=
  .inMemory Changed.octetSerde_lawful Changed.octetSerde_lawful _

def doubledOctets : State UInt8 UInt8 UInt8 UInt8 UInt8 where
  source := octetTable
  chain := .cons (.filter ⟨fun _ v => 9 < v, ⟨false⟩⟩ octetTable)
    (.cons (.mapValues ⟨fun v => 2 * v, ⟨false⟩⟩ octetTable) .nil)
  aggregate := octetTable

/-- A row moves from group 2 to group 1, another is filtered out again. -/
theorem doubledOctets_aggregatesExactly :
    (⟨⟨⟨false⟩⟩, sumOfOctets⟩ : TableGroupBy UInt8 UInt8 UInt8 UInt8 UInt8 UInt8).AggregatesExactly
      doubledOctets
      ([⟨1, 10, 0, ⟨"octets", 0, 0, 0⟩⟩, ⟨2, 13, 1, ⟨"octets", 0, 1, 1⟩⟩, ⟨1, 11, 2, ⟨"octets", 0, 2, 2⟩⟩,
        ⟨2, 4, 3, ⟨"octets", 0, 3, 3⟩⟩].map fun r => (r, ⟨true, fun m => ⟨"octets-repartition", 0, 0, m.timestamp⟩⟩)) :=
  aggregatesExactly _ sumOfOctets_invertible sumOfOctets_hops rfl doubledOctets octetTable_rows
    ⟨⟨rfl, _, octetTable_rows⟩, ⟨rfl, _, octetTable_rows⟩, trivial⟩ octetTable_rows _

end TableGroupBy

end KrabkaStreams
