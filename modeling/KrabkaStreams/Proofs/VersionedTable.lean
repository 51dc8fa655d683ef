import KrabkaStreams.Dsl.VersionedTable
import KrabkaStreams.Proofs.TableGroupBy
import KrabkaStreams.Proofs.Versioned

/-!
# The aggregates of a versioned table

While no record of a key is older than an earlier one, the aggregates are the folds of the latest
versions (`foldsLatest_of_inOrder`). A late record changes no latest version, but is added all the same.
-/

namespace KrabkaStreams

open GroupedFold Runs

variable {K V KR VR T : Type} [DecidableEq K] [DecidableEq KR] {g : GroupedTable K V KR VR T}

theorem VersionedKTableSourceProcessor.process_latest {store : VersionedBytesStore K V}
    {f : K → Option (Int × V)} (h : store.Latest f) {k : K} {t : Int}
    (hfol : VersionedBytesStore.Follows f k t) (ht : IsI64 t) (v : V) :
    ∃ store', process store ⟨some k, v, t⟩
        = .ok (store', [⟨some k, ⟨(f k).map Prod.snd, some v⟩, t⟩]) ∧
      store'.Latest (Function.update f k (some (t, v))) := by
  obtain ⟨o, hold, hval⟩ := h.getAsOf hfol ht
  obtain ⟨store', hput, h'⟩ := h.put hfol ht v
  refine ⟨store', ?_, h'⟩
  show (store.getAsOf k t >>= _) = _
  rw [hold]
  rw [hput, ← hval]
  rfl

namespace VersionedGroupBy

/-- The latest versions are `f`, and the aggregates are the folds of their values. -/
structure Reached (g : GroupedTable K V KR VR T) (hinv : g.aggregate.Invertible)
    (s : VersionedGroupBy K V KR T) (f : K → Option (Int × V)) : Prop where
  latest : s.source.Latest f
  folds : ∃ agg, s.aggregate.Rows agg ∧
    (g.grouping hinv).Folds (g.aggregateOf agg) fun k => (f k).map Prod.snd

theorem Reached.step {hinv : g.aggregate.Invertible} {s : VersionedGroupBy K V KR T}
    {f : K → Option (Int × V)} (h : Reached g hinv s f) (hops : g.Hops) {r : KeyedRecord K V}
    (hfol : VersionedBytesStore.Follows f r.key r.timestamp) (ht : IsI64 r.timestamp) (reading : Reading) :
    ∃ s', step g s r reading = .ok s' ∧
      Reached g hinv s' (Function.update f r.key (some (r.timestamp, r.value))) := by
  obtain ⟨agg, hagg, hfolds⟩ := h.folds
  obtain ⟨source', hproc, hlatest⟩ :=
    VersionedKTableSourceProcessor.process_latest h.latest hfol ht r.value
  obtain ⟨aggregate', agg', hfeed, hagg', hfolds'⟩ :=
    GroupedTable.feed_folds hops hinv hagg hfolds r.key (some r.value) r.timestamp reading
  refine ⟨⟨source', aggregate'⟩, ?_, hlatest, agg', hagg', ?_⟩
  · unfold VersionedGroupBy.step
    rw [hproc]
    show (g.feed _ _ _ >>= _) >>= _ = _
    rw [hfeed]
    rfl
  · refine (funext fun k => ?_ : (fun k => Option.map Prod.snd (Function.update f r.key _ k)) = _) ▸ hfolds'
    by_cases hk : k = r.key
    · subst hk
      rw [Function.update_self, Function.update_self]
      rfl
    · rw [Function.update_of_ne hk, Function.update_of_ne hk]

theorem Reached.run {hinv : g.aggregate.Invertible} (hops : g.Hops) :
    ∀ (xs : List (KeyedRecord K V × Reading)) {s : VersionedGroupBy K V KR T} {f : K → Option (Int × V)},
      Reached g hinv s f → (∀ x ∈ xs, VersionedBytesStore.Follows f x.1.key x.1.timestamp) →
      (∀ x ∈ xs, IsI64 x.1.timestamp) → InOrder (xs.map Prod.fst) →
      ∃ s' f', run g s xs = .ok s' ∧ Reached g hinv s' f'
  | [], s, f, h, _, _, _ => ⟨s, f, rfl, h⟩
  | (r, reading) :: rest, s, f, h, hfol, htime, hord => by
    obtain ⟨hhead, htail⟩ := List.pairwise_cons.mp hord
    obtain ⟨s₁, hstep, h₁⟩ :=
      h.step hops (hfol _ List.mem_cons_self) (htime _ List.mem_cons_self) reading
    have hfol₁ : ∀ x ∈ rest, VersionedBytesStore.Follows
        (Function.update f r.key (some (r.timestamp, r.value))) x.1.key x.1.timestamp := by
      intro x hx e he
      by_cases hk : x.1.key = r.key
      · rw [hk, Function.update_self] at he
        obtain rfl := Option.some.inj he
        exact hhead x.1 (List.mem_map_of_mem hx) hk.symm
      · rw [Function.update_of_ne hk] at he
        exact hfol x (List.mem_cons_of_mem _ hx) e he
    obtain ⟨s', f', hrest, h'⟩ := Reached.run hops rest h₁ hfol₁
      (fun x hx => htime x (List.mem_cons_of_mem _ hx)) htail
    exact ⟨s', f', bind_eq_ok.mpr ⟨s₁, hstep, hrest⟩, h'⟩

/-- Without a late record the aggregates are the folds of the latest versions. -/
theorem foldsLatest_of_inOrder (g : GroupedTable K V KR VR T) (hinv : g.aggregate.Invertible) (hops : g.Hops)
    (start : VersionedGroupBy K V KR T) (hsource : start.source.Latest fun _ => none)
    (hagg : start.aggregate.Rows fun _ => none) (xs : List (KeyedRecord K V × Reading))
    (htime : ∀ x ∈ xs, IsI64 x.1.timestamp) (hord : InOrder (xs.map Prod.fst)) : FoldsLatest g start xs := by
  have hstart : Reached g hinv start fun _ => none := ⟨hsource, _, hagg, .empty _⟩
  obtain ⟨s, f, hrun, hlatest, agg, hrows, hfolds⟩ :=
    hstart.run hops xs (fun _ _ _ he => nomatch he) htime hord
  refine ⟨s, fun k => (f k).map Prod.snd, hrun, fun k => ⟨_, hlatest.get k, ?_⟩, hfolds.finite,
    fun l hl x => ⟨agg x, hrows.get x, hfolds.eq hl x⟩⟩
  rw [Option.map_map]
  rfl

def flagSerde : Serde Bool where
  serialize _ b := if b then [1] else [0]
  deserialize _ bytes := .ok (bytes == [1])

def sumOfFlags : GroupedTable Bool UInt8 UInt8 UInt8 UInt8 where
  select := ⟨fun _ v => (0, v)⟩
  aggregate := TableGroupBy.sumOfOctets.aggregate
  keySerde := Changed.octetSerde
  valueSerde := Changed.octetSerde
  topic := "flags-repartition"
  sourceName := "flags-source"

def flagStart : VersionedGroupBy Bool UInt8 UInt8 UInt8 where
  source := .inMemory 60000 flagSerde Changed.octetSerde "flags-changelog"
  aggregate := TableGroupBy.octetTable

def flagRecord (key : Bool) (value : UInt8) (ts : Int) : KeyedRecord Bool UInt8 × Reading :=
  (⟨key, value, ts, ⟨"flags", 0, 0, ts⟩⟩, ⟨false, fun m => ⟨"flags-repartition", 0, 0, m.timestamp⟩⟩)

theorem foldsLatest_flags :
    FoldsLatest sumOfFlags flagStart [flagRecord true 5 10, flagRecord false 7 4, flagRecord true 3 10] :=
  foldsLatest_of_inOrder sumOfFlags TableGroupBy.sumOfOctets_invertible
    ⟨fun _ => rfl, fun _ => rfl, Changed.octetSerde_fits _⟩ flagStart (.inMemory (fun _ b => by cases b <;> rfl) Changed.octetSerde_lawful _ _)
    TableGroupBy.octetTable_rows _ (by decide) (by unfold InOrder; decide)

/-- The second record is older than the first: the latest version stays `5`, the sum becomes `8`. -/
theorem not_foldsLatest_late : ¬ FoldsLatest sumOfFlags flagStart [flagRecord true 5 10, flagRecord true 3 4] := by
  rintro ⟨s, rows, hrun, hrows, -, hall⟩
  have hsum : (run sumOfFlags flagStart [flagRecord true 5 10, flagRecord true 3 4]).map
      (fun s => (s.source.get true, s.source.get false, s.aggregate.get 0))
        = .ok (.ok (some ⟨5, 10, none⟩), .ok none, .ok (some 8)) := by decide +kernel
  rw [hrun] at hsum
  obtain ⟨htrue, hfalse, hagg⟩ : s.source.get true = .ok (some ⟨5, 10, none⟩) ∧ s.source.get false = .ok none ∧
      s.aggregate.get 0 = .ok (some 8) := by simpa [Except.map] using hsum
  have hrow : rows true = some 5 := by
    obtain ⟨_, hget, hval⟩ := hrows true
    rw [htrue] at hget
    exact hval.symm.trans (by rw [← Except.ok.inj hget]; rfl)
  have hnone : rows false = none := by
    obtain ⟨_, hget, hval⟩ := hrows false
    rw [hfalse] at hget
    exact hval.symm.trans (by rw [← Except.ok.inj hget]; rfl)
  have hlists : Lists [(true, (5 : UInt8))] rows :=
    ⟨by decide, fun {k v} => by cases k <;> simp [hrow, hnone, eq_comm]⟩
  obtain ⟨agg, hget, hfold⟩ := hall _ hlists 0
  rw [hagg] at hget
  rw [← Except.ok.inj hget] at hfold
  exact absurd hfold (by decide)

end VersionedGroupBy

end KrabkaStreams
