import KrabkaStreams.Proofs.SessionAggregate
import KrabkaStreams.Proofs.WindowRuns

/-!
# The stored sessions are the clusters

`sessionRun_rule` is the rule for runs. `SumInv` says that the stored intervals are the extents of the
clusters, each with the sum of its records; a step keeps it when the search finds every session it
touches.
-/

namespace KrabkaStreams

open Clusters Lists KStreamSessionAggregateProcessor

variable {K V VA : Type} [DecidableEq K] {w : SessionWindows} {init : VA} {agg : K → V → VA → VA}
  {merger : K → VA → VA → VA} {emit : EmitStrategy} {store : SessionBytesStore K VA}
  {recs : List (KeyedRecord K V)} {r : KeyedRecord K V} {f f' : K × Int × Int → Option VA}
  {p p' : KStreamSessionAggregateProcessor K V VA} {out : List (Record (Windowed K) (Change VA))}
  {before : List (KeyedRecord K V)} {a b : Int}

section Run

omit [DecidableEq K] in
theorem SessionBytesStore.Holds.sessions {s : SessionBytesStore K VA} (h : s.Holds f) :
    ∃ l, s.sessions = .ok l ∧ (∀ e, e ∈ l ↔ f (e.1, e.2.1, e.2.2.1) = some e.2.2.2) ∧
      (l.map fun e => (e.1, e.2.1, e.2.2.1)).Nodup := by
  obtain ⟨l, hl, hmem, hnodup⟩ := h.findClosedSessions i64Max
  refine ⟨l, hl, fun e => (hmem e).trans ?_, hnodup⟩
  exact and_iff_left_of_imp fun hf => (h.table.valid hf).1.2.2

structure Configured (w : SessionWindows) (init : VA) (agg : K → V → VA → VA)
    (merger : K → VA → VA → VA) (emit : EmitStrategy) (recs : List (KeyedRecord K V))
    (p : KStreamSessionAggregateProcessor K V VA) : Prop where
  windows : p.windows = w
  init : p.init = init
  agg : p.agg = agg
  merger : p.merger = merger
  emit : p.emit = emit
  streamTime : p.streamTime = streamTimeOf recs

omit [DecidableEq K] in
theorem Configured.tick (h : Configured w init agg merger emit recs p) :
    Configured w init agg merger emit (recs ++ [r]) (p.tick r) :=
  ⟨h.windows, h.init, h.agg, h.merger, h.emit, by rw [streamTimeOf_snoc, ← h.streamTime]; rfl⟩

theorem Configured.step (h : Configured w init agg merger emit recs p) (hstep : p.Step f r p' f' out) :
    Configured w init agg merger emit (recs ++ [r]) p' := by
  have ht := h.tick (r := r)
  cases hstep with
  | dropped => exact ht
  | updated => exact ht
  | closed => exact ⟨ht.windows, ht.init, ht.agg, ht.merger, ht.emit, ht.streamTime⟩

omit [DecidableEq K] in
theorem Configured.closeTime (h : Configured w init agg merger emit recs p)
    (ht : ∀ x ∈ recs ++ [r], x.Timely) :
    p.closeTime r = streamTimeOf (recs ++ [r]) - w.grace := by
  have hb : IsTime (streamTimeOf (recs ++ [r])) := streamTimeOf_snoc_bounds ht
  rw [← saturatingSub_of_nonneg hb ⟨w.grace_nonneg, w.grace_le⟩, streamTimeOf_snoc,
    KStreamSessionAggregateProcessor.closeTime, h.streamTime, h.windows]

theorem sessionRun_rule (hs : store.Holds fun _ => none)
    {I : List (KeyedRecord K V) → KStreamSessionAggregateProcessor K V VA →
      (K × Int × Int → Option VA) → List (List (Record (Windowed K) (Change VA))) → Prop}
    (h0 : I [] (.supply w init agg merger emit store.isCached) (fun _ => none) [])
    (hstep : ∀ {done r p s outs f p' f' out}, done ++ [r] <+: recs →
      sessionRun w init agg merger emit store done = .ok ((p, s), outs) → s.Holds f →
      I done p f outs → Configured w init agg merger emit done p → p.Step f r p' f' out →
      I (done ++ [r]) p' f' (outs ++ [out])) :
    ∀ {done : List (KeyedRecord K V)}, done <+: recs → (∀ x ∈ done, x.Timely) →
      ∃ p s outs f, sessionRun w init agg merger emit store done = .ok ((p, s), outs) ∧ s.Holds f ∧
        I done p f outs ∧ Configured w init agg merger emit done p := by
  intro done
  induction done using List.reverseRecOn with
  | nil => exact fun _ _ => ⟨_, _, _, _, rfl, hs, h0, ⟨rfl, rfl, rfl, rfl, rfl, rfl⟩⟩
  | append_singleton done r ih =>
    intro hpre ht
    obtain ⟨p, s, outs, f, hrun, hf, hI, hcfg⟩ := ih ((List.prefix_append _ _).trans hpre)
      fun x hx => ht x (List.mem_append_left _ hx)
    obtain ⟨p', s', f', out, hp, hf', hst⟩ := process_step p hf (ht r (by simp))
    exact ⟨p', s', outs ++ [out], f', Runs.run_snoc.mpr ⟨(p, s), outs, out, hrun, hp, rfl⟩, hf',
      hstep hpre hrun hf hI hcfg hst, hcfg.step hst⟩

end Run

section Replaced

variable {cands : List (Int × Int × VA)}

theorem replaced_eq_some_iff (hc : Candidates p.windows f r.key r.timestamp cands) {v : VA} :
    p.replaced f r cands (r.key, a, b) = some v ↔
      (a = (p.merge r.key r.timestamp cands).2.1 ∧ b = (p.merge r.key r.timestamp cands).2.2 ∧
        v = p.agg r.key r.value (p.merge r.key r.timestamp cands).1) ∨
      (¬ (a = (p.merge r.key r.timestamp cands).2.1 ∧ b = (p.merge r.key r.timestamp cands).2.2) ∧
        f (r.key, a, b) = some v ∧
        ¬ (Touches p.windows.gap r.timestamp a b ∧ ¬ (a = i64Max ∧ b = i64Max))) := by
  unfold replaced
  by_cases hnew : a = (p.merge r.key r.timestamp cands).2.1 ∧ b = (p.merge r.key r.timestamp cands).2.2
  · obtain ⟨rfl, rfl⟩ := hnew
    rw [Function.update_self]
    simp [eq_comm]
  · have hne : (r.key, a, b) ≠
        (r.key, (p.merge r.key r.timestamp cands).2.1, (p.merge r.key r.timestamp cands).2.2) := by
      intro he
      cases he
      exact hnew ⟨rfl, rfl⟩
    rw [Function.update_of_ne hne]
    unfold without
    constructor
    · intro h
      split at h
      · cases h
      · rename_i hmem
        refine .inr ⟨hnew, h, fun ht => hmem ?_⟩
        exact List.mem_map.mpr ⟨(a, b, v), (hc.mem_iff _).mpr ⟨h, ht⟩, rfl⟩
    · rintro (⟨ha, hb, -⟩ | ⟨-, hf, hnot⟩)
      · exact absurd ⟨ha, hb⟩ hnew
      · rw [if_neg, hf]
        intro hmem
        obtain ⟨c, hcm, he⟩ := List.mem_map.mp hmem
        cases he
        exact hnot ((hc.mem_iff c).mp hcm).2

theorem replaced_of_ne {k : K} (hk : k ≠ r.key) (a b : Int) :
    p.replaced f r cands (k, a, b) = f (k, a, b) := by
  unfold replaced without
  rw [Function.update_of_ne fun he => hk (congrArg Prod.fst he), if_neg]
  intro hmem
  obtain ⟨c, -, he⟩ := List.mem_map.mp hmem
  exact hk (congrArg Prod.fst he).symm

end Replaced

section Times

omit [DecidableEq K]

open Classical in
theorem SessionWindows.accepted_snoc (w : SessionWindows) (recs : List (KeyedRecord K V))
    (r : KeyedRecord K V) :
    w.accepted (recs ++ [r]) = if w.Accepts (streamTimeOf (recs ++ [r])) (w.accepted recs) r
      then w.accepted recs ++ [r] else w.accepted recs := by
  have hnow : ∀ recs : List (KeyedRecord K V), (recs.foldl (fun s r =>
      let now := max s.1 r.timestamp
      (now, if w.Accepts now s.2 r then s.2 ++ [r] else s.2)) (i64Min, [])).1 = streamTimeOf recs := by
    intro recs
    induction recs using List.reverseRecOn with
    | nil => rfl
    | append_singleton recs r ih =>
      rw [List.foldl_append, streamTimeOf_snoc, ← ih]
      rfl
  rw [streamTimeOf_snoc, ← hnow recs]
  unfold SessionWindows.accepted
  rw [List.foldl_append]
  rfl

end Times

section Sums

variable {M : Type} [AddCommMonoid M] {h : V → M}

def sumIn (h : V → M) (recs : List (KeyedRecord K V)) (k : K) (a b : Int) : M :=
  ((recs.filter fun r => r.key = k ∧ a ≤ r.timestamp ∧ r.timestamp ≤ b).map fun r => h r.value).sum

theorem sumIn_snoc_self (ha : a ≤ r.timestamp) (hb : r.timestamp ≤ b) :
    sumIn h (recs ++ [r]) r.key a b = sumIn h recs r.key a b + h r.value := by
  unfold sumIn
  rw [List.filter_append]
  simp [ha, hb]

theorem sumIn_snoc_of_not {k : K} (hr : ¬ (r.key = k ∧ a ≤ r.timestamp ∧ r.timestamp ≤ b)) :
    sumIn h (recs ++ [r]) k a b = sumIn h recs k a b := by
  unfold sumIn
  rw [List.filter_append, List.filter_cons_of_neg (by simpa using hr), List.filter_nil, List.append_nil]

/-- The table holds the clusters of the records, with their sums. -/
structure SumInv (w : SessionWindows) (h : V → M) (recs : List (KeyedRecord K V))
    (f : K × Int × Int → Option M) : Prop where
  clustered : ∀ k, Clustered w.gap (timesOf k recs) (spansOf f k)
  sums : ∀ {k a b v}, f (k, a, b) = some v → v = sumIn h recs k a b

theorem SumInv.empty (w : SessionWindows) (h : V → M) :
    SumInv w h ([] : List (KeyedRecord K V)) fun _ => none := by
  refine ⟨fun k => ?_, nofun⟩
  rw [timesOf_nil]
  convert Clustered.empty w.gap
  simp [spansOf]

theorem SumInv.clusterSum_eq {f : K × Int × Int → Option M} (hinv : SumInv w h recs f) {k : K}
    {a b t : Int} (hS : spansOf f k a b) (ht : timesOf k recs t) (hat : a ≤ t) (htb : t ≤ b) :
    w.clusterSum h recs k t = sumIn h recs k a b := by
  unfold SessionWindows.clusterSum sumIn
  congr 2
  refine List.filter_congr fun x hx => decide_eq_decide.mpr (and_congr_right fun hk => ?_)
  rw [(hinv.clustered k).linked_iff hS ht hat htb]
  exact and_iff_right ⟨x, hx, hk, rfl⟩

theorem SumInv.isSession_iff {f : K × Int × Int → Option M} (hinv : SumInv w h recs f) {k : K} {v : M} :
    w.IsSession h recs k a b v ↔ f (k, a, b) = some v := by
  have hclus := hinv.clustered k
  constructor
  · rintro ⟨t, ht, hleast, hgreatest, rfl⟩
    have hS : spansOf f k a b := hclus.interval_iff.mpr ⟨t, ht, hleast, hgreatest⟩
    obtain ⟨v, hv⟩ := hS
    rw [hinv.clusterSum_eq ⟨v, hv⟩ ht (hleast.2 .refl) (hgreatest.2 .refl), ← hinv.sums hv]
    exact hv
  · intro hv
    have hS : spansOf f k a b := ⟨v, hv⟩
    obtain ⟨ha, -, hab⟩ := hclus.ends hS
    obtain ⟨hleast, hgreatest⟩ := hclus.extent hS ha le_rfl hab
    exact ⟨a, ha, hleast, hgreatest, by rw [hinv.clusterSum_eq hS ha le_rfl hab, ← hinv.sums hv]⟩

section Step

variable {f f' : K × Int × Int → Option M} {p p' : KStreamSessionAggregateProcessor K V M}
  {cands : List (Int × Int × M)} {out : List (Record (Windowed K) (Change M))}

def Clear (w : SessionWindows) (f : K × Int × Int → Option M) (r : KeyedRecord K V) : Prop :=
  i64Max ≤ r.timestamp + w.gap → ¬ spansOf f r.key i64Max i64Max

omit [DecidableEq K] [AddCommMonoid M] in
theorem Clear.not_last (hclear : Clear w f r) (hS : spansOf f r.key a b) (ht : Touches w.gap r.timestamp a b) :
    ¬ (a = i64Max ∧ b = i64Max) := by
  rintro ⟨rfl, rfl⟩
  exact hclear ht.2 hS

omit [DecidableEq K] [AddCommMonoid M] in
theorem Clear.spans (hclear : Clear w f r) (hc : Candidates w f r.key r.timestamp cands) :
    Spans w.gap (spansOf f r.key) r.timestamp (p.merge r.key r.timestamp cands).2.1
      (p.merge r.key r.timestamp cands).2.2 := by
  have hsp := hc.spans (p := p)
  refine ⟨hsp.lo_le, hsp.le_hi, fun hS ht => hsp.holds ⟨hS, hclear.not_last hS ht⟩ ht, ?_, ?_⟩
  · exact hsp.lo_eq.imp_right fun ⟨b, hb, ht⟩ => ⟨b, hb.1, ht⟩
  · exact hsp.hi_eq.imp_right fun ⟨a, ha, ht⟩ => ⟨a, ha.1, ht⟩

omit [AddCommMonoid M] in
theorem Clear.spansOf_replaced (hclear : Clear w f r) (hw : p.windows = w)
    (hc : Candidates w f r.key r.timestamp cands) :
    spansOf (p.replaced f r cands) r.key = merged w.gap (spansOf f r.key) r.timestamp
      (p.merge r.key r.timestamp cands).2.1 (p.merge r.key r.timestamp cands).2.2 := by
  subst hw
  funext a b
  refine propext ⟨?_, ?_⟩
  · rintro ⟨v, hv⟩
    rcases (replaced_eq_some_iff hc).mp hv with ⟨ha, hb, -⟩ | ⟨-, hf, hnot⟩
    · exact .inl ⟨ha, hb⟩
    · exact .inr ⟨⟨v, hf⟩, fun ht => hnot ⟨ht, hclear.not_last ⟨v, hf⟩ ht⟩⟩
  · intro hm
    by_cases hnew : a = (p.merge r.key r.timestamp cands).2.1 ∧
      b = (p.merge r.key r.timestamp cands).2.2
    · exact ⟨_, (replaced_eq_some_iff hc).mpr (.inl ⟨hnew.1, hnew.2, rfl⟩)⟩
    · rcases hm with hm | ⟨⟨v, hf⟩, hnot⟩
      · exact absurd hm hnew
      · exact ⟨v, (replaced_eq_some_iff hc).mpr (.inr ⟨hnew, hf, fun ht => hnot ht.1⟩)⟩

theorem SumInv.accepts_iff (hinv : SumInv w h before f) (hclear : Clear w f r)
    (hc : Candidates w f r.key r.timestamp cands) (now : Int) :
    w.Accepts now before r ↔ now - w.grace ≤ (p.merge r.key r.timestamp cands).2.2 := by
  unfold SessionWindows.Accepts
  rw [timesOf_snoc_self]
  exact (hinv.clustered r.key).reaches_iff w.gap_nonneg (hclear.spans hc)

omit [DecidableEq K] in
theorem merge_sum (h0 : p.init = 0) (hm : p.merger = fun _ a b => a + b) (k : K) (ts : Int)
    (cands : List (Int × Int × M)) : (p.merge k ts cands).1 = (cands.map fun c => c.2.2).sum := by
  induction cands using List.reverseRecOn with
  | nil => simpa [merge] using h0
  | append_singleton cands c ih =>
    rw [merge_snoc, List.map_append, List.sum_append, ← ih, hm]
    simp

theorem SumInv.sumIn_merged (hinv : SumInv w h before f) (hclear : Clear w f r)
    (hc : Candidates w f r.key r.timestamp cands) :
    sumIn h before r.key (p.merge r.key r.timestamp cands).2.1 (p.merge r.key r.timestamp cands).2.2
      = (cands.map fun c => c.2.2).sum := by
  have hclus := hinv.clustered r.key
  have hsp := hclear.spans (p := p) hc
  let mem (c : Int × Int × M) (x : KeyedRecord K V) : Bool :=
    x.key = r.key ∧ c.1 ≤ x.timestamp ∧ x.timestamp ≤ c.2.1
  have hdisjoint : cands.Pairwise fun c d => ∀ x ∈ before, mem c x = true → mem d x = false := by
    refine (List.pairwise_map.mp hc.nodup).imp_of_mem fun {c d} hcm hdm hne x _ hx => ?_
    have hcS : spansOf f r.key c.1 c.2.1 := ⟨_, ((hc.mem_iff c).mp hcm).1⟩
    have hdS : spansOf f r.key d.1 d.2.1 := ⟨_, ((hc.mem_iff d).mp hdm).1⟩
    have hx' : x.key = r.key ∧ c.1 ≤ x.timestamp ∧ x.timestamp ≤ c.2.1 := of_decide_eq_true hx
    have hgap := w.gap_nonneg
    refine decide_eq_false fun hd => ?_
    rcases hclus.apart hcS hdS with ⟨h1, h2⟩ | hlt | hlt
    · exact hne (Prod.ext h1 h2)
    · omega
    · omega
  have hsplit := sum_filter_any (fun x : KeyedRecord K V => h x.value) mem hdisjoint
  have hvals : cands.map (fun c => ((before.filter (mem c)).map fun x => h x.value).sum)
      = cands.map fun c => c.2.2 := by
    refine List.map_congr_left fun c hcm => ?_
    exact (hinv.sums ((hc.mem_iff c).mp hcm).1).symm
  rw [← hvals, ← hsplit]
  unfold sumIn
  congr 2
  refine List.filter_congr fun x hx => ?_
  rw [Bool.eq_iff_iff, List.any_eq_true, decide_eq_true_eq]
  constructor
  · rintro ⟨hk, hlo, hhi⟩
    obtain ⟨a, b, ⟨v, hv⟩, hat, htb⟩ := hclus.covers ⟨x, hx, hk, rfl⟩
    have htouch : Touches w.gap r.timestamp a b := by
      by_contra hnot
      rcases hsp.apart w.gap_nonneg hclus.apart (fun hS => (hclus.ends hS).2.2) ⟨v, hv⟩ hnot with hlt | hlt
      · have := w.gap_nonneg
        omega
      · have := w.gap_nonneg
        omega
    refine ⟨(a, b, v), (hc.mem_iff _).mpr ⟨hv, htouch, hclear.not_last ⟨v, hv⟩ htouch⟩, ?_⟩
    exact decide_eq_true ⟨hk, hat, htb⟩
  · rintro ⟨c, hcm, hcx⟩
    obtain ⟨hv, htouch, -⟩ := (hc.mem_iff c).mp hcm
    obtain ⟨hk, hat, htb⟩ : x.key = r.key ∧ c.1 ≤ x.timestamp ∧ x.timestamp ≤ c.2.1 :=
      of_decide_eq_true hcx
    obtain ⟨hlo, hhi⟩ := hsp.holds ⟨_, hv⟩ htouch
    exact ⟨hk, hlo.trans hat, htb.trans hhi⟩

theorem SumInv.replaced (hinv : SumInv w h before f)
    (hcfg : Configured w 0 (fun _ v acc => acc + h v) (fun _ a b => a + b) emit recs p) (hclear : Clear w f r)
    (hc : Candidates w f r.key r.timestamp cands) : SumInv w h (before ++ [r]) (p.replaced f r cands) := by
  have hsp := hclear.spans (p := p) hc
  have hc' : Candidates p.windows f r.key r.timestamp cands := hcfg.windows.symm ▸ hc
  refine ⟨fun k => ?_, ?_⟩
  · by_cases hk : k = r.key
    · subst hk
      rw [timesOf_snoc_self, hclear.spansOf_replaced hcfg.windows hc]
      exact (hinv.clustered _).insert w.gap_nonneg hsp
    · have hsame : spansOf (p.replaced f r cands) k = spansOf f k := by
        funext a b
        unfold spansOf
        rw [replaced_of_ne hk]
      rw [timesOf_snoc_of_ne hk, hsame]
      exact hinv.clustered k
  · intro k a b v hv
    by_cases hk : k = r.key
    · subst hk
      rcases (replaced_eq_some_iff hc').mp hv with ⟨rfl, rfl, rfl⟩ | ⟨-, hf, hnot⟩
      · rw [sumIn_snoc_self hsp.lo_le hsp.le_hi, hinv.sumIn_merged hclear hc,
          ← merge_sum hcfg.init hcfg.merger r.key r.timestamp cands, hcfg.agg]
      · rw [sumIn_snoc_of_not, ← hinv.sums hf]
        rintro ⟨-, ha, hb⟩
        have hgap := w.gap_nonneg
        have htouch : Touches w.gap r.timestamp a b := ⟨by omega, by omega⟩
        exact hnot ⟨hcfg.windows.symm ▸ htouch, hclear.not_last ⟨v, hf⟩ htouch⟩
    · rw [replaced_of_ne hk] at hv
      rw [sumIn_snoc_of_not fun hr => hk hr.1.symm, ← hinv.sums hv]

theorem SumInv.step (hinv : SumInv w h (w.accepted recs) f)
    (hcfg : Configured w 0 (fun _ v acc => acc + h v) (fun _ a b => a + b) emit recs p)
    (ht : ∀ x ∈ recs ++ [r], x.Timely) (hclear : Clear w f r) (hstep : p.Step f r p' f' out) :
    SumInv w h (w.accepted (recs ++ [r])) f' := by
  have hclose := hcfg.closeTime ht
  cases hstep with
  | dropped hc hclosed =>
    rw [hcfg.windows] at hc
    rw [w.accepted_snoc, if_neg]
    · exact hinv
    · rw [hinv.accepts_iff hclear hc (p := p), ← hclose]
      exact not_le.mpr hclosed
  | updated _ hc hopen =>
    rw [hcfg.windows] at hc
    rw [w.accepted_snoc, if_pos]
    · exact hinv.replaced hcfg hclear hc
    · rw [hinv.accepts_iff hclear hc (p := p), ← hclose]
      exact hopen
  | closed hc hopen =>
    rw [hcfg.windows] at hc
    rw [w.accepted_snoc, if_pos]
    · exact hinv.replaced hcfg hclear hc
    · rw [hinv.accepts_iff hclear hc (p := p), ← hclose]
      exact hopen

end Step

/-- The session aggregation stores the clusters of the accepted records, over every run in which the
search finds the sessions of a key. -/
theorem clustersExactly_of_lastInstantClear {keySerde : Serde K} {valueSerde : Serde M}
    (hk : keySerde.Lawful) (hv : valueSerde.Lawful) (topic : Topic) (w : SessionWindows) (h : V → M)
    (emit : EmitStrategy) (recs : List (KeyedRecord K V)) (ht : ∀ x ∈ recs, x.Timely)
    (hclear : LastInstantClear w h emit (.inMemory keySerde valueSerde topic) recs) :
    ClustersExactly w h emit (.inMemory keySerde valueSerde topic) recs := by
  have hs := SessionBytesStore.Holds.inMemory hk hv topic
  have hrule : ∃ p s outs f, sumRun w h emit (.inMemory keySerde valueSerde topic) recs
      = .ok ((p, s), outs) ∧ s.Holds f ∧ SumInv w h (w.accepted recs) f ∧
        Configured w 0 (fun _ v acc => acc + h v) (fun _ a b => a + b) emit recs p := by
    refine sessionRun_rule hs (I := fun done _ f _ => SumInv w h (w.accepted done) f) (SumInv.empty w h)
      ?_ List.prefix_rfl ht
    intro done r p s outs f p' f' out hpre hrun hf hinv hcfg hstep
    refine hinv.step hcfg (fun x hx => ht x (hpre.subset hx)) (fun hnear ⟨v, hlast⟩ => ?_) hstep
    obtain ⟨l, hl, hmem, -⟩ := hf.sessions
    exact hclear done r hpre hnear p s outs l hrun hl (r.key, i64Max, i64Max, v) ((hmem _).mpr hlast)
      rfl ⟨rfl, rfl⟩
  obtain ⟨p, s, outs, f, hrun, hf, hinv, -⟩ := hrule
  obtain ⟨l, hl, hmem, hnodup⟩ := hf.sessions
  refine ⟨p, s, outs, l, hrun, hl, hnodup, fun k a b v => ?_, fun x hx y hy hxy hne => ?_⟩
  · rw [hmem, hinv.isSession_iff]
  · obtain ⟨k, a, b, v⟩ := x
    obtain ⟨k', c, d, v'⟩ := y
    obtain rfl : k = k' := hxy
    have hfx := (hmem _).mp hx
    have hfy := (hmem _).mp hy
    refine ((hinv.clustered k).apart ⟨v, hfx⟩ ⟨v', hfy⟩).resolve_left ?_
    rintro ⟨rfl, rfl⟩
    rw [hfx] at hfy
    cases hfy
    exact hne rfl

end Sums

section Samples

def countSerde : Serde Nat := ⟨fun _ n => List.replicate n 0, fun _ b => .ok b.length⟩

theorem countSerde_lawful : countSerde.Lawful := fun _ n => by simp [countSerde]

def countStore : SessionBytesStore Bytes Nat := .inMemory bytesSerde countSerde "app-s-changelog"

def tenGap : SessionWindows where
  gap := 10
  grace := 0
  gap_nonneg := by decide
  gap_le := hoppingWindows.size_le
  grace_nonneg := unitWindows.grace_nonneg
  grace_le := unitWindows.grace_le

theorem accepts_of_le {before : List (KeyedRecord Bytes Bytes)} {r : KeyedRecord Bytes Bytes} {now : Int}
    (h : now - w.grace ≤ r.timestamp) : w.Accepts now before r :=
  ⟨r.timestamp, .refl, h⟩

def lastInstantTwice : List (KeyedRecord Bytes Bytes) := [recordAt 97 1 i64Max, recordAt 97 2 i64Max]

theorem accepted_lastInstantTwice : tenGap.accepted lastInstantTwice = lastInstantTwice := by
  have hone : tenGap.accepted [recordAt 97 1 i64Max] = [recordAt 97 1 i64Max] := by
    rw [← List.nil_append [recordAt 97 1 i64Max], SessionWindows.accepted_snoc,
      if_pos (accepts_of_le (by decide))]
    rfl
  rw [show lastInstantTwice = [recordAt 97 1 i64Max] ++ [recordAt 97 2 i64Max] from rfl,
    SessionWindows.accepted_snoc, hone, if_pos (accepts_of_le (by decide))]

theorem clusterSum_lastInstantTwice : tenGap.clusterSum (fun _ => 1) lastInstantTwice [97] i64Max = 2 := by
  unfold SessionWindows.clusterSum
  rw [List.filter_eq_self.mpr]
  · rfl
  · intro x hx
    have hx' : x.key = [97] ∧ x.timestamp = i64Max := by
      rcases List.mem_cons.mp hx with rfl | hx
      · exact ⟨rfl, rfl⟩
      · rw [List.mem_singleton.mp hx]
        exact ⟨rfl, rfl⟩
    simp only [hx', decide_eq_true_eq, true_and]
    exact .refl

/-- The second record at the last instant does not find the session of the first, and replaces it. -/
theorem not_clustersExactly_lastInstant : (∀ x ∈ lastInstantTwice, x.Timely) ∧
    ¬ ClustersExactly tenGap (fun _ => 1) .onWindowUpdate countStore lastInstantTwice := by
  refine ⟨by decide, fun ⟨p, s, outs, l, hrun, hl, _, hmem, _⟩ => ?_⟩
  have hcomputed : (do
      let r ← sumRun tenGap (fun _ => 1) .onWindowUpdate countStore lastInstantTwice
      r.1.2.sessions) = .ok [([97], i64Max, i64Max, 1)] := by decide +kernel
  rw [hrun] at hcomputed
  have hl' : l = [([97], i64Max, i64Max, 1)] := Except.ok.inj (hl.symm.trans hcomputed)
  have hin : (([97], i64Max, i64Max, 1) : Bytes × Int × Int × Nat) ∈ l := by simp [hl']
  obtain ⟨t, ⟨x, hx, -, hxt⟩, -, -, hsum⟩ := (hmem _ _ _ _).mp hin
  rw [accepted_lastInstantTwice] at hx hsum
  have ht : t = i64Max := by
    rw [← hxt]
    rcases List.mem_cons.mp hx with rfl | hx
    · rfl
    · rw [List.mem_singleton.mp hx]
      rfl
  rw [ht, clusterSum_lastInstantTwice] at hsum
  exact absurd hsum (by decide)

/-- Records out of order, two keys, and one record that merges two sessions. -/
theorem clustersExactly_outOfOrder :
    ClustersExactly tenGap (fun _ => 1) .onWindowUpdate countStore
      [recordAt 97 1 0, recordAt 98 2 5, recordAt 97 3 20, recordAt 97 4 10] := by
  refine clustersExactly_of_lastInstantClear bytesSerde_lawful countSerde_lawful _ _ _ _ _ (by decide) ?_
  intro done r hpre hnear
  have hr := hpre.subset (List.mem_append_right done (List.mem_singleton.mpr rfl))
  have hlow : ∀ x ∈ [recordAt 97 1 0, recordAt 98 2 5, recordAt 97 3 20, recordAt 97 4 10],
      x.timestamp + tenGap.gap < i64Max := by decide
  exact absurd hnear (not_le.mpr (hlow r hr))

end Samples

end KrabkaStreams
