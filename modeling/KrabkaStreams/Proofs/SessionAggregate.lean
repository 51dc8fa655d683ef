import KrabkaStreams.Dsl.SessionSemantics
import KrabkaStreams.Proofs.SessionStore
import KrabkaStreams.Proofs.TimeWindows

/-!
# One call of the session aggregation

A call replaces the sessions that the record touches by one, or nothing changes when that one would have
ended too early (`Step`, `process_step`).
-/

namespace KrabkaStreams

open Clusters Lists KStreamSessionAggregateProcessor

variable {K V VA : Type} {w : SessionWindows}

def spansOf (f : K × Int × Int → Option VA) (k : K) (a b : Int) : Prop := ∃ v, f (k, a, b) = some v

/-- Those that a search finds: a session at `i64::MAX` alone is left out. -/
def foundSpans (f : K × Int × Int → Option VA) (k : K) (a b : Int) : Prop :=
  spansOf f k a b ∧ ¬ (a = i64Max ∧ b = i64Max)

structure Candidates (w : SessionWindows) (f : K × Int × Int → Option VA) (k : K) (ts : Int)
    (cands : List (Int × Int × VA)) : Prop where
  mem_iff : ∀ c, c ∈ cands ↔ f (k, c.1, c.2.1) = some c.2.2 ∧ Touches w.gap ts c.1 c.2.1 ∧
    ¬ (c.1 = i64Max ∧ c.2.1 = i64Max)
  nodup : (cands.map fun c => (c.1, c.2.1)).Nodup

def without [DecidableEq K] (f : K × Int × Int → Option VA) (k : K) (cands : List (Int × Int × VA))
    (i : K × Int × Int) : Option VA :=
  if i ∈ cands.map (fun c => (k, c.1, c.2.1)) then none else f i

namespace KStreamSessionAggregateProcessor

def tick (p : KStreamSessionAggregateProcessor K V VA) (r : KeyedRecord K V) :
    KStreamSessionAggregateProcessor K V VA :=
  { p with streamTime := max p.streamTime r.timestamp }

def closeTime (p : KStreamSessionAggregateProcessor K V VA) (r : KeyedRecord K V) : Int :=
  saturatingSub (max p.streamTime r.timestamp) p.windows.grace

variable [DecidableEq K]

def replaced (p : KStreamSessionAggregateProcessor K V VA) (f : K × Int × Int → Option VA)
    (r : KeyedRecord K V) (cands : List (Int × Int × VA)) : K × Int × Int → Option VA :=
  let m := p.merge r.key r.timestamp cands
  Function.update (without f r.key cands) (r.key, m.2.1, m.2.2) (some (p.agg r.key r.value m.1))

/-- What a call does to the processor and the table, and what it forwards on close. -/
inductive Step (p : KStreamSessionAggregateProcessor K V VA) (f : K × Int × Int → Option VA)
    (r : KeyedRecord K V) : KStreamSessionAggregateProcessor K V VA → (K × Int × Int → Option VA) →
      List (Record (Windowed K) (Change VA)) → Prop
  | dropped {cands} : Candidates p.windows f r.key r.timestamp cands →
    (p.merge r.key r.timestamp cands).2.2 < p.closeTime r → Step p f r (p.tick r) f []
  | updated {cands} (out) : Candidates p.windows f r.key r.timestamp cands →
    p.closeTime r ≤ (p.merge r.key r.timestamp cands).2.2 → p.emit = .onWindowUpdate →
    Step p f r (p.tick r) (p.replaced f r cands) out
  | closed {cands} {found : List (K × Int × Int × VA)} : Candidates p.windows f r.key r.timestamp cands →
    p.closeTime r ≤ (p.merge r.key r.timestamp cands).2.2 → p.emit = .onWindowClose →
    (∀ e, e ∈ found ↔ p.replaced f r cands (e.1, e.2.1, e.2.2.1) = some e.2.2.2 ∧
      e.2.2.1 ≤ saturatingSub (p.closeTime r) 1 ∧ p.lastEmittedClose ≤ e.2.2.1) →
    (found.map fun e => (e.1, e.2.1, e.2.2.1)).Nodup →
    Step p f r { p.tick r with lastEmittedClose := p.closeTime r } (p.replaced f r cands)
      (found.map finalRecord)

end KStreamSessionAggregateProcessor

section Merge

variable {p : KStreamSessionAggregateProcessor K V VA} {k : K} {ts : Int}

theorem merge_snoc (cands : List (Int × Int × VA)) (c : Int × Int × VA) :
    p.merge k ts (cands ++ [c]) = (p.merger k (p.merge k ts cands).1 c.2.2,
      min (p.merge k ts cands).2.1 c.1, max (p.merge k ts cands).2.2 c.2.1) := by
  simp [merge, List.foldl_append]

theorem merge_extent (p : KStreamSessionAggregateProcessor K V VA) (k : K) (ts : Int)
    (cands : List (Int × Int × VA)) :
    (p.merge k ts cands).2.1 ≤ ts ∧ ts ≤ (p.merge k ts cands).2.2 ∧
      (∀ c ∈ cands, (p.merge k ts cands).2.1 ≤ c.1 ∧ c.2.1 ≤ (p.merge k ts cands).2.2) ∧
      ((p.merge k ts cands).2.1 = ts ∨ ∃ c ∈ cands, c.1 = (p.merge k ts cands).2.1) ∧
      ((p.merge k ts cands).2.2 = ts ∨ ∃ c ∈ cands, c.2.1 = (p.merge k ts cands).2.2) := by
  induction cands using List.reverseRecOn with
  | nil => simp [merge]
  | append_singleton cands c ih =>
    obtain ⟨hlo, hhi, hall, hloeq, hhieq⟩ := ih
    rw [merge_snoc]
    dsimp only
    refine ⟨by omega, by omega, fun d hd => ?_, ?_, ?_⟩
    · rcases List.mem_append.mp hd with hd | hd
      · have := hall d hd
        omega
      · rw [List.mem_singleton.mp hd]
        omega
    · rcases min_choice (p.merge k ts cands).2.1 c.1 with h | h
      · rw [h]
        exact hloeq.imp_right fun ⟨d, hd, he⟩ => ⟨d, List.mem_append_left _ hd, he⟩
      · exact .inr ⟨c, by simp, h.symm⟩
    · rcases max_choice (p.merge k ts cands).2.2 c.2.1 with h | h
      · rw [h]
        exact hhieq.imp_right fun ⟨d, hd, he⟩ => ⟨d, List.mem_append_left _ hd, he⟩
      · exact .inr ⟨c, by simp, h.symm⟩

theorem Candidates.spans {f : K × Int × Int → Option VA} {cands : List (Int × Int × VA)}
    (h : Candidates w f k ts cands) :
    Spans w.gap (foundSpans f k) ts (p.merge k ts cands).2.1 (p.merge k ts cands).2.2 := by
  obtain ⟨hlo, hhi, hall, hloeq, hhieq⟩ := merge_extent p k ts cands
  refine ⟨hlo, hhi, ?_, hloeq.imp_right ?_, hhieq.imp_right ?_⟩
  · rintro a b ⟨⟨v, hf⟩, hlast⟩ ht
    exact hall (a, b, v) ((h.mem_iff _).mpr ⟨hf, ht, hlast⟩)
  · rintro ⟨c, hc, he⟩
    obtain ⟨hf, ht, hlast⟩ := (h.mem_iff c).mp hc
    rw [← he]
    exact ⟨c.2.1, ⟨⟨_, hf⟩, hlast⟩, ht⟩
  · rintro ⟨c, hc, he⟩
    obtain ⟨hf, ht, hlast⟩ := (h.mem_iff c).mp hc
    rw [← he]
    exact ⟨c.1, ⟨⟨_, hf⟩, hlast⟩, ht⟩

end Merge

section Call

variable {p : KStreamSessionAggregateProcessor K V VA} {store : SessionBytesStore K VA}
  {f : K × Int × Int → Option VA} {r : KeyedRecord K V} {cands : List (Int × Int × VA)}

theorem saturatingSub_of_nonneg {a b : Int} (ha : IsTime a) (hb : IsTime b) :
    saturatingSub a b = a - b := by
  obtain ⟨ha0, ha1⟩ := ha
  obtain ⟨hb0, hb1⟩ := hb
  simp only [saturatingSub, i64Min, i64Max] at *
  omega

variable [DecidableEq K]

theorem findSessions_candidates (hs : store.Holds f) (w : SessionWindows) (k : K) {ts : Int}
    (ht : IsTime ts) :
    ∃ cands, store.findSessions k (saturatingSub ts w.gap) (saturatingAdd ts w.gap) = .ok cands ∧
      Candidates w f k ts cands := by
  have hsub : saturatingSub ts w.gap = ts - w.gap := saturatingSub_of_nonneg ht ⟨w.gap_nonneg, w.gap_le⟩
  have hle : saturatingSub ts w.gap ≤ i64Max := max_le (by decide) (min_le_left _ _)
  obtain ⟨cands, hcands, hmem, hnodup⟩ := hs.findSessions k hle (saturatingAdd ts w.gap)
  refine ⟨cands, hcands, fun c => (hmem c).trans ?_, hnodup⟩
  refine and_congr_right fun hf => and_congr_left fun _ => ?_
  obtain ⟨⟨hstart, -⟩, -⟩ := hs.table.valid hf
  have hstart' : c.1 ≤ i64Max := hstart.2
  rw [hsub]
  unfold Touches
  have hgap := w.gap_nonneg
  obtain ⟨ht0, -⟩ := ht
  simp only [saturatingAdd, i64Min, i64Max] at hstart' ⊢
  omega

omit [DecidableEq K] in
theorem Candidates.isTime (hs : store.Holds f) {k : K} {ts : Int} (h : Candidates w f k ts cands)
    {c : Int × Int × VA} (hc : c ∈ cands) : IsTime c.1 ∧ IsTime c.2.1 :=
  (hs.table.valid ((h.mem_iff c).mp hc).1).1

omit [DecidableEq K] in
theorem Candidates.isTime_merge (hs : store.Holds f) {k : K} {ts : Int} (h : Candidates w f k ts cands)
    (ht : IsTime ts) : IsTime (p.merge k ts cands).2.1 ∧ IsTime (p.merge k ts cands).2.2 := by
  obtain ⟨-, -, -, hloeq, hhieq⟩ := merge_extent p k ts cands
  constructor
  · rcases hloeq with he | ⟨c, hc, he⟩
    · rw [he]
      exact ht
    · rw [← he]
      exact (h.isTime hs hc).1
  · rcases hhieq with he | ⟨c, hc, he⟩
    · rw [he]
      exact ht
    · rw [← he]
      exact (h.isTime hs hc).2

theorem without_nil (f : K × Int × Int → Option VA) (k : K) : without f k [] = f := by
  funext i
  simp [without]

theorem without_snoc (f : K × Int × Int → Option VA) (k : K) (cands : List (Int × Int × VA))
    (c : Int × Int × VA) :
    without f k (cands ++ [c]) = Function.update (without f k cands) (k, c.1, c.2.1) none := by
  funext i
  by_cases hi : i = (k, c.1, c.2.1)
  · subst hi
    rw [Function.update_self]
    simp [without]
  · rw [Function.update_of_ne hi]
    simp only [without, List.map_append, List.mem_append, List.map_cons, List.map_nil,
      List.mem_singleton, hi, or_false]

theorem removeMerged_spec (hs : store.Holds f) (rc : RecordContext) (k : K) :
    ∀ {cands : List (Int × Int × VA)}, (∀ c ∈ cands, IsTime c.1 ∧ IsTime c.2.1) →
      (cands.foldl (p.removeMerged rc k) (store, [])).1.Holds (without f k cands) ∧
      (p.emit = .onWindowClose → (cands.foldl (p.removeMerged rc k) (store, [])).2 = []) := by
  intro cands
  induction cands using List.reverseRecOn with
  | nil =>
    intro _
    rw [without_nil]
    exact ⟨hs, fun _ => rfl⟩
  | append_singleton cands c ih =>
    intro hc
    obtain ⟨hholds, hout⟩ := ih fun d hd => hc d (List.mem_append_left _ hd)
    obtain ⟨hstart, hstop⟩ := hc c (by simp)
    rw [List.foldl_append, List.foldl_cons, List.foldl_nil, without_snoc]
    refine ⟨(hholds.setRecordContext rc).remove k hstart hstop, fun he => ?_⟩
    rw [removeMerged, he]
    exact hout he

omit [DecidableEq K] in
theorem emitClosedSessions_spec (hs : store.Holds f) (p : KStreamSessionAggregateProcessor K V VA)
    (close : Int) :
    ∃ found : List (K × Int × Int × VA),
      p.emitClosedSessions store close = .ok (found.map finalRecord) ∧
      (∀ e, e ∈ found ↔ f (e.1, e.2.1, e.2.2.1) = some e.2.2.2 ∧ e.2.2.1 ≤ saturatingSub close 1 ∧
        p.lastEmittedClose ≤ e.2.2.1) ∧
      (found.map fun e => (e.1, e.2.1, e.2.2.1)).Nodup := by
  obtain ⟨found, hfound, hmem, hnodup⟩ := hs.findClosedSessions (saturatingSub close 1)
  unfold emitClosedSessions
  rw [hfound]
  refine ⟨_, rfl, fun e => ?_, ?_⟩
  · rw [List.mem_insertionSort, List.mem_filter, hmem, decide_eq_true_eq, and_assoc]
  · refine ((List.perm_insertionSort _ _).map _).nodup_iff.mpr ?_
    exact hnodup.sublist (List.filter_sublist.map _)

def stored (p : KStreamSessionAggregateProcessor K V VA) (store : SessionBytesStore K VA)
    (r : KeyedRecord K V) (cands : List (Int × Int × VA)) : Progress K VA :=
  let m := p.merge r.key r.timestamp cands
  let removed := cands.foldl (p.removeMerged r.ctx r.key) (store, [])
  ((removed.1.setRecordContext r.ctx).put r.key m.2.1 m.2.2 (p.agg r.key r.value m.1), removed.2)

theorem stored_spec (hs : store.Holds f) (hr : r.Timely)
    (hc : Candidates p.windows f r.key r.timestamp cands) :
    (stored p store r cands).1.Holds (p.replaced f r cands) ∧
      (p.emit = .onWindowClose → (stored p store r cands).2 = []) := by
  obtain ⟨hstart, hstop⟩ := hc.isTime_merge (p := p) hs hr
  obtain ⟨hholds, hout⟩ := removeMerged_spec (p := p) hs r.ctx r.key fun c hmem => hc.isTime hs hmem
  exact ⟨(hholds.setRecordContext r.ctx).put r.key hstart hstop _, hout⟩

section Process

omit [DecidableEq K]

variable (h : store.findSessions r.key (saturatingSub r.timestamp p.windows.gap)
  (saturatingAdd r.timestamp p.windows.gap) = .ok cands)

include h

theorem process_dropped (hclosed : (p.merge r.key r.timestamp cands).2.2 < p.closeTime r) :
    p.process store r.ctx r.toRecord = .ok ((p.tick r, store), []) := by
  have hdec : sessionIsClosed (p.merge r.key r.timestamp cands).2.2 (p.closeTime r) = true :=
    decide_eq_true hclosed
  unfold process
  simp only [KeyedRecord.toRecord]
  rw [h]
  show (if sessionIsClosed (p.merge r.key r.timestamp cands).2.2 (p.closeTime r) = true then _ else _) = _
  rw [if_pos hdec]
  rfl

theorem process_merged (hopen : p.closeTime r ≤ (p.merge r.key r.timestamp cands).2.2) :
    (p.emit = .onWindowUpdate → ∃ out,
      p.process store r.ctx r.toRecord = .ok ((p.tick r, (stored (p.tick r) store r cands).1), out)) ∧
    (p.emit = .onWindowClose →
      p.process store r.ctx r.toRecord = do
        let final ← (p.tick r).emitClosedSessions (stored (p.tick r) store r cands).1 (p.closeTime r)
        return (({ p.tick r with lastEmittedClose := p.closeTime r },
          (stored (p.tick r) store r cands).1), (stored (p.tick r) store r cands).2 ++ final)) := by
  have hdec : ¬ sessionIsClosed (p.merge r.key r.timestamp cands).2.2 (p.closeTime r) = true := by
    simpa [sessionIsClosed] using hopen
  obtain ⟨windows, init, agg, merger, emit, streamTime, lastEmittedClose, forwarder⟩ := p
  unfold process
  simp only [KeyedRecord.toRecord]
  rw [show store.findSessions r.key (saturatingSub r.timestamp windows.gap)
    (saturatingAdd r.timestamp windows.gap) = .ok cands from h]
  constructor
  · rintro ⟨⟩
    exact ⟨_, if_neg hdec⟩
  · rintro ⟨⟩
    exact if_neg hdec

end Process

theorem process_step (p : KStreamSessionAggregateProcessor K V VA) (hs : store.Holds f)
    (hr : r.Timely) :
    ∃ p' store' f' out, p.process store r.ctx r.toRecord = .ok ((p', store'), out) ∧
      store'.Holds f' ∧ p.Step f r p' f' out := by
  obtain ⟨cands, hcands, hc⟩ := findSessions_candidates hs p.windows r.key hr
  obtain ⟨hholds, hout⟩ := stored_spec (p := p.tick r) hs hr hc
  rcases lt_or_ge (p.merge r.key r.timestamp cands).2.2 (p.closeTime r) with hclosed | hopen
  · exact ⟨_, _, _, _, process_dropped hcands hclosed, hs, .dropped hc hclosed⟩
  obtain ⟨hupdate, hclose⟩ := process_merged hcands hopen
  rcases he : p.emit with _ | _
  · obtain ⟨out, hp⟩ := hupdate he
    exact ⟨_, _, _, _, hp, hholds, .updated out hc hopen he⟩
  · obtain ⟨found, hfinal, hmem, hnodup⟩ := emitClosedSessions_spec hholds (p.tick r) (p.closeTime r)
    have hp := hclose he
    rw [hfinal, hout he] at hp
    exact ⟨_, _, _, _, hp, hholds, .closed hc hopen he hmem hnodup⟩

end Call

end KrabkaStreams
