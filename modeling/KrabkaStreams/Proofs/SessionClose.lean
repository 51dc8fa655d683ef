import KrabkaStreams.Proofs.Sessions

/-!
# The sessions forwarded on close

A run forwards a stored session once it ended before the stream time less the grace (`FinalInv`), but a
record is merged with every session within its gap: the close leaves out the gap.
-/

namespace KrabkaStreams

open Clusters Lists KStreamSessionAggregateProcessor

variable {K V VA : Type} [DecidableEq K] {w : SessionWindows} {init : VA} {agg : K → V → VA → VA}
  {merger : K → VA → VA → VA} {store : SessionBytesStore K VA} {recs : List (KeyedRecord K V)}
  {r : KeyedRecord K V} {f f' : K × Int × Int → Option VA}
  {p p' : KStreamSessionAggregateProcessor K V VA} {out : List (Record (Windowed K) (Change VA))}
  {outs : List (List (Record (Windowed K) (Change VA)))} {cands : List (Int × Int × VA)}

omit [DecidableEq K] in
theorem finalRecord_inj {e e' : K × Int × Int × VA} (h : finalRecord e = finalRecord e') : e = e' := by
  obtain ⟨k, a, b, v⟩ := e
  obtain ⟨k', a', b', v'⟩ := e'
  simp only [finalRecord, Change.update, Record.mk.injEq, Option.some.injEq, Windowed.mk.injEq,
    Window.mk.injEq, Change.mk.injEq] at h
  obtain ⟨⟨rfl, rfl, rfl⟩, ⟨-, rfl⟩, -⟩ := h
  rfl

def SessionWindows.closeOf (w : SessionWindows) (recs : List (KeyedRecord K V)) : Int :=
  if recs.isEmpty then i64Min else streamTimeOf recs - w.grace

omit [DecidableEq K] in
theorem SessionWindows.closeOf_snoc (w : SessionWindows) (recs : List (KeyedRecord K V))
    (r : KeyedRecord K V) : w.closeOf (recs ++ [r]) = streamTimeOf (recs ++ [r]) - w.grace := by
  unfold SessionWindows.closeOf
  rw [if_neg (by simp)]

omit [DecidableEq K] in
theorem SessionWindows.closeOf_le_snoc (w : SessionWindows) (ht : ∀ x ∈ recs ++ [r], x.Timely) :
    w.closeOf recs ≤ streamTimeOf (recs ++ [r]) - w.grace := by
  have hb := streamTimeOf_snoc_bounds ht
  have hle := streamTimeOf_le_append recs [r]
  have hg := w.grace_le
  unfold SessionWindows.closeOf
  split
  · simp only [i64Min, i64Max] at *
    omega
  · omega

/-- After a run, the sessions that were forwarded are the stored ones that ended before the bound. -/
structure FinalInv (w : SessionWindows) (recs : List (KeyedRecord K V))
    (p : KStreamSessionAggregateProcessor K V VA) (f : K × Int × Int → Option VA)
    (outs : List (List (Record (Windowed K) (Change VA)))) : Prop where
  last : p.lastEmittedClose = w.closeOf recs
  ordered : ∀ {k a b}, spansOf f k a b → a ≤ b
  apart : ∀ k, Apart w.gap (foundSpans f k)
  finals : ∀ x, x ∈ outs.flatten ↔ ∃ e, f (e.1, e.2.1, e.2.2.1) = some e.2.2.2 ∧
    e.2.2.1 < w.closeOf recs ∧ x = finalRecord e
  nodup : (outs.flatten.map Record.key).Nodup

/-- A record within the gap of a session that closed is too late itself. -/
def StaysApart (w : SessionWindows) (close close' : Int) (f : K × Int × Int → Option VA)
    (r : KeyedRecord K V) : Prop :=
  (∃ a b, foundSpans f r.key a b ∧ Touches w.gap r.timestamp a b ∧ b < close) →
    r.timestamp < close' ∧
      ∀ a b, foundSpans f r.key a b → Touches w.gap r.timestamp a b → b < close'

omit [DecidableEq K] in
theorem StaysApart.le_of_mem {close close' : Int} (h : StaysApart w close close' f r)
    (hc : Candidates w f r.key r.timestamp cands)
    (hopen : close' ≤ (p.merge r.key r.timestamp cands).2.2) {c : Int × Int × VA} (hcm : c ∈ cands) :
    close ≤ c.2.1 := by
  by_contra hlt
  obtain ⟨hf, ht, hlast⟩ := (hc.mem_iff c).mp hcm
  obtain ⟨hr, hall⟩ := h ⟨c.1, c.2.1, ⟨⟨_, hf⟩, hlast⟩, ht, not_le.mp hlt⟩
  rcases (hc.spans (p := p)).hi_eq with he | ⟨a, ha, hta⟩
  · omega
  · exact absurd (hall a _ ha hta) (not_lt.mpr hopen)

section Step

variable {s : SessionBytesStore K VA}

theorem foundSpans_replaced (hc : Candidates p.windows f r.key r.timestamp cands) {a b : Int}
    (h : foundSpans (p.replaced f r cands) r.key a b) :
    merged p.windows.gap (foundSpans f r.key) r.timestamp (p.merge r.key r.timestamp cands).2.1
      (p.merge r.key r.timestamp cands).2.2 a b := by
  obtain ⟨⟨v, hv⟩, hlast⟩ := h
  rcases (replaced_eq_some_iff hc).mp hv with ⟨ha, hb, -⟩ | ⟨-, hf, hnot⟩
  · exact .inl ⟨ha, hb⟩
  · exact .inr ⟨⟨⟨v, hf⟩, hlast⟩, fun ht => hnot ⟨ht, hlast⟩⟩

theorem replaced_iff_of_lt (hc : Candidates p.windows f r.key r.timestamp cands) {close : Int}
    (hopen : close ≤ (p.merge r.key r.timestamp cands).2.2) (hcands : ∀ c ∈ cands, close ≤ c.2.1)
    {k : K} {a b : Int} (hb : b < close) (v : VA) :
    p.replaced f r cands (k, a, b) = some v ↔ f (k, a, b) = some v := by
  by_cases hk : k = r.key
  · subst hk
    rw [replaced_eq_some_iff hc]
    constructor
    · rintro (⟨-, hb', -⟩ | ⟨-, hf, -⟩)
      · omega
      · exact hf
    · refine fun hf => .inr ⟨fun h => by omega, hf, fun ht => ?_⟩
      have := hcands (a, b, v) ((hc.mem_iff _).mpr ⟨hf, ht⟩)
      dsimp only at this
      omega
  · rw [replaced_of_ne hk]

theorem FinalInv.apart_replaced (h : FinalInv w recs p f outs) (hw : p.windows = w)
    (hc : Candidates w f r.key r.timestamp cands) (k : K) :
    Apart w.gap (foundSpans (p.replaced f r cands) k) := by
  subst hw
  by_cases hk : k = r.key
  · subst hk
    refine Apart.mono (Apart.merged p.windows.gap_nonneg (h.apart r.key) (fun hS => h.ordered hS.1)
      (hc.spans (p := p))) fun a b => foundSpans_replaced hc
  · refine (h.apart k).mono fun a b => ?_
    rintro ⟨⟨v, hv⟩, hlast⟩
    rw [replaced_of_ne hk] at hv
    exact ⟨⟨v, hv⟩, hlast⟩

theorem FinalInv.ordered_replaced (h : FinalInv w recs p f outs) (hw : p.windows = w)
    (hc : Candidates w f r.key r.timestamp cands) {k : K} {a b : Int}
    (hS : spansOf (p.replaced f r cands) k a b) : a ≤ b := by
  subst hw
  obtain ⟨v, hv⟩ := hS
  by_cases hk : k = r.key
  · subst hk
    rcases (replaced_eq_some_iff hc).mp hv with ⟨ha, hb, -⟩ | ⟨-, hf, -⟩
    · have hlo := (hc.spans (p := p)).lo_le
      have hhi := (hc.spans (p := p)).le_hi
      omega
    · exact h.ordered ⟨v, hf⟩
  · rw [replaced_of_ne hk] at hv
    exact h.ordered ⟨v, hv⟩

omit [DecidableEq K] in
theorem FinalInv.dropped (h : FinalInv w recs p f outs)
    (hcfg : Configured w init agg merger .onWindowClose recs p) (ht : ∀ x ∈ recs ++ [r], x.Timely)
    (hclosed : (p.merge r.key r.timestamp cands).2.2 < p.closeTime r) :
    FinalInv w (recs ++ [r]) (p.tick r) f (outs ++ [[]]) := by
  have hclose := hcfg.closeTime ht
  have hts := (merge_extent p r.key r.timestamp cands).2.1
  have hgrace := w.grace_nonneg
  have hr := (ht r (by simp)).1
  rw [streamTimeOf_snoc] at hclose
  have hlt : r.timestamp < streamTimeOf recs := by omega
  have hne : recs ≠ [] := by
    rintro rfl
    rw [streamTimeOf_nil] at hlt
    simp only [i64Min] at hlt
    omega
  have hsame : w.closeOf (recs ++ [r]) = w.closeOf recs := by
    rw [w.closeOf_snoc, streamTimeOf_snoc, max_eq_left hlt.le, SessionWindows.closeOf,
      if_neg (by simpa using hne)]
  refine ⟨h.last.trans hsame.symm, h.ordered, h.apart, fun x => ?_, ?_⟩
  · rw [hsame, List.flatten_append]
    simpa using h.finals x
  · rw [List.flatten_append]
    simpa using h.nodup

omit [DecidableEq K] in
theorem nodup_append_finals {found : List (K × Int × Int × VA)} (close : Int)
    (hout : (out.map Record.key).Nodup)
    (hlt : ∀ x ∈ out, ∃ e : K × Int × Int × VA, e.2.2.1 < close ∧ x = finalRecord e)
    (hfound : (found.map fun e => (e.1, e.2.1, e.2.2.1)).Nodup) (hge : ∀ e ∈ found, close ≤ e.2.2.1) :
    ((out ++ found.map finalRecord).map Record.key).Nodup := by
  rw [List.map_append, List.map_map, List.nodup_append]
  refine ⟨hout, ?_, ?_⟩
  · refine List.pairwise_map.mpr ((List.pairwise_map.mp hfound).imp fun {a b} hne he => hne ?_)
    simp only [Function.comp_apply, finalRecord, Option.some.injEq, Windowed.mk.injEq,
      Window.mk.injEq] at he
    exact Prod.ext he.1 (Prod.ext he.2.1 he.2.2)
  · rintro k hk k' hk' rfl
    obtain ⟨x, hx, rfl⟩ := List.mem_map.mp hk
    obtain ⟨e, he, hke⟩ := List.mem_map.mp hk'
    obtain ⟨e', hlt', rfl⟩ := hlt x hx
    have hge' := hge e he
    simp only [Function.comp_apply, finalRecord, Option.some.injEq, Windowed.mk.injEq,
      Window.mk.injEq] at hke
    omega

theorem FinalInv.closed (h : FinalInv w recs p f outs)
    (hcfg : Configured w init agg merger .onWindowClose recs p) (ht : ∀ x ∈ recs ++ [r], x.Timely)
    (hc : Candidates p.windows f r.key r.timestamp cands)
    (hopen : p.closeTime r ≤ (p.merge r.key r.timestamp cands).2.2)
    (hcands : ∀ c ∈ cands, w.closeOf recs ≤ c.2.1) {found : List (K × Int × Int × VA)}
    (hmem : ∀ e, e ∈ found ↔ p.replaced f r cands (e.1, e.2.1, e.2.2.1) = some e.2.2.2 ∧
      e.2.2.1 ≤ saturatingSub (p.closeTime r) 1 ∧ p.lastEmittedClose ≤ e.2.2.1)
    (hnodup : (found.map fun e => (e.1, e.2.1, e.2.2.1)).Nodup) :
    FinalInv w (recs ++ [r]) { p.tick r with lastEmittedClose := p.closeTime r }
      (p.replaced f r cands) (outs ++ [found.map finalRecord]) := by
  have hclose := hcfg.closeTime ht
  have hle := w.closeOf_le_snoc ht
  have hb := streamTimeOf_snoc_bounds ht
  have hsub : saturatingSub (p.closeTime r) 1 = p.closeTime r - 1 := by
    have hg := w.grace_le
    have hg0 := w.grace_nonneg
    rw [hclose]
    simp only [saturatingSub, i64Min, i64Max] at *
    omega
  have hopen' : w.closeOf recs ≤ (p.merge r.key r.timestamp cands).2.2 := by omega
  have hflat : (outs ++ [found.map finalRecord]).flatten = outs.flatten ++ found.map finalRecord := by
    simp
  have hc' : Candidates w f r.key r.timestamp cands := hcfg.windows ▸ hc
  refine ⟨by rw [w.closeOf_snoc, hclose], fun hS => h.ordered_replaced hcfg.windows hc' hS,
    h.apart_replaced hcfg.windows hc', fun x => ?_, ?_⟩
  · rw [hflat, List.mem_append, h.finals, List.mem_map, w.closeOf_snoc, ← hclose]
    constructor
    · rintro (⟨e, hf, hlt, rfl⟩ | ⟨e, he, rfl⟩)
      · exact ⟨e, (replaced_iff_of_lt hc hopen' hcands hlt _).mpr hf, by omega, rfl⟩
      · obtain ⟨hf, hle', -⟩ := (hmem e).mp he
        exact ⟨e, hf, by omega, rfl⟩
    · rintro ⟨e, hf, hlt, rfl⟩
      rcases lt_or_ge e.2.2.1 (w.closeOf recs) with hlt' | hge
      · exact .inl ⟨e, (replaced_iff_of_lt hc hopen' hcands hlt' _).mp hf, hlt', rfl⟩
      · exact .inr ⟨e, (hmem e).mpr ⟨hf, by omega, h.last ▸ hge⟩, rfl⟩
  · rw [hflat]
    refine nodup_append_finals (w.closeOf recs) h.nodup (fun x hx => ?_) hnodup fun e he => ?_
    · obtain ⟨e, -, hlt, rfl⟩ := (h.finals x).mp hx
      exact ⟨e, hlt, rfl⟩
    · exact h.last ▸ ((hmem e).mp he).2.2

theorem FinalInv.step (h : FinalInv w recs p f outs)
    (hcfg : Configured w init agg merger .onWindowClose recs p) (ht : ∀ x ∈ recs ++ [r], x.Timely)
    (hapart : StaysApart w (w.closeOf recs) (w.closeOf (recs ++ [r])) f r)
    (hstep : p.Step f r p' f' out) : FinalInv w (recs ++ [r]) p' f' (outs ++ [out]) := by
  rw [w.closeOf_snoc, ← hcfg.closeTime ht] at hapart
  cases hstep with
  | dropped hc hclosed => exact h.dropped hcfg ht hclosed
  | updated _ _ _ he => exact absurd (he.symm.trans hcfg.emit) (by decide)
  | closed hc hopen _ hmem hnodup =>
    have hc' : Candidates w f r.key r.timestamp _ := hcfg.windows ▸ hc
    exact h.closed hcfg ht hc hopen (fun c hcm => hapart.le_of_mem hc' hopen hcm) hmem hnodup

theorem FinalInv.staysApart_of_kept (hcfg : Configured w init agg merger .onWindowClose recs p)
    (ht : ∀ x ∈ recs ++ [r], x.Timely) (hstep : p.Step f r p' f' out)
    (hkept : ∀ {k a b v}, f (k, a, b) = some v → b < w.closeOf recs → f' (k, a, b) = some v) :
    StaysApart w (w.closeOf recs) (w.closeOf (recs ++ [r])) f r := by
  have hle := w.closeOf_le_snoc ht
  rw [w.closeOf_snoc, ← hcfg.closeTime ht]
  rw [← hcfg.closeTime ht] at hle
  have hopen_absurd : ∀ {cands}, Candidates p.windows f r.key r.timestamp cands →
      p.closeTime r ≤ (p.merge r.key r.timestamp cands).2.2 → f' = p.replaced f r cands →
      ∀ {a b}, foundSpans f r.key a b → Touches w.gap r.timestamp a b → ¬ b < w.closeOf recs := by
    rintro cands hc hopen rfl a b ⟨⟨v, hv⟩, hlast⟩ htouch hlt
    rcases (replaced_eq_some_iff hc).mp (hkept hv hlt) with ⟨-, hb, -⟩ | ⟨-, -, hnot⟩
    · omega
    · exact hnot ⟨hcfg.windows ▸ htouch, hlast⟩
  rintro ⟨a, b, hS, htouch, hlt⟩
  cases hstep with
  | dropped hc hclosed =>
    rw [hcfg.windows] at hc
    have hsp := hc.spans (p := p)
    exact ⟨hsp.le_hi.trans_lt hclosed, fun a b hS ht => (hsp.holds hS ht).2.trans_lt hclosed⟩
  | updated _ hc hopen => exact absurd hlt (hopen_absurd hc hopen rfl hS htouch)
  | closed hc hopen => exact absurd hlt (hopen_absurd hc hopen rfl hS htouch)

end Step

section Run

variable {s : SessionBytesStore K VA} {l : List (K × Int × Int × VA)}

omit [DecidableEq K] in
theorem SessionWindows.lt_closeOf_iff (w : SessionWindows) (recs : List (KeyedRecord K V)) {b : Int}
    (hb : 0 ≤ b) : b < w.closeOf recs ↔ b < streamTimeOf recs - w.grace := by
  have hg := w.grace_nonneg
  cases recs with
  | nil =>
    simp only [SessionWindows.closeOf, List.isEmpty_nil, if_true, streamTimeOf_nil, i64Min]
    omega
  | cons r recs => rfl

omit [DecidableEq K] in
theorem staysApart_iff (hf : s.Holds f) (hmem : ∀ e, e ∈ l ↔ f (e.1, e.2.1, e.2.2.1) = some e.2.2.2) :
    StaysApart w (w.closeOf recs) (w.closeOf (recs ++ [r])) f r ↔
      ((∃ e ∈ l, w.Meets r e ∧ e.2.2.1 < streamTimeOf recs - w.grace) →
        r.timestamp < streamTimeOf (recs ++ [r]) - w.grace ∧
          ∀ e ∈ l, w.Meets r e → e.2.2.1 < streamTimeOf (recs ++ [r]) - w.grace) := by
  rw [w.closeOf_snoc]
  refine imp_congr ⟨?_, ?_⟩ (and_congr_right fun _ => ⟨?_, ?_⟩)
  · rintro ⟨a, b, ⟨⟨v, hv⟩, hlast⟩, ht, hlt⟩
    have hb := (hf.table.valid hv).1.2.1
    exact ⟨(r.key, a, b, v), (hmem _).mpr hv, ⟨rfl, ht, hlast⟩, (w.lt_closeOf_iff recs hb).mp hlt⟩
  · rintro ⟨⟨k, a, b, v⟩, he, ⟨rfl, ht, hlast⟩, hlt⟩
    have hv := (hmem _).mp he
    have hb := (hf.table.valid hv).1.2.1
    exact ⟨a, b, ⟨⟨v, hv⟩, hlast⟩, ht, (w.lt_closeOf_iff recs hb).mpr hlt⟩
  · rintro hall ⟨k, a, b, v⟩ he ⟨rfl, ht, hlast⟩
    exact hall a b ⟨⟨v, (hmem _).mp he⟩, hlast⟩ ht
  · rintro hall a b ⟨⟨v, hv⟩, hlast⟩ ht
    exact hall (r.key, a, b, v) ((hmem _).mpr hv) ⟨rfl, ht, hlast⟩

omit [DecidableEq K] in
theorem FinalInv.empty (w : SessionWindows) (cached : Bool) :
    FinalInv w ([] : List (KeyedRecord K V)) (.supply w init agg merger .onWindowClose cached)
      (fun _ => none) [] := by
  refine ⟨rfl, ?_, ?_, ?_, ?_⟩
  · rintro k a b ⟨v, hv⟩
    cases hv
  · rintro k a b c d ⟨⟨v, hv⟩, -⟩
    cases hv
  · simp
  · simp

theorem finalRun_inv (hs : store.Holds fun _ => none) (ht : ∀ x ∈ recs, x.Timely)
    (hapart : ClosedStayApart w init agg merger store recs) {done : List (KeyedRecord K V)}
    (hdone : done <+: recs) :
    ∃ p s outs f, sessionRun w init agg merger .onWindowClose store done = .ok ((p, s), outs) ∧
      s.Holds f ∧ FinalInv w done p f outs ∧ Configured w init agg merger .onWindowClose done p := by
  refine sessionRun_rule hs (I := fun done p f outs => FinalInv w done p f outs)
    (FinalInv.empty w _) ?_ hdone fun x hx => ht x (hdone.subset hx)
  intro done r p s outs f p' f' out hpre hrun hf hinv hcfg hstep
  obtain ⟨l, hl, hmem, -⟩ := hf.sessions
  refine hinv.step hcfg (fun x hx => ht x (hpre.subset hx)) ?_ hstep
  exact (staysApart_iff hf hmem).mpr (hapart done r hpre p s outs l hrun hl)

theorem FinalInv.length_finalsHolding (h : FinalInv w recs p f outs) (hlast : w.closeOf recs ≤ i64Max)
    (r : KeyedRecord K V) : (finalsHolding r outs.flatten).length ≤ 1 := by
  have hkeys : ((finalsHolding r outs.flatten).map Record.key).Nodup :=
    h.nodup.sublist (List.filter_sublist.map _)
  have hsame : ∀ x ∈ finalsHolding r outs.flatten, ∀ y ∈ finalsHolding r outs.flatten,
      x.key = y.key := by
    intro x hx y hy
    obtain ⟨hx, hxr⟩ := List.mem_filter.mp hx
    obtain ⟨hy, hyr⟩ := List.mem_filter.mp hy
    obtain ⟨⟨k, a, b, v⟩, hf, hlt, rfl⟩ := (h.finals x).mp hx
    obtain ⟨⟨k', a', b', v'⟩, hf', hlt', rfl⟩ := (h.finals y).mp hy
    simp only [finalRecord, Option.any_some, decide_eq_true_eq] at hxr hyr
    obtain ⟨rfl, ha, hb⟩ := hxr
    obtain ⟨rfl, ha', hb'⟩ := hyr
    have hgap := w.gap_nonneg
    dsimp only at hlt hlt'
    have hS : foundSpans f r.key a b := ⟨⟨v, hf⟩, fun hm => by omega⟩
    have hS' : foundSpans f r.key a' b' := ⟨⟨v', hf'⟩, fun hm => by omega⟩
    rcases h.apart r.key hS hS' with ⟨rfl, rfl⟩ | hsep | hsep
    · rfl
    · omega
    · omega
  match hfin : finalsHolding r outs.flatten with
  | [] => simp
  | [x] => simp
  | x :: y :: rest =>
    rw [hfin] at hkeys hsame
    have hne : x.key ≠ y.key := by
      intro he
      simp [he] at hkeys
    exact absurd (hsame x (by simp) y (by simp)) hne

omit [DecidableEq K] in
theorem SessionWindows.closeOf_le (w : SessionWindows) (ht : ∀ x ∈ recs, x.Timely) :
    w.closeOf recs ≤ i64Max := by
  have hle : streamTimeOf recs ≤ i64Max := streamTimeOf_le (by decide) fun x hx => (ht x hx).2
  have hg := w.grace_nonneg
  unfold SessionWindows.closeOf
  split
  · decide
  · omega

theorem closedStayApart_of_emitsFinal (hs : store.Holds fun _ => none) (ht : ∀ x ∈ recs, x.Timely)
    (h : EmitsFinalSessions w init agg merger store recs) :
    ClosedStayApart w init agg merger store recs := by
  -- by induction on the run: before a step, what was forwarded is what ended before the bound
  have hall : ∀ done, done <+: recs → ClosedStayApart w init agg merger store done := by
    intro done
    induction done using List.reverseRecOn with
    | nil => exact fun _ done r hpre => absurd hpre (by simp)
    | append_singleton done x ih =>
      intro hdone done' r hpre p s outs l hrun hl
      rcases List.prefix_concat_iff.mp hpre with heq | hpre
      · obtain ⟨rfl, hxr⟩ := List.append_inj' heq rfl
        obtain rfl : r = x := List.singleton_inj.mp hxr
        have hdone' := (List.prefix_append done' [r]).trans hdone
        obtain ⟨p₀, s₀, outs₀, f, hrun₀, hf, hinv, hcfg⟩ := finalRun_inv hs
          (fun x hx => ht x (hdone'.subset hx)) (ih hdone') List.prefix_rfl
        cases hrun.symm.trans hrun₀
        obtain ⟨p', s', f', out, hp, hf', hstep⟩ := process_step p hf (ht r (hdone.subset (by simp)))
        obtain ⟨p₁, s₁, outs₁, l₁, hrun₁, hl₁, -, hkept, -⟩ := h (done' ++ [r]) hdone
        cases hrun₁.symm.trans (Runs.run_snoc.mpr ⟨(p, s), outs, out, hrun, hp, rfl⟩)
        obtain ⟨l', hl', hmem', -⟩ := hf'.sessions
        cases hl₁.symm.trans hl'
        obtain ⟨l₀, hl₀, hmem₀, -⟩ := hf.sessions
        cases hl.symm.trans hl₀
        refine (staysApart_iff hf hmem₀).mp (FinalInv.staysApart_of_kept hcfg
          (fun x hx => ht x (hdone.subset hx)) hstep fun {k a b v} hv hlt => ?_)
        have hout : finalRecord (k, a, b, v) ∈ (outs ++ [out]).flatten := by
          rw [List.flatten_append]
          exact List.mem_append_left _ ((hinv.finals _).mpr ⟨(k, a, b, v), hv, hlt, rfl⟩)
        obtain ⟨e, he, hfe⟩ := hkept _ hout
        rw [← finalRecord_inj hfe] at he
        exact (hmem' _).mp he
      · exact ih ((List.prefix_append done [x]).trans hdone) done' r hpre p s outs l hrun hl
  exact hall recs List.prefix_rfl

/-- Forwarded sessions are final exactly in the runs whose records stay apart from the sessions that
closed. -/
theorem emitsFinalSessions_iff_closedStayApart (hs : store.Holds fun _ => none) (w : SessionWindows)
    (init : VA) (agg : K → V → VA → VA) (merger : K → VA → VA → VA) (recs : List (KeyedRecord K V))
    (ht : ∀ x ∈ recs, x.Timely) :
    EmitsFinalSessions w init agg merger store recs ↔ ClosedStayApart w init agg merger store recs := by
  refine ⟨closedStayApart_of_emitsFinal hs ht, fun hapart done hdone => ?_⟩
  obtain ⟨p, s, outs, f, hrun, hf, hinv, -⟩ := finalRun_inv hs ht hapart hdone
  obtain ⟨l, hl, hmem, -⟩ := hf.sessions
  refine ⟨p, s, outs, l, hrun, hl, hinv.nodup, fun x hx => ?_, fun r _ => ?_⟩
  · obtain ⟨e, he, -, rfl⟩ := (hinv.finals x).mp hx
    exact ⟨e, (hmem e).mpr he, rfl⟩
  · exact hinv.length_finalsHolding (w.closeOf_le fun x hx => ht x (hdone.subset hx)) r

end Run

section Samples

theorem countStore_holds : countStore.Holds fun _ => none :=
  .inMemory bytesSerde_lawful countSerde_lawful _

def countValue (_ _ : Bytes) (n : Nat) : Nat := n + 1

def addCounts (_ : Bytes) (a b : Nat) : Nat := a + b

def reopened : List (KeyedRecord Bytes Bytes) := [recordAt 97 1 0, recordAt 98 2 5, recordAt 97 3 5]

/-- The session of the first record is forwarded, and then merged away. -/
theorem not_emitsFinalSessions_reopened : (∀ x ∈ reopened, x.Timely) ∧
    ¬ EmitsFinalSessions tenGap 0 countValue addCounts countStore reopened := by
  refine ⟨by decide, fun h => ?_⟩
  obtain ⟨p, s, outs, l, hrun, hl, -, hkept, -⟩ := h reopened List.prefix_rfl
  have hout : (do
      let r ← sessionRun tenGap 0 countValue addCounts .onWindowClose countStore reopened
      return r.2.flatten) = .ok [finalRecord ([97], 0, 0, 1)] := by decide +kernel
  have hstored : (do
      let r ← sessionRun tenGap 0 countValue addCounts .onWindowClose countStore reopened
      r.1.2.sessions) = .ok [([97], 0, 5, 2), ([98], 5, 5, 1)] := by decide +kernel
  rw [hrun] at hout hstored
  obtain ⟨e, he, hfe⟩ := hkept (finalRecord ([97], 0, 0, 1)) (by
    rw [Except.ok.inj hout]
    simp)
  rw [Except.ok.inj (hl.symm.trans hstored), ← finalRecord_inj hfe] at he
  exact absurd he (by decide)

omit [DecidableEq K] in
theorem closedStayApart_nil : ClosedStayApart w init agg merger store ([] : List (KeyedRecord K V)) :=
  fun done r hpre => absurd hpre (by simp)

omit [DecidableEq K] in
theorem ClosedStayApart.snoc (h : ClosedStayApart w init agg merger store recs)
    (l : List (K × Int × Int × VA))
    (hl : (do
      let x ← sessionRun w init agg merger .onWindowClose store recs
      x.1.2.sessions) = .ok l)
    (hr : (∃ e ∈ l, w.Meets r e ∧ e.2.2.1 < streamTimeOf recs - w.grace) →
      r.timestamp < streamTimeOf (recs ++ [r]) - w.grace ∧
        ∀ e ∈ l, w.Meets r e → e.2.2.1 < streamTimeOf (recs ++ [r]) - w.grace) :
    ClosedStayApart w init agg merger store (recs ++ [r]) := by
  intro done x hx p s outs l' hrun hl'
  rcases List.prefix_concat_iff.mp hx with heq | hx
  · obtain ⟨rfl, hxr⟩ := List.append_inj' heq rfl
    obtain rfl : x = r := List.singleton_inj.mp hxr
    rw [hrun] at hl
    cases hl'.symm.trans hl
    exact hr
  · exact h done x hx p s outs l' hrun hl'

/-- A session that closed, a later one, and a record within the gap of the first that is too late. -/
theorem emitsFinalSessions_lateRecord :
    EmitsFinalSessions tenGap 0 countValue addCounts countStore
      [recordAt 97 1 0, recordAt 97 2 30, recordAt 97 3 4] := by
  refine (emitsFinalSessions_iff_closedStayApart countStore_holds _ _ _ _ _ (by decide)).mpr ?_
  have h1 : ClosedStayApart tenGap 0 countValue addCounts countStore [recordAt 97 1 0] :=
    closedStayApart_nil.snoc [] (by decide +kernel) (by decide)
  have h2 : ClosedStayApart tenGap 0 countValue addCounts countStore [recordAt 97 1 0, recordAt 97 2 30] :=
    h1.snoc [([97], 0, 0, 1)] (by decide +kernel) (by decide)
  exact h2.snoc [([97], 0, 0, 1), ([97], 30, 30, 1)] (by decide +kernel) (by decide)

end Samples

end KrabkaStreams
