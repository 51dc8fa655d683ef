import KrabkaStreams.Proofs.Suppress

/-!
# Runs of a suppressed aggregation

The buffer holds the latest changes of the windows that end after the stream time less the grace
(`SuppressedInv`); what a record makes the node forward follows (`process_emits`).
-/

namespace KrabkaStreams

open Runs SuppressBytesStore

variable {K V VA : Type} [DecidableEq K] {w : TimeWindows} {init : VA} {agg : K → V → VA → VA}
  {recs : List (KeyedRecord K V)} {r : KeyedRecord K V} (k : K) (ws : Int) {taken : List Int}

def lastChange (init : VA) (agg : K → V → VA → VA) (k : K) (recs : List (KeyedRecord K V)) :
    Option (Change VA × Int) :=
  recs.getLast?.map fun r =>
    (⟨(entryOf init agg k recs.dropLast).map (·.2), (entryOf init agg k recs).map (·.2)⟩, r.ctx.timestamp)

omit [DecidableEq K] in
theorem lastChange_snoc (recs : List (KeyedRecord K V)) (r : KeyedRecord K V) :
    lastChange init agg k (recs ++ [r]) = some (⟨(entryOf init agg k recs).map (·.2),
      some (entryWith init agg k r (entryOf init agg k recs)).2⟩, r.ctx.timestamp) := by
  simp [lastChange, entryOf_snoc]

def latest (w : TimeWindows) (init : VA) (agg : K → V → VA → VA) (recs : List (KeyedRecord K V)) :
    Table (Windowed K) VA := fun wk =>
  if wk.window.stop = wk.window.start + w.size then
    (lastChange init agg wk.key (w.accepted wk.key wk.window.start recs)).map fun b => (wk.window.stop, b)
  else none

theorem latest_stop {wk : Windowed K} {b : Int × Change VA × Int} (h : latest w init agg recs wk = some b) :
    b.1 = wk.window.stop := by
  unfold latest at h
  split at h
  · obtain ⟨c, -, rfl⟩ := Option.map_eq_some_iff.mp h
    rfl
  · cases h

theorem latest_windowAt : latest w init agg recs (w.windowAt k ws)
    = (lastChange init agg k (w.accepted k ws recs)).map fun b => (ws + w.size, b) :=
  if_pos rfl

theorem latest_snoc_of_not_takes {wk : Windowed K}
    (h : ¬ w.Takes wk.key wk.window.start (streamTimeOf (recs ++ [r])) r) :
    latest w init agg (recs ++ [r]) wk = latest w init agg recs wk := by
  unfold latest
  rw [TimeWindows.accepted_snoc, if_neg h, List.append_nil]

def changeFor (w : TimeWindows) (init : VA) (agg : K → V → VA → VA) (recs : List (KeyedRecord K V))
    (r : KeyedRecord K V) (ws : Int) : WindowChange K VA where
  key := w.windowAt r.key ws
  change := .update ((w.tableOf init agg recs (r.key, ws)).map (·.2))
    (entryWith init agg r.key r (w.tableOf init agg recs (r.key, ws))).2
  timestamp := (entryWith init agg r.key r (w.tableOf init agg recs (r.key, ws))).1

theorem withPuts_changes (g : Table (Windowed K) VA)
    (hmem : ∀ ws, ws ∈ taken ↔ w.Takes r.key ws (streamTimeOf (recs ++ [r])) r) (ts : Int) (wk : Windowed K) :
    withPuts g (taken.map (changeFor w init agg recs r)) ts wk
      = if w.Takes wk.key wk.window.start (streamTimeOf (recs ++ [r])) r ∧
          wk.window.stop = wk.window.start + w.size
        then some (wk.window.stop, (changeFor w init agg recs r wk.window.start).change, ts) else g wk := by
  unfold withPuts
  rcases hfind : (taken.map (changeFor w init agg recs r)).find? (fun c => c.key = wk) with _ | c
  · rw [hfind, if_neg]
    rintro ⟨htakes, hstop⟩
    have hin : wk.window.start ∈ taken := (hmem _).mpr ⟨rfl, htakes.2⟩
    refine absurd ?_ (List.find?_eq_none.mp hfind _ (List.mem_map_of_mem hin))
    obtain ⟨k, start, stop⟩ := wk
    simp only [changeFor, TimeWindows.windowAt, decide_eq_true_eq, ← hstop, htakes.1]
  · obtain ⟨ws, hws, rfl⟩ := List.mem_map.mp (List.mem_of_find?_eq_some hfind)
    have hkey := List.find?_some hfind
    obtain rfl : w.windowAt r.key ws = wk := of_decide_eq_true hkey
    rw [hfind, if_pos ⟨(hmem ws).mp hws, rfl⟩]
    rfl

theorem withPuts_latest (hmem : ∀ ws, ws ∈ taken ↔ w.Takes r.key ws (streamTimeOf (recs ++ [r])) r) :
    withPuts (latest w init agg recs) (taken.map (changeFor w init agg recs r)) r.ctx.timestamp
      = latest w init agg (recs ++ [r]) := by
  funext wk
  rw [withPuts_changes _ hmem]
  split
  · rename_i h
    obtain ⟨htakes, hstop⟩ := h
    unfold latest
    rw [if_pos hstop, TimeWindows.accepted_snoc, if_pos htakes, lastChange_snoc]
    simp only [changeFor, TimeWindows.tableOf, htakes.1]
    rfl
  · rename_i h
    by_cases hstop : wk.window.stop = wk.window.start + w.size
    · exact (latest_snoc_of_not_takes fun ht => h ⟨ht, hstop⟩).symm
    · unfold latest
      rw [if_neg hstop, if_neg hstop]

omit [DecidableEq K] in
theorem takes_of_advances (hr : r.Timely) (h : streamTimeOf recs < r.timestamp) :
    w.Takes r.key (r.timestamp / w.advance * w.advance) (streamTimeOf (recs ++ [r])) r := by
  have ha := w.advance_pos
  have hs := w.advance_le_size
  have hg := w.grace_nonneg
  have hle : r.timestamp / w.advance * w.advance ≤ r.timestamp := Int.ediv_mul_le _ (by omega)
  have hlt : r.timestamp < r.timestamp / w.advance * w.advance + w.advance := by
    have := Int.lt_ediv_add_one_mul_self r.timestamp (show 0 < w.advance by omega)
    linarith
  have h0 : 0 ≤ r.timestamp / w.advance * w.advance := by
    have := Int.ediv_nonneg hr.1 (show 0 ≤ w.advance by omega)
    positivity
  rw [streamTimeOf_snoc, max_eq_right h.le]
  exact ⟨rfl, ⟨h0, Dvd.intro_left _ rfl, hle, by omega⟩, by omega⟩

omit [DecidableEq K] in
theorem TimeWindows.Takes.stays {k : K} {ws : Int} (h : w.Takes k ws (streamTimeOf (recs ++ [r])) r)
    (hopen : streamTimeOf recs - w.grace < ws + w.size) :
    streamTimeOf (recs ++ [r]) - w.grace < ws + w.size := by
  obtain ⟨-, ⟨-, -, -, hlt⟩, -⟩ := h
  have hg := w.grace_nonneg
  rw [streamTimeOf_snoc]
  omega

theorem max_changeFor_timestamp :
    max (streamTimeOf recs) (changeFor w init agg recs r ws).timestamp = streamTimeOf (recs ++ [r]) := by
  have hle := w.streamTimeOf_accepted_le r.key ws recs
  have hmin := i64Min_le_streamTimeOf recs
  have hprior : ((w.tableOf init agg recs (r.key, ws)).map (·.1)).getD i64Min ≤ streamTimeOf recs := by
    unfold TimeWindows.tableOf
    rcases hacc : w.accepted r.key ws recs with _ | ⟨x, xs⟩
    · exact hmin
    · rw [hacc] at hle
      exact hle
  rw [streamTimeOf_snoc]
  simp only [changeFor, entryWith]
  omega

theorem kept_of_le {a b : Int} (hab : a ≤ b) (o : Option (Int × Change VA × Int)) :
    kept b (kept a o) = kept b o := by
  rcases o with _ | x
  · rfl
  · unfold kept
    rw [Option.filter_filter, Option.filter_some, Option.filter_some]
    by_cases hb : b < x.1
    · simp [hb, lt_of_le_of_lt hab hb]
    · simp [hb]

theorem withPuts_after (hmem : ∀ ws, ws ∈ taken ↔ w.Takes r.key ws (streamTimeOf (recs ++ [r])) r) {a b : Int}
    (hab : a ≤ b) :
    (withPuts ((latest w init agg recs).after a) (taken.map (changeFor w init agg recs r))
      r.ctx.timestamp).after b = (latest w init agg (recs ++ [r])).after b := by
  rw [← withPuts_latest hmem]
  funext wk
  unfold Table.after
  rw [withPuts_changes _ hmem, withPuts_changes _ hmem]
  split
  · rfl
  · exact kept_of_le hab _

structure SuppressedInv (w : TimeWindows) (init : VA) (agg : K → V → VA → VA)
    (recs : List (KeyedRecord K V)) (s : SuppressedAggregate K V VA) : Prop where
  aggregate : s.aggregate = processorAfter w init agg .onWindowUpdate false recs
  windows : s.windows.Holds (w.tableOf init agg recs)
  suppress : s.suppress = suppressAt w (streamTimeOf recs)
  buffer : s.buffer.Holds (Sized w.size) ((latest w init agg recs).after (streamTimeOf recs - w.grace))

/-- The change of a window that the suppress node may forward with a record: the one the record makes, or
the one that was pending. -/
def offered (w : TimeWindows) (init : VA) (agg : K → V → VA → VA) (recs : List (KeyedRecord K V))
    (r : KeyedRecord K V) (k : K) (ws : Int) : Option (Int × Change VA × Int) :=
  if w.Takes k ws (streamTimeOf (recs ++ [r])) r then latest w init agg (recs ++ [r]) (w.windowAt k ws)
  else kept (streamTimeOf recs - w.grace) (latest w init agg recs (w.windowAt k ws))

theorem withPuts_eq_offered (hmem : ∀ ws, ws ∈ taken ↔ w.Takes r.key ws (streamTimeOf (recs ++ [r])) r)
    (k : K) (ws : Int) :
    withPuts ((latest w init agg recs).after (streamTimeOf recs - w.grace))
      (taken.map (changeFor w init agg recs r)) r.ctx.timestamp (w.windowAt k ws)
      = offered w init agg recs r k ws := by
  unfold offered
  rw [← withPuts_latest hmem, withPuts_changes _ hmem, withPuts_changes _ hmem]
  by_cases ht : w.Takes k ws (streamTimeOf (recs ++ [r])) r
  · rw [if_pos ht, if_pos ⟨ht, rfl⟩, if_pos ⟨ht, rfl⟩]
  · rw [if_neg ht, if_neg fun hc => ht hc.1]
    rfl

theorem process_emits (h : ∀ x ∈ recs ++ [r], x.Timely) {s s' : SuppressedAggregate K V VA}
    (hinv : SuppressedInv w init agg recs s) {out : List (Record (Windowed K) (Change VA))}
    (hp : s.process r = .ok (s', out)) :
    SuppressedInv w init agg (recs ++ [r]) s' ∧
      (∀ k ws, out.filter (fun y => y.key = some (w.windowAt k ws))
        = (left (streamTimeOf (recs ++ [r]) - w.grace) (w.windowAt k ws)
          (offered w init agg recs r k ws)).map KTableSuppressProcessor.evicted) ∧
      ∀ y ∈ out, ∃ k ws, y.key = some (w.windowAt k ws) := by
  obtain ⟨aggregate, windows, suppress, buffer⟩ := s
  obtain ⟨rfl, hwin, rfl, hbuf⟩ := hinv
  have hr := h r (by simp)
  have hle : streamTimeOf recs - w.grace ≤ streamTimeOf (recs ++ [r]) - w.grace := by
    have := streamTimeOf_le_append recs [r]
    omega
  obtain ⟨⟨⟨p₁, windows₁⟩, changes⟩, hagg, hp⟩ := bind_eq_ok.mp hp
  obtain ⟨⟨⟨p₂, buffer₂⟩, out₂⟩, hsup, hp⟩ := bind_eq_ok.mp hp
  cases hp
  have hfit := (process_ok_iff h hwin).mp ⟨_, hagg⟩
  obtain ⟨hp₁, hwin₁⟩ := process_spec h hwin hagg
  obtain ⟨taken, hn, hmem, rfl⟩ := process_changes h hwin hagg
  have hchanges : (taken.map fun ws => w.changeWith init agg r.key ws r (w.tableOf init agg recs (r.key, ws)))
      = (taken.map (changeFor w init agg recs r)).map WindowChange.toRecord := by
    rw [List.map_map]
    rfl
  rw [hchanges] at hsup
  have hkeys : ((taken.map (changeFor w init agg recs r)).map WindowChange.key).Nodup := by
    rw [List.map_map]
    refine hn.map fun a b hab => ?_
    simpa [changeFor, TimeWindows.windowAt] using hab
  have hsized : ∀ c ∈ taken.map (changeFor w init agg recs r), Sized w.size c.key := by
    intro c hc
    obtain ⟨ws, hws, rfl⟩ := List.mem_map.mp hc
    have hcov := ((hmem ws).mp hws).2.1
    have hend := hfit ws hcov
    have ha := w.advance_pos
    have hs := w.advance_le_size
    obtain ⟨hi, h0⟩ := hcov.isI64 hr.2
    refine ⟨hi, rfl, ?_, hend⟩
    show i64Min ≤ ws + w.size
    simp only [i64Min]
    omega
  have hnow : ∀ c ∈ taken.map (changeFor w init agg recs r),
      max (streamTimeOf recs) c.timestamp = streamTimeOf (recs ++ [r]) := by
    intro c hc
    obtain ⟨ws, -, rfl⟩ := List.mem_map.mp hc
    exact max_changeFor_timestamp ws
  -- a pending change of a window that takes the record is not due with it
  have hlate : ∀ c ∈ taken.map (changeFor w init agg recs r), ∀ b,
      (latest w init agg recs).after (streamTimeOf recs - w.grace) c.key = some b →
      streamTimeOf (recs ++ [r]) - w.grace < b.1 := by
    intro c hc b hb
    obtain ⟨ws, hws, rfl⟩ := List.mem_map.mp hc
    obtain ⟨hlatest, hopen⟩ := Option.filter_eq_some_iff.mp hb
    have hstop := latest_stop hlatest
    rw [hstop, decide_eq_true_eq] at hopen
    rw [hstop]
    exact ((hmem ws).mp hws).stays hopen
  -- a record that no window takes does not move the stream time
  have hidle : taken.map (changeFor w init agg recs r) = [] → streamTimeOf recs = streamTimeOf (recs ++ [r]) := by
    intro hnil
    rcases le_or_gt r.timestamp (streamTimeOf recs) with hle | hlt
    · rw [streamTimeOf_snoc, max_eq_left hle]
    · have hin := (hmem _).mpr (takes_of_advances hr hlt)
      rw [List.map_eq_nil_iff.mp hnil] at hin
      cases hin
  obtain ⟨hp₂, hbuf₂, hout, hsome⟩ := suppressLoop_spec hkeys hsized hnow hlate
    (fun hnil => ⟨hidle hnil, funext fun wk => hidle hnil ▸ kept_kept _ _, fun wk =>
      hidle hnil ▸ left_kept _ wk _⟩) hbuf hsup
  refine ⟨⟨hp₁, hwin₁, hp₂, by rwa [withPuts_after hmem hle] at hbuf₂⟩, fun k ws => ?_, fun y hy => ?_⟩
  · refine (hout _).trans ?_
    rw [List.filter_nil, List.nil_append, Table.due, withPuts_eq_offered hmem]
  · obtain ⟨wk, hwk⟩ := Option.ne_none_iff_exists'.mp ((hsome y hy).resolve_left (by simp))
    have hin : y ∈ out.filter fun y => y.key = some wk := List.mem_filter.mpr ⟨hy, by simpa using hwk⟩
    have hne : withPuts ((latest w init agg recs).after (streamTimeOf recs - w.grace))
        (taken.map (changeFor w init agg recs r)) r.ctx.timestamp wk ≠ none := by
      intro hnone
      rw [hout, Table.due, hnone] at hin
      cases hin
    refine ⟨wk.key, wk.window.start, hwk.trans (congrArg some ?_)⟩
    rw [withPuts_changes _ hmem] at hne
    have hstop : wk.window.stop = wk.window.start + w.size := by
      by_contra hcon
      rw [if_neg fun hc => hcon hc.2, Table.after, latest, if_neg hcon] at hne
      exact hne rfl
    unfold TimeWindows.windowAt
    rw [← hstop]

section Run

variable {s₀ s : SuppressedAggregate K V VA} {outs : List (List (Record (Windowed K) (Change VA)))}

def finalsOf (w : TimeWindows) (k : K) (ws : Int) (out : List (Record (Windowed K) (Change VA))) :
    List (Record (Windowed K) (Change VA)) :=
  out.filter fun y => y.key = some (w.windowAt k ws)

theorem finalsOf_snoc (k : K) (ws : Int) (out : List (Record (Windowed K) (Change VA))) :
    finalsOf w k ws (outs ++ [out]).flatten = finalsOf w k ws outs.flatten ++ finalsOf w k ws out := by
  simp [finalsOf]

theorem suppressedRun_inv (h0 : SuppressedInv w init agg [] s₀) (hrun : suppressedRun s₀ recs = .ok (s, outs))
    (h : ∀ x ∈ recs, x.Timely) :
    SuppressedInv w init agg recs s ∧ ∀ y ∈ outs.flatten, ∃ k ws, y.key = some (w.windowAt k ws) := by
  refine run_induction (I := fun recs s outs => (∀ r ∈ recs, r.Timely) → SuppressedInv w init agg recs s ∧
    ∀ y ∈ outs.flatten, ∃ k ws, y.key = some (w.windowAt k ws)) ?_ ?_ hrun h
  · exact fun _ => ⟨h0, by simp⟩
  · intro recs r s s' outs out hinv hstep h
    obtain ⟨hs, hkeys⟩ := hinv (forall_mem_of_snoc h)
    obtain ⟨hs', -, hkeys'⟩ := process_emits h hs hstep
    refine ⟨hs', fun y hy => ?_⟩
    rw [List.flatten_append, List.flatten_singleton] at hy
    exact (List.mem_append.mp hy).elim (hkeys y) (hkeys' y)

theorem finalsOf_run_snoc (h0 : SuppressedInv w init agg [] s₀)
    (hrun : suppressedRun s₀ (recs ++ [r]) = .ok (s, outs)) (h : ∀ x ∈ recs ++ [r], x.Timely) (k : K)
    (ws : Int) :
    ∃ s' os, suppressedRun s₀ recs = .ok (s', os) ∧ finalsOf w k ws outs.flatten
      = finalsOf w k ws os.flatten ++ (left (streamTimeOf (recs ++ [r]) - w.grace) (w.windowAt k ws)
        (offered w init agg recs r k ws)).map KTableSuppressProcessor.evicted := by
  obtain ⟨s', os, out, hinit, hstep, rfl⟩ := run_snoc.mp hrun
  have hinv := (suppressedRun_inv h0 hinit (forall_mem_of_snoc h)).1
  refine ⟨s', os, hinit, ?_⟩
  rw [finalsOf_snoc]
  exact congrArg _ ((process_emits h hinv hstep).2.1 k ws)

omit [DecidableEq K] in
theorem left_append {a b : Int} (hab : a ≤ b) (k : K) (o : Option (Int × Change VA × Int)) :
    left a k o ++ left b k (kept a o) = left b k o := by
  rcases o with _ | x
  · rfl
  · rcases kept_or_left a k x with ⟨-, hk, hl⟩ | ⟨hle, hk, hl⟩
    · rw [hk, hl, List.nil_append]
    · rw [hk, hl]
      rcases kept_or_left b k x with ⟨hlt, -, -⟩ | ⟨-, -, hl'⟩
      · omega
      · rw [hl']
        rfl

omit [DecidableEq K] in
theorem lastChange_of_ne_nil (init : VA) (agg : K → V → VA → VA) (k : K) (h : recs ≠ []) : ∃ old ts,
    lastChange init agg k recs = some (⟨old, some (aggregateOf init agg k recs)⟩, ts) := by
  unfold lastChange
  rw [List.getLast?_eq_some_getLast h, entryOf_of_ne_nil init agg k h]
  exact ⟨_, _, rfl⟩

theorem left_latest_eq_nil {k : K} {ws now : Int}
    (h : w.accepted k ws recs ≠ [] → now < ws + w.size) :
    left now (w.windowAt k ws) (latest w init agg recs (w.windowAt k ws)) = [] := by
  rw [latest_windowAt]
  rcases hacc : w.accepted k ws recs with _ | ⟨x, xs⟩
  · rfl
  · obtain ⟨old, ts, hlast⟩ := lastChange_of_ne_nil init agg k (List.cons_ne_nil x xs)
    rw [hlast]
    have hlt := h (by simp [hacc])
    rcases kept_or_left now (w.windowAt k ws) (ws + w.size, (⟨old, some (aggregateOf init agg k (x :: xs))⟩ :
      Change VA), ts) with ⟨-, -, hl⟩ | ⟨hle, -, -⟩
    · exact hl
    · exact absurd hlt (not_lt.mpr hle)

theorem left_latest_ne_nil {k : K} {ws now : Int} (hacc : w.accepted k ws recs ≠ [])
    (h : ws + w.size ≤ now) : left now (w.windowAt k ws) (latest w init agg recs (w.windowAt k ws)) ≠ [] := by
  rw [latest_windowAt]
  obtain ⟨old, ts, hlast⟩ := lastChange_of_ne_nil init agg k hacc
  rw [hlast]
  rcases kept_or_left now (w.windowAt k ws) (ws + w.size, (⟨old, some (aggregateOf init agg k
    (w.accepted k ws recs))⟩ : Change VA), ts) with ⟨hlt, -, -⟩ | ⟨-, -, hl⟩
  · exact absurd h (not_le.mpr hlt)
  · rw [Option.map_some, hl]
    simp

omit [DecidableEq K] in
theorem length_left_le (now : Int) (k : K) (o : Option (Int × Change VA × Int)) :
    (left now k o).length ≤ 1 := by
  unfold left
  rw [List.length_map, Option.length_toList]
  split <;> omega

theorem NoRecordAtClose.of_snoc (h : w.NoRecordAtClose (recs ++ [r])) : w.NoRecordAtClose recs :=
  fun done x k ws hpre => h done x k ws (hpre.trans (List.prefix_append _ _))

theorem finalsOf_run (h0 : SuppressedInv w init agg [] s₀) (hrun : suppressedRun s₀ recs = .ok (s, outs))
    (h : ∀ x ∈ recs, x.Timely) (hno : w.NoRecordAtClose recs) (k : K) (ws : Int) :
    finalsOf w k ws outs.flatten = (left (streamTimeOf recs - w.grace) (w.windowAt k ws)
      (latest w init agg recs (w.windowAt k ws))).map KTableSuppressProcessor.evicted := by
  induction recs using List.reverseRecOn generalizing s outs with
  | nil =>
    cases hrun
    rw [latest_windowAt]
    rfl
  | append_singleton recs r ih =>
    obtain ⟨s', os, hinit, hsplit⟩ := finalsOf_run_snoc h0 hrun h k ws
    have hle := streamTimeOf_le_append recs [r]
    rw [hsplit, ih hinit (forall_mem_of_snoc h) (NoRecordAtClose.of_snoc hno), ← List.map_append]
    refine congrArg _ ?_
    unfold offered
    split
    · rename_i ht
      rw [left_latest_eq_nil, List.nil_append]
      intro hacc
      have hne := hno recs r k ws List.prefix_rfl ht hacc
      have hopen := ht.2.2
      omega
    · rename_i ht
      have hsame : latest w init agg (recs ++ [r]) (w.windowAt k ws) = latest w init agg recs (w.windowAt k ws) :=
        latest_snoc_of_not_takes ht
      rw [hsame]
      exact left_append (by omega) _ _

theorem finalsOf_ne_nil (h0 : SuppressedInv w init agg [] s₀) (hrun : suppressedRun s₀ recs = .ok (s, outs))
    (h : ∀ x ∈ recs, x.Timely) {k : K} {ws : Int} (hacc : w.accepted k ws recs ≠ [])
    (hclosed : ws + w.size ≤ streamTimeOf recs - w.grace) : finalsOf w k ws outs.flatten ≠ [] := by
  induction recs using List.reverseRecOn generalizing s outs with
  | nil => exact absurd rfl hacc
  | append_singleton recs r ih =>
    obtain ⟨s', os, hinit, hsplit⟩ := finalsOf_run_snoc h0 hrun h k ws
    rw [hsplit]
    unfold offered
    split
    · exact fun hc => left_latest_ne_nil hacc hclosed
        (List.map_eq_nil_iff.mp (List.append_eq_nil_iff.mp hc).2)
    · rename_i ht
      rw [TimeWindows.accepted_snoc, if_neg ht, List.append_nil] at hacc
      by_cases hbefore : ws + w.size ≤ streamTimeOf recs - w.grace
      · exact fun hc => ih hinit (forall_mem_of_snoc h) hacc hbefore (List.append_eq_nil_iff.mp hc).1
      · have hnil : left (streamTimeOf recs - w.grace) (w.windowAt k ws)
            (latest w init agg recs (w.windowAt k ws)) = [] := left_latest_eq_nil fun _ => by omega
        have happ := left_append (show streamTimeOf recs - w.grace ≤ streamTimeOf (recs ++ [r]) - w.grace by
          omega) (w.windowAt k ws) (latest w init agg recs (w.windowAt k ws))
        rw [hnil, List.nil_append] at happ
        rw [happ]
        exact fun hc => left_latest_ne_nil hacc hclosed
          (List.map_eq_nil_iff.mp (List.append_eq_nil_iff.mp hc).2)

theorem count_key_eq (out : List (Record (Windowed K) (Change VA))) :
    (out.map Record.key).count (some (w.windowAt k ws)) = (finalsOf w k ws out).length := by
  unfold finalsOf List.count
  rw [List.countP_map, List.countP_eq_length_filter]
  refine congrArg List.length (List.filter_congr fun x _ => ?_)
  rw [Bool.eq_iff_iff]
  simp

theorem two_le_length_finalsOf (h0 : SuppressedInv w init agg [] s₀)
    (hrun : suppressedRun s₀ (recs ++ [r]) = .ok (s, outs)) (h : ∀ x ∈ recs ++ [r], x.Timely) {k : K}
    {ws : Int} (ht : w.Takes k ws (streamTimeOf (recs ++ [r])) r) (hacc : w.accepted k ws recs ≠ [])
    (heq : streamTimeOf (recs ++ [r]) = ws + w.size + w.grace) :
    2 ≤ (finalsOf w k ws outs.flatten).length := by
  obtain ⟨s', os, hinit, hsplit⟩ := finalsOf_run_snoc h0 hrun h k ws
  have hlt := ht.2.1.2.2.2
  have hg := w.grace_nonneg
  have hbefore : streamTimeOf recs = ws + w.size + w.grace := by
    rw [streamTimeOf_snoc] at heq
    omega
  have hold := finalsOf_ne_nil h0 hinit (forall_mem_of_snoc h) hacc (by omega)
  have hacc' : w.accepted k ws (recs ++ [r]) ≠ [] := by
    rw [TimeWindows.accepted_snoc]
    exact List.append_ne_nil_of_left_ne_nil hacc _
  have hnew : left (streamTimeOf (recs ++ [r]) - w.grace) (w.windowAt k ws)
      (latest w init agg (recs ++ [r]) (w.windowAt k ws)) ≠ [] := left_latest_ne_nil hacc' (by omega)
  rw [hsplit, offered, if_pos ht, List.length_append, List.length_map]
  have h1 := List.length_pos_iff.mpr hold
  have h2 := List.length_pos_iff.mpr hnew
  omega

theorem new_of_left_latest {k : K} {ws now : Int} {x : Record (Windowed K) (Change VA)}
    (h : x ∈ (left now (w.windowAt k ws) (latest w init agg recs (w.windowAt k ws))).map
      KTableSuppressProcessor.evicted) :
    x.value.new = some (aggregateOf init agg k (w.accepted k ws recs)) := by
  obtain ⟨y, hy, rfl⟩ := List.mem_map.mp h
  have hacc : w.accepted k ws recs ≠ [] := by
    intro hnil
    rw [left_latest_eq_nil fun hne => absurd hnil hne] at hy
    cases hy
  obtain ⟨old, ts, hlast⟩ := lastChange_of_ne_nil init agg k hacc
  rw [latest_windowAt, hlast, Option.map_some] at hy
  rcases kept_or_left now (w.windowAt k ws) (ws + w.size, (⟨old, some (aggregateOf init agg k
    (w.accepted k ws recs))⟩ : Change VA), ts) with ⟨-, -, hl⟩ | ⟨-, -, hl⟩
  · rw [hl] at hy
    cases hy
  · rw [hl] at hy
    rw [List.mem_singleton.mp hy]
    rfl

theorem SuppressedInv.create {keySerde : Serde K} {valueSerde : Serde VA} (hk : keySerde.Lawful)
    (hv : valueSerde.Lawful) (storeTopic bufferTopic : Topic) :
    SuppressedInv w init agg [] (.create w init agg keySerde valueSerde storeTopic bufferTopic) where
  aggregate := rfl
  windows := .inMemory hk hv storeTopic w.size
  suppress := rfl
  buffer := by
    have hnone : (latest w init agg []).after (streamTimeOf ([] : List (KeyedRecord K V)) - w.grace)
        = fun _ => none := by
      funext wk
      unfold Table.after latest
      split <;> rfl
    rw [hnone]
    exact .inMemory (fun hs => timeWindowedSerde_sized hk bufferTopic hs) hv

/-- A run forwards every window at most once, with its final value, unless a record arrives for a window
that has records when the stream time is exactly its end and the grace. -/
theorem suppressesOnce_iff_noRecordAtClose {keySerde : Serde K} {valueSerde : Serde VA}
    (hk : keySerde.Lawful) (hv : valueSerde.Lawful) (storeTopic bufferTopic : Topic) (w : TimeWindows)
    (init : VA) (agg : K → V → VA → VA) {recs : List (KeyedRecord K V)} (h : ∀ x ∈ recs, x.Timely)
    {s : SuppressedAggregate K V VA} {outs : List (List (Record (Windowed K) (Change VA)))}
    (hrun : suppressedRun (.create w init agg keySerde valueSerde storeTopic bufferTopic) recs
      = .ok (s, outs)) :
    SuppressesOnce w init agg recs outs.flatten ↔ w.NoRecordAtClose recs := by
  have h0 : SuppressedInv w init agg [] (.create w init agg keySerde valueSerde storeTopic bufferTopic) :=
    .create hk hv storeTopic bufferTopic
  have hkeys := (suppressedRun_inv h0 hrun h).2
  constructor
  · rintro ⟨hn, -⟩ done r k ws ⟨rest, rfl⟩ ht hacc heq
    obtain ⟨s₁, os, hdone, ⟨later, rfl⟩⟩ := run_prefix hrun
    have hd : ∀ x ∈ done ++ [r], x.Timely := fun x hx => h x (List.mem_append_left _ hx)
    have htwice := two_le_length_finalsOf h0 hdone hd ht hacc heq
    have hcount := List.nodup_iff_count_le_one.mp hn (some (w.windowAt k ws))
    rw [List.flatten_append, List.map_append, List.count_append, count_key_eq] at hcount
    omega
  · intro hno
    have hfinals := finalsOf_run h0 hrun h hno
    refine ⟨List.nodup_iff_count_le_one.mpr fun a => ?_, fun x hx => ?_⟩
    · by_contra hcon
      have hpos : 0 < (outs.flatten.map Record.key).count a := by omega
      obtain ⟨y, hy, rfl⟩ := List.mem_map.mp (List.count_pos_iff.mp hpos)
      obtain ⟨k, ws, hkey⟩ := hkeys y hy
      rw [hkey, count_key_eq, hfinals, List.length_map] at hcon
      exact hcon (length_left_le _ _ _)
    · obtain ⟨k, ws, hkey⟩ := hkeys x hx
      have hin : x ∈ finalsOf w k ws outs.flatten := List.mem_filter.mpr ⟨hx, by simpa using hkey⟩
      rw [hfinals k ws] at hin
      exact ⟨k, ws, hkey, new_of_left_latest hin⟩

end Run

theorem noRecordAtClose_of_ordered (h : recs.Pairwise fun a b => a.timestamp ≤ b.timestamp) :
    w.NoRecordAtClose recs := by
  rintro done r k ws ⟨rest, rfl⟩ ht - heq
  have hlt := ht.2.1.2.2.2
  have hg := w.grace_nonneg
  have hd := (List.pairwise_append.mp (List.pairwise_append.mp h).1).2.2
  have hle : streamTimeOf (done ++ [r]) ≤ max i64Min r.timestamp := streamTimeOf_le (le_max_left _ _) fun x hx => by
    refine le_trans ?_ (le_max_right _ _)
    rcases List.mem_append.mp hx with hx | hx
    · exact hd x hx r (by simp)
    · exact (List.mem_singleton.mp hx) ▸ le_rfl
  have h0 := ht.2.1.1
  have hle' := ht.2.1.2.2.1
  simp only [i64Min] at hle
  omega

section Samples

def tumblingWindows : TimeWindows where
  size := 10
  advance := 10
  grace := 0
  advance_pos := by decide
  advance_le_size := by decide
  size_le := hoppingWindows.size_le
  grace_nonneg := unitWindows.grace_nonneg
  grace_le := unitWindows.grace_le

def suppressedAppend : SuppressedAggregate Bytes Bytes Bytes :=
  .create tumblingWindows [] appendValue bytesSerde bytesSerde "app-w-changelog" "app-s-changelog"

def forwardedKeys (recs : List (KeyedRecord Bytes Bytes)) : Except ProcessorError (List (Option (Windowed Bytes))) :=
  (suppressedRun suppressedAppend recs).map fun x => x.2.flatten.map Record.key

theorem exists_run_of_forwardedKeys {recs : List (KeyedRecord Bytes Bytes)}
    {keys : List (Option (Windowed Bytes))} (h : forwardedKeys recs = .ok keys) :
    ∃ s outs, suppressedRun suppressedAppend recs = .ok (s, outs) ∧ outs.flatten.map Record.key = keys := by
  unfold forwardedKeys at h
  rcases hrun : suppressedRun suppressedAppend recs with e | ⟨s, outs⟩
  · rw [hrun] at h
    cases h
  · rw [hrun] at h
    exact ⟨s, outs, rfl, Except.ok.inj h⟩

/-- The second record closes the window of the first, and the third is still taken into it. -/
theorem not_suppressesOnce_lateRecord :
    ∃ s outs, suppressedRun suppressedAppend [recordAt 97 1 0, recordAt 97 2 10, recordAt 97 3 5]
        = .ok (s, outs) ∧
      ¬ SuppressesOnce tumblingWindows [] appendValue [recordAt 97 1 0, recordAt 97 2 10, recordAt 97 3 5]
        outs.flatten := by
  have hkeys : forwardedKeys [recordAt 97 1 0, recordAt 97 2 10, recordAt 97 3 5]
      = .ok [some ⟨[97], ⟨0, 10⟩⟩, some ⟨[97], ⟨0, 10⟩⟩] := by decide +kernel
  obtain ⟨s, outs, hrun, houts⟩ := exists_run_of_forwardedKeys hkeys
  refine ⟨s, outs, hrun, fun ⟨hn, _⟩ => ?_⟩
  rw [houts] at hn
  simp at hn

/-- Records in the order of their timestamps are forwarded once. -/
theorem suppressesOnce_ordered :
    ∃ s outs, suppressedRun suppressedAppend [recordAt 97 1 0, recordAt 97 2 5, recordAt 97 3 10, recordAt 98 4 21]
        = .ok (s, outs) ∧ outs.flatten.map Record.key = [some ⟨[97], ⟨0, 10⟩⟩, some ⟨[97], ⟨10, 20⟩⟩] ∧
      SuppressesOnce tumblingWindows [] appendValue
        [recordAt 97 1 0, recordAt 97 2 5, recordAt 97 3 10, recordAt 98 4 21] outs.flatten := by
  have hkeys : forwardedKeys [recordAt 97 1 0, recordAt 97 2 5, recordAt 97 3 10, recordAt 98 4 21]
      = .ok [some ⟨[97], ⟨0, 10⟩⟩, some ⟨[97], ⟨10, 20⟩⟩] := by decide +kernel
  obtain ⟨s, outs, hrun, houts⟩ := exists_run_of_forwardedKeys hkeys
  refine ⟨s, outs, hrun, houts, ?_⟩
  exact (suppressesOnce_iff_noRecordAtClose bytesSerde_lawful bytesSerde_lawful _ _ _ _ _ (by decide) hrun).mpr
    (noRecordAtClose_of_ordered (by decide))

end Samples

end KrabkaStreams
