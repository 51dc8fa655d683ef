import KrabkaStreams.Dsl.WindowSemantics
import Mathlib.Tactic.Linarith
import Mathlib.Tactic.Ring

/-!
# The windows of a timestamp and the records of a window

`windowsFor` lists the windows that cover a timestamp, and fails only where a next start leaves `i64`
(`windowsFor_spec`, `windowsFor_ok_iff`).
-/

namespace KrabkaStreams

theorem checkedI64_eq_ok {x y : Int} : checkedI64 x = .ok y ↔ IsI64 x ∧ y = x := by
  unfold checkedI64
  split
  · rename_i h
    exact ⟨fun he => ⟨h, (Except.ok.inj he).symm⟩, fun he => by rw [he.2]⟩
  · rename_i h
    exact ⟨nofun, fun he => absurd he.1 h⟩

variable (w : TimeWindows)

namespace TimeWindows

theorem size_nonneg (w : TimeWindows) : 0 ≤ w.size :=
  (zero_le_one.trans w.advance_pos).trans w.advance_le_size

theorem startsFrom_spec {t advance : Int} (ha : 1 ≤ advance) :
    ∀ {n : Nat} {start : Int} {l : List Int}, t + 1 - start ≤ n → startsFrom t advance n start = .ok l →
      (∀ ws, ws ∈ l ↔ ∃ i : Nat, ws = start + i * advance ∧ ws ≤ t) ∧ l.Pairwise (· < ·)
  | 0, start, l, hn, h => by
    cases h
    refine ⟨fun ws => ⟨by simp, ?_⟩, List.Pairwise.nil⟩
    rintro ⟨i, rfl, hle⟩
    have : 0 ≤ (i : Int) * advance := by positivity
    omega
  | n + 1, start, l, hn, h => by
    unfold startsFrom at h
    split at h
    · obtain ⟨next, hnext, h⟩ := Runs.bind_eq_ok.mp h
      obtain ⟨rest, hrest, h⟩ := Runs.bind_eq_ok.mp h
      cases h
      obtain ⟨-, rfl⟩ := checkedI64_eq_ok.mp hnext
      obtain ⟨hmem, hsorted⟩ := startsFrom_spec ha (by omega) hrest
      refine ⟨fun ws => ?_, List.pairwise_cons.mpr ⟨fun ws hws => ?_, hsorted⟩⟩
      · rw [List.mem_cons, hmem]
        constructor
        · rintro (rfl | ⟨i, rfl, hle⟩)
          · exact ⟨0, by simp, by assumption⟩
          · exact ⟨i + 1, by push_cast; ring, hle⟩
        · rintro ⟨i, rfl, hle⟩
          cases i with
          | zero => exact .inl (by simp)
          | succ i => exact .inr ⟨i, by push_cast; ring, hle⟩
      · obtain ⟨i, rfl, -⟩ := (hmem ws).mp hws
        have : 0 ≤ (i : Int) * advance := by positivity
        omega
    · cases h
      refine ⟨fun ws => ⟨by simp, ?_⟩, List.Pairwise.nil⟩
      rintro ⟨i, rfl, hle⟩
      have : 0 ≤ (i : Int) * advance := by positivity
      omega

theorem startsFrom_ok_iff {t advance : Int} (ha : 1 ≤ advance) :
    ∀ {n : Nat} {start : Int}, 0 ≤ start → t + 1 - start ≤ n →
      ((∃ l, startsFrom t advance n start = .ok l) ↔
        ∀ i : Nat, start + i * advance ≤ t → start + (i + 1) * advance ≤ i64Max)
  | 0, start, h0, hn => by
    refine ⟨fun _ i hle => ?_, fun _ => ⟨[], rfl⟩⟩
    have : 0 ≤ (i : Int) * advance := by positivity
    omega
  | n + 1, start, h0, hn => by
    unfold startsFrom
    split
    · rename_i hle
      constructor
      · rintro ⟨l, h⟩ i hi
        obtain ⟨next, hnext, h⟩ := Runs.bind_eq_ok.mp h
        obtain ⟨rest, hrest, -⟩ := Runs.bind_eq_ok.mp h
        obtain ⟨hfit, rfl⟩ := checkedI64_eq_ok.mp hnext
        cases i with
        | zero => simpa using hfit.2
        | succ i =>
          have hstep := (startsFrom_ok_iff ha (by omega) (by omega)).mp ⟨rest, hrest⟩ i
            (by push_cast at hi; linarith)
          push_cast
          linarith
      · intro h
        have hfirst : start + advance ≤ i64Max := by simpa using h 0 (by simpa using hle)
        have hfit : IsI64 (start + advance) := ⟨by simp only [i64Min]; omega, hfirst⟩
        obtain ⟨rest, hrest⟩ := (startsFrom_ok_iff (t := t) ha (n := n) (by omega : 0 ≤ start + advance)
          (by omega)).mpr fun i hi => by
            have hs := h (i + 1) (by push_cast; linarith)
            push_cast at hs
            linarith
        exact ⟨start :: rest, Runs.bind_eq_ok.mpr ⟨_, checkedI64_eq_ok.mpr ⟨hfit, rfl⟩,
          Runs.bind_eq_ok.mpr ⟨rest, hrest, rfl⟩⟩⟩
    · refine ⟨fun _ i hle => ?_, fun _ => ⟨[], rfl⟩⟩
      have : 0 ≤ (i : Int) * advance := by positivity
      omega

def firstStart (t : Int) : Int :=
  max 0 (t - w.size + w.advance) / w.advance * w.advance

theorem firstStart_nonneg (t : Int) : 0 ≤ w.firstStart t := by
  have ha := w.advance_pos
  unfold firstStart
  positivity

theorem covers_iff_steps (ws t : Int) :
    w.Covers ws t ↔ ∃ i : Nat, ws = w.firstStart t + i * w.advance ∧ ws ≤ t := by
  have ha := w.advance_pos
  obtain ⟨x, hx⟩ : ∃ x, x = max 0 (t - w.size + w.advance) := ⟨_, rfl⟩
  have hlo : x / w.advance * w.advance ≤ x := Int.ediv_mul_le x (by omega)
  have hhi : x < x / w.advance * w.advance + w.advance := by
    have := Int.lt_ediv_add_one_mul_self x (show 0 < w.advance by omega)
    linarith
  have hfirst : w.firstStart t = x / w.advance * w.advance := by rw [firstStart, ← hx]
  constructor
  · rintro ⟨h0, ⟨m, rfl⟩, hle, hlt⟩
    have hm : x / w.advance ≤ m := by
      by_contra hcon
      have hstep : (m + 1) * w.advance ≤ x / w.advance * w.advance :=
        Int.mul_le_mul_of_nonneg_right (by omega) (by omega)
      have hm1 : w.advance * m + w.advance ≤ x := by linarith
      rcases max_cases 0 (t - w.size + w.advance) with hmax | hmax
      · omega
      · rw [hmax.1] at hx
        omega
    refine ⟨(m - x / w.advance).toNat, ?_, hle⟩
    rw [hfirst, Int.toNat_of_nonneg (by omega)]
    ring
  · rintro ⟨i, rfl, hle⟩
    have hi : 0 ≤ (i : Int) * w.advance := by positivity
    refine ⟨by have := w.firstStart_nonneg t; omega, ?_, hle, ?_⟩
    · rw [hfirst]
      exact ⟨x / w.advance + i, by ring⟩
    · rw [hfirst]
      omega

theorem windowsFor_spec {t : Int} {starts : List Int} (ht : 0 ≤ t) (h : w.windowsFor t = .ok starts) :
    (∀ ws, ws ∈ starts ↔ w.Covers ws t) ∧ starts.Pairwise (· < ·) := by
  have h0 := w.firstStart_nonneg t
  have hn : t + 1 - w.firstStart t ≤ (t + 1).toNat := by omega
  obtain ⟨hmem, hsorted⟩ := startsFrom_spec w.advance_pos hn h
  exact ⟨fun ws => (hmem ws).trans (w.covers_iff_steps ws t).symm, hsorted⟩

theorem windowsFor_ok_iff {t : Int} (ht : 0 ≤ t) :
    (∃ starts, w.windowsFor t = .ok starts) ↔ ∀ ws, w.Covers ws t → ws + w.advance ≤ i64Max := by
  have h0 := w.firstStart_nonneg t
  refine (startsFrom_ok_iff w.advance_pos (n := (t + 1).toNat) h0 (by omega)).trans ?_
  constructor
  · intro h ws hws
    obtain ⟨i, rfl, hle⟩ := (w.covers_iff_steps ws t).mp hws
    have := h i hle
    linarith
  · intro h i hle
    have := h _ ((w.covers_iff_steps _ t).mpr ⟨i, rfl, hle⟩)
    linarith

end TimeWindows

section Semantics

variable {K V VA : Type} (init : VA) (agg : K → V → VA → VA) (k : K) (recs : List (KeyedRecord K V))
  {r : KeyedRecord K V}

@[simp] theorem streamTimeOf_nil : streamTimeOf ([] : List (KeyedRecord K V)) = i64Min := rfl

@[simp] theorem streamTimeOf_snoc (r : KeyedRecord K V) :
    streamTimeOf (recs ++ [r]) = max (streamTimeOf recs) r.timestamp := by
  simp [streamTimeOf]

theorem i64Min_le_streamTimeOf : i64Min ≤ streamTimeOf recs := by
  induction recs using List.reverseRecOn with
  | nil => exact le_rfl
  | append_singleton recs r ih =>
    rw [streamTimeOf_snoc]
    exact ih.trans (le_max_left _ _)

theorem streamTimeOf_le {recs : List (KeyedRecord K V)} {m : Int} (hm : i64Min ≤ m)
    (h : ∀ r ∈ recs, r.timestamp ≤ m) : streamTimeOf recs ≤ m := by
  induction recs using List.reverseRecOn with
  | nil => exact hm
  | append_singleton recs r ih =>
    rw [streamTimeOf_snoc]
    exact max_le (ih fun x hx => h x (List.mem_append_left _ hx)) (h r (by simp))

theorem le_streamTimeOf {recs : List (KeyedRecord K V)} (h : r ∈ recs) : r.timestamp ≤ streamTimeOf recs := by
  induction recs using List.reverseRecOn with
  | nil => cases h
  | append_singleton recs x ih =>
    rw [streamTimeOf_snoc]
    rcases List.mem_append.mp h with h | h
    · exact (ih h).trans (le_max_left _ _)
    · exact List.mem_singleton.mp h ▸ le_max_right _ _

theorem streamTimeOf_snoc_bounds {recs : List (KeyedRecord K V)} (h : ∀ x ∈ recs ++ [r], x.Timely) :
    0 ≤ streamTimeOf (recs ++ [r]) ∧ streamTimeOf (recs ++ [r]) ≤ i64Max := by
  have hle : streamTimeOf (recs ++ [r]) ≤ i64Max := streamTimeOf_le (by decide) fun x hx => (h x hx).2
  have hr := (h r (by simp)).1
  rw [streamTimeOf_snoc] at hle ⊢
  exact ⟨hr.trans (le_max_right _ _), hle⟩

theorem streamTimeOf_le_append (recs rest : List (KeyedRecord K V)) :
    streamTimeOf recs ≤ streamTimeOf (recs ++ rest) := by
  induction rest using List.reverseRecOn with
  | nil => rw [List.append_nil]
  | append_singleton rest r ih =>
    rw [← List.append_assoc, streamTimeOf_snoc]
    exact ih.trans (le_max_left _ _)

theorem timesOf_nil (k : K) : timesOf k ([] : List (KeyedRecord K V)) = fun _ => False := by
  funext t
  simp [timesOf]

theorem timesOf_snoc_self (r : KeyedRecord K V) (recs : List (KeyedRecord K V)) :
    timesOf r.key (recs ++ [r]) = fun t => t = r.timestamp ∨ timesOf r.key recs t := by
  funext t
  refine propext ⟨?_, ?_⟩
  · rintro ⟨x, hx, hk, rfl⟩
    rcases List.mem_append.mp hx with hx | hx
    · exact .inr ⟨x, hx, hk, rfl⟩
    · exact .inl (by rw [List.mem_singleton.mp hx])
  · rintro (rfl | ⟨x, hx, hk, rfl⟩)
    · exact ⟨r, by simp, rfl, rfl⟩
    · exact ⟨x, List.mem_append_left _ hx, hk, rfl⟩

theorem timesOf_snoc_of_ne {k : K} (hk : k ≠ r.key) (recs : List (KeyedRecord K V)) :
    timesOf k (recs ++ [r]) = timesOf k recs := by
  funext t
  refine propext ⟨?_, ?_⟩
  · rintro ⟨x, hx, hxk, rfl⟩
    rcases List.mem_append.mp hx with hx | hx
    · exact ⟨x, hx, hxk, rfl⟩
    · rw [List.mem_singleton.mp hx] at hxk
      exact absurd hxk.symm hk
  · rintro ⟨x, hx, hxk, rfl⟩
    exact ⟨x, List.mem_append_left _ hx, hxk, rfl⟩

def entryWith (r : KeyedRecord K V) (prior : Option (Int × VA)) : Int × VA :=
  (max ((prior.map (·.1)).getD i64Min) r.timestamp, agg k r.value ((prior.map (·.2)).getD init))

theorem entryOf_of_ne_nil {recs : List (KeyedRecord K V)} (h : recs ≠ []) :
    entryOf init agg k recs = some (streamTimeOf recs, aggregateOf init agg k recs) := by
  cases recs with
  | nil => exact absurd rfl h
  | cons r rs => rfl

theorem entryOf_snoc (r : KeyedRecord K V) :
    entryOf init agg k (recs ++ [r]) = some (entryWith init agg k r (entryOf init agg k recs)) := by
  rw [entryOf_of_ne_nil init agg k (by simp)]
  cases recs with
  | nil => simp [entryWith, entryOf, aggregateOf, streamTimeOf]
  | cons r' rs => simp [entryWith, entryOf, aggregateOf, streamTimeOf]

namespace TimeWindows

variable [DecidableEq K] (w : TimeWindows) (ws : Int) (recs : List (KeyedRecord K V)) (r : KeyedRecord K V)

theorem acceptedFrom_append (recs recs' : List (KeyedRecord K V)) (now : Int) :
    w.acceptedFrom k ws now (recs ++ recs') = w.acceptedFrom k ws now recs
      ++ w.acceptedFrom k ws (recs.foldl (fun t r => max t r.timestamp) now) recs' := by
  induction recs generalizing now with
  | nil => rfl
  | cons r rs ih =>
    simp only [List.cons_append, acceptedFrom, List.foldl_cons, ih]
    split <;> rfl

theorem accepted_snoc :
    w.accepted k ws (recs ++ [r]) = w.accepted k ws recs
      ++ if w.Takes k ws (streamTimeOf (recs ++ [r])) r then [r] else [] := by
  rw [streamTimeOf_snoc]
  unfold accepted
  rw [acceptedFrom_append]
  rfl

theorem acceptedFrom_sublist (now : Int) (recs : List (KeyedRecord K V)) :
    (w.acceptedFrom k ws now recs).Sublist recs := by
  induction recs generalizing now with
  | nil => exact .slnil
  | cons r recs ih =>
    unfold acceptedFrom
    split
    · exact (ih _).cons_cons r
    · exact (ih _).cons r

theorem streamTimeOf_accepted_le : streamTimeOf (w.accepted k ws recs) ≤ streamTimeOf recs :=
  streamTimeOf_le (i64Min_le_streamTimeOf recs) fun _ hr =>
    le_streamTimeOf ((w.acceptedFrom_sublist k ws _ recs).subset hr)

theorem tableOf_snoc (i : K × Int) :
    w.tableOf init agg (recs ++ [r]) i
      = if w.Takes i.1 i.2 (streamTimeOf (recs ++ [r])) r
        then some (entryWith init agg i.1 r (w.tableOf init agg recs i))
        else w.tableOf init agg recs i := by
  unfold tableOf
  rw [accepted_snoc]
  split
  · exact entryOf_snoc init agg i.1 _ r
  · rw [List.append_nil]

def changeWith (prior : Option (Int × VA)) : Record (Windowed K) (Change VA) :=
  ⟨some (w.windowAt k ws), .update (prior.map (·.2)) (entryWith init agg k r prior).2,
    (entryWith init agg k r prior).1⟩

omit [DecidableEq K] in
theorem chainOf_snoc :
    w.chainOf init agg k ws (recs ++ [r])
      = w.chainOf init agg k ws recs ++ [w.changeWith init agg k ws r (entryOf init agg k recs)] := by
  unfold chainOf
  rw [List.length_append, List.length_singleton, List.range_succ, List.map_append, List.map_singleton]
  congr 1
  · refine List.map_congr_left fun i hi => ?_
    have hlt := List.mem_range.mp hi
    unfold changeAt
    rw [List.take_append_of_le_length (by omega), List.take_append_of_le_length (by omega)]
  · have htake : (recs ++ [r]).take (recs.length + 1) = recs ++ [r] := List.take_of_length_le (by simp)
    have hentry := entryOf_snoc init agg k recs r
    rw [entryOf_of_ne_nil init agg k (by simp)] at hentry
    unfold changeAt changeWith
    rw [htake, List.take_left, entryOf_snoc, ← Option.some.inj hentry]
    rfl

end TimeWindows

end Semantics

end KrabkaStreams
