import KrabkaStreams.Proofs.SuppressStore
import KrabkaStreams.Proofs.WindowRuns

/-!
# Suppressed windows

A window leaves the buffer when the stream time reaches its end and the grace, where the aggregation
still takes records: it is forwarded once unless one arrives exactly there
(`suppressesOnce_iff_noRecordAtClose`).
-/

namespace KrabkaStreams

open Runs SuppressBytesStore

variable {K V VA : Type} {rc : RecordContext}

def Sized (size : Int) (wk : Windowed K) : Prop :=
  IsI64 wk.window.start ∧ wk.window.stop = wk.window.start + size ∧ IsI64 wk.window.stop

theorem timeWindowedSerde_sized {inner : Serde K} (h : inner.Lawful) {size : Int} (topic : Topic)
    {wk : Windowed K} (hs : Sized size wk) :
    (timeWindowedSerde inner size).deserialize topic ((timeWindowedSerde inner size).serialize topic wk)
      = .ok wk := by
  obtain ⟨hstart, hstop, hfit⟩ := hs
  have hget : getI64 (putI64 wk.window.start) = wk.window.start := by
    simpa using getI64_putI64_append hstart []
  unfold timeWindowedSerde
  dsimp only
  rw [splitSuffix_append _ (length_putI64 _)]
  dsimp only
  rw [h, hget]
  show (if IsI64 (wk.window.start + size) then Except.ok (⟨wk.key, ⟨_, _⟩⟩ : Windowed K) else _) = _
  rw [if_pos (hstop ▸ hfit), ← hstop]

section Process

variable [DecidableEq K] {D : K → Prop} {p : KTableSuppressProcessor K} {s : SuppressBytesStore K V}
  {g : Table K V}

def withPut (g : Table K V) (k : K) (time : Int) (change : Change V) (ts : Int) : Table K V :=
  Function.update g k (some (time, change, ts))

theorem suppress_spec (hu : p.maxRecords = none ∧ p.maxBytes = none) (h : s.Holds D g) {k : K} (hD : D k)
    {change : Change V} {ts : Int} {p' : KTableSuppressProcessor K} {s' : SuppressBytesStore K V}
    {out : List (Record K (Change V))} (hp : p.process s rc ⟨some k, change, ts⟩ = .ok ((p', s'), out)) :
    p' = { p with observedStreamTime := max p.observedStreamTime ts } ∧
      s'.Holds D ((withPut g k (p.bufferTime k ts) change rc.timestamp).after
        (max p.observedStreamTime ts - p.wait)) ∧
      (∀ k', out.filter (fun x => x.key = some k')
        = ((withPut g k (p.bufferTime k ts) change rc.timestamp).due
          (max p.observedStreamTime ts - p.wait) k').map KTableSuppressProcessor.evicted) ∧
      ∀ x ∈ out, x.key ≠ none := by
  obtain ⟨s₁, hput, hp⟩ := bind_eq_ok.mp hp
  obtain ⟨threshold, hthr, hp⟩ := bind_eq_ok.mp hp
  obtain ⟨-, rfl⟩ := checkedI64_eq_ok.mp hthr
  obtain ⟨⟨due, s₂⟩, hevict, hp⟩ := bind_eq_ok.mp hp
  obtain ⟨hs₂, hdue⟩ := (h.put hD hput).evictWhile hevict
  simp only [hu, Option.isSome_none, Bool.false_eq_true, or_self, if_false] at hp
  cases hp
  refine ⟨by simp [hu], hs₂, fun k' => ?_, fun x hx => ?_⟩
  · refine Eq.trans ?_ (congrArg (List.map _) (hdue k'))
    rw [List.filter_map]
    refine congrArg (List.map _) (List.filter_congr fun x _ => ?_)
    simp [KTableSuppressProcessor.evicted]
  · obtain ⟨y, -, rfl⟩ := List.mem_map.mp hx
    exact Option.some_ne_none y.1

end Process

section Loop

variable [DecidableEq K] {w : TimeWindows} {g : Table (Windowed K) VA} {threshold : Int}

omit [DecidableEq K] in
theorem kept_kept (threshold : Int) (o : Option (Int × Change VA × Int)) :
    kept threshold (kept threshold o) = kept threshold o := by
  unfold kept
  rw [Option.filter_filter]
  simp

omit [DecidableEq K] in
theorem left_kept (threshold : Int) (k : K) (o : Option (Int × Change VA × Int)) :
    left threshold k (kept threshold o) = [] := by
  rcases o with _ | b
  · rfl
  · rcases kept_or_left threshold k b with ⟨-, hk, hl⟩ | ⟨-, hk, -⟩
    · rw [hk, hl]
    · rw [hk]
      rfl

def suppressAt (w : TimeWindows) (now : Int) : KTableSuppressProcessor (Windowed K) :=
  { KTableSuppressProcessor.untilWindowCloses w.grace with observedStreamTime := now }

theorem suppressAt_spec {s : SuppressBytesStore (Windowed K) VA} (h : s.Holds (Sized w.size) g)
    {wk : Windowed K} (hD : Sized w.size wk) {change : Change VA} {o ts now : Int} (hnow : max o ts = now)
    {p' : KTableSuppressProcessor (Windowed K)} {s' : SuppressBytesStore (Windowed K) VA}
    {out : List (Record (Windowed K) (Change VA))}
    (hp : (suppressAt w o).process s rc ⟨some wk, change, ts⟩ = .ok ((p', s'), out)) :
    p' = suppressAt w now ∧
      s'.Holds (Sized w.size) ((withPut g wk wk.window.stop change rc.timestamp).after (now - w.grace)) ∧
      (∀ k', out.filter (fun x => x.key = some k')
        = ((withPut g wk wk.window.stop change rc.timestamp).due (now - w.grace) k').map
          KTableSuppressProcessor.evicted) ∧
      ∀ x ∈ out, x.key ≠ none := by
  subst hnow
  exact suppress_spec ⟨rfl, rfl⟩ h hD hp

structure WindowChange (K VA : Type) where
  key : Windowed K
  change : Change VA
  timestamp : Int

def WindowChange.toRecord (c : WindowChange K VA) : Record (Windowed K) (Change VA) :=
  ⟨some c.key, c.change, c.timestamp⟩

def withPuts (g : Table (Windowed K) VA) (l : List (WindowChange K VA)) (ts : Int) :
    Table (Windowed K) VA := fun wk =>
  match l.find? (fun c => c.key = wk) with
  | some c => some (wk.window.stop, c.change, ts)
  | none => g wk

theorem withPuts_cons {c : WindowChange K VA} {l : List (WindowChange K VA)} (ts : Int)
    (hn : c.key ∉ l.map WindowChange.key)
    (hlate : ∀ c ∈ l, ∀ b, g c.key = some b → threshold < b.1) :
    (withPuts ((withPut g c.key c.key.window.stop c.change ts).after threshold) l ts).after threshold
        = (withPuts g (c :: l) ts).after threshold ∧
      ∀ wk, (withPut g c.key c.key.window.stop c.change ts).due threshold wk
          ++ (withPuts ((withPut g c.key c.key.window.stop c.change ts).after threshold) l ts).due threshold wk
        = (withPuts g (c :: l) ts).due threshold wk := by
  obtain ⟨g₁, hg₁⟩ : ∃ g₁, g₁ = withPut g c.key c.key.window.stop c.change ts := ⟨_, rfl⟩
  rw [← hg₁]
  have hself : l.find? (fun c' => c'.key = c.key) = none := by
    refine List.find?_eq_none.mpr fun c' hc' he => hn ?_
    rw [← of_decide_eq_true he]
    exact List.mem_map_of_mem hc'
  -- the table with all puts, key by key
  have hfirst : withPuts g (c :: l) ts c.key = g₁ c.key := by
    simp [withPuts, hg₁, withPut]
  have hrest : ∀ {wk}, c.key ≠ wk → withPuts g (c :: l) ts wk = withPuts g l ts wk := fun hne => by
    simp [withPuts, hne]
  have hoff : ∀ {wk}, c.key ≠ wk → g₁ wk = g wk := fun hne => by
    rw [hg₁, withPut, Function.update_of_ne (Ne.symm hne)]
  constructor
  · funext wk
    show kept threshold (withPuts (g₁.after threshold) l ts wk) = kept threshold (withPuts g (c :: l) ts wk)
    by_cases hwk : c.key = wk
    · subst hwk
      rw [hfirst]
      simp only [withPuts, hself]
      exact kept_kept threshold _
    · rw [hrest hwk]
      unfold withPuts
      split
      · rfl
      · rw [Table.after, hoff hwk, kept_kept]
  · intro wk
    show left threshold wk (g₁ wk) ++ left threshold wk (withPuts (g₁.after threshold) l ts wk)
      = left threshold wk (withPuts g (c :: l) ts wk)
    by_cases hwk : c.key = wk
    · subst hwk
      rw [hfirst]
      simp only [withPuts, hself, Table.after, left_kept, List.append_nil]
    · rw [hrest hwk, hoff hwk]
      unfold withPuts
      split
      · rename_i c' hc'
        have hkey : c'.key = wk := by simpa using List.find?_some hc'
        have hnone : left threshold wk (g wk) = [] := by
          rcases hg : g wk with _ | b
          · rfl
          · have hb := hlate c' (List.mem_of_find?_eq_some hc') b (hkey ▸ hg)
            exact ((kept_or_left threshold wk b).resolve_right fun hr => absurd hb (not_lt.mpr hr.1)).2.2
        rw [hnone, List.nil_append]
      · rw [Table.after, hoff hwk, left_kept, List.append_nil]

theorem suppressLoop_spec {now : Int} :
    ∀ {l : List (WindowChange K VA)} {o : Int} {g : Table (Windowed K) VA}
      {s : SuppressBytesStore (Windowed K) VA} {out₀ : List (Record (Windowed K) (Change VA))}
      {x : (KTableSuppressProcessor (Windowed K) × SuppressBytesStore (Windowed K) VA) ×
        List (Record (Windowed K) (Change VA))},
      (l.map WindowChange.key).Nodup → (∀ c ∈ l, Sized w.size c.key) → (∀ c ∈ l, max o c.timestamp = now) →
      (∀ c ∈ l, ∀ b, g c.key = some b → now - w.grace < b.1) →
      (l = [] → o = now ∧ g.after (now - w.grace) = g ∧ ∀ wk, g.due (now - w.grace) wk = []) →
      s.Holds (Sized w.size) g →
      (l.map WindowChange.toRecord).foldlM (SuppressedAggregate.suppressOne rc) ((suppressAt w o, s), out₀)
        = .ok x →
      x.1.1 = suppressAt w now ∧
        x.1.2.Holds (Sized w.size) ((withPuts g l rc.timestamp).after (now - w.grace)) ∧
        (∀ wk, x.2.filter (fun y => y.key = some wk) = out₀.filter (fun y => y.key = some wk)
          ++ ((withPuts g l rc.timestamp).due (now - w.grace) wk).map KTableSuppressProcessor.evicted) ∧
        ∀ y ∈ x.2, y ∈ out₀ ∨ y.key ≠ none
  | [], o, g, s, out₀, x, _, _, _, _, hempty, h, hl => by
    cases hl
    obtain ⟨rfl, hafter, hdue⟩ := hempty rfl
    refine ⟨rfl, ?_, fun wk => ?_, fun y hy => .inl hy⟩
    · show s.Holds _ (g.after _)
      rwa [hafter]
    · show _ = _ ++ (g.due _ wk).map _
      rw [hdue wk, List.map_nil, List.append_nil]
  | c :: l, o, g, s, out₀, x, hn, hsized, hts, hlate, _, h, hl => by
    obtain ⟨hfresh, hn⟩ := List.nodup_cons.mp hn
    obtain ⟨mid, hone, hl⟩ := bind_eq_ok.mp hl
    obtain ⟨⟨⟨p₁, s₁⟩, out₁⟩, hproc, hone⟩ := bind_eq_ok.mp hone
    cases hone
    have hnow : max o c.timestamp = now := hts c (by simp)
    obtain ⟨rfl, hs₁, hout₁, hsome₁⟩ := suppressAt_spec h (hsized c (by simp)) hnow hproc
    have hlater := fun c' hc' => hlate c' (List.mem_cons_of_mem c hc')
    obtain ⟨hafter, hdue⟩ := withPuts_cons rc.timestamp hfresh hlater
    -- what the first eviction left is not due at the others
    have hkept : ∀ wk b, (withPut g c.key c.key.window.stop c.change rc.timestamp).after (now - w.grace) wk
        = some b → now - w.grace < b.1 := fun wk b hb => by
      simpa using (Option.filter_eq_some_iff.mp hb).2
    obtain ⟨hp', hs', hout, hsome⟩ := suppressLoop_spec hn (fun c' hc' => hsized c' (List.mem_cons_of_mem c hc'))
      (fun c' hc' => by
        have := hts c' (List.mem_cons_of_mem c hc')
        omega)
      (fun c' _ b hb => hkept c'.key b hb)
      (fun _ => ⟨rfl, funext fun wk => kept_kept _ _, fun wk => left_kept _ wk _⟩) hs₁ hl
    refine ⟨hp', by rwa [hafter] at hs', fun wk => ?_, fun y hy => ?_⟩
    · rw [hout, ← hdue wk, List.filter_append, hout₁, List.map_append, List.append_assoc]
    · rcases hsome y hy with hold | hne
      · exact (List.mem_append.mp hold).imp id fun hnew => hsome₁ y hnew
      · exact .inr hne

end Loop

end KrabkaStreams
