import KrabkaStreams.Processes
import KrabkaStreams.Proofs.Producing

/-!
# A pass of `process_once` reads the log from position to position

The records of a batch below the cut are those of the log between two positions (`splitAtCut_spec`), so
a `process_once` that returns processed the records between the positions before and after
(`processOnce_goes`).
-/

namespace KrabkaStreams

open Effect StateStore

variable {E P M S V : Type} {tp : Topic × Int} {outs : List OutputRecord} {s : TaskState E P M S V}
  {t' : StreamTask P M S V} {logs : SourceLogs}

section Logs

variable {log recs rest : List FetchedRec} {a b c : Int}

theorem recordsBetween_self (log : List FetchedRec) (a : Int) : recordsBetween log a a = [] := by
  refine List.filter_eq_nil_iff.mpr fun r _ => ?_
  simp only [decide_eq_true_eq]
  omega

theorem recordsBetween_cons (r : FetchedRec) (log : List FetchedRec) (a b : Int) :
    recordsBetween (r :: log) a b
      = if a ≤ r.offset ∧ r.offset < b then r :: recordsBetween log a b else recordsBetween log a b := by
  unfold recordsBetween
  rw [List.filter_cons]
  by_cases h : a ≤ r.offset ∧ r.offset < b
  · rw [if_pos (decide_eq_true h), if_pos h]
  · rw [if_neg (by simpa using h), if_neg h]

theorem recordsBetween_append : ∀ {log : List FetchedRec}, (log.Pairwise fun a b => a.offset < b.offset) →
    a ≤ b → b ≤ c → recordsBetween log a b ++ recordsBetween log b c = recordsBetween log a c
  | [], _, _, _ => rfl
  | r :: log, hs, hab, hbc => by
    obtain ⟨hhead, htail⟩ := List.pairwise_cons.mp hs
    have ih := recordsBetween_append htail hab hbc
    rw [recordsBetween_cons, recordsBetween_cons, recordsBetween_cons]
    by_cases hr : r.offset < b
    · rw [if_neg (c := b ≤ r.offset ∧ r.offset < c) (by omega)]
      by_cases ha : a ≤ r.offset
      · rw [if_pos ⟨ha, hr⟩, if_pos ⟨ha, by omega⟩, List.cons_append, ih]
      · rw [if_neg fun h => ha h.1, if_neg fun h => ha h.1, ih]
    · -- Every record from here on is at or past `b`.
      have hnil : recordsBetween log a b = [] := by
        refine List.filter_eq_nil_iff.mpr fun r' hr' => ?_
        have := hhead r' hr'
        simp only [decide_eq_true_eq]
        omega
      rw [hnil, List.nil_append] at ih
      rw [if_neg fun h => hr h.2, hnil, List.nil_append, ih]
      by_cases hc : r.offset < c
      · rw [if_pos ⟨by omega, hc⟩, if_pos ⟨by omega, hc⟩]
      · rw [if_neg fun h => hc h.2, if_neg fun h => hc h.2]

theorem recordsBetween_eq_filter (log : List FetchedRec) (a b : Int) :
    recordsBetween log a b = (recordsFrom log a).filter fun r => r.offset < b := by
  unfold recordsBetween recordsFrom
  rw [List.filter_filter]
  refine List.filter_congr fun r _ => ?_
  simp [Bool.and_comm]

theorem recordsBetween_of_parted (happ : recs ++ rest = recordsFrom log a) (hrecs : ∀ r ∈ recs, r.offset < b)
    (hrest : ∀ r ∈ rest, b ≤ r.offset) : recordsBetween log a b = recs := by
  rw [recordsBetween_eq_filter, ← happ, List.filter_append]
  have h1 : recs.filter (fun r => r.offset < b) = recs :=
    List.filter_eq_self.mpr fun r hr => decide_eq_true (hrecs r hr)
  have h2 : rest.filter (fun r => r.offset < b) = [] := by
    refine List.filter_eq_nil_iff.mpr fun r hr => ?_
    have := hrest r hr
    simp only [decide_eq_true_eq]
    omega
  rw [h1, h2, List.append_nil]

theorem nextOffset_spec {batch : FetchBatch} (hs : log.Pairwise fun a b => a.offset < b.offset)
    (hpre : batch.records <+: recordsFrom log a) :
    batch.records = recordsBetween log a (batch.nextOffset a) ∧ a ≤ batch.nextOffset a ∧
      (∀ r ∈ batch.records, r.offset < batch.nextOffset a) ∧
      ∀ n, a ≤ n → (∀ r ∈ batch.records, r.offset < n) → batch.nextOffset a ≤ n := by
  obtain ⟨rest, happ⟩ := hpre
  have hpw : (batch.records ++ rest).Pairwise fun a b => a.offset < b.offset := by
    rw [happ]
    exact hs.filter _
  obtain ⟨hbatch, -, hcross⟩ := List.pairwise_append.mp hpw
  unfold FetchBatch.nextOffset
  rcases hl : batch.records.getLast? with _ | r
  · rw [List.getLast?_eq_none_iff] at hl
    rw [hl]
    exact ⟨(recordsBetween_self log a).symm, le_refl a, fun r hr => absurd hr List.not_mem_nil, fun n hn _ => hn⟩
  · dsimp only
    obtain ⟨init, hinit⟩ := List.getLast?_eq_some_iff.mp hl
    have hmem : r ∈ batch.records := by simp [hinit]
    have hlast : ∀ r' ∈ batch.records, r'.offset < r.offset + 1 := by
      intro r' hr'
      rw [hinit] at hr' hbatch
      rcases List.mem_append.mp hr' with hr' | hr'
      · have := (List.pairwise_append.mp hbatch).2.2 r' hr' r (List.mem_singleton.mpr rfl)
        omega
      · rw [List.mem_singleton.mp hr']
        omega
    have hfrom : a ≤ r.offset := by
      have : r ∈ recordsFrom log a := happ ▸ List.mem_append_left rest hmem
      simpa using (List.mem_filter.mp this).2
    refine ⟨(recordsBetween_of_parted happ hlast fun r' hr' => ?_).symm, by omega, hlast, fun n _ hn => ?_⟩
    · have := hcross r hmem r' hr'
      omega
    · have := hn r hmem
      omega

theorem takeWhile_below : ∀ {recs : List FetchedRec}, (recs.Pairwise fun a b => a.offset < b.offset) →
    recs.takeWhile (fun r => r.offset < c) = recs.filter fun r => r.offset < c
  | [], _ => rfl
  | r :: recs, hs => by
    obtain ⟨hhead, htail⟩ := List.pairwise_cons.mp hs
    by_cases hr : r.offset < c
    · simp [hr, takeWhile_below htail]
    · have hnil : recs.filter (fun r => decide (r.offset < c)) = [] := by
        refine List.filter_eq_nil_iff.mpr fun r' hr' => ?_
        have := hhead r' hr'
        simp only [decide_eq_true_eq]
        omega
      simp [hr, hnil]

theorem splitAtCut_spec {batch : FetchBatch} {cut : Option Int} (hs : log.Pairwise fun a b => a.offset < b.offset)
    (hpre : batch.records <+: recordsFrom log a) (hcut : ∀ c, cut = some c → a < c) :
    (StreamTask.splitAtCut batch cut a).1 = recordsBetween log a (StreamTask.splitAtCut batch cut a).2 ∧
      a ≤ (StreamTask.splitAtCut batch cut a).2 ∧ ∀ c, cut = some c → (StreamTask.splitAtCut batch cut a).2 ≤ c := by
  obtain ⟨hall, hle, -, hleast⟩ := nextOffset_spec hs hpre
  rcases cut with _ | c
  · exact ⟨hall, hle, fun c hc => absurd hc (by simp)⟩
  · obtain ⟨rest, happ⟩ := hpre
    have hpw : (batch.records ++ rest).Pairwise fun a b => a.offset < b.offset := by
      rw [happ]
      exact hs.filter _
    obtain ⟨hbatch, -, hcross⟩ := List.pairwise_append.mp hpw
    have hbelow := takeWhile_below (c := c) hbatch
    simp only [StreamTask.splitAtCut, Option.some.injEq, forall_eq']
    rw [hbelow]
    by_cases hheld : (batch.records.filter fun r => r.offset < c).length < batch.records.length
    · -- A record at or past the cut: the rest of the log lies past it too.
      rw [if_pos hheld]
      obtain ⟨r, hr, hrc⟩ := List.length_filter_lt_length_iff_exists.mp hheld
      refine ⟨?_, le_of_lt (hcut c rfl), le_refl c⟩
      rw [recordsBetween_eq_filter, ← happ, List.filter_append]
      have hnil : rest.filter (fun r => decide (r.offset < c)) = [] := by
        refine List.filter_eq_nil_iff.mpr fun r' hr' => ?_
        have := hcross r hr r' hr'
        simp only [decide_eq_true_eq] at hrc ⊢
        omega
      rw [hnil, List.append_nil]
    · rw [if_neg hheld]
      have hself : (batch.records.filter fun r => r.offset < c) = batch.records :=
        List.filter_sublist.eq_of_length_le (by omega)
      refine ⟨hself.trans hall, hle, hleast c (le_of_lt (hcut c rfl)) fun r hr => ?_⟩
      rw [← hself] at hr
      simpa using (List.mem_filter.mp hr).2

end Logs

section Pass

variable [StateStore S V] [Processor P M S V] {g g' g'' : Graph P M S V}
  {recs recs' : List ((Topic × Int) × FetchedRec)} {outs outs' : List OutputRecord}

theorem Graph.Pass.trans (h : Graph.Pass g recs outs g') (h' : Graph.Pass g' recs' outs' g'') :
    Graph.Pass g (recs ++ recs') (outs ++ outs') g'' := by
  induction h with
  | done => exact h'
  | pipe hp _ ih => exact .pipe hp (ih h')
  | takeOutput _ ih =>
    rw [List.append_assoc]
    exact .takeOutput (ih h')
  | drainChangelogs reuse _ ih => exact .drainChangelogs reuse (ih h')
  | punctuateStreamTime hp _ ih => exact .punctuateStreamTime hp (ih h')
  | punctuateWallClock now hp _ ih => exact .punctuateWallClock now hp (ih h')
  | flushCaches hp _ ih => exact .flushCaches hp (ih h')

theorem StreamTask.Processed.ofPass {t : StreamTask P M S V} (h : Graph.Pass t.graph [] outs g) :
    Processed logs t [] outs (t.setGraph g) where
  pass := h
  same := rfl
  keys := rfl
  reads _ := (recordsBetween_self _ _).symm
  forward _ := le_refl _
  held _ _ _ h := h
  advanced _ := .inl ⟨rfl, rfl⟩

theorem Graph.Pass.split {r : FetchedRec} (h : Graph.Pass g (recs ++ (tp, r) :: recs') outs g'') :
    ∃ g₁ g₂ outs₁ outs₂, Graph.Pass g recs outs₁ g₁ ∧
      g₁.pipe tp.1 tp.2 r.offset r.key (r.value.getD []) r.timestamp = (.ok (), g₂) ∧
      Graph.Pass g₂ recs' outs₂ g'' := by
  generalize hall : recs ++ (tp, r) :: recs' = all at h
  induction h generalizing recs with
  | done => simp at hall
  | pipe hp hrest ih =>
    rcases recs with _ | ⟨x, recs⟩
    · cases hall
      exact ⟨_, _, _, _, .done _, hp, hrest⟩
    · cases hall
      obtain ⟨g₁, g₂, outs₁, outs₂, h₁, hp', h₂⟩ := ih rfl
      exact ⟨g₁, g₂, outs₁, outs₂, .pipe hp h₁, hp', h₂⟩
  | takeOutput _ ih =>
    obtain ⟨g₁, g₂, outs₁, outs₂, h₁, hp, h₂⟩ := ih hall
    exact ⟨g₁, g₂, _, outs₂, .takeOutput h₁, hp, h₂⟩
  | drainChangelogs reuse _ ih =>
    obtain ⟨g₁, g₂, outs₁, outs₂, h₁, hp, h₂⟩ := ih hall
    exact ⟨g₁, g₂, outs₁, outs₂, .drainChangelogs reuse h₁, hp, h₂⟩
  | punctuateStreamTime hpun _ ih =>
    obtain ⟨g₁, g₂, outs₁, outs₂, h₁, hp, h₂⟩ := ih hall
    exact ⟨g₁, g₂, outs₁, outs₂, .punctuateStreamTime hpun h₁, hp, h₂⟩
  | punctuateWallClock now hpun _ ih =>
    obtain ⟨g₁, g₂, outs₁, outs₂, h₁, hp, h₂⟩ := ih hall
    exact ⟨g₁, g₂, outs₁, outs₂, .punctuateWallClock now hpun h₁, hp, h₂⟩
  | flushCaches hf _ ih =>
    obtain ⟨g₁, g₂, outs₁, outs₂, h₁, hp, h₂⟩ := ih hall
    exact ⟨g₁, g₂, outs₁, outs₂, .flushCaches hf h₁, hp, h₂⟩

theorem StreamTask.Processed.trans {t t' t'' : StreamTask P M S V} (h : Processed logs t recs outs t')
    (h' : Processed logs t' recs' outs' t'') : Processed logs t (recs ++ recs') (outs ++ outs') t'' where
  pass := h.pass.trans h'.pass
  same := by rw [h'.same, h.same]
  keys := h'.keys.trans h.keys
  reads tp := by
    rw [List.filter_append, List.map_append, h.reads tp, h'.reads tp]
    exact recordsBetween_append (logs.sorted tp) (h.forward tp) (h'.forward tp)
  forward tp := (h.forward tp).trans (h'.forward tp)
  held tp c hc hle := by
    refine h'.held tp c ?_ (h.held tp c hc hle)
    rw [h.same]
    exact hc
  advanced tp := by
    rcases h'.advanced tp with ⟨hpos, hpend⟩ | hpend
    · rw [hpos, hpend]
      exact h.advanced tp
    · exact .inr hpend

omit [StateStore S V] [Processor P M S V] in
theorem StreamTask.getD_positions (t : StreamTask P M S V) (tp : Topic × Int) :
    (t.positions.get? tp).getD 0 = t.position tp := rfl

omit [StateStore S V] [Processor P M S V] in
theorem StreamTask.position_of_not_mem {t : StreamTask P M S V} (h : tp ∉ t.positions.keys) :
    t.position tp = 0 := by
  unfold position
  rw [(OrdMap.get?_eq_none_iff _ _).mpr h]
  rfl

theorem StreamTask.Processed.mem_keys {t t' : StreamTask P M S V} (h : Processed logs t recs outs t')
    {x : (Topic × Int) × FetchedRec} (hx : x ∈ recs) : x.1 ∈ t.positions.keys := by
  by_contra hnot
  have hreads := h.reads x.1
  rw [position_of_not_mem hnot, position_of_not_mem (by rwa [h.keys])] at hreads
  have hmem : x.2 ∈ (recs.filter fun y => y.1 = x.1).map Prod.snd :=
    List.mem_map.mpr ⟨x, List.mem_filter.mpr ⟨hx, decide_eq_true rfl⟩, rfl⟩
  rw [hreads, SourceLogs.between, recordsBetween_self] at hmem
  cases hmem

end Pass

theorem Fetches.append [Broker E] {cut : Option Int} {start mid stop : Int}
    {batches batches' : List (Int × FetchBatch)} (h : Fetches E tp cut start batches mid)
    (h' : Fetches E tp cut mid batches' stop) : Fetches E tp cut start (batches ++ batches') stop := by
  induction h with
  | done => exact h'
  | fetch env hfetch hcut _ ih => exact .fetch env hfetch hcut (ih h')

section Sends

theorem sinkSends_append (h h' : List Event) : sinkSends (h ++ h') = sinkSends h ++ sinkSends h' :=
  List.filterMap_append

theorem sourceMarks_append (h h' : List Event) : sourceMarks (h ++ h') = sourceMarks h ++ sourceMarks h' :=
  List.filterMap_append

structure Seen (x : List ProducerRecord) (y : List SourceMark) (h : List Event) : Prop where
  sends : sinkSends h = x
  marks : sourceMarks h = y

theorem Seen.append {x x' : List ProducerRecord} {y y' : List SourceMark} {h h' : List Event} (hs : Seen x y h)
    (hs' : Seen x' y' h') : Seen (x ++ x') (y ++ y') (h ++ h') :=
  ⟨by rw [sinkSends_append, hs.sends, hs'.sends], by rw [sourceMarks_append, hs.marks, hs'.marks]⟩

theorem Seen.unseen {x : List ProducerRecord} {y : List SourceMark} {h h' : List Event} (hs : Seen x y h)
    (hs' : Seen [] [] h') : Seen x y (h ++ h') := by
  have happ := hs.append hs'
  rwa [List.append_nil, List.append_nil] at happ

theorem seen_fencedEvent {α : Type} (r : Except StreamsClientError α) : Seen [] [] (World.fencedEvent r) := by
  unfold World.fencedEvent
  rcases r with e | a
  · dsimp only
    split <;> exact ⟨rfl, rfl⟩
  · exact ⟨rfl, rfl⟩

theorem ensureBegun_seen [Broker E] {C : List Event → Prop} (hC : PrefixClosed C) (x : List ProducerRecord)
    (y : List SourceMark) : Keeps C (fun h (_ : World E) => Seen x y h) World.ensureBegun := by
  refine World.ensureBegun_spec hC (fun h _ _ hs => ?_) fun h _ _ e hs => ?_
  · exact hs.unseen ⟨rfl, rfl⟩
  · exact hs.unseen ((seen_fencedEvent _).unseen ⟨rfl, rfl⟩)

end Sends

namespace StreamTask

def Stands (t : StreamTask P M S V) (x : List ProducerRecord) (y : List SourceMark) : Assn Event (TaskState E P M S V) :=
  fun h s => s.own = t ∧ Seen x y h

abbrev Anyhow : StreamsClientError → Assn Event (TaskState E P M S V) := fun _ _ _ => True

section Stands

variable {α : Type} {C : List Event → Prop} {t : StreamTask P M S V} {x : List ProducerRecord} {y : List SourceMark}

theorem spec_current_stands {f : StreamTask P M S V → TaskM E P M S V α} {Q : α → Assn Event (TaskState E P M S V)}
    {F : StreamsClientError → Assn Event (TaskState E P M S V)} (h : Spec C (Stands t x y) (f t) Q F) :
    Spec C (Stands t x y) (current >>= f) Q F := by
  intro w s hs hC
  obtain ⟨rfl, hx⟩ := hs
  exact h w s ⟨rfl, hx⟩ hC

theorem log_stands {y' : List SourceMark} {ev : TaskRef → Event}
    {F : StreamsClientError → Assn Event (TaskState E P M S V)} (hev : ∀ ref, Seen [] y' [ev ref]) :
    Spec C (Stands (E := E) t x y) (log ev) (fun _ => Stands t x (y ++ y')) F :=
  spec_log fun h s hs _ => ⟨hs.1, by simpa using hs.2.append (hev s.own.ref)⟩

theorem onWorld_stands {m : WorldM E α} (hm : Keeps C (fun h (_ : World E) => Seen x y h) m) :
    Spec C (Stands t x y) m.onWorld (fun _ => Stands t x y) Anyhow :=
  (Spec.frame (N := fun own : StreamTask P M S V => own = t) hm).mono (fun _ _ h => ⟨h.2, h.1⟩)
    (fun _ _ _ h => ⟨h.2, h.1⟩) fun _ _ _ _ => trivial

end Stands

section Steps

variable [StateStore S V] [Processor P M S V] {C : List Event → Prop} (hC : PrefixClosed C)
  {t : StreamTask P M S V} {x : List ProducerRecord} {y : List SourceMark} {recs recs' : List ((Topic × Int) × FetchedRec)}

def pipeMarks (recs : List ((Topic × Int) × FetchedRec)) : List SourceMark := recs.map fun z => .piped z.1 z.2.offset

/-- The graph of the task passed `recs` since `t`, and what was emitted went to the producer. -/
def Passing (t : StreamTask P M S V) (x : List ProducerRecord) (y : List SourceMark)
    (recs : List ((Topic × Int) × FetchedRec)) : Assn Event (TaskState E P M S V) :=
  fun h s => ∃ outs, s.own = t.setGraph s.own.graph ∧ Graph.Pass t.graph recs outs s.own.graph ∧
    Seen (x ++ outs.map sinkRecord) (y ++ pipeMarks recs) h

theorem Passing.step {α : Type} {m : TaskM E P M S V α}
    (hm : ∀ t' x' y', Spec C (Stands t' x' y') m (fun _ => Passing t' x' y' recs') Anyhow) :
    Spec C (Passing (E := E) t x y recs) m (fun _ => Passing t x y (recs ++ recs')) Anyhow := by
  rintro h s ⟨outs, hown, hpass, hseen⟩ hCw
  have hrun := hm s.own _ _ h s ⟨rfl, hseen⟩ hCw
  split at hrun
  · obtain ⟨outs', hown', hpass', hseen'⟩ := hrun
    refine ⟨outs ++ outs', ?_, hpass.trans hpass', ?_⟩
    · rw [hown', hown]
      rfl
    · unfold pipeMarks at hseen' ⊢
      rwa [List.map_append, List.map_append, ← List.append_assoc, ← List.append_assoc]
  · trivial

theorem Stands.passing {h : List Event} (hs : Stands t x y h s) : Passing t x y [] h s := by
  obtain ⟨rfl, hseen⟩ := hs
  refine ⟨[], rfl, .done _, ?_⟩
  simpa [pipeMarks] using hseen

variable [Broker E] {logs : SourceLogs} {tp : Topic × Int}

include hC

omit [StateStore S V] [Processor P M S V] in
theorem sendAll_stands : ∀ (l : List ProducerRecord) (x : List ProducerRecord),
    Spec C (Stands (E := E) t x y) (sendAll l) (fun _ => Stands t (x ++ l.filter fun r => r.partition = none) y) Anyhow
  | [], x => Spec.pure fun h s hs => by
    rw [List.filter_nil, List.append_nil]
    exact hs
  | r :: l, x => by
    refine Spec.bind hC (R := fun _ => Stands t (x ++ [r].filter fun r => r.partition = none) y) ?_ fun _ => ?_
    · refine spec_current fun t' => ?_
      rintro h ⟨own, w⟩ ⟨ht', rfl, hseen⟩ hCw
      obtain rfl : own = t' := ht'
      rcases World.send_cases own.ref r w with ⟨env, hsend⟩ | ⟨e, env, hsend⟩
      · simp only [Eff.onWorld, hsend]
        refine ⟨rfl, ?_, ?_⟩
        · rw [sinkSends_append, hseen.sends]
          by_cases hp : r.partition = none <;> simp [sinkSends, hp]
        · rw [sourceMarks_append, hseen.marks]
          simp [sourceMarks]
      · simp only [Eff.onWorld, hsend]
        trivial
    · have ih := sendAll_stands l (x ++ [r].filter fun r => r.partition = none)
      rwa [List.append_assoc, ← List.filter_append] at ih

theorem taken_passing {g : Graph P M S V} {l : List ProducerRecord} (hpass : Graph.Pass t.graph [] outs g)
    (hl : (l.filter fun r => r.partition = none) = outs.map sinkRecord) :
    Spec C (Stands (E := E) t x y) (do update (·.setGraph g); sendAll l) (fun _ => Passing t x y []) Anyhow := by
  refine Spec.bind hC (R := fun _ => Stands (t.setGraph g) x y) (spec_update fun h s hs => ?_) fun _ => ?_
  · exact ⟨by rw [hs.1], hs.2⟩
  · refine (sendAll_stands hC l x).post (fun _ h s hs => ⟨outs, ?_, ?_, ?_⟩) fun _ _ _ h => h
    · rw [hs.1]
      rfl
    · rw [hs.1]
      exact hpass
    · rw [← hl]
      simpa [pipeMarks] using hs.2

theorem sendOutput_passing : Spec C (Stands (E := E) t x y) sendOutput (fun _ => Passing t x y []) Anyhow := by
  refine spec_current_stands ?_
  have hpass : Graph.Pass t.graph [] t.graph.output t.graph.takeOutput.2 := by
    have h := Graph.Pass.takeOutput (.done t.graph.takeOutput.2)
    rwa [List.append_nil] at h
  refine taken_passing hC hpass (List.filter_eq_self.mpr fun r hr => ?_)
  obtain ⟨out, -, rfl⟩ := List.mem_map.mp hr
  rfl

theorem sendChangelogs_passing : Spec C (Stands (E := E) t x y) sendChangelogs (fun _ => Passing t x y []) Anyhow := by
  refine spec_current_stands ?_
  refine taken_passing hC (.drainChangelogs _ (.done _)) (List.filter_eq_nil_iff.mpr fun r hr => ?_)
  obtain ⟨c, -, rfl⟩ := List.mem_map.mp hr
  simp [pinnedRecord]

omit hC in
omit [Broker E] in
theorem runGraph_passing {kind : EmitKind} {op : Graph P M S V → Except ProcessorError Unit × Graph P M S V}
    (hop : ∀ g g', op g = (.ok (), g') → Graph.Pass g recs [] g') :
    Spec C (Stands (E := E) t x (y ++ pipeMarks recs)) (runGraph kind op) (fun _ => Passing t x y recs) Anyhow := by
  rintro h ⟨own, w⟩ ⟨rfl, hseen⟩ -
  rw [runGraph_cases]
  rcases hr : op own.graph with ⟨e | u, g⟩
  · trivial
  · refine ⟨[], rfl, hop own.graph g hr, ?_⟩
    simpa using hseen.unseen ⟨rfl, rfl⟩

theorem drainPunctuationOutput_passing :
    Spec C (Stands (E := E) t x y) drainPunctuationOutput (fun _ => Passing t x y []) Anyhow :=
  Spec.bind hC (sendOutput_passing hC) fun _ => Passing.step fun _ _ _ => sendChangelogs_passing hC

theorem emitAndDrain_passing {kind : EmitKind} {step : TaskStep}
    {op : Graph P M S V → Except ProcessorError Unit × Graph P M S V}
    (hop : ∀ g g', op g = (.ok (), g') → Graph.Pass g [] [] g') :
    Spec C (Stands (E := E) t x y) (span step do runGraph kind op; drainPunctuationOutput)
      (fun _ => Passing t x y []) Anyhow := by
  refine spec_span hC (Spec.bind hC (R := fun _ => Passing t x y []) ?_ fun _ => ?_) fun _ _ _ h _ => h
  · exact (runGraph_passing hop).pre fun h s hs => by simpa [pipeMarks] using hs
  · exact Passing.step fun _ _ _ => drainPunctuationOutput_passing hC

theorem punctuateStreamTime_passing :
    Spec C (Stands (E := E) t x y) punctuateStreamTime (fun _ => Passing t x y []) Anyhow :=
  emitAndDrain_passing hC fun _ _ h => .punctuateStreamTime h (.done _)

theorem pipeRecord_passing (tp : Topic × Int) (r : FetchedRec) :
    Spec C (Stands (E := E) t x y) (pipeRecord tp r) (fun _ => Passing t x y [(tp, r)]) Anyhow := by
  have hop : ∀ g g' : Graph P M S V, g.pipe tp.1 tp.2 r.offset r.key (r.value.getD []) r.timestamp = (.ok (), g') →
      Graph.Pass g [(tp, r)] [] g' := fun _ _ h => .pipe h (.done _)
  refine Spec.bind hC (log_stands fun _ => ⟨rfl, rfl⟩) fun _ => Spec.bind hC (runGraph_passing hop) fun _ => ?_
  exact Passing.step fun _ _ _ => sendOutput_passing hC

theorem pipeRecords_passing (tp : Topic × Int) : ∀ (rs : List FetchedRec) (t : StreamTask P M S V)
    (x : List ProducerRecord) (y : List SourceMark),
    Spec C (Stands (E := E) t x y) (rs.forM (pipeRecord tp)) (fun _ => Passing t x y (rs.map fun r => (tp, r))) Anyhow
  | [], _, _, _ => Spec.pure fun _ _ hs => hs.passing
  | r :: rs, _, _, _ => Spec.bind hC (pipeRecord_passing hC tp r) fun _ => Passing.step (pipeRecords_passing tp rs)

omit [StateStore S V] [Processor P M S V] in
theorem openGate_stands (gated : Bool) :
    Spec C (Stands (E := E) t x y) (openGate gated) (fun _ => Stands t x y) Anyhow :=
  Spec.ite (fun _ => onWorld_stands (ensureBegun_seen hC x y)) fun _ => Spec.skip

theorem processRecords_passing (gated : Bool) (tp : Topic × Int) (rs : List FetchedRec) :
    Spec C (Stands (E := E) t x y) (processRecords gated tp rs) (fun _ => Passing t x y (rs.map fun r => (tp, r))) Anyhow := by
  refine Spec.bind hC (openGate_stands hC gated) fun _ => Spec.bind hC (pipeRecords_passing hC tp rs t x y) fun _ => ?_
  refine Spec.bind hC (Passing.step fun _ _ _ => sendChangelogs_passing hC) fun _ => ?_
  exact (Passing.step fun _ _ _ => punctuateStreamTime_passing hC).post (fun _ h s hs => by simpa using hs) fun _ _ _ h => h

/-- The source partition `tp` was read in fetches on the way from `t` to `t'`, with `marks` left behind. -/
def Reading (E : Type) [Broker E] (t t' : StreamTask P M S V) (marks : List SourceMark) (tp : Topic × Int) : Prop :=
  ∃ batches, Fetches E tp (t.cutOffset tp) (t.position tp) batches (t'.position tp) ∧
    fetchOffsets tp marks = batches.map Prod.fst ∧
    pipedOffsets tp marks = (pipedFrom (t.cutOffset tp) batches).map FetchedRec.offset

omit hC [StateStore S V] [Processor P M S V] in
theorem Reading.refl (t : StreamTask P M S V) (hpos : t'.position tp = t.position tp) :
    Reading E t t' [] tp := by
  refine ⟨[], ?_, rfl, rfl⟩
  rw [hpos]
  exact .done _

omit hC [StateStore S V] [Processor P M S V] in
theorem Reading.trans {t t' t'' : StreamTask P M S V} {marks marks' : List SourceMark}
    (h : Reading E t t' marks tp) (h' : Reading E t' t'' marks' tp) (hcut : t'.cutOffset tp = t.cutOffset tp) :
    Reading E t t'' (marks ++ marks') tp := by
  obtain ⟨batches, hf, hfetched, hpiped⟩ := h
  obtain ⟨batches', hf', hfetched', hpiped'⟩ := h'
  rw [hcut] at hf' hpiped'
  refine ⟨batches ++ batches', hf.append hf', ?_, ?_⟩
  · unfold fetchOffsets at hfetched hfetched' ⊢
    rw [List.filterMap_append, hfetched, hfetched', List.map_append]
  · unfold pipedOffsets pipedFrom at hpiped hpiped' ⊢
    rw [List.filterMap_append, hpiped, hpiped', List.flatMap_append, List.map_append]

/-- The task processed from `t` on, what was emitted went to the producer, and every partition was read in fetches. -/
def Goes (logs : SourceLogs) (t : StreamTask P M S V) (x : List ProducerRecord) (y : List SourceMark) :
    Assn Event (TaskState E P M S V) :=
  fun h s => ∃ recs outs marks, Processed logs t recs outs s.own ∧ Seen (x ++ outs.map sinkRecord) (y ++ marks) h ∧
    ∀ tp, Reading E t s.own marks tp

omit [Broker E] hC in
theorem Processed.cutOffset (h : Processed logs t recs outs t') (tp : Topic × Int) :
    t'.cutOffset tp = t.cutOffset tp := by
  rw [h.same]
  rfl

omit hC in
theorem Goes.step {α : Type} {m : TaskM E P M S V α}
    (hm : ∀ t' x' y', t'.positions.keys = t.positions.keys → Spec C (Stands t' x' y') m (fun _ => Goes logs t' x' y') Anyhow) :
    Spec C (Goes (E := E) logs t x y) m (fun _ => Goes logs t x y) Anyhow := by
  rintro h s ⟨recs, outs, marks, hproc, hseen, hreads⟩ hCw
  have hrun := hm s.own _ _ hproc.keys h s ⟨rfl, hseen⟩ hCw
  split at hrun
  · obtain ⟨recs', outs', marks', hproc', hseen', hreads'⟩ := hrun
    refine ⟨_, outs ++ outs', marks ++ marks', hproc.trans hproc', ?_, fun tp => ?_⟩
    · rwa [List.map_append, ← List.append_assoc, ← List.append_assoc]
    · exact (hreads tp).trans (hreads' tp) (hproc.cutOffset tp)
  · trivial

omit hC in
theorem Passing.goes {h : List Event} (hs : Passing t x y [] h s) : Goes logs t x y h s := by
  obtain ⟨outs, hown, hpass, hseen⟩ := hs
  refine ⟨[], outs, [], ?_, hseen, fun tp => .refl t ?_⟩
  · rw [hown]
    exact .ofPass hpass
  · rw [hown]
    rfl

omit [Broker E] [StateStore S V] [Processor P M S V] hC in
theorem position_advance (t : StreamTask P M S V) (g : Graph P M S V) (tp : Topic × Int) (next : Int) (tp' : Topic × Int) :
    position { t with graph := g, positions := t.positions.insert tp next, pending := t.pending.insert tp next } tp'
      = if tp' = tp then next else t.position tp' := by
  unfold position
  rw [OrdMap.get?_insert]
  by_cases htp' : tp' = tp
  · rw [if_pos htp'.symm, if_pos htp']
    rfl
  · rw [if_neg (Ne.symm htp'), if_neg htp']

omit [Broker E] hC in
theorem Processed.advance {rs : List FetchedRec} {g : Graph P M S V} {next : Int}
    (hpass : Graph.Pass t.graph (rs.map fun r => (tp, r)) outs g) (htp : tp ∈ t.positions.keys)
    (hrs : rs = logs.between tp (t.position tp) next) (hle : t.position tp ≤ next)
    (hcut : ∀ c, t.cutOffset tp = some c → next ≤ c) :
    Processed logs t (rs.map fun r => (tp, r)) outs
      { t with graph := g, positions := t.positions.insert tp next, pending := t.pending.insert tp next } := by
  have hpos := position_advance t g tp next
  refine ⟨hpass, rfl, OrdMap.keys_insert_of_mem next htp, fun tp' => ?_, fun tp' => ?_, fun tp' c hc hle' => ?_, fun tp' => ?_⟩
  · rw [hpos]
    by_cases htp' : tp' = tp
    · subst htp'
      rw [if_pos rfl, ← hrs]
      simp [List.filter_map, Function.comp_def]
    · have hnone : ∀ x ∈ rs.map fun r => (tp, r), ¬ decide (x.1 = tp') = true := by
        intro x hx
        obtain ⟨r, -, rfl⟩ := List.mem_map.mp hx
        simpa using Ne.symm htp'
      rw [if_neg htp', List.filter_eq_nil_iff.mpr hnone]
      exact (recordsBetween_self _ _).symm
  · rw [hpos]
    by_cases htp' : tp' = tp
    · subst htp'
      rwa [if_pos rfl]
    · rw [if_neg htp']
  · rw [hpos]
    by_cases htp' : tp' = tp
    · subst htp'
      rw [if_pos rfl]
      exact hcut c hc
    · rwa [if_neg htp']
  · rw [hpos]
    by_cases htp' : tp' = tp
    · subst htp'
      rw [if_pos rfl]
      exact .inr (OrdMap.get?_insert_self _ _ _)
    · rw [if_neg htp']
      exact .inl ⟨rfl, OrdMap.get?_insert_of_ne (Ne.symm htp')⟩

omit [StateStore S V] [Processor P M S V] hC in
theorem Reading.fetch {b : FetchBatch} {env : E}
    (hfetch : (Broker.fetch env tp.1 tp.2 (t.position tp) .readUncommitted).1 = .ok b)
    (hcut : ∀ c, t.cutOffset tp = some c → t.position tp < c)
    (hpos : ∀ tp', t'.position tp' = if tp' = tp then (splitAtCut b (t.cutOffset tp) (t.position tp)).2 else t.position tp')
    (tp' : Topic × Int) :
    Reading E t t' (.fetched tp (t.position tp)
      :: pipeMarks ((splitAtCut b (t.cutOffset tp) (t.position tp)).1.map fun r => (tp, r))) tp' := by
  by_cases htp : tp' = tp
  · subst htp
    refine ⟨[(t.position tp', b)], ?_, ?_, ?_⟩
    · refine .fetch env hfetch hcut ?_
      rw [hpos, if_pos rfl]
      exact .done _
    · simp [fetchOffsets, pipeMarks, List.filterMap_map, Function.comp_def]
    · simp [pipedOffsets, pipeMarks, pipedFrom, List.filterMap_map, Function.comp_def]
  · refine ⟨[], ?_, ?_, ?_⟩
    · rw [hpos, if_neg htp]
      exact .done _
    · simp [fetchOffsets, pipeMarks, List.filterMap_map, Function.comp_def, Ne.symm htp]
    · simp [pipedOffsets, pipeMarks, pipedFrom, List.filterMap_map, Function.comp_def, Ne.symm htp]

omit hC in
theorem advance_goes {b : FetchBatch} {env : E}
    (hfetch : (Broker.fetch env tp.1 tp.2 (t.position tp) .readUncommitted).1 = .ok b)
    (hlogs : logs.ServedBy E) (htp : tp ∈ t.positions.keys)
    (hcut : ∀ c, t.cutOffset tp = some c → t.position tp < c) :
    Spec C (Passing (E := E) t x (y ++ [.fetched tp (t.position tp)])
        ((splitAtCut b (t.cutOffset tp) (t.position tp)).1.map fun r => (tp, r)))
      (advance tp (splitAtCut b (t.cutOffset tp) (t.position tp)).2) (fun _ => Goes logs t x y) Anyhow := by
  obtain ⟨hrs, hle, hheld⟩ := splitAtCut_spec (logs.sorted tp) (hlogs env tp.1 tp.2 _ b hfetch) hcut
  refine spec_update fun h s hs => ?_
  obtain ⟨outs, hown, hpass, hseen⟩ := hs
  have hproc := Processed.advance hpass htp hrs hle hheld
  rw [hown]
  refine ⟨_, outs, _, hproc, ?_, Reading.fetch hfetch hcut (position_advance t s.own.graph tp _)⟩
  rwa [List.append_assoc] at hseen

omit hC in
theorem idle_goes {b : FetchBatch} {env : E}
    (hfetch : (Broker.fetch env tp.1 tp.2 (t.position tp) .readUncommitted).1 = .ok b)
    (hcut : ∀ c, t.cutOffset tp = some c → t.position tp < c)
    (hnone : (splitAtCut b (t.cutOffset tp) (t.position tp)).1 = [])
    (hstay : (splitAtCut b (t.cutOffset tp) (t.position tp)).2 = t.position tp) {h : List Event}
    (hs : Stands t x (y ++ [.fetched tp (t.position tp)]) h s) : Goes logs t x y h s := by
  obtain ⟨rfl, hseen⟩ := hs
  refine ⟨[], [], [.fetched tp (s.own.position tp)], .ofPass (.done _), by simpa using hseen, fun tp' => ?_⟩
  have hread : Reading E s.own s.own _ tp' := Reading.fetch hfetch hcut (fun tp' => ?_) tp'
  · rwa [hnone] at hread
  · by_cases htp : tp' = tp
    · rw [if_pos htp, hstay, htp]
    · rw [if_neg htp]

theorem processPartition_goes (hlogs : logs.ServedBy E) (gated : Bool) (htp : tp ∈ t.positions.keys) :
    Spec C (Stands (E := E) t x y) (processPartition gated tp) (fun _ => Goes logs t x y) Anyhow := by
  refine spec_current_stands ?_
  simp only [getD_positions]
  refine Spec.ite (fun _ => Spec.pure fun h s hs => hs.passing.goes) fun hcut => ?_
  have hcut : ∀ c, t.cutOffset tp = some c → t.position tp < c := by
    intro c hc
    rw [hc] at hcut
    exact not_le.mp fun hle => hcut (decide_eq_true hle)
  refine Spec.bind hC (log_stands fun _ => ⟨rfl, rfl⟩) fun _ => ?_
  refine Spec.bind hC (R := fun batch h s => (∃ env : E,
    (Broker.fetch env tp.1 tp.2 (t.position tp) .readUncommitted).1 = .ok batch) ∧
    Stands t x (y ++ [.fetched tp (t.position tp)]) h s) ?_ fun batch => Spec.assume fun hfetched => ?_
  · exact Spec.onWorld fun own => World.spec_call (fun h w b env hs hop => ⟨⟨w.env, congrArg Prod.fst hop⟩, hs⟩)
      fun _ _ _ _ _ _ => trivial
  · obtain ⟨env, hfetch⟩ := hfetched
    rcases hsplit : (splitAtCut batch (t.cutOffset tp) (t.position tp)).1 with _ | ⟨r, rs⟩
    · have hadv := advance_goes (E := E) (t := t) (x := x) (y := y) (C := C) hfetch hlogs htp hcut
      rw [hsplit] at hadv
      refine Spec.ite (fun _ => hadv.pre fun _ _ hs => hs.passing) fun hlt => Spec.pure fun h s hs => ?_
      have hle := (splitAtCut_spec (logs.sorted tp) (hlogs env tp.1 tp.2 _ batch hfetch) hcut).2.1
      exact idle_goes hfetch hcut hsplit (le_antisymm (not_lt.mp hlt) hle) hs
    · have hadv := advance_goes (E := E) (t := t) (x := x) (y := y) (C := C) hfetch hlogs htp hcut
      rw [hsplit] at hadv
      exact Spec.bind hC (processRecords_passing hC gated tp (r :: rs)) fun _ => hadv

theorem processOnce_goes (hlogs : logs.ServedBy E) (gated : Bool) :
    Spec C (Stands (E := E) t x y) (processOnce gated) (fun _ => Goes logs t x y) Anyhow := by
  refine spec_span hC (spec_current_stands ?_) fun _ _ _ h _ => h
  refine Spec.pre (P := Goes logs t x y) (Spec.forM hC _ fun tp htp => ?_) fun h s hs => hs.passing.goes
  exact Goes.step fun t' x' y' hkeys => processPartition_goes hC hlogs gated (hkeys ▸ htp)

theorem processCalls_goes (hlogs : logs.ServedBy E) (gates : List Bool) :
    Spec C (Stands (E := E) t x y) (gates.forM processOnce) (fun _ => Goes logs t x y) Anyhow := by
  refine Spec.pre (P := Goes logs t x y) (Spec.forM hC _ fun gated _ => ?_) fun h s hs => hs.passing.goes
  exact Goes.step fun t' x' y' _ => processOnce_goes hC hlogs gated

omit hC in
theorem goes_of_calls (hlogs : logs.ServedBy E) {gates : List Bool} {w : World E}
    (hok : (gates.forM processOnce).result (⟨t, w⟩ : TaskState E P M S V) = .ok ()) :
    Goes logs t [] [] ((gates.forM processOnce).events (⟨t, w⟩ : TaskState E P M S V))
      ((gates.forM processOnce).final (⟨t, w⟩ : TaskState E P M S V)) := by
  have hC : PrefixClosed fun _ : List Event => True := fun _ _ _ => trivial
  exact (processCalls_goes (t := t) (x := []) (y := []) hC hlogs gates).of_ok (w := []) ⟨rfl, rfl, rfl⟩ trivial hok

omit hC in
theorem processed_of_calls (hlogs : logs.ServedBy E) {gates : List Bool} {w : World E}
    (hok : (gates.forM processOnce).result (⟨t, w⟩ : TaskState E P M S V) = .ok ()) :
    ∃ recs outs, Processed logs t recs outs ((gates.forM processOnce).final (⟨t, w⟩ : TaskState E P M S V)).own ∧
      sinkSends ((gates.forM processOnce).events (⟨t, w⟩ : TaskState E P M S V)) = outs.map sinkRecord := by
  obtain ⟨recs, outs, marks, hproc, hseen, -⟩ := goes_of_calls hlogs hok
  exact ⟨recs, outs, hproc, hseen.sends⟩

end Steps

end StreamTask

end KrabkaStreams
