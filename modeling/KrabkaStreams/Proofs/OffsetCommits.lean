import KrabkaStreams.Proofs.Buffers
import KrabkaStreams.Proofs.Transactions
import Mathlib.Data.Multiset.Count

/-!
# Offsets are committed with their outputs

Inside a transaction, what the source records made the graphs emit was accepted by it or is still to be
sent; a commit finds the buffers empty. A fenced producer never commits again.
-/

namespace KrabkaStreams

open Effect StateStore

variable {E P M S V : Type} {k : TaskKey} {ev : Event} {s : TaskState E P M S V}

theorem Interval.of_snoc (h : List Event) (ev : Event) :
    Interval.of (h ++ [ev]) = (Interval.of h).step ev := by
  simp [Interval.of]

theorem Interval.step_of_quiet (hev : ev.isQuiet) (i : Interval) : i.step ev = i := by
  cases ev <;> first | rfl | cases hev | skip
  · rename_i kind _
    cases kind <;> first | rfl | cases hev
  · rename_i ok
    cases ok
    · rfl
    · cases hev

def Covered (i : Interval) (rest : List ProducerRecord) : Prop :=
  ∀ r, i.owed.count r ≤ i.sent.count r + rest.count r

def Balanced (b : Bool) (h : List Event) : Prop :=
  Event.fenced ∉ h → if b then Covered (Interval.of h) [] else (Interval.of h).owed = []

abbrev OffsetsKept (h : List Event) : Prop :=
  Always FencedFinal h ∧ Always RollsBack h ∧ Always ClosesSettled h

theorem offsetsKept_prefixClosed : PrefixClosed OffsetsKept := fun h w hw =>
  ⟨Always.prefixClosed h w hw.1, Always.prefixClosed h w hw.2.1, Always.prefixClosed h w hw.2.2⟩

def balancing : TxnInvariant where
  idle b h := Always CommitsWithOutputs h ∧ Balanced b h
  failed e h := Always CommitsWithOutputs h ∧ (e.isProducerFenced = true → Event.fenced ∈ h)
  rolling h := Always CommitsWithOutputs h
  ended h := Always CommitsWithOutputs h ∧ (Interval.of h).owed = []

theorem Balanced.note {b : Bool} {h : List Event} (hh : Balanced b h)
    (hev : (Interval.of h).step ev = Interval.of h) : Balanced b (h ++ [ev]) := by
  intro hf
  rw [Interval.of_snoc, hev]
  exact hh fun hm => hf (List.mem_append_left _ hm)

theorem commitsWithOutputs_of_quiet (hev : ev.isQuiet) (h : List Event) : CommitsWithOutputs h ev := by
  cases ev <;> trivial

theorem commitsWithOutputs_of_refusal (hev : ev.isRefusal) (h : List Event) : CommitsWithOutputs h ev := by
  cases ev <;> first | trivial | skip
  rename_i ok
  cases ok <;> trivial

theorem balancing_closed : balancing.Closed OffsetsKept where
  quiet b h ev hev hh := ⟨hh.1.snoc (commitsWithOutputs_of_quiet hev h),
    hh.2.note (Interval.step_of_quiet hev _)⟩
  refused _ _ _ hh hf := ⟨hh.1, hf⟩
  noted e h ev hev hh := ⟨hh.1.snoc (commitsWithOutputs_of_refusal hev h),
    fun he => List.mem_append_left _ (hh.2 he)⟩
  begun h hh hC := by
    refine ⟨hh.1.snoc trivial, fun _ r => ?_⟩
    have howed : (Interval.of h).owed = [] := hh.2 hC.1.last
    simp [Interval.of_snoc, Interval.step, howed]
  committed h hh hC := by
    have hcovered : Covered (Interval.of h) [] := hh.2 hC.1.last
    refine ⟨hh.1.snoc (Multiset.le_iff_count.mpr fun r => ?_), by simp [Interval.of_snoc, Interval.step]⟩
    simpa using hcovered r
  done h hh := ⟨hh.1, fun _ => hh.2⟩
  fatal e h hh he := ⟨hh.1, fun hf => absurd (hh.2 he) hf⟩
  aborted e h ok hh := hh.1.snoc trivial
  abortFenced e h hh hf := ⟨hh.1.snoc trivial, fun hn => absurd (List.mem_append_left _ hf) hn⟩
  replayed h ev hev hh := hh.snoc (commitsWithOutputs_of_quiet hev h)
  rollbackFailed h task _ hC := hC.2.1.last.elim
  recovered h hh _ := ⟨hh.snoc trivial, fun _ => by simp [Interval.of_snoc, Interval.step]⟩

structure Producible [StateStore S V] (l : List ProducerRecord) (h : List Event)
    (s : TaskState E P M S V) : Prop where
  committed : Always CommitsWithOutputs h
  begun : s.world.begun = true
  covered : Event.fenced ∉ h → Covered (Interval.of h) (l ++ s.own.buffered)

section Producing

variable [StateStore S V] {l : List ProducerRecord} {h : List Event} {t : StreamTask P M S V}
  {w : World E}

theorem Producible.note (hp : Producible l h s) (hev : (Interval.of h).step ev = Interval.of h)
    (hcheck : CommitsWithOutputs h ev) : Producible l (h ++ [ev]) s := by
  refine ⟨hp.committed.snoc hcheck, hp.begun, fun hf => ?_⟩
  rw [Interval.of_snoc, hev]
  exact hp.covered fun hm => hf (List.mem_append_left _ hm)

theorem Producible.move (hp : Producible l h ⟨t, w⟩) {l' : List ProducerRecord}
    {t' : StreamTask P M S V}
    (hcount : ∀ r, l.count r + t.buffered.count r = l'.count r + t'.buffered.count r) :
    Producible l' h ⟨t', w⟩ := by
  refine ⟨hp.committed, hp.begun, fun hf r => ?_⟩
  have hc := hp.covered hf r
  have hr := hcount r
  simp only [List.count_append] at hc ⊢
  omega

theorem producible_producing [LawfulStateStore S] [Processor P M S V] {C : List Event → Prop} :
    StreamTask.Producing (E := E) (P := P) (M := M) (S := S) C
      (fun kind => kind = .records ∨ kind = .flush) Producible (balancing.onThread.broken k) where
  emit kind hk h t w g hg _ hp _ := by
    have hstep : (Interval.of h).step (.emitted t.ref kind (t.emittedBy g))
        = { Interval.of h with owed := (Interval.of h).owed ++ t.emittedBy g } := by
      rcases hk with rfl | rfl <;> rfl
    refine ⟨hp.committed.snoc trivial, hp.begun, fun hf r => ?_⟩
    have hc := hp.covered (fun hm => hf (List.mem_append_left _ hm)) r
    have hcount := StreamTask.count_buffered_setGraph hg r
    rw [Interval.of_snoc, hstep]
    simp only [List.count_append, List.nil_append] at hc ⊢
    omega
  takeOutput h t w hp := hp.move fun r => by
    have hcount := StreamTask.count_buffered_takeOutput t r
    simp only [List.count_nil]
    omega
  takeChangelogs h t w hp := hp.move fun r => by
    have hcount := StreamTask.count_buffered_drainChangelogs t r
    simp only [List.count_nil]
    omega
  sent r l h t w env hp _ := by
    refine ⟨hp.committed.snoc trivial, hp.begun, fun hf r' => ?_⟩
    have hc := hp.covered (fun hm => hf (List.mem_append_left _ hm)) r'
    rw [Interval.of_snoc]
    simp only [Interval.step, List.count_append, List.cons_append, List.count_cons, List.count_nil] at hc ⊢
    omega
  unsent r l h t w env e hp _ := by
    rw [← List.append_assoc]
    have hf : Always CommitsWithOutputs
        (h ++ World.fencedEvent (.error e : Except StreamsClientError Unit)) :=
      TxnInvariant.of_fencedEvent (fun h hh => hh.snoc trivial) hp.committed e
    exact ⟨⟨hf.snoc trivial, fun he => List.mem_append_left _ (TxnInvariant.mem_fencedEvent h he)⟩,
      trivial⟩
  opError h s e hp := ⟨⟨hp.committed, fun he => (Bool.false_ne_true he).elim⟩, trivial⟩

end Producing

theorem balancing_produces {C : List Event → Prop} (b : Bool) :
    TxnInvariant.Closed.Produces C (fun kind => kind = .wallClock ∨ kind = .close) (balancing.idle b)
      fun _ => balancing.idle b where
  emit kind h task records hk hh := by
    refine ⟨hh.1.snoc trivial, hh.2.note ?_⟩
    rcases hk with rfl | rfl <;> rfl
  sent h task r n hh := by
    refine ⟨hh.1.snoc trivial, fun hf => ?_⟩
    have hb := hh.2 fun hm => hf (List.mem_append_left _ hm)
    rw [Interval.of_snoc]
    cases b with
    | true =>
      intro r'
      have hr := hb r'
      simp only [Interval.step, List.count_append, List.count_nil] at hr ⊢
      omega
    | false => exact hb
  unsent h task r e hh := by
    rw [← List.append_assoc]
    have hf := TxnInvariant.of_fencedEvent (I := balancing.idle b)
      (fun h hh => ⟨hh.1.snoc trivial, hh.2.note rfl⟩) hh e
    exact ⟨hf.1.snoc trivial, hf.2.note rfl⟩
  opError h e hh := hh

section Runs

variable [StateStore S V]

theorem producible_of_idle {h : List Event} (hh : balancing.idle true h) (hb : s.world.begun = true) :
    Producible [] h s := by
  refine ⟨hh.1, hb, fun hf r => ?_⟩
  have hr := hh.2 hf r
  simp only [List.count_nil] at hr
  omega

theorem between_of_producible {h : List Event} (hs : Producible [] h s) (hbuf : s.own.buffered = []) :
    balancing.onThread.between k true h s := by
  refine ⟨⟨⟨hs.committed, ?_⟩, hs.begun⟩, trivial⟩
  rw [hs.begun]
  intro hf
  simpa [hbuf] using hs.covered hf

variable [Broker E] [LawfulStateStore S] [Processor P M S V] [LawfulProcessor P M S V]

theorem balancing_processOnce :
    Spec OffsetsKept (balancing.onThread.steady (E := E) (P := P) (M := M) (S := S) k)
      (StreamTask.processOnce true) (fun _ => balancing.onThread.steady k) (balancing.onThread.broken k) := by
  refine balancing_closed.processOnce_spec offsetsKept_prefixClosed
    (producible_producing.mono (fun _ hk => .inl hk) fun _ _ _ h => h)
    (fun _ _ => producible_of_idle) (fun h s hs hbuf => ?_) fun h s _ _ _ hs => hs.note rfl trivial
  exact ⟨(between_of_producible (k := k) hs hbuf).1.1, trivial⟩

theorem balancing_flushCaches :
    Spec OffsetsKept (balancing.onThread.between (E := E) (P := P) (M := M) (S := S) k true)
      (StreamTask.flushCaches .flush) (fun _ => balancing.onThread.between k true)
      (balancing.onThread.broken k) := by
  refine (StreamTask.flushCaches_spec offsetsKept_prefixClosed producible_producing (.inr rfl)
    (F := balancing.onThread.broken k) fun e h s hs _ => ⟨balancing_closed.noted e h _ rfl hs.1, trivial⟩).mono (fun h s hs => ?_)
    (fun _ h s hs => between_of_producible hs.1 hs.2) fun _ _ _ h => h
  have hs' := TxnInvariant.between_iff.mp hs
  exact producible_of_idle hs'.1 hs'.2

theorem balancing_tick (b : Bool) (now : Int) :
    Keeps OffsetsKept (balancing.onThread.between (E := E) (P := P) (M := M) (S := S) k b)
      (StreamThread.tick now) :=
  balancing_closed.tick_spec offsetsKept_prefixClosed b now (N := fun _ => True) (fun _ _ _ => trivial)
    (((balancing_produces b).punctuateWallClock_spec offsetsKept_prefixClosed (.inl rfl)
      (fun _ _ _ hh _ => ⟨hh.1.snoc trivial, hh.2.note rfl⟩) now).pre fun _ _ h => h.1)

theorem balancing_retire (b : Bool) :
    Keeps OffsetsKept (balancing.onThread.between (E := E) (P := P) (M := M) (S := S) k b)
      StreamThread.retire := by
  refine balancing_closed.retire_spec offsetsKept_prefixClosed b (N := fun t => t.pending = [])
    (fun h t hCw => ?_) (((balancing_produces b).flushCaches_spec offsetsKept_prefixClosed .close (.inr rfl)
      (N := fun t => t.pending = []) (fun _ _ ht => ht) (G := fun _ => balancing.idle b)
      fun _ _ _ hh _ => ⟨hh.1.snoc trivial, hh.2.note rfl⟩).post (fun _ _ _ h => h)
      fun _ _ _ h => ⟨TxnInvariant.between_iff.mpr h.1, h.2⟩) (fun _ ht => ht) ?_
  · have hsettled := hCw.2.2.last
    simpa [ClosesSettled] using hsettled
  · refine StreamTask.spec_current fun t => Spec.ite (fun _ => Spec.pure fun _ _ hs => hs.2.1) fun hne => ?_
    exact Spec.vacuous fun h s hs => hne (hs.1 ▸ hs.2.2)

end Runs

section Sample

def reassignHistory (poll : List (StreamThread.Call Relay Unit (KeyValueBytesStore Bytes) (Value Bytes)))
    (a : StreamsAssignment) : List Event :=
  (StreamThread.run .exactlyOnceV2
    (assign (relayTopology .forward) (oneTask .active) ++ poll ++ assign (relayTopology .forward) a)
    ⟨.new "app" 0 none, (tickScript [⟨0, none, some [7], 5⟩]).world (.transactional false)⟩).2

end Sample

end KrabkaStreams
