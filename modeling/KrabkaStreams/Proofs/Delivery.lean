import KrabkaStreams.Delivery
import KrabkaStreams.Proofs.Buffers
import KrabkaStreams.Proofs.KeyValue
import KrabkaStreams.Proofs.Producing
import KrabkaStreams.Script
import Mathlib.Data.Multiset.Count

/-!
# No output is lost behind a committed offset

`Accounts` is the balance of the ledger: what was emitted was delivered, is in flight, or is still to be
sent. A refused send or a failed delivery breaks it.
-/

namespace KrabkaStreams

open Effect StateStore

variable {E P M S V : Type} [StateStore S V]

theorem Ledger.of_snoc (h : List Event) (ev : Event) :
    Ledger.of (h ++ [ev]) = (Ledger.of h).step ev := by
  simp [Ledger.of]

/-- The balance of the ledger while the records `l` are out of the buffers. -/
structure Accounts (l : List ProducerRecord) (h : List Event) (s : TaskState E P M S V) : Prop where
  committed : Always CommitsDelivered h
  balance : ∀ r, (Ledger.of h).emitted.count r ≤ (Ledger.of h).delivered.count r +
    ((Ledger.of h).inFlight.map Prod.snd).count r + l.count r + s.own.buffered.count r
  handles : ∃ pending, s.world.producer = .broker pending ∧
    ∀ e ∈ (Ledger.of h).inFlight, e.1 ∈ pending

namespace Accounts

variable {l : List ProducerRecord} {h : List Event} {t t' : StreamTask P M S V} {w : World E}

theorem note {s : TaskState E P M S V} (ha : Accounts l h s) {ev : Event}
    (hstep : ∀ b, Ledger.step b ev = b) (hcheck : CommitsDelivered h ev) :
    Accounts l (h ++ [ev]) s := by
  obtain ⟨hc, hb, hp⟩ := ha
  refine ⟨hc.snoc hcheck, ?_, ?_⟩ <;> rwa [Ledger.of_snoc, hstep]

theorem fencedEvent {α : Type} {s : TaskState E P M S V} (ha : Accounts l h s)
    (r : Except StreamsClientError α) : Accounts l (h ++ World.fencedEvent r) s := by
  unfold World.fencedEvent
  split
  · split
    · exact ha.note (fun _ => rfl) trivial
    · simpa using ha
  · simpa using ha

theorem of_buffered (ha : Accounts l h ⟨t, w⟩) (hb : t'.buffered = t.buffered) :
    Accounts l h ⟨t', w⟩ :=
  ⟨ha.committed, fun r => hb ▸ ha.balance r, ha.handles⟩

theorem env (ha : Accounts l h ⟨t, w⟩) (e : E) : Accounts l h ⟨t, { w with env := e }⟩ :=
  ⟨ha.committed, ha.balance, ha.handles⟩

end Accounts

abbrev Unrefused : List Event → Prop := Always NothingRefused

section Rules

variable [LawfulStateStore S]

theorem accounts_producing [Processor P M S V] :
    StreamTask.Producing (E := E) (P := P) (M := M) (S := S) Unrefused
    (fun _ => True) Accounts (fun _ => Accounts []) where
  emit kind _ h t w g hg _ ha _ := by
    refine ⟨ha.committed.snoc trivial, fun r => ?_, ?_⟩
    · have hb := ha.balance r
      have hc := StreamTask.count_buffered_setGraph hg r
      rw [Ledger.of_snoc]
      simp only [Ledger.step, List.count_append] at hb ⊢
      omega
    · rw [Ledger.of_snoc]
      exact ha.handles
  takeOutput h t w ha := by
    refine ⟨ha.committed, fun r => ?_, ha.handles⟩
    have hb := ha.balance r
    have hc := StreamTask.count_buffered_takeOutput t r
    simp only [List.count_nil] at hb ⊢
    omega
  takeChangelogs h t w ha := by
    refine ⟨ha.committed, fun r => ?_, ha.handles⟩
    have hb := ha.balance r
    have hc := StreamTask.count_buffered_drainChangelogs t r
    simp only [List.count_nil] at hb ⊢
    omega
  sent r l h t w env ha _ := by
    refine ⟨ha.committed.snoc trivial, fun r' => ?_, ?_⟩
    · have hb := ha.balance r'
      rw [Ledger.of_snoc]
      simp only [Ledger.step, List.map_append, List.count_append, List.count_cons, List.map_cons,
        List.map_nil, List.count_nil] at hb ⊢
      omega
    · obtain ⟨pending, hp, hin⟩ := ha.handles
      have hp' : w.producer = .broker pending := hp
      refine ⟨pending ++ [w.nextHandle], by simp [World.accept, hp'], fun e he => ?_⟩
      rw [Ledger.of_snoc] at he
      rcases List.mem_append.mp he with he | he
      · exact List.mem_append_left _ (hin e he)
      · rw [List.mem_singleton.mp he]
        simp
  unsent r l h t w env e _ hC := by
    rw [← List.append_assoc] at hC
    exact absurd hC.last id
  opError h s e ha := ha

omit [LawfulStateStore S] in
theorem accounts_fails (step : TaskStep) : StreamTask.Fails Unrefused step
    (fun _ => Accounts (E := E) (P := P) (M := M) (S := S) []) (fun _ => Accounts []) :=
  fun _ _ _ ha _ => ha.note (fun _ => rfl) trivial

variable [Broker E]

theorem accounts_processing [Processor P M S V] :
    StreamTask.Processing (E := E) (P := P) (M := M) (S := S) Unrefused
    false (Accounts []) Accounts (fun _ => Accounts []) where
  producing := accounts_producing.mono (fun _ _ => trivial) fun _ _ _ h => h
  passFailed := accounts_fails _
  stepFailed := accounts_fails _
  gate := Spec.pure fun _ _ ha => ha
  settle _ _ ha _ := ha
  piped _ _ _ _ _ ha := ha.note (fun _ => rfl) trivial
  fetched _ _ _ _ _ ha := ha.note (fun _ => rfl) trivial
  answer _ _ _ e ha := ha.env e
  refusal _ _ _ _ env ha := (ha.env env).fencedEvent _
  moved _ _ _ _ _ ha := ha.of_buffered rfl

section Flush

variable {t : StreamTask P M S V}

def Awaiting (t : StreamTask P M S V) (pending : List Nat) (h : List Event) (w : World E) : Prop :=
  w.producer = .broker [] ∧ Always CommitsDelivered h ∧
    (∀ r, (Ledger.of h).emitted.count r ≤ (Ledger.of h).delivered.count r +
      ((Ledger.of h).inFlight.map Prod.snd).count r + t.buffered.count r) ∧
    ∀ e ∈ (Ledger.of h).inFlight, e.1 ∈ pending

omit [LawfulStateStore S] in
theorem awaitAll_spec {F : StreamsClientError → Assn Event (World E)} (pending : List Nat) :
    ∀ handles : List Nat, Spec Unrefused (Awaiting t pending) (World.awaitAll handles)
      (fun _ => Awaiting t pending) F
  | [] => Spec.skip
  | handle :: handles => by
    refine Spec.bind Always.prefixClosed (R := fun r h w =>
      match r with
      | .ok _ => Awaiting t pending h w
      | .error _ => True) (Spec.attempt (World.spec_call (fun h w _ _ ha _ => ha)
        fun _ _ _ _ _ _ => trivial)) fun r => ?_
    cases r with
    | ok u => exact awaitAll_spec pending handles
    | error e =>
      refine Spec.bind Always.prefixClosed (R := fun _ _ _ => False)
        (Spec.tell fun h w _ hC => hC.last) fun _ => Spec.throw fun _ _ h => h.elim

omit [LawfulStateStore S] in
theorem flush_spec :
    Spec Unrefused (fun h w => Accounts (E := E) [] h ⟨t, w⟩) World.flush
      (fun _ h w => Accounts [] h ⟨t, w⟩ ∧ (Ledger.of h).inFlight = [])
      fun _ h w => Accounts [] h ⟨t, w⟩ := by
  have hC : PrefixClosed Unrefused := Always.prefixClosed
  refine Spec.get fun w₀ => ?_
  rcases hp : w₀.producer with pending | txn
  · refine Spec.bind hC (R := fun _ h w => Accounts [] h ⟨t, w⟩) (World.spec_call
      (fun h w _ env ha _ => ha.2.env env) fun h w e env ha _ => (ha.2.env env).fencedEvent _)
      fun _ => Spec.get fun w₁ => ?_
    rcases hp₁ : w₁.producer with pending | txn
    · refine Spec.bind hC (R := fun _ => Awaiting t pending) (Spec.modify fun h w ha => ?_) fun _ => ?_
      · obtain ⟨rfl, ha⟩ := ha
        obtain ⟨pending', hp', hin⟩ := ha.handles
        obtain rfl : pending' = pending := by simpa [hp₁] using hp'.symm
        exact ⟨rfl, ha.committed, fun r => by simpa using ha.balance r, hin⟩
      refine Spec.bind hC (awaitAll_spec pending pending) fun _ => Spec.tell fun h w ha _ => ?_
      obtain ⟨hprod, hcom, hbal, hin⟩ := ha
      have hall : ((Ledger.of h).inFlight.filter fun e => e.1 ∈ pending) = (Ledger.of h).inFlight :=
        List.filter_eq_self.mpr fun e he => by simpa using hin e he
      have hnone : ((Ledger.of h).inFlight.filter fun e => e.1 ∉ pending) = [] :=
        List.filter_eq_nil_iff.mpr fun e he => by simpa using hin e he
      refine ⟨⟨hcom.snoc trivial, fun r => ?_, [], hprod, ?_⟩, ?_⟩
      · have hb := hbal r
        rw [Ledger.of_snoc]
        simp only [Ledger.step, hall, hnone, List.count_append, List.map_nil, List.count_nil]
        omega
      · rw [Ledger.of_snoc]
        simp only [Ledger.step, hnone]
        exact fun e he => (List.not_mem_nil he).elim
      · rw [Ledger.of_snoc]
        simp only [Ledger.step, hnone]
    · refine Spec.pure fun h w ha => ?_
      obtain ⟨rfl, ha⟩ := ha
      obtain ⟨pending', hp', -⟩ := ha.handles
      simp [hp₁] at hp'
  · refine Spec.pure fun h w ha => ?_
    obtain ⟨rfl, ha⟩ := ha
    obtain ⟨pending', hp', -⟩ := ha.handles
    simp [hp] at hp'

end Flush

section Calls

variable [Processor P M S V] [LawfulProcessor P M S V]

omit [LawfulStateStore S] [Processor P M S V] [LawfulProcessor P M S V] in
theorem storeCommit_spec (offsets : Offsets) :
    Spec Unrefused (fun h s => Accounts (E := E) (P := P) (M := M) (S := S) [] h s ∧
        (Ledger.of h).inFlight = [] ∧ s.own.buffered = [])
      (StreamTask.storeCommit offsets) (fun _ => Accounts []) fun _ => Accounts [] := by
  have hC : PrefixClosed Unrefused := Always.prefixClosed
  refine Spec.bind hC (R := fun r h s => Accounts [] h s ∧
    (r = .ok () → (Ledger.of h).inFlight = [] ∧ s.own.buffered = [])) (Spec.attempt
    (Spec.onWorld fun own => World.spec_call (fun h w _ env ha _ => ⟨ha.1.env env, fun _ => ha.2⟩)
      fun h w e env ha _ => ⟨(ha.1.env env).fencedEvent _, fun he => by cases he⟩)) fun r => ?_
  cases r with
  | ok u =>
    refine StreamTask.spec_log fun h s ha _ => ?_
    obtain ⟨hin, hbuf⟩ := ha.2 rfl
    refine ha.1.note (fun _ => rfl) (Multiset.le_iff_count.mpr fun r => ?_)
    have hb := ha.1.balance r
    simpa [hin, hbuf] using hb
  | error e =>
    refine Spec.bind hC (R := fun _ => Accounts []) (StreamTask.spec_log fun h s ha _ =>
      ha.1.note (fun _ => rfl) trivial) fun _ => Spec.throw fun _ _ ha => ha

theorem commit_spec : Keeps Unrefused (Accounts (E := E) (P := P) (M := M) (S := S) [])
    StreamTask.commit := by
  have hC : PrefixClosed Unrefused := Always.prefixClosed
  refine StreamTask.spec_span hC (Spec.bind hC
    (StreamTask.flushCaches_spec hC accounts_producing trivial (accounts_fails _)) fun _ => ?_)
    (accounts_fails _)
  refine Spec.bind hC (R := fun _ h s => Accounts [] h s ∧ (Ledger.of h).inFlight = [] ∧
    s.own.buffered = []) (Spec.onWorld fun own => ?_) fun _ => ?_
  · intro h w hs hCw
    have hf := flush_spec h w hs.1 hCw
    split at hf
    · exact ⟨hf.1, hf.2, hs.2⟩
    · exact hf
  refine Spec.bind hC (R := fun _ => Accounts []) (StreamTask.spec_current fun t => ?_) fun _ =>
    Spec.pure fun _ _ ha => ha
  refine Spec.ite (fun _ => Spec.pure fun h s ha => ha.2.1) fun _ => ?_
  refine Spec.bind hC ((storeCommit_spec t.pendingOffsets).pre fun h s ha => ha.2) fun _ => ?_
  refine Spec.bind hC (R := fun _ => Accounts []) (StreamTask.spec_update fun h s ha => ?_) fun _ =>
    Spec.pure fun _ _ ha => ha
  exact ha.of_buffered rfl

theorem closeProcessors_spec : Keeps Unrefused (Accounts (E := E) (P := P) (M := M) (S := S) [])
    StreamTask.closeProcessors := by
  have hC : PrefixClosed Unrefused := Always.prefixClosed
  refine Spec.seq hC (Spec.attempt
    ((StreamTask.flushCaches_spec hC accounts_producing trivial (accounts_fails _)).post (fun _ _ _ ha => ha.1)
      fun _ _ _ ha => ha)) fun _ => StreamTask.spec_update fun h s ha => ha.of_buffered rfl

/-- In every run in which no send is refused and no delivery fails, every commit that succeeds comes
after the delivery of all that was emitted. -/
theorem run_commitsDelivered (t : StreamTask P M S V) (w : World E) (hw : w.producer = .broker [])
    (calls : List TaskCall) (hok : Always NothingRefused (StreamTask.run calls ⟨t, w⟩).2) :
    Always CommitsDelivered (StreamTask.run calls ⟨t, w⟩).2 := by
  have hstart : Accounts [] [] (⟨t, w⟩ : TaskState E P M S V) :=
    ⟨Always.nil, fun r => Nat.zero_le _, [], hw, fun e he => (List.not_mem_nil he).elim⟩
  have hcall : ∀ c, Keeps Unrefused (Accounts (E := E) (P := P) (M := M) (S := S) [])
      (StreamTask.perform c) := by
    intro c
    cases c with
    | processOnce => exact StreamTask.processOnce_spec Always.prefixClosed accounts_processing
    | commit => exact commit_spec
    | closeProcessors => exact closeProcessors_spec
  exact (Keeps.runAll Always.prefixClosed hcall calls [] ⟨t, w⟩ hstart hok).committed

end Calls

end Rules

section Sample

def copyTask (guarantee : ProcessingGuarantee) :
    StreamTask Relay Unit (KeyValueBytesStore Bytes) (Value Bytes) :=
  .new "0" (relayGraph [relaySink "out"] [[]] [relaySource "src" "in" [0]] [] []) [⟨"in", 0⟩] .active
    guarantee

def copyScript (delivery : Option StreamsClientError) : Script :=
  ⟨[("in", [⟨0, none, some [7], 5⟩])], [], 0, [], [delivery], []⟩

def copyHistory (delivery : Option StreamsClientError) : List Event :=
  (StreamTask.run [.processOnce, .commit, .commit]
    ⟨copyTask .atLeastOnce, (copyScript delivery).world (.broker [])⟩).2

instance (pre : List Event) (ev : Event) : Decidable (NothingRefused pre ev) := by
  unfold NothingRefused
  split <;> infer_instance

/-- The first flush fails on the delivery it awaits and forgets its handles; the commit after it
finds nothing to await, and commits. -/
theorem not_commitsDelivered_copyHistory :
    ¬ Always CommitsDelivered (copyHistory (some (.server 7))) := by
  decide

theorem commitsDelivered_copyHistory : Always CommitsDelivered (copyHistory none) :=
  run_commitsDelivered _ _ rfl _ (by decide)

end Sample

end KrabkaStreams
