import KrabkaStreams.Dsl.SessionAggregate
import KrabkaStreams.Dsl.WindowSemantics
import KrabkaStreams.Lib.Clusters

/-!
# What a session aggregation is for

The sessions of a key are the clusters of its accepted timestamps. `ClustersExactly` says that a run
stores them, `EmitsFinalSessions` that what it forwards on close stays as it was forwarded.
-/

namespace KrabkaStreams

open Clusters

variable {K V VA : Type} {M : Type}

namespace SessionWindows

/-- The session of the record, with the records accepted before it, does not end before the stream time
less the grace. -/
def Accepts (w : SessionWindows) (now : Int) (before : List (KeyedRecord K V)) (r : KeyedRecord K V) :
    Prop :=
  ∃ t, Linked w.gap (timesOf r.key (before ++ [r])) r.timestamp t ∧ now - w.grace ≤ t

open Classical in
/-- The records that are accepted when they arrive in turn. -/
noncomputable def accepted (w : SessionWindows) (recs : List (KeyedRecord K V)) :
    List (KeyedRecord K V) :=
  (recs.foldl (fun s r =>
    let now := max s.1 r.timestamp
    (now, if w.Accepts now s.2 r then s.2 ++ [r] else s.2)) (i64Min, [])).2

open Classical in
/-- The sum of the values of the key's records that are linked to `t`. -/
noncomputable def clusterSum [AddCommMonoid M] (w : SessionWindows) (h : V → M)
    (recs : List (KeyedRecord K V)) (k : K) (t : Int) : M :=
  ((recs.filter fun r => r.key = k ∧ Linked w.gap (timesOf k recs) t r.timestamp).map
    fun r => h r.value).sum

/-- A cluster of a key's records, by its extent and the sum of its values. -/
def IsSession [AddCommMonoid M] (w : SessionWindows) (h : V → M) (recs : List (KeyedRecord K V)) (k : K)
    (start stop : Int) (v : M) : Prop :=
  ∃ t, timesOf k recs t ∧
    IsLeast {u | Linked w.gap (timesOf k recs) t u} start ∧
    IsGreatest {u | Linked w.gap (timesOf k recs) t u} stop ∧
    v = w.clusterSum h recs k t

end SessionWindows

def sessionRun (w : SessionWindows) (init : VA) (agg : K → V → VA → VA) (merger : K → VA → VA → VA)
    (emit : EmitStrategy) (store : SessionBytesStore K VA) (recs : List (KeyedRecord K V)) :=
  Runs.run
    (fun (s : KStreamSessionAggregateProcessor K V VA × SessionBytesStore K VA) (r : KeyedRecord K V) =>
      s.1.process s.2 r.ctx r.toRecord)
    (.supply w init agg merger emit store.isCached, store) recs

def SessionBytesStore.sessions (s : SessionBytesStore K V) : Except ProcessorError (List (K × Int × Int × V)) :=
  s.findClosedSessions i64Max

/-- The sum of the values of a session's records, as an aggregation. -/
def sumRun [AddCommMonoid M] (w : SessionWindows) (h : V → M) (emit : EmitStrategy)
    (store : SessionBytesStore K M) (recs : List (KeyedRecord K V)) :=
  sessionRun w 0 (fun _ v acc => acc + h v) (fun _ a b => a + b) emit store recs

/-- The run returns, the stored sessions are the clusters of each key's accepted records, each once, and
two sessions of a key are more than the gap apart. -/
def ClustersExactly [AddCommMonoid M] (w : SessionWindows) (h : V → M) (emit : EmitStrategy)
    (store : SessionBytesStore K M) (recs : List (KeyedRecord K V)) : Prop :=
  ∃ p s outs l, sumRun w h emit store recs = .ok ((p, s), outs) ∧ s.sessions = .ok l ∧
    (l.map fun e => (e.1, e.2.1, e.2.2.1)).Nodup ∧
    (∀ k start stop v, (k, start, stop, v) ∈ l ↔ w.IsSession h (w.accepted recs) k start stop v) ∧
    (∀ a ∈ l, ∀ b ∈ l, a.1 = b.1 → a ≠ b → a.2.2.1 + w.gap < b.2.1 ∨ b.2.2.1 + w.gap < a.2.1)

/-- When a record within the gap of `i64::MAX` arrives, its key has no session that starts and ends
there. -/
def LastInstantClear [AddCommMonoid M] (w : SessionWindows) (h : V → M) (emit : EmitStrategy)
    (store : SessionBytesStore K M) (recs : List (KeyedRecord K V)) : Prop :=
  ∀ done r, done ++ [r] <+: recs → i64Max ≤ r.timestamp + w.gap →
    ∀ p s outs l, sumRun w h emit store done = .ok ((p, s), outs) → s.sessions = .ok l →
      ∀ e ∈ l, e.1 = r.key → ¬ (e.2.1 = i64Max ∧ e.2.2.1 = i64Max)

variable [DecidableEq K]

/-- The forwarded sessions of the record's key that hold its timestamp. -/
def finalsHolding (r : KeyedRecord K V) (out : List (Record (Windowed K) (Change VA))) :
    List (Record (Windowed K) (Change VA)) :=
  out.filter fun x => x.key.any fun wk =>
    wk.key = r.key ∧ wk.window.start ≤ r.timestamp ∧ r.timestamp ≤ wk.window.stop

/-- The run returns. After every part of it, no session was forwarded twice, every forwarded session is in
the store as it was forwarded, and no record lies in two forwarded sessions of its key. -/
def EmitsFinalSessions (w : SessionWindows) (init : VA) (agg : K → V → VA → VA)
    (merger : K → VA → VA → VA) (store : SessionBytesStore K VA) (recs : List (KeyedRecord K V)) : Prop :=
  ∀ done, done <+: recs → ∃ p s outs l,
    sessionRun w init agg merger .onWindowClose store done = .ok ((p, s), outs) ∧ s.sessions = .ok l ∧
    (outs.flatten.map Record.key).Nodup ∧
    (∀ x ∈ outs.flatten, ∃ e ∈ l, x = KStreamSessionAggregateProcessor.finalRecord e) ∧
    (∀ r ∈ done, (finalsHolding r outs.flatten).length ≤ 1)

/-- The session reaches within the gap of the record. A session at `i64::MAX` alone does not count: the
search for the sessions of a key leaves it out. -/
def SessionWindows.Meets (w : SessionWindows) (r : KeyedRecord K V) (e : K × Int × Int × VA) : Prop :=
  e.1 = r.key ∧ Touches w.gap r.timestamp e.2.1 e.2.2.1 ∧ ¬ (e.2.1 = i64Max ∧ e.2.2.1 = i64Max)

instance (w : SessionWindows) (r : KeyedRecord K V) (e : K × Int × Int × VA) : Decidable (w.Meets r e) :=
  instDecidableAnd

/-- When a record arrives within the gap of a session of its key that ended before the stream time less
the grace, it is too late as well: neither it nor a session it meets reaches the stream time less the
grace. -/
def ClosedStayApart (w : SessionWindows) (init : VA) (agg : K → V → VA → VA)
    (merger : K → VA → VA → VA) (store : SessionBytesStore K VA) (recs : List (KeyedRecord K V)) : Prop :=
  ∀ done r, done ++ [r] <+: recs →
    ∀ p s outs l, sessionRun w init agg merger .onWindowClose store done = .ok ((p, s), outs) →
      s.sessions = .ok l →
      (∃ e ∈ l, w.Meets r e ∧ e.2.2.1 < streamTimeOf done - w.grace) →
        r.timestamp < streamTimeOf (done ++ [r]) - w.grace ∧
          ∀ e ∈ l, w.Meets r e → e.2.2.1 < streamTimeOf (done ++ [r]) - w.grace

end KrabkaStreams
