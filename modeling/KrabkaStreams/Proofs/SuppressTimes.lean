import KrabkaStreams.Proofs.SuppressedWindows

/-!
# The timestamps of a suppressed table

A pending change is kept with the timestamp of its source record, not with the one its operator gave it.
The buffer holds the latest input of a key in this sense (`HeldLatest`).
-/

namespace KrabkaStreams

open Runs SuppressBytesStore

section Processor

variable {K V : Type} [DecidableEq K] {D : K → Prop} {s s' : SuppressBytesStore K V} {g : Table K V}
  {inputs : List (SuppressInput K V)}

theorem latestInput_snoc (k : K) (inputs : List (SuppressInput K V)) (x : SuppressInput K V) :
    latestInput k (inputs ++ [x]) = if x.2.key = some k then some x else latestInput k inputs := by
  unfold latestInput
  rw [List.filter_append]
  split
  · rename_i h
    rw [List.filter_cons_of_pos (by simpa using h), List.filter_nil, List.getLast?_concat]
  · rename_i h
    rw [List.filter_cons_of_neg (by simpa using h), List.filter_nil, List.append_nil]

/-- The pending changes are the latest inputs, with the timestamps of their source records. -/
def HeldLatest (inputs : List (SuppressInput K V)) (g : Table K V) : Prop :=
  ∀ k b, g k = some b → ∃ i, latestInput k inputs = some i ∧ b.2 = (i.2.value, i.1.timestamp)

theorem HeldLatest.put (h : HeldLatest inputs g) {x : SuppressInput K V} {k : K} (hkey : x.2.key = some k) (time : Int) :
    HeldLatest (inputs ++ [x]) (Function.update g k (some (time, x.2.value, x.1.timestamp))) := by
  intro k' b hb
  rw [latestInput_snoc, hkey]
  by_cases hk : k' = k
  · subst hk
    rw [Function.update_self] at hb
    cases hb
    exact ⟨x, if_pos rfl, rfl⟩
  · rw [Function.update_of_ne hk] at hb
    rw [if_neg fun h => hk (Option.some.inj h).symm]
    exact h k' b hb

def Evicts (g g' : Table K V) (xs : List (K × Change V × Int)) : Prop :=
  (∀ k b, g' k = some b → g k = some b) ∧ ∀ x ∈ xs, ∃ time, g x.1 = some (time, x.2)

omit [DecidableEq K] in
theorem Evicts.refl (g : Table K V) : Evicts g g [] := ⟨fun _ _ h => h, nofun⟩

omit [DecidableEq K] in
theorem Evicts.trans {g₁ g₂ g₃ : Table K V} {xs ys : List (K × Change V × Int)} (h : Evicts g₁ g₂ xs)
    (h' : Evicts g₂ g₃ ys) : Evicts g₁ g₃ (xs ++ ys) := by
  refine ⟨fun k b hb => h.1 k b (h'.1 k b hb), fun x hx => ?_⟩
  rcases List.mem_append.mp hx with hx | hx
  · exact h.2 x hx
  · obtain ⟨time, ht⟩ := h'.2 x hx
    exact ⟨time, h.1 _ _ ht⟩

theorem Holds.evicts_popSlot (h : s.Holds D g) {slot : Slot} {x : K × Change V × Int}
    (hp : s.popSlot slot = .ok (x, s')) : s'.Holds D (Function.update g x.1 none) ∧ Evicts g (Function.update g x.1 none) [x] := by
  obtain ⟨hg, hs', -⟩ := h.popSlot hp
  refine ⟨hs', fun k b hb => ?_, fun y hy => ?_⟩
  · by_cases hk : k = x.1
    · rw [hk, Function.update_self] at hb
      cases hb
    · rwa [Function.update_of_ne hk] at hb
  · obtain rfl := List.mem_singleton.mp hy
    exact ⟨_, hg⟩

theorem Holds.evicts_evictWhile (h : s.Holds D g) {threshold : Int} {xs : List (K × Change V × Int)}
    (he : s.evictWhile threshold = .ok (xs, s')) : s'.Holds D (g.after threshold) ∧ Evicts g (g.after threshold) xs := by
  obtain ⟨hs', hdue⟩ := h.evictWhile he
  refine ⟨hs', fun k b hb => (Option.filter_eq_some_iff.mp hb).1, fun x hx => ?_⟩
  have hin : x ∈ g.due threshold x.1 := hdue x.1 ▸ List.mem_filter.mpr ⟨hx, by simp⟩
  obtain ⟨b, hb, hx⟩ := List.mem_map.mp hin
  have hg := (Option.filter_eq_some_iff.mp (Option.mem_toList.mp hb)).1
  exact ⟨b.1, by rw [hg, ← hx]⟩

theorem Holds.evicts_shed (p : KTableSuppressProcessor K) : ∀ (n : Nat) {s s' : SuppressBytesStore K V} {g : Table K V}
    {xs : List (K × Change V × Int)}, s.Holds D g → p.shed n s = .ok (xs, s') → ∃ g', s'.Holds D g' ∧ Evicts g g' xs
  | 0, s, s', g, xs, h, hshed => by
    cases hshed
    exact ⟨g, h, .refl g⟩
  | n + 1, s, s', g, xs, h, hshed => by
    unfold KTableSuppressProcessor.shed at hshed
    split at hshed
    · obtain ⟨⟨x, s₁⟩, holdest, hshed⟩ := bind_eq_ok.mp hshed
      unfold evictOldest at holdest
      rcases hent : s.entries.entries with _ | ⟨⟨slot, e⟩, rest⟩
      · rw [hent] at holdest
        cases holdest
        cases hshed
        exact ⟨g, h, .refl g⟩
      · rw [hent] at holdest
        obtain ⟨⟨y, s₂⟩, hpop, holdest⟩ := bind_eq_ok.mp holdest
        cases holdest
        obtain ⟨⟨ys, s₃⟩, hrest, hshed⟩ := bind_eq_ok.mp hshed
        cases hshed
        obtain ⟨hs₂, hy⟩ := Holds.evicts_popSlot h hpop
        obtain ⟨g', hs', hys⟩ := Holds.evicts_shed p n hs₂ hrest
        exact ⟨g', hs', hy.trans hys⟩
    · cases hshed
      exact ⟨g, h, .refl g⟩

theorem process_heldLatest {p p' : KTableSuppressProcessor K} (h : s.Holds D g) (hg : HeldLatest inputs g) {x : SuppressInput K V}
    (hD : ∀ k ∈ x.2.key, D k) {out : List (Record K (Change V))} (hp : p.process s x.1 x.2 = .ok ((p', s'), out)) :
    (∃ g', s'.Holds D g' ∧ HeldLatest (inputs ++ [x]) g') ∧
      ∀ y ∈ out, ∃ k i, y.key = some k ∧ latestInput k (inputs ++ [x]) = some i ∧ y.value = i.2.value ∧
        y.timestamp = i.1.timestamp := by
  obtain ⟨rc, key, value, ts⟩ := x
  rcases key with _ | k
  · cases hp
  obtain ⟨s₁, hput, hp⟩ := bind_eq_ok.mp hp
  obtain ⟨threshold, -, hp⟩ := bind_eq_ok.mp hp
  obtain ⟨⟨due, s₂⟩, hevict, hp⟩ := bind_eq_ok.mp hp
  have hg₁ : HeldLatest (inputs ++ [(rc, ⟨some k, value, ts⟩)]) _ := hg.put rfl (p.bufferTime k ts)
  obtain ⟨hs₂, hdue⟩ := Holds.evicts_evictWhile (h.put (hD k rfl) hput) hevict
  -- whatever is forwarded was evicted from the buffer after the put
  have hall : ∃ g' xs, s'.Holds D g' ∧ Evicts (Function.update g k (some (p.bufferTime k ts, value, rc.timestamp))) g' xs ∧
      out = xs.map KTableSuppressProcessor.evicted := by
    dsimp only at hp
    split at hp
    · split at hp
      · obtain ⟨⟨early, s₃⟩, hshed, hp⟩ := bind_eq_ok.mp hp
        cases hp
        obtain ⟨g', hs', hearly⟩ := Holds.evicts_shed _ _ hs₂ hshed
        exact ⟨g', _, hs', hdue.trans hearly, rfl⟩
      · split at hp
        · cases hp
        · cases hp
          exact ⟨_, _, hs₂, hdue, rfl⟩
    · cases hp
      exact ⟨_, _, hs₂, hdue, rfl⟩
  obtain ⟨g', xs, hs', hxs, rfl⟩ := hall
  refine ⟨⟨g', hs', fun k' b hb => hg₁ k' b (hxs.1 k' b hb)⟩, fun y hy => ?_⟩
  obtain ⟨z, hz, rfl⟩ := List.mem_map.mp hy
  obtain ⟨time, ht⟩ := hxs.2 z hz
  obtain ⟨i, hi, hb⟩ := hg₁ _ _ ht
  exact ⟨z.1, i, rfl, hi, congrArg Prod.fst hb, congrArg Prod.snd hb⟩

def ReadsBack (keySerde : Serde K) (topic : Topic) (k : K) : Prop :=
  keySerde.deserialize topic (keySerde.serialize topic k) = .ok k

theorem suppressRun_heldLatest {keySerde : Serde K} {valueSerde : Serde V} (hv : valueSerde.Lawful) (topic : Topic)
    (logging : Bool) (p : KTableSuppressProcessor K) {t : KTableSuppressProcessor K × SuppressBytesStore K V}
    {outs : List (List (Record K (Change V)))} (hkeys : ∀ x ∈ inputs, ∀ k ∈ x.2.key, ReadsBack keySerde topic k)
    (hrun : suppressRun (p, (SuppressBytesStore.inMemory keySerde valueSerde topic).setLogging logging) inputs
      = .ok (t, outs)) :
    ∃ g, t.2.Holds (ReadsBack keySerde topic) g ∧ HeldLatest inputs g := by
  refine run_induction (I := fun inputs t _ => (∀ x ∈ inputs, ∀ k ∈ x.2.key, ReadsBack keySerde topic k) →
    ∃ g, t.2.Holds (ReadsBack keySerde topic) g ∧ HeldLatest inputs g) ?_ ?_ hrun hkeys
  · have hempty : (SuppressBytesStore.inMemory keySerde valueSerde topic).Holds (ReadsBack keySerde topic) fun _ => none :=
      .inMemory (fun h => h) hv
    exact fun _ => ⟨fun _ => none, ⟨hempty.key, hempty.value, hempty.slot, hempty.entry, hempty.index⟩, nofun⟩
  · intro xs x t t' outs out ih hstep hkeys
    obtain ⟨g, hs, hg⟩ := ih fun y hy => hkeys y (List.mem_append_left _ hy)
    exact (process_heldLatest hs hg (hkeys x (by simp)) hstep).1

/-- Whatever operator is before a suppress node and however its buffer is set up: a record that it forwards has the value
of the latest input of its key, and it has the timestamp of that input exactly when the input had the timestamp of the
source record it came from. -/
theorem carriesLatest_iff_stamped (keySerde : Serde K) {valueSerde : Serde V} (hv : valueSerde.Lawful) (topic : Topic)
    (logging : Bool) (wait : Int) (bufferTime : K → Int → Int) (maxRecords maxBytes : Option Nat) (emitEarly : Bool)
    (inputs : List (SuppressInput K V)) (x : SuppressInput K V)
    (hkeys : ∀ y ∈ inputs ++ [x], ∀ k ∈ y.2.key, ReadsBack keySerde topic k)
    {t : KTableSuppressProcessor K × SuppressBytesStore K V} (outs : List (List (Record K (Change V))))
    (out : List (Record K (Change V)))
    (hrun : suppressRun (.new wait bufferTime maxRecords maxBytes emitEarly,
      (SuppressBytesStore.inMemory keySerde valueSerde topic).setLogging logging) (inputs ++ [x]) = .ok (t, outs ++ [out])) :
    ∀ y ∈ out, CarriesLatest (inputs ++ [x]) y ↔ StampedAsSource (inputs ++ [x]) y.key := by
  obtain ⟨t₀, outs₀, out₀, hbefore, hstep, houts⟩ := run_snoc.mp hrun
  obtain ⟨-, rfl⟩ : outs = outs₀ ∧ out = out₀ := by simpa using houts
  obtain ⟨g, hs, hg⟩ := suppressRun_heldLatest hv topic logging _ (fun y hy => hkeys y (List.mem_append_left _ hy)) hbefore
  intro y hy
  obtain ⟨k, i, hkey, hi, hvalue, hts⟩ := (process_heldLatest hs hg (hkeys x (by simp)) hstep).2 y hy
  constructor
  · rintro ⟨k', i', hkey', hi', -, hts'⟩ k'' hk'' i'' hi''
    cases hkey.symm.trans hkey'
    cases hkey.symm.trans hk''
    cases hi.symm.trans hi'
    cases hi.symm.trans hi''
    exact hts'.symm.trans hts
  · intro hstamped
    exact ⟨k, i, hkey, hi, hvalue, hts.trans (hstamped k hkey i hi).symm⟩

end Processor

section Samples

/-- The changes that the aggregation forwards for some records, each with the context of its source record. -/
def appendChanges (recs : List (KeyedRecord Bytes Bytes)) : Except ProcessorError (List (SuppressInput (Windowed Bytes) Bytes)) := do
  let (_, changes) ← Runs.run (fun s (r : KeyedRecord Bytes Bytes) => s.1.process s.2 r.ctx r.toRecord)
    (suppressedAppend.aggregate, suppressedAppend.windows) recs
  return (recs.zip changes).flatMap fun x => x.2.map fun c => (x.1.ctx, c)

abbrev untilClose : KTableSuppressProcessor (Windowed Bytes) × SuppressBytesStore (Windowed Bytes) Bytes :=
  (.new 0 (fun k _ => k.window.stop) none none false,
    (SuppressBytesStore.inMemory (timeWindowedSerde bytesSerde 10) bytesSerde "app-s-changelog").setLogging true)

def suppressedChanges (inputs : List (SuppressInput (Windowed Bytes) Bytes)) :
    Except ProcessorError (List (List (Record (Windowed Bytes) (Change Bytes)))) :=
  (suppressRun untilClose inputs).map (·.2)

def windowChanges (first second : Int) : List (SuppressInput (Windowed Bytes) Bytes) :=
  [(⟨"in", 0, 0, first⟩, ⟨some ⟨[97], ⟨0, 10⟩⟩, ⟨none, some [1]⟩, first⟩),
    (⟨"in", 0, 0, second⟩, ⟨some ⟨[97], ⟨0, 10⟩⟩, ⟨some [1], some [1, 2]⟩, max first second⟩)]

def closingChange : SuppressInput (Windowed Bytes) Bytes :=
  (⟨"in", 0, 0, 21⟩, ⟨some ⟨[98], ⟨20, 30⟩⟩, ⟨none, some [3]⟩, 21⟩)

example : appendChanges [recordAt 97 1 5, recordAt 97 2 3, recordAt 98 3 21] = .ok (windowChanges 5 3 ++ [closingChange]) := by
  decide +kernel

theorem exists_run_of_suppressedChanges {inputs : List (SuppressInput (Windowed Bytes) Bytes)}
    {outs : List (List (Record (Windowed Bytes) (Change Bytes)))} (h : suppressedChanges inputs = .ok outs) :
    ∃ t, suppressRun untilClose inputs = .ok (t, outs) := by
  unfold suppressedChanges at h
  rcases hrun : suppressRun untilClose inputs with e | ⟨t, outs'⟩
  · rw [hrun] at h
    cases h
  · rw [hrun] at h
    cases h
    exact ⟨t, rfl⟩

/-- The second record of a window is older than the first: the window is forwarded with its timestamp, not with the one
that the aggregation gave the change. -/
theorem not_carriesLatest_late : ∃ t y, suppressRun untilClose (windowChanges 5 3 ++ [closingChange]) = .ok (t, [[], []] ++ [[y]]) ∧
    ¬ CarriesLatest (windowChanges 5 3 ++ [closingChange]) y := by
  have houts : suppressedChanges (windowChanges 5 3 ++ [closingChange])
      = .ok ([[], []] ++ [[⟨some ⟨[97], ⟨0, 10⟩⟩, ⟨some [1], some [1, 2]⟩, 3⟩]]) := by decide +kernel
  obtain ⟨t, hrun⟩ := exists_run_of_suppressedChanges houts
  refine ⟨t, _, hrun, ?_⟩
  rintro ⟨k, i, hkey, hi, -, hts⟩
  cases hkey
  have hlast : latestInput ⟨[97], ⟨0, 10⟩⟩ (windowChanges 5 3 ++ [closingChange])
      = some (⟨"in", 0, 0, 3⟩, ⟨some ⟨[97], ⟨0, 10⟩⟩, ⟨some [1], some [1, 2]⟩, 5⟩) := by decide
  cases hi.symm.trans hlast
  exact absurd hts (by decide)

/-- Records in order: the change has the timestamp of its source record. -/
theorem carriesLatest_ordered : ∃ t y, suppressRun untilClose (windowChanges 3 5 ++ [closingChange]) = .ok (t, [[], []] ++ [[y]]) ∧
    CarriesLatest (windowChanges 3 5 ++ [closingChange]) y := by
  have houts : suppressedChanges (windowChanges 3 5 ++ [closingChange])
      = .ok ([[], []] ++ [[⟨some ⟨[97], ⟨0, 10⟩⟩, ⟨some [1], some [1, 2]⟩, 5⟩]]) := by decide +kernel
  obtain ⟨t, hrun⟩ := exists_run_of_suppressedChanges houts
  have hsized : ∀ y ∈ windowChanges 3 5 ++ [closingChange], ∀ k ∈ y.2.key, Sized 10 k := by
    simp [windowChanges, closingChange, Sized, IsI64, i64Min, i64Max]
  have hstamped : StampedAsSource (windowChanges 3 5 ++ [closingChange]) (some ⟨[97], ⟨0, 10⟩⟩) := by
    intro k hk i hi
    cases hk
    have hlast : latestInput ⟨[97], ⟨0, 10⟩⟩ (windowChanges 3 5 ++ [closingChange])
        = some (⟨"in", 0, 0, 5⟩, ⟨some ⟨[97], ⟨0, 10⟩⟩, ⟨some [1], some [1, 2]⟩, 5⟩) := by decide
    cases hlast.symm.trans hi
    rfl
  have hkeys : ∀ y ∈ windowChanges 3 5 ++ [closingChange], ∀ k ∈ y.2.key,
      ReadsBack (timeWindowedSerde bytesSerde 10) "app-s-changelog" k :=
    fun y hy k hk => timeWindowedSerde_sized bytesSerde_lawful _ (hsized y hy k hk)
  have hiff := carriesLatest_iff_stamped (timeWindowedSerde bytesSerde 10) bytesSerde_lawful "app-s-changelog" true 0
    (fun k _ => k.window.stop) none none false (windowChanges 3 5) closingChange hkeys [[], []] _ hrun
  exact ⟨t, _, hrun, (hiff _ (List.mem_singleton.mpr rfl)).mpr hstamped⟩

end Samples

end KrabkaStreams
