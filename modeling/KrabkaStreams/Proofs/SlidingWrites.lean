import KrabkaStreams.Proofs.SlidingAggregate

/-!
# The writes of a call are exact

`SlideInv` says that the stored windows are those the records ask for. Writes are `Good` when they are
the entries due after the record and leave no window out.
-/

namespace KrabkaStreams

open Sliding KStreamSlidingWindowAggregateProcessor

variable {K V VA : Type} [DecidableEq K] {w : SlidingWindows} {init : VA} {agg : K → V → VA → VA}
  {recs : List (KeyedRecord K V)} {r : KeyedRecord K V} {f : K × Int → Option (Int × VA)} {k : K}
  {a b t : Int} {e : Int × VA}

section Windows

theorem mem_inWindow {x : KeyedRecord K V} : x ∈ w.inWindow k a recs ↔
    x ∈ recs ∧ x.key = k ∧ a ≤ x.timestamp ∧ x.timestamp ≤ a + w.timeDifference := by
  simp [SlidingWindows.inWindow]

theorem inWindow_snoc_of_covers (ha : a ≤ r.timestamp) (ht : r.timestamp ≤ a + w.timeDifference) :
    w.inWindow r.key a (recs ++ [r]) = w.inWindow r.key a recs ++ [r] := by
  simp [SlidingWindows.inWindow, List.filter_append, ha, ht]

theorem inWindow_snoc_of_not
    (h : ¬ (r.key = k ∧ a ≤ r.timestamp ∧ r.timestamp ≤ a + w.timeDifference)) :
    w.inWindow k a (recs ++ [r]) = w.inWindow k a recs := by
  unfold SlidingWindows.inWindow
  rw [List.filter_append, List.filter_cons_of_neg (by simpa using h), List.filter_nil, List.append_nil]

theorem inWindow_congr (h : ∀ {u}, timesOf k recs u →
      (a ≤ u ∧ u ≤ a + w.timeDifference ↔ b ≤ u ∧ u ≤ b + w.timeDifference)) :
    w.inWindow k a recs = w.inWindow k b recs := by
  refine List.filter_congr fun x hx => decide_eq_decide.mpr (and_congr_right fun hk => ?_)
  exact h ⟨x, hx, hk, rfl⟩

theorem inWindow_eq_nil (h : ∀ {u}, timesOf k recs u → ¬ (a ≤ u ∧ u ≤ a + w.timeDifference)) :
    w.inWindow k a recs = [] := by
  refine List.eq_nil_iff_forall_not_mem.mpr fun x hx => ?_
  obtain ⟨hx, hk, hr⟩ := mem_inWindow.mp hx
  exact h ⟨x, hx, hk, rfl⟩ hr

omit [DecidableEq K] in
theorem exists_streamTimeOf (hne : recs ≠ []) (ht : ∀ x ∈ recs, x.Timely) :
    ∃ x ∈ recs, x.timestamp = streamTimeOf recs := by
  induction recs using List.reverseRecOn with
  | nil => exact absurd rfl hne
  | append_singleton recs r ih =>
    rw [streamTimeOf_snoc]
    rcases max_choice (streamTimeOf recs) r.timestamp with h | h
    · by_cases hnil : recs = []
      · subst hnil
        have hr := (ht r (by simp)).1
        rw [streamTimeOf_nil, max_eq_left_iff] at h
        simp only [i64Min] at h
        omega
      · obtain ⟨x, hx, he⟩ := ih hnil fun x hx => ht x (List.mem_append_left _ hx)
        exact ⟨x, List.mem_append_left _ hx, he.trans h.symm⟩
    · exact ⟨r, by simp, h.symm⟩

end Windows

/-- The stored windows are those the records ask for, with the entries of the records in them. -/
structure SlideInv (w : SlidingWindows) (init : VA) (agg : K → V → VA → VA)
    (recs : List (KeyedRecord K V)) (f : K × Int → Option (Int × VA)) : Prop where
  slides : ∀ k, Slides w.timeDifference (timesOf k recs) fun a => ∃ e, f (k, a) = some e
  exact : ∀ {k a e}, f (k, a) = some e → entryOf init agg k (w.inWindow k a recs) = some e

namespace SlideInv

theorem empty (w : SlidingWindows) (init : VA) (agg : K → V → VA → VA) :
    SlideInv w init agg ([] : List (KeyedRecord K V)) fun _ => none := by
  refine ⟨fun k => ?_, nofun⟩
  rw [timesOf_nil]
  convert Slides.empty w.timeDifference
  simp

theorem latest (h : SlideInv w init agg recs f) (ht : ∀ x ∈ recs, x.Timely) (hf : f (k, a) = some e) :
    timesOf k recs e.1 ∧ a ≤ e.1 ∧ e.1 ≤ a + w.timeDifference ∧
      ∀ {u}, timesOf k recs u → a ≤ u → u ≤ a + w.timeDifference → u ≤ e.1 := by
  have hne : w.inWindow k a recs ≠ [] := by
    intro hnil
    have := h.exact hf
    rw [hnil] at this
    cases this
  have hent := h.exact hf
  rw [entryOf_of_ne_nil init agg k hne] at hent
  have hts : streamTimeOf (w.inWindow k a recs) = e.1 := congrArg Prod.fst (Option.some.inj hent)
  obtain ⟨x, hx, hxt⟩ := exists_streamTimeOf hne fun x hx => ht x (mem_inWindow.mp hx).1
  rw [hts] at hxt
  obtain ⟨hxr, hk, ha, hb⟩ := mem_inWindow.mp hx
  rw [hxt] at ha hb
  refine ⟨⟨x, hxr, hk, hxt⟩, ha, hb, ?_⟩
  rintro u ⟨y, hy, hyk, rfl⟩ hau hub
  rw [← hts]
  exact le_streamTimeOf (mem_inWindow.mpr ⟨hy, hyk, hau, hub⟩)

theorem bounded (h : SlideInv w init agg recs f) (ht : ∀ x ∈ recs, x.Timely)
    (hfit : ∀ x ∈ recs, x.timestamp + w.timeDifference ≤ i64Max) (k : K) : Bounded w f k := by
  intro a e hf
  obtain ⟨⟨x, hx, -, hxt⟩, ha, hb, -⟩ := h.latest ht hf
  refine ⟨(h.slides k).start_nonneg ⟨e, hf⟩, ha, hb, ?_⟩
  rw [← hxt]
  exact hfit x hx

section Due

variable (h : SlideInv w init agg recs f)

include h

theorem due_update (hf : f (r.key, a) = some e) (ha : a ≤ r.timestamp)
    (ht : r.timestamp ≤ a + w.timeDifference) :
    entryOf init agg r.key (w.inWindow r.key a (recs ++ [r]))
      = some (max e.1 r.timestamp, agg r.key r.value e.2) := by
  rw [inWindow_snoc_of_covers ha ht, entryOf_snoc, h.exact hf]
  rfl

omit h in
theorem due_first (hr : r.Timely) (hnil : w.inWindow r.key a recs = []) (ha : a ≤ r.timestamp)
    (ht : r.timestamp ≤ a + w.timeDifference) :
    entryOf init agg r.key (w.inWindow r.key a (recs ++ [r]))
      = some (r.timestamp, agg r.key r.value init) := by
  have hmax : max i64Min r.timestamp = r.timestamp :=
    max_eq_right (le_trans (by decide) hr.1)
  rw [inWindow_snoc_of_covers ha ht, hnil, entryOf_snoc]
  exact congrArg (fun x => some (x, agg r.key r.value init)) hmax

theorem due_right (htimely : ∀ x ∈ recs, x.Timely) (hno : ¬ ∃ e, f (r.key, r.timestamp + 1) = some e)
    (hf : f (r.key, a) = some e) (hat : a ≤ r.timestamp)
    (hlast : ∀ b, (∃ e, f (r.key, b) = some e) → b ≤ r.timestamp → b ≤ a) (hlt : r.timestamp < e.1) :
    entryOf init agg r.key (w.inWindow r.key (r.timestamp + 1) (recs ++ [r])) = some e := by
  obtain ⟨hT, -, hle, -⟩ := h.latest htimely hf
  rw [inWindow_snoc_of_not fun hr => by omega, ← h.exact hf]
  refine congrArg _ (inWindow_congr fun hu => ?_).symm
  exact (h.slides r.key).after_iff hno ⟨e, hf⟩ hat hlast hT hlt hle hu

theorem due_left (htimely : ∀ x ∈ recs, x.Timely)
    (hno : ¬ ∃ e, f (r.key, r.timestamp - w.timeDifference) = some e) (hf : f (r.key, a) = some e)
    (hWt : w.timeDifference ≤ r.timestamp) (haW : a + w.timeDifference < r.timestamp)
    (hlast : ∀ b, (∃ e, f (r.key, b) = some e) → b + w.timeDifference < r.timestamp → b ≤ a)
    (hle : r.timestamp - w.timeDifference ≤ e.1) :
    entryOf init agg r.key (w.inWindow r.key (r.timestamp - w.timeDifference) (recs ++ [r]))
      = some (r.timestamp, agg r.key r.value e.2) := by
  obtain ⟨hT, -, hea, -⟩ := h.latest htimely hf
  have hsame : w.inWindow r.key (r.timestamp - w.timeDifference) recs = w.inWindow r.key a recs := by
    refine (inWindow_congr fun hu => ?_).symm
    rw [(h.slides r.key).before_iff hno hWt haW hlast hT hea hle hu]
    omega
  rw [inWindow_snoc_of_covers (by have := w.timeDifference_nonneg; omega) (by omega), hsame,
    entryOf_snoc, h.exact hf]
  refine congrArg (fun x => some (x, agg r.key r.value e.2)) (max_eq_right ?_)
  show e.1 ≤ r.timestamp
  omega

end Due

end SlideInv

def Due (w : SlidingWindows) (init : VA) (agg : K → V → VA → VA) (recs : List (KeyedRecord K V))
    (r : KeyedRecord K V) (e : Int × Int × VA) : Prop :=
  0 ≤ e.1 ∧ entryOf init agg r.key (w.inWindow r.key e.1 (recs ++ [r])) = some e.2

/-- Writes for a record: each is due after it, and every window that is then asked for is
written or stored. -/
structure Good (w : SlidingWindows) (init : VA) (agg : K → V → VA → VA)
    (recs : List (KeyedRecord K V)) (r : KeyedRecord K V) (f : K × Int → Option (Int × VA))
    (writes : List (Int × Int × VA)) : Prop where
  due : ∀ e ∈ writes, Due w init agg recs r e
  covering : ∀ {a e}, f (r.key, a) = some e → a ≤ r.timestamp → r.timestamp ≤ a + w.timeDifference →
    a ∈ writes.map (·.1)
  left : (∃ e, f (r.key, w.leftStart r.timestamp) = some e) ∨
    w.leftStart r.timestamp ∈ writes.map (·.1)
  previous : ∀ {q}, timesOf r.key recs q → q < r.timestamp →
    r.timestamp ≤ q + 1 + w.timeDifference →
    (∃ e, f (r.key, q + 1) = some e) ∨ q + 1 ∈ writes.map (·.1)
  next : ∀ {u}, timesOf r.key recs u → r.timestamp < u → u ≤ r.timestamp + 1 + w.timeDifference →
    (∃ e, f (r.key, r.timestamp + 1) = some e) ∨ r.timestamp + 1 ∈ writes.map (·.1)

namespace Good

variable {writes : List (Int × Int × VA)} (hg : Good w init agg recs r f writes)

include hg

theorem writeAll_eq (a : Int) : writeAll r.key writes f (r.key, a) = if a ∈ writes.map (·.1)
    then entryOf init agg r.key (w.inWindow r.key a (recs ++ [r])) else f (r.key, a) :=
  writeAll_exact (g := fun a => entryOf init agg r.key (w.inWindow r.key a (recs ++ [r])))
    (fun e he => (hg.due e he).2) f a

theorem stored_iff (a : Int) : (∃ e, writeAll r.key writes f (r.key, a) = some e) ↔
    (∃ e, f (r.key, a) = some e) ∨ a ∈ writes.map (·.1) := by
  rw [hg.writeAll_eq]
  by_cases ha : a ∈ writes.map (·.1)
  · obtain ⟨e, he, rfl⟩ := List.mem_map.mp ha
    rw [if_pos ha]
    exact iff_of_true ⟨e.2, (hg.due e he).2⟩ (.inr ha)
  · rw [if_neg ha]
    exact (or_iff_left ha).symm

theorem held (ha : a ∈ writes.map (·.1)) :
    0 ≤ a ∧ ∃ u, (u = r.timestamp ∨ timesOf r.key recs u) ∧ a ≤ u ∧ u ≤ a + w.timeDifference := by
  obtain ⟨e, he, rfl⟩ := List.mem_map.mp ha
  obtain ⟨h0, hdue⟩ := hg.due e he
  refine ⟨h0, ?_⟩
  rcases hl : w.inWindow r.key e.1 (recs ++ [r]) with _ | ⟨x, l⟩
  · rw [hl] at hdue
    cases hdue
  · have hx : x ∈ w.inWindow r.key e.1 (recs ++ [r]) := by simp [hl]
    obtain ⟨hmem, hk, hr⟩ := mem_inWindow.mp hx
    refine ⟨x.timestamp, ?_, hr⟩
    have ht : timesOf r.key (recs ++ [r]) x.timestamp := ⟨x, hmem, hk, rfl⟩
    rwa [timesOf_snoc_self] at ht

theorem slideInv (h : SlideInv w init agg recs f) (hr : r.Timely) :
    SlideInv w init agg (recs ++ [r]) (writeAll r.key writes f) := by
  refine ⟨fun k => ?_, fun {k a e} hf => ?_⟩
  · by_cases hk : k = r.key
    · subst hk
      rw [timesOf_snoc_self]
      simp only [hg.stored_iff]
      exact (h.slides r.key).insert hr.1 .inl (fun ha => ha.imp_right hg.held) hg.left hg.previous hg.next
    · rw [timesOf_snoc_of_ne hk]
      simp only [writeAll_of_ne hk]
      exact h.slides k
  · by_cases hk : k = r.key
    · subst hk
      rw [hg.writeAll_eq] at hf
      split at hf
      · exact hf
      · rename_i ha
        rw [inWindow_snoc_of_not fun hc => ha (hg.covering hf hc.2.1 hc.2.2)]
        exact h.exact hf
    · rw [writeAll_of_ne hk] at hf
      rw [inWindow_snoc_of_not fun hc => hk hc.1.symm]
      exact h.exact hf

end Good

end KrabkaStreams
