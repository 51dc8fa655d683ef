import KrabkaStreams.Lib.Effect

/-!
# Properties of histories

`Always check` holds of a history when every event passes its check against the events before it. Such a
property is closed under prefixes.
-/

namespace Effect

variable {ω : Type}

/-- Every event of the history passes the check against the events before it. -/
def Always (check : List ω → ω → Prop) (h : List ω) : Prop :=
  ∀ pre ev post, h = pre ++ ev :: post → check pre ev

variable {check : List ω → ω → Prop} (p : ω → Bool)

namespace Always

theorem nil : Always check [] := by
  intro pre ev post h
  simp at h

theorem prefixClosed : PrefixClosed (Always check) := by
  intro h w hw pre ev post hh
  exact hw pre ev (post ++ w) (by rw [hh]; simp)

theorem snoc_iff {h : List ω} {ev : ω} : Always check (h ++ [ev]) ↔ Always check h ∧ check h ev := by
  constructor
  · intro ha
    exact ⟨prefixClosed h [ev] ha, ha h ev [] rfl⟩
  · rintro ⟨ha, he⟩ pre ev' post hh
    rcases List.eq_nil_or_concat post with rfl | ⟨post', x, rfl⟩
    · obtain ⟨rfl, hev⟩ := List.append_inj' hh rfl
      cases hev
      exact he
    · rw [List.concat_eq_append, ← List.cons_append, ← List.append_assoc] at hh
      exact ha pre ev' post' (List.append_inj' hh rfl).1

theorem snoc {h : List ω} {ev : ω} (ha : Always check h) (he : check h ev) :
    Always check (h ++ [ev]) :=
  snoc_iff.mpr ⟨ha, he⟩

theorem last {h : List ω} {ev : ω} (ha : Always check (h ++ [ev])) : check h ev :=
  (snoc_iff.mp ha).2

end Always

/-- The checks of the events of `h` after the history `pre`, one after the other. -/
def AlwaysFrom (check : List ω → ω → Prop) : List ω → List ω → Prop
  | _, [] => True
  | pre, ev :: h => check pre ev ∧ AlwaysFrom check (pre ++ [ev]) h

theorem alwaysFrom_iff : ∀ (h pre : List ω),
    AlwaysFrom check pre h ↔ ∀ a ev b, h = a ++ ev :: b → check (pre ++ a) ev
  | [], pre => by simp [AlwaysFrom]
  | x :: h, pre => by
    simp only [AlwaysFrom, alwaysFrom_iff h (pre ++ [x])]
    constructor
    · rintro ⟨hx, hrest⟩ a ev b hab
      rcases List.cons_eq_append_iff.mp hab with ⟨rfl, heq⟩ | ⟨a', rfl, heq⟩
      · cases heq
        simpa using hx
      · simpa using hrest a' ev b heq
    · intro hall
      refine ⟨by simpa using hall [] x h rfl, fun a ev b hab => ?_⟩
      simpa using hall (x :: a) ev b (by rw [hab]; rfl)

instance decidableAlwaysFrom [∀ pre ev, Decidable (check pre ev)] :
    ∀ pre h, Decidable (AlwaysFrom check pre h)
  | _, [] => isTrue trivial
  | pre, ev :: h =>
    have := decidableAlwaysFrom (pre ++ [ev]) h
    inferInstanceAs (Decidable (check pre ev ∧ AlwaysFrom check (pre ++ [ev]) h))

instance [∀ pre ev, Decidable (check pre ev)] (h : List ω) : Decidable (Always check h) :=
  decidable_of_iff (AlwaysFrom check [] h) (by simpa [Always] using alwaysFrom_iff h [])

/-- The events after the last one that satisfies `p`; all of them when none does. -/
def sinceLast (h : List ω) : List ω :=
  h.foldl (fun acc ev => if p ev then [] else acc ++ [ev]) []

/-- The events from the last one that satisfies `p` on, with that event. -/
def fromLast (h : List ω) : List ω :=
  h.foldl (fun acc ev => if p ev then [ev] else acc ++ [ev]) []

@[simp] theorem sinceLast_nil : sinceLast p [] = [] := rfl

@[simp] theorem fromLast_nil : fromLast p [] = [] := rfl

theorem sinceLast_snoc (h : List ω) (ev : ω) :
    sinceLast p (h ++ [ev]) = if p ev then [] else sinceLast p h ++ [ev] := by
  simp [sinceLast]

theorem fromLast_snoc (h : List ω) (ev : ω) :
    fromLast p (h ++ [ev]) = if p ev then [ev] else fromLast p h ++ [ev] := by
  simp [fromLast]

end Effect
