import Mathlib.Data.List.Basic
import Mathlib.Data.List.Infix
import Mathlib.Tactic.Common

/-!
# Fallible stateful computations with a history

A computation that keeps what it wrote when it fails, and leaves events that no computation can take
back. `Spec C P m Q E`: from `P`, a run of `m` ends with `Q`, or with `E` if it fails, provided that the
history after it satisfies `C`. `C` is closed under prefixes, so `Spec.bind` asks nothing more.
-/

namespace Effect

/-- A computation over a state `σ` that may fail with an `ε`, and the events it leaves behind. -/
def Eff (σ ω ε α : Type) := σ → Except ε α × σ × List ω

variable {σ τ ω ε α β : Type} {γ : Type} (m : Eff σ ω ε α) {f : α → Eff σ ω ε β} {w : List ω} {γ : Type}
  (C : List ω → Prop)

namespace Eff

def result (s : σ) : Except ε α := (m s).1

def final (s : σ) : σ := (m s).2.1

def events (s : σ) : List ω := (m s).2.2

instance : Monad (Eff σ ω ε) where
  pure a := fun s => (.ok a, s, [])
  bind m f := fun s =>
    match m s with
    | (.ok a, s', w) => ((f a s').1, (f a s').2.1, w ++ (f a s').2.2)
    | (.error e, s', w) => (.error e, s', w)

instance : MonadStateOf σ (Eff σ ω ε) where
  get := fun s => (.ok s, s, [])
  set t := fun _ => (.ok ⟨⟩, t, [])
  modifyGet f := fun s => (.ok (f s).1, (f s).2, [])

instance : MonadExceptOf ε (Eff σ ω ε) where
  throw e := fun s => (.error e, s, [])
  tryCatch m f := fun s =>
    match m s with
    | (.ok a, s', w) => (.ok a, s', w)
    | (.error e, s', w) => ((f e s').1, (f e s').2.1, w ++ (f e s').2.2)

def tell (ev : ω) : Eff σ ω ε Unit := fun s => (.ok (), s, [ev])

/-- Run `m` and hand its outcome on as a value, so that the caller decides about a failure. -/
def attempt : Eff σ ω ε (Except ε α) := fun s => (.ok (m s).1, (m s).2)

end Eff

/-- One computation after the other, whatever the outcome of each: the final state, and all events. -/
def Eff.runAll (perform : γ → Eff σ ω ε α) : List γ → σ → σ × List ω
  | [], s => (s, [])
  | c :: cs, s =>
    let r := perform c s
    let rest := runAll perform cs r.2.1
    (rest.1, r.2.2 ++ rest.2)

def Eff.Meets (perform : γ → Eff σ ω ε α) (A : γ → σ → Prop) : List γ → σ → Prop
  | [], _ => True
  | c :: cs, s => A c s ∧ Meets perform A cs ((perform c).final s)

instance Eff.decidableMeets (perform : γ → Eff σ ω ε α) (A : γ → σ → Prop) [∀ c s, Decidable (A c s)] :
    ∀ cs s, Decidable (Eff.Meets perform A cs s)
  | [], _ => .isTrue trivial
  | c :: cs, s =>
    have := decidableMeets perform A cs ((perform c).final s)
    inferInstanceAs (Decidable (A c s ∧ Meets perform A cs ((perform c).final s)))

def Eff.Throughout (perform : γ → Eff σ ω ε α) (Q : σ → Prop) : List γ → σ → Prop
  | [], s => Q s
  | c :: cs, s => Q s ∧ Throughout perform Q cs ((perform c).final s)

instance Eff.decidableThroughout (perform : γ → Eff σ ω ε α) (Q : σ → Prop) [DecidablePred Q] :
    ∀ cs s, Decidable (Eff.Throughout perform Q cs s)
  | [], s => inferInstanceAs (Decidable (Q s))
  | c :: cs, s =>
    have := decidableThroughout perform Q cs ((perform c).final s)
    inferInstanceAs (Decidable (Q s ∧ Throughout perform Q cs ((perform c).final s)))

/-- A component together with the world it shares with other components. -/
structure Shared (τ ρ : Type) where
  own : τ
  world : ρ

namespace Eff

variable {ρ κ : Type}

def onWorld (m : Eff ρ ω ε α) : Eff (Shared τ ρ) ω ε α := fun s =>
  ((m s.world).1, ⟨s.own, (m s.world).2.1⟩, (m s.world).2.2)

/-- Run `f` on each component of a keyed list in turn, over the one world, up to the first
failure. -/
def eachFrom (f : κ → Eff (Shared τ ρ) ω ε Unit) :
    List (κ × τ) → ρ → Except ε Unit × Shared (List (κ × τ)) ρ × List ω
  | [], w => (.ok (), ⟨[], w⟩, [])
  | (k, t) :: ts, w =>
    match f k ⟨t, w⟩ with
    | (.error e, s, evs) => (.error e, ⟨(k, s.own) :: ts, s.world⟩, evs)
    | (.ok (), s, evs) =>
      let r := eachFrom f ts s.world
      (r.1, ⟨(k, s.own) :: r.2.1.own, r.2.1.world⟩, evs ++ r.2.2)

def each (f : κ → Eff (Shared τ ρ) ω ε Unit) : Eff (Shared (List (κ × τ)) ρ) ω ε Unit :=
  fun s => eachFrom f s.own s.world

end Eff

theorem Eff.bind_of_ok {m : Eff σ ω ε α} {s s' : σ} {a : α} (h : m s = (.ok a, s', w)) :
    (m >>= f) s = ((f a s').1, (f a s').2.1, w ++ (f a s').2.2) := by
  show (match m s with | (.ok a, s', w) => _ | (.error e, s', w) => _) = _
  rw [h]

theorem Eff.bind_of_error {m : Eff σ ω ε α} {s s' : σ} {e : ε} (h : m s = (.error e, s', w)) :
    (m >>= f) s = (.error e, s', w) := by
  show (match m s with | (.ok a, s', w) => _ | (.error e, s', w) => _) = _
  rw [h]

theorem Eff.runAll_append (perform : γ → Eff σ ω ε α) : ∀ (cs ds : List γ) (s : σ),
    Eff.runAll perform (cs ++ ds) s
      = ((Eff.runAll perform ds (Eff.runAll perform cs s).1).1,
        (Eff.runAll perform cs s).2 ++ (Eff.runAll perform ds (Eff.runAll perform cs s).1).2)
  | [], _, _ => rfl
  | c :: cs, ds, s => by
    simp only [List.cons_append, Eff.runAll, runAll_append perform cs ds, List.append_assoc]

abbrev Assn (ω σ : Type) := List ω → σ → Prop

/-- A condition on histories that holds of every prefix of a history it holds of. -/
def PrefixClosed : Prop := ∀ h w, C (h ++ w) → C h

/-- What a run of `m` from `P` ends with, when the history after it satisfies `C`. -/
def Spec (P : Assn ω σ) (m : Eff σ ω ε α) (Q : α → Assn ω σ) (E : ε → Assn ω σ) : Prop :=
  ∀ h s, P h s → C (h ++ (m s).2.2) →
    match (m s).1 with
    | .ok a => Q a (h ++ (m s).2.2) (m s).2.1
    | .error e => E e (h ++ (m s).2.2) (m s).2.1

abbrev Keeps (I : Assn ω σ) (m : Eff σ ω ε α) : Prop :=
  Spec C I m (fun _ => I) (fun _ => I)

namespace Spec

variable {C : List ω → Prop} {P P' : Assn ω σ} {m : Eff σ ω ε α} {Q Q' : α → Assn ω σ}
  {E E' : ε → Assn ω σ}

theorem of_ok (h : Spec C P m Q E) {s : σ} (hs : P w s) (hC : C (w ++ m.events s)) {a : α}
    (hr : m.result s = .ok a) : Q a (w ++ m.events s) (m.final s) := by
  have hm := h w s hs hC
  rw [show (m s).1 = .ok a from hr] at hm
  exact hm

theorem of_error (h : Spec C P m Q E) {s : σ} (hs : P w s) (hC : C (w ++ m.events s)) {e : ε}
    (hr : m.result s = .error e) : E e (w ++ m.events s) (m.final s) := by
  have hm := h w s hs hC
  rw [show (m s).1 = .error e from hr] at hm
  exact hm

theorem mono (h : Spec C P m Q E) (hP : ∀ h s, P' h s → P h s)
    (hQ : ∀ a h s, Q a h s → Q' a h s) (hE : ∀ e h s, E e h s → E' e h s) :
    Spec C P' m Q' E' := by
  intro w s hs hC
  have := h w s (hP w s hs) hC
  split at this
  · exact hQ _ _ _ this
  · exact hE _ _ _ this

theorem pre (h : Spec C P m Q E) (hP : ∀ h s, P' h s → P h s) : Spec C P' m Q E :=
  h.mono hP (fun _ _ _ h => h) fun _ _ _ h => h

theorem post (h : Spec C P m Q E) (hQ : ∀ a h s, Q a h s → Q' a h s)
    (hE : ∀ e h s, E e h s → E' e h s) : Spec C P m Q' E' :=
  h.mono (fun _ _ h => h) hQ hE

theorem failing (h : Spec C P m Q E) (hE : ∀ e h s, E e h s → E' e h s) : Spec C P m Q E' :=
  h.post (fun _ _ _ h => h) hE

theorem assume {p : Prop} (h : p → Spec C P m Q E) : Spec C (fun w s => p ∧ P w s) m Q E :=
  fun w s hs hC => h hs.1 w s hs.2 hC

/-- Name a part of the state before the run, to speak about it after the run. -/
theorem ghost (f : σ → γ) (h : ∀ x, Spec C (fun w s => P w s ∧ f s = x) m Q E) : Spec C P m Q E :=
  fun w s hs hC => h (f s) w s ⟨hs, rfl⟩ hC

theorem vacuous (h : ∀ w s, ¬ P w s) : Spec C P m Q E := fun w s hs _ => absurd hs (h w s)

theorem or (h : Spec C P m Q E) (h' : Spec C P' m Q E) : Spec C (fun w s => P w s ∨ P' w s) m Q E :=
  fun w s hs hC => hs.elim (fun hs => h w s hs hC) fun hs => h' w s hs hC

theorem elim {P : γ → Assn ω σ} (h : ∀ x, Spec C (P x) m Q E) : Spec C (fun w s => ∃ x, P x w s) m Q E :=
  fun w s ⟨x, hx⟩ hC => h x w s hx hC

theorem pure {a : α} (h : ∀ h s, P h s → Q a h s) : Spec C P (Pure.pure a : Eff σ ω ε α) Q E := by
  intro w s hs _
  show Q a (w ++ []) s
  rw [List.append_nil]
  exact h w s hs

theorem skip {a : α} : Spec C P (Pure.pure a : Eff σ ω ε α) (fun _ => P) E := pure fun _ _ h => h

theorem throw {e : ε} (h : ∀ h s, P h s → E e h s) :
    Spec C P (MonadExcept.throw e : Eff σ ω ε α) Q E := by
  intro w s hs _
  show E e (w ++ []) s
  rw [List.append_nil]
  exact h w s hs

theorem tell {ev : ω} {Q : Unit → Assn ω σ}
    (h : ∀ h s, P h s → C (h ++ [ev]) → Q () (h ++ [ev]) s) :
    Spec C P (Eff.tell ev : Eff σ ω ε Unit) Q E :=
  fun w s hs hC => h w s hs hC

theorem modify {f : σ → σ} {Q : PUnit → Assn ω σ} (h : ∀ h s, P h s → Q ⟨⟩ h (f s)) :
    Spec C P (MonadState.modifyGet (fun s => (⟨⟩, f s)) : Eff σ ω ε PUnit) Q E := by
  intro w s hs _
  show Q ⟨⟩ (w ++ []) (f s)
  rw [List.append_nil]
  exact h w s hs

theorem bind (hC : PrefixClosed C) {R : α → Assn ω σ} {Q : β → Assn ω σ} (hm : Spec C P m R E)
    (hf : ∀ a, Spec C (R a) (f a) Q E) : Spec C P (m >>= f) Q E := by
  intro w s hs hCw
  have hm' := hm w s hs
  rcases hx : m s with ⟨e | a, s', evs⟩
  · have hb : (m >>= f) s = (.error e, s', evs) := by
      show (match m s with | (.ok a, s', w) => _ | (.error e, s', w) => _) = _
      rw [hx]
    rw [hb] at hCw ⊢
    rw [hx] at hm'
    exact hm' hCw
  · rw [Eff.bind_of_ok hx] at hCw ⊢
    rw [hx] at hm'
    rw [← List.append_assoc] at hCw ⊢
    exact hf a (w ++ evs) s' (hm' (hC _ _ hCw)) hCw

theorem seq (hC : PrefixClosed C) {Q : β → Assn ω σ} (hm : Spec C P m (fun _ => P) E)
    (hf : ∀ a, Spec C P (f a) Q E) : Spec C P (m >>= f) Q E := bind hC hm hf

theorem get {f : σ → Eff σ ω ε β} {Q : β → Assn ω σ}
    (h : ∀ t, Spec C (fun w s => s = t ∧ P w s) (f t) Q E) :
    Spec C P (MonadState.get >>= f) Q E := by
  intro w s hs hCw
  exact h s w s ⟨rfl, hs⟩ hCw

theorem attempt {Q : Except ε α → Assn ω σ} (h : Spec C P m (fun a => Q (.ok a)) fun e => Q (.error e)) :
    Spec C P m.attempt Q E := by
  intro w s hs hCw
  have hm := h w s hs hCw
  show Q (m s).1 (w ++ (m s).2.2) (m s).2.1
  split at hm <;> rename_i hx <;> rw [hx] <;> exact hm

theorem forM (hC : PrefixClosed C) {f : β → Eff σ ω ε PUnit} {I : Assn ω σ} :
    ∀ (xs : List β), (∀ x ∈ xs, Spec C I (f x) (fun _ => I) E) →
      Spec C I (xs.forM f) (fun _ => I) E
  | [], _ => Spec.skip
  | x :: xs, h =>
    Spec.bind hC (h x List.mem_cons_self) fun _ =>
      forM hC xs fun y hy => h y (List.mem_cons_of_mem x hy)

theorem foldlM (hC : PrefixClosed C) {f : γ → β → Eff σ ω ε γ} {I : Assn ω σ}
    (h : ∀ a x, Spec C I (f a x) (fun _ => I) E) :
    ∀ (xs : List β) (a : γ), Spec C I (xs.foldlM f a) (fun _ => I) E
  | [], _ => Spec.skip
  | x :: xs, a => Spec.bind hC (h a x) fun a' => foldlM hC h xs a'

theorem foldlM_rest (hC : PrefixClosed C) {f : γ → β → Eff σ ω ε γ} {I : List β → γ → Assn ω σ}
    (h : ∀ x xs a, Spec C (I (x :: xs) a) (f a x) (I xs) E) :
    ∀ (xs : List β) (a : γ), Spec C (I xs a) (xs.foldlM f a) (I []) E
  | [], _ => Spec.pure fun _ _ h => h
  | x :: xs, a => Spec.bind hC (h x xs a) fun a' => foldlM_rest hC h xs a'

/-- A loop whose rounds take an assertion about `a` to one about `g a x` follows the fold of `g`. -/
theorem forM_foldl (hC : PrefixClosed C) {f : β → Eff σ ω ε PUnit} {I : γ → Assn ω σ} {g : γ → β → γ}
    (h : ∀ a x, Spec C (I a) (f x) (fun _ => I (g a x)) E) :
    ∀ (xs : List β) (a : γ), Spec C (I a) (xs.forM f) (fun _ => I (xs.foldl g a)) E
  | [], _ => Spec.skip
  | x :: xs, a => Spec.bind hC (h a x) fun _ => forM_foldl hC h xs (g a x)

theorem ite {c : Prop} [Decidable c] {m n : Eff σ ω ε α}
    (hm : c → Spec C P m Q E) (hn : ¬c → Spec C P n Q E) : Spec C P (if c then m else n) Q E := by
  split
  · exact hm ‹_›
  · exact hn ‹_›

theorem onWorld {ρ : Type} {P : Assn ω (Shared τ ρ)} {m : Eff ρ ω ε α}
    {Q : α → Assn ω (Shared τ ρ)} {E : ε → Assn ω (Shared τ ρ)}
    (h : ∀ t, Spec C (fun w r => P w ⟨t, r⟩) m (fun a w r => Q a w ⟨t, r⟩) fun e w r => E e w ⟨t, r⟩) :
    Spec C P (Eff.onWorld m) Q E := by
  intro w s hs hCw
  exact h s.own w s.world hs hCw

theorem frame {ρ : Type} {I : Assn ω ρ} {m : Eff ρ ω ε α} {Q : α → Assn ω ρ} {E : ε → Assn ω ρ}
    {N : τ → Prop} (h : Spec C I m Q E) :
    Spec C (fun w s => I w s.world ∧ N s.own) (Eff.onWorld m)
      (fun a w s => Q a w s.world ∧ N s.own) fun e w s => E e w s.world ∧ N s.own := by
  intro w s hs hCw
  have hm := h w s.world hs.1 hCw
  rcases hx : m s.world with ⟨e | a, r, evs⟩ <;> simp only [Eff.onWorld, hx] at hm ⊢ <;>
    exact ⟨hm, hs.2⟩

theorem anything : Spec C P m (fun _ _ _ => True) fun _ _ _ => True := by
  intro h s _ _
  split <;> trivial

theorem own {ρ : Type} {N : τ → Prop} {m : Eff ρ ω ε α} : Keeps C (fun _ (s : Shared τ ρ) => N s.own) m.onWorld := by
  intro h s hs _
  split <;> exact hs

end Spec

theorem Keeps.after {C : List ω → Prop} {I : Assn ω σ} {m : Eff σ ω ε α} (h : Keeps C I m) {s : σ}
    (hs : I w s) (hC : C (w ++ (m s).2.2)) : I (w ++ (m s).2.2) (m s).2.1 := by
  have hm := h w s hs hC
  split at hm <;> exact hm

theorem Keeps.runAll {C : List ω → Prop} {I : Assn ω σ} {perform : γ → Eff σ ω ε α} (hC : PrefixClosed C)
    (h : ∀ c, Keeps C I (perform c)) :
    ∀ (cs : List γ) (w : List ω) (s : σ), I w s → C (w ++ (Eff.runAll perform cs s).2) →
      I (w ++ (Eff.runAll perform cs s).2) (Eff.runAll perform cs s).1
  | [], w, s, hs, _ => by simpa [Eff.runAll] using hs
  | c :: cs, w, s, hs, hCw => by
    simp only [Eff.runAll, ← List.append_assoc] at hCw ⊢
    exact Keeps.runAll hC h cs _ _ ((h c).after hs (hC _ _ hCw)) hCw

section Calls

variable {γ : Type} {perform : γ → Eff σ ω ε α} {A : γ → σ → Prop} {I Q : σ → Prop}

theorem Eff.throughout_of_meets (hstep : ∀ c s, I s → A c s → I ((perform c).final s)) (hQ : ∀ s, I s → Q s) :
    ∀ (cs : List γ) (s : σ), I s → Eff.Meets perform A cs s → Eff.Throughout perform Q cs s
  | [], s, h, _ => hQ s h
  | c :: cs, s, h, hmeets => ⟨hQ s h, throughout_of_meets hstep hQ cs _ (hstep c s h hmeets.1) hmeets.2⟩

theorem Eff.Throughout.last : ∀ {cs : List γ} {s : σ}, Eff.Throughout perform Q cs s → Q (Eff.runAll perform cs s).1
  | [], _, h => h
  | c :: cs, s, h => by
    show Q (Eff.runAll perform cs ((perform c).final s)).1
    exact Throughout.last h.2

end Calls

section Each

variable {ρ κ : Type} {C : List ω → Prop} {I : Assn ω ρ} {F : ε → Assn ω ρ} {J : κ → τ → Prop}
  {f : κ → Eff (Shared τ ρ) ω ε Unit}

theorem eachFrom_keys (f : κ → Eff (Shared τ ρ) ω ε Unit) : ∀ (ts : List (κ × τ)) (r : ρ),
    (Eff.eachFrom f ts r).2.1.own.map Prod.fst = ts.map Prod.fst
  | [], _ => rfl
  | (k, t) :: ts, r => by
    unfold Eff.eachFrom
    split
    · rfl
    · rename_i s evs _
      exact congrArg (k :: ·) (eachFrom_keys f ts s.world)

theorem eachFrom_spec (hC : PrefixClosed C)
    (hf : ∀ k, Spec C (fun w s => I w s.world ∧ J k s.own) (f k)
      (fun _ w s => I w s.world ∧ J k s.own) fun e w s => F e w s.world ∧ J k s.own) :
    ∀ (ts : List (κ × τ)) (w : List ω) (r : ρ), I w r → (∀ e ∈ ts, J e.1 e.2) →
      C (w ++ (Eff.eachFrom f ts r).2.2) →
      (∀ e ∈ (Eff.eachFrom f ts r).2.1.own, J e.1 e.2) ∧
      match (Eff.eachFrom f ts r).1 with
      | .ok _ => I (w ++ (Eff.eachFrom f ts r).2.2) (Eff.eachFrom f ts r).2.1.world
      | .error e => F e (w ++ (Eff.eachFrom f ts r).2.2) (Eff.eachFrom f ts r).2.1.world
  | [], w, r, hI, _, _ => by
    simpa [Eff.eachFrom] using hI
  | (k, t) :: ts, w, r, hI, hJ, hCw => by
    have hstep := hf k w ⟨t, r⟩ ⟨hI, hJ (k, t) List.mem_cons_self⟩
    have htail : ∀ e ∈ ts, J e.1 e.2 := fun e he => hJ e (List.mem_cons_of_mem _ he)
    rcases hx : f k ⟨t, r⟩ with ⟨e | u, s, evs⟩
    · have he : Eff.eachFrom f ((k, t) :: ts) r
          = (.error e, ⟨(k, s.own) :: ts, s.world⟩, evs) := by
        simp only [Eff.eachFrom, hx]
      rw [he] at hCw ⊢
      rw [hx] at hstep
      obtain ⟨hF, hJ'⟩ := hstep hCw
      refine ⟨fun e' he' => ?_, hF⟩
      rcases List.mem_cons.mp he' with he' | he'
      · rw [he']
        exact hJ'
      · exact htail e' he'
    · have he : Eff.eachFrom f ((k, t) :: ts) r
          = ((Eff.eachFrom f ts s.world).1,
            ⟨(k, s.own) :: (Eff.eachFrom f ts s.world).2.1.own,
              (Eff.eachFrom f ts s.world).2.1.world⟩,
            evs ++ (Eff.eachFrom f ts s.world).2.2) := by
        simp only [Eff.eachFrom, hx]
      rw [he] at hCw ⊢
      rw [hx] at hstep
      rw [← List.append_assoc] at hCw ⊢
      obtain ⟨hI', hJ'⟩ := hstep (hC _ _ hCw)
      obtain ⟨hown, hrest⟩ := eachFrom_spec hC hf ts (w ++ evs) s.world hI' htail hCw
      refine ⟨fun e' he' => ?_, hrest⟩
      rcases List.mem_cons.mp he' with he' | he'
      · rw [he']
        exact hJ'
      · exact hown e' he'

end Each

end Effect
