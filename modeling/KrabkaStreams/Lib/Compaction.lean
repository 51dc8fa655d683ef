import KrabkaStreams.Lib.SortedMap

/-!
# Compacted logs

Compaction drops entries of a log whose key is written again later. A replay in which the last write of a key
counts does not see the difference (`Compacts.foldl_eq`).
-/

namespace SortedMap

variable {κ α β : Type} [LinearOrder κ]

inductive Compacts : List (κ × β) → List (κ × β) → Prop
  | nil : Compacts [] []
  | keep {kept log : List (κ × β)} (e : κ × β) (h : Compacts kept log) : Compacts (e :: kept) (e :: log)
  | drop {kept log : List (κ × β)} {e : κ × β} (he : e.1 ∈ log.map Prod.fst) (h : Compacts kept log) :
    Compacts kept (e :: log)

section Replay

variable {step : SortedMap κ α → κ × β → SortedMap κ α} (val : β → Option α)
  (hat : ∀ m e, (step m e).get? e.1 = val e.2) (hoff : ∀ m e k, e.1 ≠ k → (step m e).get? k = m.get? k)

include val hat hoff

theorem foldl_congr : ∀ {log : List (κ × β)} {m n : SortedMap κ α}, (∀ k ∉ log.map Prod.fst, m.get? k = n.get? k) →
    log.foldl step m = log.foldl step n
  | [], m, n, h => ext_get? fun k => h k (by simp)
  | e :: log, m, n, h => by
    rw [List.foldl_cons, List.foldl_cons]
    refine foldl_congr fun k hk => ?_
    by_cases he : e.1 = k
    · rw [← he, hat, hat]
    · rw [hoff m e k he, hoff n e k he]
      exact h k (by simp [hk, Ne.symm he])

theorem Compacts.foldl_eq {kept log : List (κ × β)} (h : Compacts kept log) (m : SortedMap κ α) :
    kept.foldl step m = log.foldl step m := by
  induction h generalizing m with
  | nil => rfl
  | keep e _ ih => exact ih (step m e)
  | drop he _ ih =>
    rw [List.foldl_cons, ih]
    exact foldl_congr val hat hoff fun k hk => (hoff m _ k fun h => hk (h ▸ he)).symm

end Replay

end SortedMap
