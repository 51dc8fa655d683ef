import KrabkaStreams.ThreadRuns
import KrabkaStreams.Proofs.ThreadRules

/-!
# Runs of a thread, call by call

An assignment names every task once (`nodup_keys_desired`), so it gives each at most one role.
-/

namespace KrabkaStreams

theorem nodup_keys_desired (a : StreamsAssignment) : (OrdMap.keys (StreamThread.desired a)).Nodup := by
  have hadd : ∀ (role : TaskRole) (ta : TaskAssignment) (ps : List Int)
      (m : OrdMap TaskKey (TaskRole × TaskAssignment)), m.keys.Nodup →
      (OrdMap.keys (ps.foldl (fun m p => m.insert (ta.subtopologyId, p) (role, ta)) m)).Nodup := by
    intro role ta ps
    induction ps with
    | nil => exact fun _ h => h
    | cons p ps ih => exact fun m h => ih _ (OrdMap.nodup_keys_insert h _ _)
  have hall : ∀ (role : TaskRole) (tas : List TaskAssignment)
      (m : OrdMap TaskKey (TaskRole × TaskAssignment)), m.keys.Nodup →
      (OrdMap.keys (tas.foldl (fun m ta => ta.partitions.foldl (fun m p =>
        m.insert (ta.subtopologyId, p) (role, ta)) m) m)).Nodup := by
    intro role tas
    induction tas with
    | nil => exact fun _ h => h
    | cons ta tas ih => exact fun m h => ih _ (hadd role ta _ m h)
  exact hall .warmup _ _ (hall .standby _ _ (hall .active _ _ List.nodup_nil))

namespace StreamThread

theorem roleOf_of_mem {a : StreamsAssignment} {e : TaskKey × TaskRole × TaskAssignment} (he : e ∈ desired a) :
    roleOf a e.1 = some e.2.1 := by
  unfold roleOf
  rw [OrdMap.get?_of_mem (nodup_keys_desired a) he]
  rfl

end StreamThread

end KrabkaStreams
