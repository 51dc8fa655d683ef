import KrabkaStreams.Thread

/-!
# Conditions on the runs of a thread

What is asked of the state in which each call of a run is made, and what holds before and after every call. An error of
a call does not end the run.
-/

namespace KrabkaStreams

namespace StreamThread

open Effect

variable {E P M S V : Type} [Broker E] [StateStore S V] [Processor P M S V]

abbrev Meets (guarantee : ProcessingGuarantee) (A : Call P M S V → ThreadState E P M S V → Prop) :
    List (Call P M S V) → ThreadState E P M S V → Prop :=
  Eff.Meets (perform guarantee) A

abbrev Throughout (guarantee : ProcessingGuarantee) (Q : ThreadState E P M S V → Prop) :
    List (Call P M S V) → ThreadState E P M S V → Prop :=
  Eff.Throughout (perform guarantee) Q

def roleOf (a : StreamsAssignment) (key : TaskKey) : Option TaskRole := ((desired a).get? key).map Prod.fst

end StreamThread

end KrabkaStreams
