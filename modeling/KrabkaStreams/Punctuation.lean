import KrabkaStreams.Graph

/-!
# Punctuation passes

What a pass of `Graph::punctuate` fires, and what a run of passes fires of one schedule. A schedule has no name of its
own in the source. It is followed by its index, which a pass moves down by the cancelled entries it drops.
-/

namespace KrabkaStreams

namespace Graph

variable {P M S V : Type} [Processor P M S V] (g : Graph P M S V) (ty : PunctuationType) (now : Int)

def dropCancelled : Graph P M S V :=
  { g with schedules := g.schedules.filter fun e => !g.cancelled.contains e.cancel }

def fired (ty : PunctuationType) (now : Int) : List Nat → Graph P M S V → List Nat
  | [], _ => []
  | i :: is, g =>
    match g.schedules[i]? with
    | none => []
    | some e =>
      if g.isDue ty now e then
        match g.fireSchedule i now with
        | (.error _, _) => [i]
        | (.ok (), g') => i :: fired ty now is (g'.setNextTime i (resync e.nextTime e.interval now))
      else fired ty now is g

def passFires : List Nat :=
  fired ty now (List.range g.dropCancelled.schedules.length) g.dropCancelled

def beforeTurn (i : Nat) : Graph P M S V :=
  (punctuateLoop ty now (List.range i) g.dropCancelled).2

/-- A pass fires what is due and not cancelled, once, and moves it past the clock by one interval at most. -/
structure FiresDue : Prop where
  once : ∀ i, (g.passFires ty now).count i ≤ 1
  fires : ∀ i e, g.dropCancelled.schedules[i]? = some e →
    (i ∈ g.passFires ty now ↔ e.ty = ty ∧ e.nextTime ≤ now ∧ e.cancel ∉ (g.beforeTurn ty now i).cancelled)
  next : ∀ i e, g.dropCancelled.schedules[i]? = some e → 1 ≤ e.interval → i64Min ≤ e.nextTime →
    now + e.interval ≤ i64Max → (g.punctuate ty now).1 = .ok () → i ∈ g.passFires ty now →
    ∃ e', (g.punctuate ty now).2.schedules[i]? = some e' ∧ now < e'.nextTime ∧ e'.nextTime ≤ now + e.interval

def Delivers : Prop :=
  ∀ i < g.dropCancelled.schedules.length,
    (g.beforeTurn ty now i).schedules[i]?.any ((g.beforeTurn ty now i).isDue ty now) = true →
      ((g.beforeTurn ty now i).fireSchedule i now).1.isOk = true

/-- Where a pass moves the schedule at `j`; a cancelled one is dropped. -/
def liveIndex (j : Nat) : Option Nat :=
  match g.schedules[j]? with
  | none => none
  | some e =>
    if g.cancelled.contains e.cancel then none
    else some ((g.schedules.take j).filter fun e => !g.cancelled.contains e.cancel).length

end Graph

inductive GraphCall
  | pipe (topic : Topic) (partition offset : Int) (key : Option Bytes) (value : Bytes) (timestamp : Int)
  | flushCaches
  | punctuateStreamTime (streamTime : Int)
  | punctuateWallClock (now : Int)
  deriving Repr, DecidableEq

namespace GraphCall

variable {P M S V : Type} [StateStore S V] [Processor P M S V]

def perform (c : GraphCall) (g : Graph P M S V) : Except ProcessorError Unit × Graph P M S V :=
  match c with
  | .pipe topic partition offset key value timestamp => g.pipe topic partition offset key value timestamp
  | .flushCaches => g.flushCaches
  | .punctuateStreamTime streamTime => g.punctuateStreamTime streamTime
  | .punctuateWallClock now => g.punctuateWallClock now

def pass (c : GraphCall) (g : Graph P M S V) : Option (PunctuationType × Int × Graph P M S V) :=
  match c with
  | .punctuateStreamTime streamTime =>
    some (.streamTime, max g.streamTime streamTime, { g with streamTime := max g.streamTime streamTime })
  | .punctuateWallClock now => some (.wallClockTime, now, { g with wallClock := now })
  | .pipe .. | .flushCaches => none

/-- How often the calls fire the schedule at `j`. The calls are made one after the other, whatever they return. -/
def timesFired : List GraphCall → Graph P M S V → Nat → Nat
  | [], _, _ => 0
  | c :: cs, g, j =>
    match c.pass g with
    | none => timesFired cs (c.perform g).2 j
    | some (ty, now, g₀) =>
      match g₀.liveIndex j with
      | none => 0
      | some i => (g₀.passFires ty now).count i + timesFired cs (c.perform g).2 i

def ClocksUpTo (ty : PunctuationType) (T : Int) : List GraphCall → Graph P M S V → Prop
  | [], _ => True
  | c :: cs, g => (∀ now g₀, c.pass g = some (ty, now, g₀) → now ≤ T) ∧ ClocksUpTo ty T cs (c.perform g).2

/-- Up to the clock `T`, the calls fire each schedule at most once per interval from when it is first due. -/
def WithoutBursts (cs : List GraphCall) (g : Graph P M S V) : Prop :=
  ∀ j e T, g.schedules[j]? = some e → 1 ≤ e.interval → i64Min ≤ e.nextTime → T + e.interval ≤ i64Max →
    ClocksUpTo e.ty T cs g → (timesFired cs g j : Int) ≤ max 0 (1 + (T - e.nextTime) / e.interval)

/-- Every pass of the calls fires what is due, and from no point of them on does a schedule burst. -/
def Regular : List GraphCall → Graph P M S V → Prop
  | [], _ => True
  | c :: cs, g =>
    (∀ ty now g₀, c.pass g = some (ty, now, g₀) → g₀.FiresDue ty now) ∧ WithoutBursts (c :: cs) g ∧
      Regular cs (c.perform g).2

def Deliver : List GraphCall → Graph P M S V → Prop
  | [], _ => True
  | c :: cs, g => (∀ ty now g₀, c.pass g = some (ty, now, g₀) → g₀.Delivers ty now) ∧ Deliver cs (c.perform g).2

end GraphCall

end KrabkaStreams
