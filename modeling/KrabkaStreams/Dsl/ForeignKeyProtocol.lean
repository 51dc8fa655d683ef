import KrabkaStreams.Dsl.ForeignKeyNetwork

/-!
# The protocol of the foreign-key join

The join without its bytes: the tables are partial functions, a message carries the left value that the
code sends the hash of, and the resolver compares values.
-/

namespace KrabkaStreams

variable {K VA KO VB VR : Type}

structure FkProtocol (VA KO VB VR : Type) where
  fk : VA → KO
  joiner : VA → Option VB → VR
  isLeft : Bool

namespace FkProtocol

structure Registration (K VA : Type) where
  key : K
  instruction : Instruction
  value : Option VA

structure Response (VA VB : Type) where
  value : Option VA
  foreign : Option VB

structure State (K VA KO VB VR : Type) where
  left : K → Option VA
  right : KO → Option VB
  subs : KO → K → Option (Option VA)
  regs : KO → List (Registration K VA)
  resps : K → List (Response VA VB)
  out : K → Option VR

def State.start : State K VA KO VB VR where
  left _ := none
  right _ := none
  subs _ _ := none
  regs _ := []
  resps _ := []
  out _ := none

def instructions [DecidableEq KO] (p : FkProtocol VA KO VB VR) (old new : Option VA) :
    List (KO × Instruction) :=
  if p.isLeft then
    (old.toList.filter fun o => new.map p.fk ≠ some (p.fk o)).map (fun o => (p.fk o, .deleteKeyNoPropagate)) ++
      new.toList.map fun n => (p.fk n, .propagateNullIfNoFkValAvailable)
  else
    match old, new with
    | none, none => []
    | some o, none => [(p.fk o, .deleteKeyAndPropagate)]
    | some o, some n =>
      if p.fk o = p.fk n then [(p.fk n, .propagateOnlyIfFkValAvailable)]
      else [(p.fk o, .deleteKeyNoPropagate), (p.fk n, .propagateNullIfNoFkValAvailable)]
    | none, some n => [(p.fk n, .propagateOnlyIfFkValAvailable)]

def answer (right : Option VB) : Instruction → Option (Option VB)
  | .deleteKeyAndPropagate => some none
  | .propagateNullIfNoFkValAvailable => some right
  | .propagateOnlyIfFkValAvailable => right.map some
  | .deleteKeyNoPropagate => none

def resolve (p : FkProtocol VA KO VB VR) (left : Option VA) (foreign : Option VB) : Option VR :=
  if foreign.isNone && (!p.isLeft || left.isNone) then none else left.map fun a => p.joiner a foreign

def joinRow (p : FkProtocol VA KO VB VR) (left : Option VA) (right : KO → Option VB) : Option VR :=
  p.resolve left (left.bind fun a => right (p.fk a))

variable [DecidableEq K] [DecidableEq VA] [DecidableEq KO]

def step (p : FkProtocol VA KO VB VR) (s : State K VA KO VB VR) : FkEvent K VA KO VB → State K VA KO VB VR
  | .left k new _ _ => { s with
      left := Function.update s.left k new
      regs := enqueueAll s.regs ((p.instructions (s.left k) new).map fun i => (i.1, ⟨k, i.2, new⟩)) }
  | .right f new _ => { s with
      right := Function.update s.right f new
      resps := fun k => s.resps k ++ (s.subs f k).toList.map fun v => ⟨v, new⟩ }
  | .register f => match s.regs f with
    | [] => s
    | m :: rest => { s with
        regs := Function.update s.regs f rest
        subs := Function.update s.subs f (Function.update (s.subs f) m.key
          (if m.instruction.isDelete then none else some m.value))
        resps := enqueueAll s.resps ((answer (s.right f) m.instruction).toList.map fun b => (m.key, ⟨m.value, b⟩)) }
  | .respond k => match s.resps k with
    | [] => s
    | m :: rest => { s with
        resps := Function.update s.resps k rest
        out := if m.value = s.left k then Function.update s.out k (p.resolve (s.left k) m.foreign) else s.out }

end FkProtocol

end KrabkaStreams
