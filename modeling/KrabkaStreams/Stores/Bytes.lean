import KrabkaStreams.Stores.KeyValue

/-!
# What the window and the session store share

A byte map under composite keys, plain or under a record cache, with the serdes of the keys and the
values and the changelog buffer. A plain write is logged at once, a cached one when the cache is
flushed.
-/

namespace KrabkaStreams

structure ByteStore (K V : Type) where
  changelogTopic : Topic
  backing : Backing
  keySerde : Serde K
  valueSerde : Serde V
  changelog : List (Bytes × Option Bytes)
  logging : Bool
  pendingCtx : Option RecordContext

namespace ByteStore

variable {K V : Type} (s : ByteStore K V) (kb : Bytes)

def inMemory (keySerde : Serde K) (valueSerde : Serde V) (changelogTopic : Topic) : ByteStore K V where
  changelogTopic := changelogTopic
  backing := .plain .empty
  keySerde := keySerde
  valueSerde := valueSerde
  changelog := []
  logging := true
  pendingCtx := none

def setRecordContext (ctx : RecordContext) : ByteStore K V :=
  { s with pendingCtx := some ctx }

def writeCtx : RecordContext := s.pendingCtx.getD ⟨s.changelogTopic, 0, 0, 0⟩

def keyBytes (key : K) : Bytes := s.keySerde.serialize s.changelogTopic key

def valueBytes (value : V) : Bytes := s.valueSerde.serialize s.changelogTopic value

def decodeKey : Except ProcessorError K :=
  match s.keySerde.deserialize s.changelogTopic kb with
  | .ok k => .ok k
  | .error _ => .error .panicked

def decodeValue (vb : Bytes) : Except ProcessorError V :=
  match s.valueSerde.deserialize s.changelogTopic vb with
  | .ok v => .ok v
  | .error _ => .error .panicked

def record (vb : Option Bytes) : ByteStore K V :=
  if s.logging then { s with changelog := s.changelog ++ [(kb, vb)] } else s

def put (kb vb : Bytes) : ByteStore K V :=
  let written := { s with backing := s.backing.put kb vb s.writeCtx }
  if s.backing.isCached then written else written.record kb (some vb)

def remove : ByteStore K V :=
  let written := { s with backing := (s.backing.delete kb s.writeCtx).2 }
  if s.backing.isCached then written else written.record kb none

def isCached : Bool := s.backing.isCached

/-- Write the dirty entries of the cache through and log them; `change` is what is made of one. -/
def flushWith {R : Type} (change : Bytes × Option Bytes × Option Bytes × RecordContext → Except ProcessorError R)
    (s : ByteStore K V) : Except ProcessorError (List R) × ByteStore K V :=
  match s.backing with
  | .plain _ => (.ok [], s)
  | .cached c =>
    let drained := c.flushWithOld.1
    (drained.mapM change,
      drained.foldl (fun s d => s.record d.1 d.2.2.1) { s with backing := .cached c.flushWithOld.2 })

def takeChangelog : List (Bytes × Option Bytes) × ByteStore K V :=
  (s.changelog, { s with changelog := [] })

def applyChangelog (vb : Option Bytes) : ByteStore K V :=
  { s with backing := s.backing.apply kb vb }

def setLogging (on : Bool) : ByteStore K V := { s with logging := on }

def enableCache : ByteStore K V := { s with backing := s.backing.enableCache }

def clear : ByteStore K V := { s with backing := s.backing.clear, changelog := [] }

def restoreSnapshot (data : Bytes) : Except StreamsClientError (ByteStore K V) := do
  let backing ← s.backing.restore data
  return { s with backing := backing, changelog := [] }

end ByteStore

end KrabkaStreams
