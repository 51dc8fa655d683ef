import KrabkaStreams.Lib.Codec
import KrabkaStreams.Record
import Mathlib.Data.String.Basic

/-!
# Snapshot payloads

The payload of a byte-backed store: a version, an entry count, and the entries with their lengths,
all integers big-endian. The container of a task holds the payloads of its stores by name. The writers panic on a length that does not fit four bytes; here they wrap.
-/

namespace KrabkaStreams

open BigEndian

def putU32 (x : Nat) : Bytes := beBytes 4 x

def storePayloadVersion : Nat := 1

def truncated : StreamsClientError := .snapshot "truncated state snapshot"

abbrev SnapshotReader (α : Type) := StateT Bytes (Except StreamsClientError) α

namespace SnapshotReader

def take (count : Nat) : SnapshotReader Bytes := fun data =>
  if count ≤ data.length then .ok (data.take count, data.drop count) else .error truncated

def u32 : SnapshotReader Nat := do return beNat (← take 4)

def sized : SnapshotReader Bytes := do take (← u32)

def finish : SnapshotReader Unit := fun data =>
  if data.isEmpty then .ok ((), data) else .error (.snapshot "trailing bytes in state snapshot")

def storeVersion : SnapshotReader Unit := do
  let version ← u32
  if version = storePayloadVersion then pure ()
  else throw (.snapshot s!"unsupported store snapshot version {version}")

def readEntries : Nat → SnapshotReader (List (Bytes × Bytes))
  | 0 => pure []
  | n + 1 => do
    let key ← sized
    let value ← sized
    let rest ← readEntries n
    pure ((key, value) :: rest)

def readByteEntries : SnapshotReader (List (Bytes × Bytes)) := do readEntries (← u32)

end SnapshotReader

def putSized (value : Bytes) : Bytes := putU32 value.length ++ value

def putByteEntries (entries : List (Bytes × Bytes)) : Bytes :=
  putU32 entries.length ++ entries.flatMap fun e => putSized e.1 ++ putSized e.2

def encodeByteEntries (entries : List (Bytes × Bytes)) : Bytes :=
  putU32 storePayloadVersion ++ putByteEntries entries

def decodeByteEntries (data : Bytes) : Except StreamsClientError (List (Bytes × Bytes)) :=
  let decode : SnapshotReader (List (Bytes × Bytes)) := do
    SnapshotReader.storeVersion
    let entries ← SnapshotReader.readByteEntries
    SnapshotReader.finish
    pure entries
  (·.1) <$> decode.run data

def snapshotContainerVersion : Nat := 1

/-- `encode_snapshot`; names order as their UTF-8 bytes do. -/
def encodeSnapshot (snapshot : SortedMap String Bytes) : Bytes :=
  putU32 snapshotContainerVersion ++ (putU32 snapshot.entries.length ++
    snapshot.entries.flatMap fun e => putSized (Codec.utf8 e.1) ++ putSized e.2)

namespace SnapshotReader

def containerVersion : SnapshotReader Unit := do
  let version ← u32
  if version = snapshotContainerVersion then pure ()
  else throw (.snapshot s!"unsupported state snapshot version {version}")

def storeName (name : Bytes) : SnapshotReader String :=
  match Codec.ofUtf8 name with
  | some name => pure name
  | none => throw (.snapshot "non-UTF-8 store name")

def readStore (snapshot : SortedMap String Bytes) : SnapshotReader (SortedMap String Bytes) := do
  let raw ← sized
  let name ← storeName raw
  let value ← sized
  pure (snapshot.insert name value)

end SnapshotReader

def decodeSnapshot (data : Bytes) : Except StreamsClientError (SortedMap String Bytes) :=
  let decode : SnapshotReader (SortedMap String Bytes) := do
    SnapshotReader.containerVersion
    let count ← SnapshotReader.u32
    let snapshot ← Codec.times SnapshotReader.readStore count .empty
    SnapshotReader.finish
    pure snapshot
  (·.1) <$> decode.run data

end KrabkaStreams
