import KrabkaStreams.Snapshot

/-!
# Snapshot round trips

Both snapshot layouts are read back field by field (`Codec.Takes`), up to the check that nothing is
left, and every reader fails with a snapshot error only.
-/

namespace KrabkaStreams

open Codec

/-- The number of the entries and their lengths fit four bytes. -/
def SizesFit (entries : List (Bytes × Bytes)) : Prop :=
  entries.length < 2 ^ 32 ∧ ∀ e ∈ entries, e.1.length < 2 ^ 32 ∧ e.2.length < 2 ^ 32

instance : DecidablePred SizesFit := fun _ => inferInstanceAs (Decidable (_ ∧ _))

def IsSnapshotError (e : StreamsClientError) : Prop := ∃ message, e = .snapshot message

namespace SnapshotReader

variable {b : Bytes}

theorem reads_u32 {x : Nat} (h : x < 2 ^ 32) : Reads u32 (putU32 x) x :=
  Takes.nat truncated (by omega)

theorem reads_sized (h : b.length < 2 ^ 32) : Reads sized (putSized b) b :=
  (reads_u32 h).bind (Takes.take truncated rfl)

theorem reads_version {v : Nat} {e : Nat → StreamsClientError} (h : v < 2 ^ 32) :
    Reads (do let version ← u32; if version = v then pure () else throw (e version)) (putU32 v) () := by
  refine (reads_u32 h).check ?_
  rw [if_pos rfl]
  exact .pure ()

theorem reads_entries : ∀ {es : List (Bytes × Bytes)},
    (∀ e ∈ es, e.1.length < 2 ^ 32 ∧ e.2.length < 2 ^ 32) →
      Reads (readEntries es.length) (es.flatMap fun e => putSized e.1 ++ putSized e.2) es
  | [], _ => .pure []
  | e :: es, h => by
    obtain ⟨hkey, hvalue⟩ := h e List.mem_cons_self
    have ih := reads_entries fun e' he' => h e' (List.mem_cons_of_mem _ he')
    simp only [List.flatMap_cons, List.append_assoc]
    exact (reads_sized hkey).bind ((reads_sized hvalue).bind (ih.map (e :: ·)))

theorem reads_readStore (snapshot : SortedMap String Bytes) {e : String × Bytes}
    (hname : (utf8 e.1).length < 2 ^ 32) (hvalue : e.2.length < 2 ^ 32) :
    Reads (readStore snapshot) (putSized (utf8 e.1) ++ putSized e.2) (snapshot.insert e.1 e.2) := by
  have hutf8 : Reads (storeName (utf8 e.1)) [] e.1 := by
    rw [storeName, ofUtf8_utf8]
    exact .pure e.1
  exact (reads_sized hname).bind (hutf8.bind ((reads_sized hvalue).map (snapshot.insert e.1 ·)))

theorem u32_fails : FailsWith IsSnapshotError u32 := (FailsWith.take 4 ⟨_, rfl⟩).bind fun _ => .pure _

theorem sized_fails : FailsWith IsSnapshotError sized := u32_fails.bind fun n => .take n ⟨_, rfl⟩

theorem version_fails {v : Nat} {message : Nat → String} :
    FailsWith IsSnapshotError
      (do let version ← u32; if version = v then pure () else throw (.snapshot (message version))) := by
  refine u32_fails.bind fun version => ?_
  split_ifs
  · exact .pure ()
  · exact .throw ⟨_, rfl⟩

theorem readEntries_fails : ∀ n, FailsWith IsSnapshotError (readEntries n)
  | 0 => .pure []
  | n + 1 => sized_fails.bind fun _ => sized_fails.bind fun _ => (readEntries_fails n).bind fun _ => .pure _

theorem readStore_fails (snapshot : SortedMap String Bytes) :
    FailsWith IsSnapshotError (readStore snapshot) := by
  refine sized_fails.bind fun raw => FailsWith.bind ?_ fun _ => sized_fails.bind fun _ => .pure _
  unfold storeName
  split
  · exact .pure _
  · exact .throw ⟨_, rfl⟩

end SnapshotReader

open SnapshotReader

theorem inverts_byteEntries {entries : List (Bytes × Bytes)} (h : SizesFit entries) :
    Inverts decodeByteEntries (encodeByteEntries entries) entries := by
  have hentries : Reads readByteEntries (putByteEntries entries) entries :=
    (reads_u32 h.1).bind (reads_entries h.2)
  have hversion : Reads storeVersion (putU32 storePayloadVersion) () := reads_version (by decide)
  exact Takes.inverts (hversion.bind (hentries.check (.finish _ entries)))

theorem inverts_snapshot {s : SortedMap String Bytes}
    (h : SizesFit (s.entries.map fun e => (utf8 e.1, e.2))) :
    Inverts decodeSnapshot (encodeSnapshot s) s := by
  obtain ⟨hcount, hsizes⟩ := h
  have hstores := Takes.times s.entries .empty fun e he snapshot =>
    reads_readStore snapshot (hsizes _ (List.mem_map_of_mem he)).1 (hsizes _ (List.mem_map_of_mem he)).2
  rw [SortedMap.foldl_insert_eq s.nodup_keys fun k a => s.get?_eq_some_iff k a] at hstores
  have hversion : Reads containerVersion (putU32 snapshotContainerVersion) () := reads_version (by decide)
  have hnumber := reads_u32 (x := s.entries.length) (by simpa using hcount)
  exact Takes.inverts (hversion.bind (hnumber.bind (hstores.check (.finish _ s))))

/-- Both codecs invert every encoding of sizes that fit, and every failure of the decoders is a snapshot
error: neither panics. -/
theorem snapshots_invert :
    (∀ s : SortedMap String Bytes, SizesFit (s.entries.map fun e => (utf8 e.1, e.2)) →
      Inverts decodeSnapshot (encodeSnapshot s) s) ∧
    (∀ entries, SizesFit entries → Inverts decodeByteEntries (encodeByteEntries entries) entries) ∧
    ∀ data e, decodeSnapshot data = .error e ∨ decodeByteEntries data = .error e → IsSnapshotError e := by
  refine ⟨fun s => inverts_snapshot, fun entries => inverts_byteEntries, fun data e h => ?_⟩
  rcases h with h | h
  · exact (version_fails.bind fun _ => u32_fails.bind fun n => (FailsWith.times readStore_fails n _).bind
      fun _ => (FailsWith.finish ⟨_, rfl⟩).bind fun _ => .pure _).run h
  · exact (version_fails.bind fun _ => (u32_fails.bind readEntries_fails).bind fun _ =>
      (FailsWith.finish ⟨_, rfl⟩).bind fun _ => .pure _).run h

theorem snapshots_invert_one :
    Inverts decodeSnapshot (encodeSnapshot (.insert .empty "store" [1])) (.insert .empty "store" [1]) ∧
    Inverts decodeByteEntries (encodeByteEntries [([1], []), ([1], [2])]) [([1], []), ([1], [2])] :=
  ⟨snapshots_invert.1 _ (by decide +kernel), snapshots_invert.2.1 _ (by decide)⟩

end KrabkaStreams
