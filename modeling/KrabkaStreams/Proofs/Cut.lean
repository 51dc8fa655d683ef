import KrabkaStreams.Barrier.Cut
import KrabkaStreams.Lib.Runs

/-!
# Cut round trips

A cut record is read back field by field (`Codec.Takes`). Its topics may be listed in any order, and a
topic more than once: the decoder puts the offsets of each topic together (`foldl_addTopic`).
-/

namespace KrabkaStreams.Barrier

open BigEndian Codec

/-- The record lists each offset of the cut and each missing partition once, and no others. -/
structure BarrierCut.Lists (c : BarrierCut) (topics : List (String × List (Int × Int)))
    (missing : List (String × Int)) : Prop where
  distinct : (topics.flatMap fun t => t.2.map fun e => (t.1, e.1)).Nodup
  topic : ∀ t, c.offsets.get? t ≠ none ↔ t ∈ topics.map Prod.fst
  offset : ∀ t p o, c.offset t p = some o ↔ ∃ ps, (t, ps) ∈ topics ∧ (p, o) ∈ ps
  missingDistinct : missing.Nodup
  missing : ∀ tp, c.missing.get? (toLex tp) = some () ↔ tp ∈ missing

abbrev FitsString (s : String) : Prop := (utf8 s).length < 2 ^ 15

abbrev IsI32 (x : Int) : Prop := -2 ^ 31 ≤ x ∧ x < 2 ^ 31

/-- The integers are in the ranges of their types, and the counts and lengths fit theirs. -/
structure BarrierCut.Encodable (c : BarrierCut) (topics : List (String × List (Int × Int)))
    (missing : List (String × Int)) : Prop where
  group : FitsString c.group
  epoch : IsI64 c.epoch
  triggeredAt : IsI64 c.triggeredAt
  completedAt : IsI64 c.completedAt
  topicCount : topics.length < 2 ^ 31
  topic : ∀ t ∈ topics, FitsString t.1 ∧ t.2.length < 2 ^ 31 ∧ ∀ e ∈ t.2, IsI32 e.1 ∧ IsI64 e.2
  missingCount : missing.length < 2 ^ 31
  partition : ∀ m ∈ missing, FitsString m.1 ∧ IsI32 m.2

def BarrierCut.key (c : BarrierCut) : BarrierKey := ⟨cutKind, c.group, c.epoch⟩

def IsFormatError (e : StreamsClientError) : Prop := ∃ part message, e = .barrierFormat part message

section Offsets

variable {c : BarrierCut} {topics : List (String × List (Int × Int))} {missing : List (String × Int)}

def addTopic (offsets : SortedMap String (SortedMap Int Int)) (t : String × List (Int × Int)) :
    SortedMap String (SortedMap Int Int) :=
  offsets.insert t.1 (t.2.foldl (fun m e => m.insert e.1 e.2) ((offsets.get? t.1).getD .empty))

theorem get?_foldl_addTopic (t : String) : ∀ (topics : List (String × List (Int × Int)))
    (m : SortedMap String (SortedMap Int Int)), (topics.foldl addTopic m).get? t =
      (topics.filter (·.1 = t)).foldl (fun o e => some (e.2.foldl (fun m e => m.insert e.1 e.2) (o.getD .empty)))
        (m.get? t)
  | [], _ => rfl
  | e :: topics, m => by
    rw [List.foldl_cons, get?_foldl_addTopic t topics]
    by_cases h : e.1 = t
    · subst h
      simp [addTopic]
    · simp [addTopic, h, SortedMap.get?_insert_of_ne h]

theorem foldl_some : ∀ (ts : List (String × List (Int × Int))) (m : SortedMap Int Int),
    ts.foldl (fun o e => some (e.2.foldl (fun m e => m.insert e.1 e.2) (Option.getD o .empty))) (some m)
      = some ((ts.flatMap Prod.snd).foldl (fun m e => m.insert e.1 e.2) m)
  | [], _ => rfl
  | t :: ts, m => by
    rw [List.foldl_cons, foldl_some ts, List.flatMap_cons, List.foldl_append]
    rfl

theorem BarrierCut.Lists.nodup (h : c.Lists topics missing) (t : String) :
    (((topics.filter (·.1 = t)).flatMap Prod.snd).map Prod.fst).Nodup := by
  refine List.Nodup.of_map (fun p => (t, p)) (List.Nodup.sublist ?_ h.distinct)
  have heq : ((((topics.filter (·.1 = t)).flatMap Prod.snd).map Prod.fst).map fun p => (t, p))
      = (topics.filter (·.1 = t)).flatMap fun t => t.2.map fun e => (t.1, e.1) := by
    rw [List.map_map, List.map_flatMap]
    refine List.flatMap_congr fun e he => ?_
    simp only [List.mem_filter, decide_eq_true_eq] at he
    simp [he.2, Function.comp_def]
  rw [heq, List.flatMap_def, List.flatMap_def]
  exact (List.filter_sublist.map _).flatten

theorem BarrierCut.Lists.foldl_addTopic (h : c.Lists topics missing) :
    topics.foldl addTopic .empty = c.offsets := by
  refine SortedMap.ext_get? fun t => ?_
  rw [get?_foldl_addTopic]
  have hmem : c.offsets.get? t ≠ none ↔ topics.filter (·.1 = t) ≠ [] := by
    rw [h.topic]
    simp
  rcases hf : topics.filter (·.1 = t) with _ | ⟨e, ts⟩
  · rw [hf] at hmem ⊢
    exact (not_not.mp fun hne => hmem.mp hne rfl).symm
  · rcases hm : c.offsets.get? t with _ | m
    · simp [hm, hf] at hmem
    · have hnodup := h.nodup t
      have hentries (p o : Int) : m.get? p = some o ↔ (p, o) ∈ (e :: ts).flatMap Prod.snd := by
        have hiff := h.offset t p o
        rw [BarrierCut.offset, hm] at hiff
        rw [← hf]
        refine hiff.trans ?_
        simp
      rw [hf] at hnodup
      have hfold := SortedMap.foldl_insert_eq hnodup hentries
      rw [← hfold, hf, List.foldl_cons, List.flatMap_cons, List.foldl_append]
      exact foldl_some ts _

theorem BarrierCut.Lists.foldl_missing (h : c.Lists topics missing) :
    missing.foldl (fun m tp => m.insert (toLex tp) ()) .empty = c.missing := by
  have hfold : (missing.map fun tp => (toLex tp, ())).foldl (fun m e => m.insert e.1 e.2) .empty = c.missing := by
    refine SortedMap.foldl_insert_eq ?_ fun tp u => ?_
    · simpa [Function.comp_def] using h.missingDistinct.map toLex.injective
    · refine (h.missing (ofLex tp)).trans ⟨fun hm => List.mem_map_of_mem hm, fun hm => ?_⟩
      obtain ⟨tp', hmem, he⟩ := List.mem_map.mp hm
      cases he
      exact hmem
  rwa [List.foldl_map] at hfold

end Offsets

namespace Reader

variable (part : String) {x : Int} {s : String}

theorem reads_int {n : Nat} (hlo : -(256 : Int) ^ n ≤ 2 * x) (hhi : 2 * x < 256 ^ n) :
    Reads (int part n) (beIntBytes n x) x := Takes.int (truncated part) hlo hhi

theorem reads_i32 (h : IsI32 x) : Reads (i32 part) (beIntBytes 4 x) x := by
  exact reads_int part (by omega) (by omega)

theorem reads_i64 (h : IsI64 x) : Reads (i64 part) (beIntBytes 8 x) x := by
  simp only [IsI64, i64Min, i64Max] at h
  exact reads_int part (by omega) (by omega)

theorem reads_nonneg (what : String) (n : Nat) : Reads (nonneg part what n) [] n := by
  rw [nonneg, if_neg (by omega)]
  exact .pure n

theorem reads_string (h : FitsString s) : Reads (string part) (putString s) s := by
  have hutf8 : Reads (utf8 part (Codec.utf8 s)) [] s := by
    rw [utf8, ofUtf8_utf8]
    exact .pure s
  exact (reads_int part (by omega) (by omega)).bind ((reads_nonneg part "string" _).bind
    ((Takes.take _ rfl).check hutf8))

theorem reads_count {n : Nat} (h : n < 2 ^ 31) : Reads (count part) (beIntBytes 4 n) n :=
  (reads_i32 part (by unfold IsI32; omega)).check (reads_nonneg part "array" n)

theorem reads_version : Reads (version part) (beIntBytes 2 recordVersion) () := by
  refine (reads_int part (by decide) (by decide)).check ?_
  rw [if_pos rfl]
  exact .pure ()

theorem reads_topicOffsets {t : String × List (Int × Int)} (offsets : SortedMap String (SortedMap Int Int))
    (hname : FitsString t.1) (hcount : t.2.length < 2 ^ 31) (h : ∀ e ∈ t.2, IsI32 e.1 ∧ IsI64 e.2) :
    Reads (topicOffsets part offsets)
      (putString t.1 ++ putArray (fun e => beIntBytes 4 e.1 ++ beIntBytes 8 e.2) t.2) (addTopic offsets t) := by
  have hentry := Takes.times (r := partitionOffset part) t.2 ((offsets.get? t.1).getD .empty)
    fun e he m => (reads_i32 part (h e he).1).bind ((reads_i64 part (h e he).2).map (m.insert e.1 ·))
  exact (reads_string part hname).bind ((reads_count part hcount).bind (hentry.map (offsets.insert t.1 ·)))

variable {c : BarrierCut} {topics : List (String × List (Int × Int))} {missing : List (String × Int)}

theorem reads_cutOffsets (hl : c.Lists topics missing) (h : c.Encodable topics missing) :
    Reads (cutOffsets part) (putArray (fun t => putString t.1 ++
      putArray (fun e => beIntBytes 4 e.1 ++ beIntBytes 8 e.2) t.2) topics) c.offsets := by
  refine (reads_count part h.topicCount).bind ?_
  rw [← hl.foldl_addTopic]
  exact Takes.times topics SortedMap.empty fun t ht offsets =>
    reads_topicOffsets part offsets (h.topic t ht).1 (h.topic t ht).2.1 (h.topic t ht).2.2

theorem reads_missingPartitions (hl : c.Lists topics missing) (h : c.Encodable topics missing) :
    Reads (missingPartitions part) (putArray (fun m => putString m.1 ++ beIntBytes 4 m.2) missing)
      c.missing := by
  refine (reads_count part h.missingCount).bind ?_
  rw [← hl.foldl_missing]
  exact Takes.times missing SortedMap.empty fun m hm s => (reads_string part (h.partition m hm).1).bind
    ((reads_i32 part (h.partition m hm).2).map fun p => s.insert (toLex (m.1, p)) ())

theorem reads_fromCode (status : CutStatus) : Reads (CutStatus.fromCode status.code) [] status := by
  cases status <;> exact .pure _

theorem int_fails (n : Nat) : FailsWith IsFormatError (int part n) :=
  (FailsWith.take n ⟨_, _, rfl⟩).bind fun _ => .pure _

theorem nonneg_fails (what : String) (n : Int) : FailsWith IsFormatError (nonneg part what n) := by
  unfold nonneg
  split_ifs
  · exact .throw ⟨_, _, rfl⟩
  · exact .pure _

theorem count_fails : FailsWith IsFormatError (count part) :=
  (int_fails part 4).bind (nonneg_fails part "array")

theorem string_fails : FailsWith IsFormatError (string part) := by
  refine (int_fails part 2).bind fun n => (nonneg_fails part "string" n).bind fun length =>
    (FailsWith.take length ⟨_, _, rfl⟩).bind fun bytes => ?_
  unfold utf8
  split
  · exact .pure _
  · exact .throw ⟨_, _, rfl⟩

theorem version_fails : FailsWith IsFormatError (version part) := by
  refine (int_fails part 2).bind fun version => ?_
  split_ifs
  · exact .pure ()
  · exact .throw ⟨_, _, rfl⟩

theorem fromCode_fails (code : Int) : FailsWith IsFormatError (CutStatus.fromCode code) := by
  unfold CutStatus.fromCode
  split_ifs
  · exact .pure _
  · exact .pure _
  · exact .throw ⟨_, _, rfl⟩

theorem cutOffsets_fails : FailsWith IsFormatError (cutOffsets part) := by
  refine (count_fails part).bind fun n => .times (fun offsets => ?_) n _
  exact (string_fails part).bind fun _ => (count_fails part).bind fun k => (FailsWith.times (fun _ =>
    (int_fails part 4).bind fun _ => (int_fails part 8).bind fun _ => .pure _) k _).bind fun _ => .pure _

theorem missingPartitions_fails : FailsWith IsFormatError (missingPartitions part) :=
  (count_fails part).bind fun n => .times (fun _ => (string_fails part).bind fun _ =>
    (int_fails part 4).bind fun _ => .pure _) n _

end Reader

open Reader

variable {c : BarrierCut} {topics : List (String × List (Int × Int))} {missing : List (String × Int)}

theorem inverts_key (h : c.Encodable topics missing) : Inverts decodeKey (encodeKey c.key) c.key := by
  have hkind : Reads (i16 keyPart) (beIntBytes 2 cutKind) cutKind :=
    reads_int keyPart (by decide) (by decide)
  exact Takes.inverts ((reads_version keyPart).bind (hkind.bind
    ((reads_string keyPart h.group).bind ((reads_i64 keyPart h.epoch).check (.finish _ c.key)))))

theorem inverts_cutValue (hl : c.Lists topics missing) (h : c.Encodable topics missing) :
    Inverts (decodeCutValue c.key) (encodeCutValue c topics missing) c := by
  have hcode : Reads (i8 valuePart) (beIntBytes 1 c.status.code) c.status.code := by
    cases c.status <;> exact reads_int valuePart (by decide) (by decide)
  exact Takes.inverts ((reads_version valuePart).bind ((reads_i64 valuePart h.triggeredAt).bind
    ((reads_i64 valuePart h.completedAt).bind (hcode.bind ((reads_fromCode c.status).bind
      ((reads_cutOffsets valuePart hl h).bind ((reads_missingPartitions valuePart hl h).check
        (.finish _ c))))))))

theorem decodeKey_fails {data : Bytes} {e : StreamsClientError} (h : decodeKey data = .error e) :
    IsFormatError e :=
  ((version_fails keyPart).bind fun _ => (int_fails keyPart 2).bind fun _ => (string_fails keyPart).bind
    fun _ => (int_fails keyPart 8).bind fun _ => (FailsWith.finish ⟨_, _, rfl⟩).bind fun _ => .pure _).run h

theorem decodeCutValue_fails {key : BarrierKey} {data : Bytes} {e : StreamsClientError}
    (h : decodeCutValue key data = .error e) : IsFormatError e :=
  ((version_fails valuePart).bind fun _ => (int_fails valuePart 8).bind fun _ => (int_fails valuePart 8).bind
    fun _ => (int_fails valuePart 1).bind fun code => (fromCode_fails code).bind fun _ =>
      (cutOffsets_fails valuePart).bind fun _ => (missingPartitions_fails valuePart).bind fun _ =>
        (FailsWith.finish ⟨_, _, rfl⟩).bind fun _ => .pure _).run h

theorem decodeBarrierCut_eq (h : decodeKey (encodeKey c.key) = .ok c.key) (value : Bytes) :
    decodeBarrierCut (encodeKey c.key) (some value) = some <$> decodeCutValue c.key value := by
  rw [decodeBarrierCut, h]
  rfl

/-- A cut that fits the format is read back from every listing of it. Its key or its value cut short or
followed by more bytes is an error, and every error is one of the format: the decoder does not panic. -/
theorem decodeBarrierCut_inverts :
    (∀ (c : BarrierCut) (topics : List (String × List (Int × Int))) (missing : List (String × Int)),
      c.Lists topics missing → c.Encodable topics missing →
        Inverts (decodeBarrierCut · (some (encodeCutValue c topics missing))) (encodeKey c.key) (some c) ∧
        Inverts (fun value => decodeBarrierCut (encodeKey c.key) (some value))
          (encodeCutValue c topics missing) (some c)) ∧
    ∀ key value e, decodeBarrierCut key value = .error e → IsFormatError e := by
  refine ⟨fun c topics missing hl h => ?_, fun key value e h => ?_⟩
  · have hkey := inverts_key h
    have hvalue := inverts_cutValue hl h
    have hbad {key : Bytes} {value : Option Bytes} {e : StreamsClientError} (he : decodeKey key = .error e) :
        decodeBarrierCut key value = .error e := by
      rw [decodeBarrierCut, he]
      rfl
    have hexact : decodeBarrierCut (encodeKey c.key) (some (encodeCutValue c topics missing)) = .ok (some c) := by
      rw [decodeBarrierCut_eq hkey.exact, hvalue.exact]
      rfl
    refine ⟨⟨hexact, fun p hp hne => ?_, fun b hb => ?_⟩, ⟨hexact, fun p hp hne => ?_, fun b hb => ?_⟩⟩
    · obtain ⟨e, he⟩ := hkey.short p hp hne
      exact ⟨e, hbad he⟩
    · obtain ⟨e, he⟩ := hkey.long b hb
      exact ⟨e, hbad he⟩
    · obtain ⟨e, he⟩ := hvalue.short p hp hne
      exact ⟨e, by simp only [decodeBarrierCut_eq hkey.exact, he]; rfl⟩
    · obtain ⟨e, he⟩ := hvalue.long b hb
      exact ⟨e, by simp only [decodeBarrierCut_eq hkey.exact, he]; rfl⟩
  · rcases hk : decodeKey key with e' | key'
    · rw [decodeBarrierCut, hk] at h
      cases h
      exact decodeKey_fails hk
    · rw [decodeBarrierCut, hk] at h
      simp only [bind, Except.bind] at h
      split_ifs at h
      · cases h
      · rcases value with _ | value
        · cases h
        · rcases hv : decodeCutValue key' value with e' | c <;> simp only [hv] at h <;> cases h
          exact decodeCutValue_fails hv

/-- A cut with one topic that is listed twice. -/
theorem decodeBarrierCut_inverts_split :
    let c : BarrierCut := ⟨"g", 7, 1, 2, .complete, .insert .empty "t" (.insert (.insert .empty 0 5) 1 9), .empty⟩
    let topics := [("t", [((1 : Int), (9 : Int))]), ("t", [(0, 5)])]
    Inverts (decodeBarrierCut · (some (encodeCutValue c topics []))) (encodeKey c.key) (some c) := by
  refine (decodeBarrierCut_inverts.1 _ _ _ ⟨by decide, fun t => ?_, fun t p o => ?_, by decide, fun _ => ?_⟩
    ⟨by decide +kernel, by decide, by decide, by decide, by decide, by decide +kernel, by decide, by simp⟩).1
  · by_cases ht : t = "t" <;> simp [SortedMap.get?_insert, ht, eq_comm (a := "t")]
  · by_cases ht : "t" = t
    · subst ht
      simp only [BarrierCut.offset, SortedMap.get?_insert, if_pos, Option.bind_some, SortedMap.get?_empty]
      split_ifs <;> simp <;> omega
    · simp [BarrierCut.offset, SortedMap.get?_insert, ht, Ne.symm ht]
  · simp

end KrabkaStreams.Barrier
