import KrabkaStreams.Lib.Runs
import KrabkaStreams.Stores.Suppress

/-!
# The suppress buffer value

Each field of a buffer value is read back from the bytes it was written as, and the fields follow one
another, so the value is read back whole and no proper prefix of it is accepted.
-/

namespace KrabkaStreams

open BigEndian Codec

/-- The ranges of the source's types, and lengths that fit an `i32`. -/
structure BufferedChange.Encodable (c : BufferedChange) : Prop where
  timestamp : IsI64 c.ctx.timestamp
  offset : IsI64 c.ctx.offset
  topic : (utf8 c.ctx.topic).length < 2 ^ 31
  partition : -2 ^ 31 ≤ c.ctx.partition ∧ c.ctx.partition < 2 ^ 31
  prior : ∀ v ∈ c.prior, v.length < 2 ^ 31
  old : ∀ v ∈ c.old, v.length < 2 ^ 31
  new : ∀ v ∈ c.new, v.length < 2 ^ 31
  bufferTime : IsI64 c.bufferTime

theorem putLength_eq {n : Nat} (h : n < 2 ^ 31) : putLength n = .ok (beIntBytes 4 n) := by
  have hmod : ((n : Int) % (256 : Int) ^ 4).toNat = n := by omega
  rw [putLength, if_pos h, beIntBytes, hmod]

namespace BufferReader

variable {x : Int} {b : Bytes} {v : Option Bytes}

theorem reads_int {n : Nat} (hlo : -(256 : Int) ^ n ≤ 2 * x) (hhi : 2 * x < 256 ^ n) :
    Reads (int n) (beIntBytes n x) x := by
  refine (Takes.take none (length_beIntBytes n x)).check ?_
  rw [if_pos (length_beIntBytes n x), beInt_beIntBytes hlo hhi]
  exact .pure x

theorem reads_i64 (h : IsI64 x) : Reads (int 8) (putI64 x) x := by
  simp only [IsI64, i64Min, i64Max] at h
  exact reads_int (by omega) (by omega)

theorem reads_i32 (h : -2 ^ 31 ≤ x ∧ x < 2 ^ 31) : Reads (int 4) (beIntBytes 4 x) x :=
  reads_int (by omega) (by omega)

theorem reads_length (h : b.length < 2 ^ 31) : Reads (int 4) (beIntBytes 4 b.length) b.length :=
  reads_i32 (by omega)

theorem reads_sized (b : Bytes) : Reads (sized b.length) b b := by
  rw [sized, if_neg (by omega)]
  exact Takes.take none (by simp)

theorem reads_recordCtx {c : BufferedChange} (h : c.Encodable) :
    ∃ bytes, writeRecordCtx c.ctx = .ok bytes ∧ Reads recordCtx bytes c.ctx := by
  have hutf8 : Reads (BufferReader.utf8 (Codec.utf8 c.ctx.topic)) [] c.ctx.topic := by
    rw [BufferReader.utf8, ofUtf8_utf8]
    exact .pure _
  refine ⟨_, by rw [writeRecordCtx]; exact Runs.bind_eq_ok.mpr ⟨_, putLength_eq h.topic, rfl⟩, ?_⟩
  simp only [List.append_assoc]
  refine (reads_i64 h.timestamp).bind ((reads_i64 h.offset).bind ((reads_length h.topic).bind
    ((reads_sized _).bind (hutf8.bind ((reads_i32 h.partition).bind ?_)))))
  exact (Takes.take none (length_beIntBytes 4 0)).map fun _ => c.ctx

theorem reads_slot {r : Int → BufferReader (Option Bytes)} (hnull : r (-1) = pure none)
    (hsome : ∀ n : Nat, r n = do return some (← sized n)) (h : ∀ b ∈ v, b.length < 2 ^ 31) :
    ∃ bytes, addValue v = .ok bytes ∧ Reads (int 4 >>= r) bytes v := by
  rcases v with _ | b
  · exact ⟨nullSlot, rfl, (reads_i32 (by omega)).check (hnull ▸ .pure none)⟩
  · have hb := h b rfl
    refine ⟨_, Runs.bind_eq_ok.mpr ⟨_, putLength_eq hb, rfl⟩, (reads_length hb).bind ?_⟩
    rw [hsome]
    exact (reads_sized b).map some

theorem reads_addValue (h : ∀ b ∈ v, b.length < 2 ^ 31) :
    ∃ bytes, addValue v = .ok bytes ∧ Reads readAddValue bytes v :=
  reads_slot (by simp) (fun n => if_neg (by omega)) h

theorem reads_readOld (prior : Option Bytes) (h : ∀ b ∈ v, b.length < 2 ^ 31) :
    ∃ bytes, (if v.isSome ∧ prior = v then pure sameAsPrior else addValue v) = .ok bytes ∧
      Reads (readOld prior) bytes v := by
  split_ifs with hsame
  · refine ⟨sameAsPrior, rfl, (reads_i32 (by omega)).check ?_⟩
    simpa [hsame.2] using Takes.pure v
  · exact reads_slot (by simp) (fun n => by rw [if_neg (by omega), if_neg (by omega)]) h

theorem reads_change {c : BufferedChange} (h : c.Encodable) :
    ∃ bytes, serializeBufferChange c.ctx c.prior c.old c.new c.bufferTime = .ok bytes ∧
      Reads change bytes c := by
  obtain ⟨head, hhead, hctx⟩ := reads_recordCtx h
  obtain ⟨prior, hprior, hreadPrior⟩ := reads_addValue h.prior
  obtain ⟨old, hold, hreadOld⟩ := reads_readOld c.prior h.old
  obtain ⟨new, hnew, hreadNew⟩ := reads_addValue h.new
  refine ⟨head ++ prior ++ old ++ new ++ putI64 c.bufferTime, ?_, ?_⟩
  · rw [serializeBufferChange, hhead, hprior]
    simp only [bind, Except.bind, hnew]
    split_ifs at hold ⊢ <;> rw [hold] <;> rfl
  · simp only [List.append_assoc]
    exact hctx.bind (hreadPrior.bind (hreadOld.bind (hreadNew.bind ((reads_i64 h.bufferTime).map _))))

theorem get_gives_up (n : Nat) : FailsWith (· = none) (get n) := FailsWith.take (F := (· = none)) n rfl

theorem int_gives_up (n : Nat) : FailsWith (· = none) (int n) := by
  intro data e he
  rcases hd : get n data with e' | ⟨b, rest⟩
  · rw [int, bind_error hd] at he
    cases he
    exact get_gives_up n data e hd
  · -- a slice that was found has the length that was asked for
    have hlen : b.length = n := by
      unfold get Codec.take at hd
      split_ifs at hd
      cases hd
      simp
      omega
    rw [int, bind_ok hd, if_pos hlen] at he
    cases he

theorem sized_gives_up (length : Int) : FailsWith (· = none) (sized length) := by
  unfold sized
  split_ifs
  · exact .throw rfl
  · exact get_gives_up _

theorem readAddValue_gives_up : FailsWith (· = none) readAddValue := by
  refine (int_gives_up 4).bind fun length => ?_
  split_ifs
  · exact .pure none
  · exact (sized_gives_up length).bind fun b => .pure (some b)

theorem readOld_gives_up (prior : Option Bytes) : FailsWith (· = none) (readOld prior) := by
  refine (int_gives_up 4).bind fun tag => ?_
  split_ifs
  · exact .pure none
  · exact .pure prior
  · exact (sized_gives_up tag).bind fun b => .pure (some b)

theorem recordCtx_gives_up : FailsWith (· = none) recordCtx := by
  have hutf8 (b : Bytes) : FailsWith (· = none) (BufferReader.utf8 b) := by
    unfold BufferReader.utf8
    split
    · exact .pure _
    · exact .throw rfl
  exact (int_gives_up 8).bind fun _ => (int_gives_up 8).bind fun _ => (int_gives_up 4).bind fun length =>
    (sized_gives_up length).bind fun b => (hutf8 b).bind fun _ => (int_gives_up 4).bind fun _ =>
      (get_gives_up 4).bind fun _ => .pure _

theorem change_gives_up : FailsWith (· = none) change :=
  recordCtx_gives_up.bind fun _ => readAddValue_gives_up.bind fun prior => (readOld_gives_up prior).bind
    fun _ => readAddValue_gives_up.bind fun _ => (int_gives_up 8).bind fun _ => .pure _

end BufferReader

/-- A buffered change that fits the format is read back, with the prior value too; a proper prefix of its
bytes gives `None`, and no bytes at all make the reader panic. -/
theorem bufferChange_roundTrips :
    (∀ c : BufferedChange, c.Encodable →
      ∃ bytes, serializeBufferChange c.ctx c.prior c.old c.new c.bufferTime = .ok bytes ∧
        tryDeserializeBufferChange bytes = .ok (some c) ∧
        ∀ p, p <+: bytes → p ≠ bytes → tryDeserializeBufferChange p = .ok none) ∧
    ∀ bytes, ∃ c, tryDeserializeBufferChange bytes = .ok c := by
  have hfail {bytes : Bytes} {e : Option ProcessorError} (h : BufferReader.change bytes = .error e) :
      tryDeserializeBufferChange bytes = .ok none := by
    cases BufferReader.change_gives_up bytes e h
    simp only [tryDeserializeBufferChange, StateT.run, h]
  refine ⟨fun c hc => ?_, fun bytes => ?_⟩
  · obtain ⟨bytes, hbytes, hreads⟩ := BufferReader.reads_change hc
    refine ⟨bytes, hbytes, ?_, fun p hp hne => ?_⟩
    · have hfull := hreads.full [] trivial
      rw [List.append_nil] at hfull
      simp only [tryDeserializeBufferChange, StateT.run, hfull]
    · obtain ⟨e, he⟩ := hreads.short p hp hne
      exact hfail he
  · rcases h : BufferReader.change bytes with e | ⟨c, rest⟩
    · exact ⟨none, hfail h⟩
    · exact ⟨some c, by simp only [tryDeserializeBufferChange, StateT.run, h]⟩

/-- With the old value equal to the prior one, which is written as the marker. -/
theorem bufferChange_roundTrips_sameAsPrior :
    ∃ bytes, serializeBufferChange ⟨"in", 0, 0, 12⟩ (some [1]) (some [1]) (some [2]) 12 = .ok bytes ∧
      tryDeserializeBufferChange bytes = .ok (some ⟨⟨"in", 0, 0, 12⟩, some [1], some [1], some [2], 12⟩) ∧
      ∀ p, p <+: bytes → p ≠ bytes → tryDeserializeBufferChange p = .ok none :=
  bufferChange_roundTrips.1 ⟨⟨"in", 0, 0, 12⟩, some [1], some [1], some [2], 12⟩
    ⟨by decide, by decide, by decide +kernel, by decide, by simp, by simp, by simp, by decide⟩

end KrabkaStreams
