import KrabkaStreams.Lib.BigEndian
import KrabkaStreams.Record

/-!
# The hash of the foreign-key join

The 128-bit hash of a left value, by which a response is recognised as stale: blocks of sixteen bytes, the
rest of the bytes, and a final mixing of the two halves.
-/

namespace KrabkaStreams

open BigEndian

namespace Murmur3

def c1 : UInt64 := 0x87c37b91114253d5

def c2 : UInt64 := 0x4cf5ad432745937f

def defaultSeed : UInt64 := 104729

def rotateLeft (x : UInt64) (n : UInt64) : UInt64 := x <<< n ||| x >>> (64 - n)

def leU64 (b : Bytes) : UInt64 := b.foldr (fun d x => x <<< 8 ^^^ d.toUInt64) 0

def mixK1 (k : UInt64) : UInt64 := rotateLeft (k * c1) 31 * c2

def mixK2 (k : UInt64) : UInt64 := rotateLeft (k * c2) 33 * c1

def mixBlocks : Nat → Bytes → UInt64 × UInt64 → UInt64 × UInt64
  | 0, _, h => h
  | n + 1, data, (h1, h2) =>
    let h1 := h1 ^^^ mixK1 (leU64 (data.take 8))
    let h1 := (rotateLeft h1 27 + h2) * 5 + 0x52dce729
    let h2 := h2 ^^^ mixK2 (leU64 ((data.drop 8).take 8))
    let h2 := (rotateLeft h2 31 + h1) * 5 + 0x38495ab5
    mixBlocks n (data.drop 16) (h1, h2)

def mixTail (tail : Bytes) : UInt64 × UInt64 → UInt64 × UInt64
  | (h1, h2) =>
    let h2 := if 8 < tail.length then h2 ^^^ mixK2 (leU64 (tail.drop 8)) else h2
    let h1 := if 0 < tail.length then h1 ^^^ mixK1 (leU64 (tail.take 8)) else h1
    (h1, h2)

def fmix64 (k : UInt64) : UInt64 :=
  let k := (k ^^^ k >>> 33) * 0xff51afd7ed558ccd
  let k := (k ^^^ k >>> 33) * 0xc4ceb9fe1a85ec53
  k ^^^ k >>> 33

def hash128Longs (data : Bytes) (seed : UInt64) : UInt64 × UInt64 :=
  let nblocks := data.length / 16
  let (h1, h2) := mixTail (data.drop (nblocks * 16)) (mixBlocks nblocks data (seed, seed))
  let h1 := h1 ^^^ data.length.toUInt64
  let h2 := h2 ^^^ data.length.toUInt64
  let h1 := h1 + h2
  let h2 := h2 + h1
  let h1 := fmix64 h1
  let h2 := fmix64 h2
  let h1 := h1 + h2
  (h1, h2 + h1)

end Murmur3

def hash128 (data : Bytes) : Bytes :=
  let h := Murmur3.hash128Longs data Murmur3.defaultSeed
  beBytes 8 h.1.toNat ++ beBytes 8 h.2.toNat

theorem length_hash128 (data : Bytes) : (hash128 data).length = 16 := by
  unfold hash128
  simp

example : hash128 [] = [0x9d, 0x27, 0x64, 0xa0, 0x18, 0xe3, 0x29, 0x42, 0x8c, 0x3c, 0xf3, 0xb0, 0x35, 0x93,
    0x85, 0x18] := by decide +kernel

end KrabkaStreams
