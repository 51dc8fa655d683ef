import KrabkaStreams.Lib.BigEndian
import KrabkaStreams.Record

/-!
# The keys of the window and the session store

A window store key is the key, the start and a sequence number; a session store key is the key, the end
and then the start. The readers panic on bytes that are too short.
-/

namespace KrabkaStreams

open BigEndian

def putI64 (x : Int) : Bytes := beIntBytes 8 x

def getI64 (b : Bytes) : Int := beInt (b.take 8)

def splitSuffix (n : Nat) (b : Bytes) : Except ProcessorError (Bytes × Bytes) :=
  if b.length < n then .error .panicked
  else .ok (b.take (b.length - n), b.drop (b.length - n))

def storeKey (keyBytes : Bytes) (windowStart : Int) (seqnum : Nat) : Bytes :=
  keyBytes ++ (putI64 windowStart ++ beBytes 4 seqnum)

def windowStartOf (storeKey : Bytes) : Except ProcessorError Int :=
  (fun s => getI64 s.2) <$> splitSuffix 12 storeKey

def keyBytesOf (storeKey : Bytes) : Except ProcessorError Bytes := (·.1) <$> splitSuffix 12 storeKey

def wrapValue (recordTs : Int) (raw : Bytes) : Bytes := putI64 recordTs ++ raw

def unwrapValue (wrapped : Bytes) : Except ProcessorError (Int × Bytes) :=
  if wrapped.length < 8 then .error .panicked else .ok (getI64 wrapped, wrapped.drop 8)

def sessionKey (keyBytes : Bytes) (start stop : Int) : Bytes := keyBytes ++ (putI64 stop ++ putI64 start)

def sessionEndOf (k : Bytes) : Except ProcessorError Int := (fun s => getI64 s.2) <$> splitSuffix 16 k

def sessionStartOf (k : Bytes) : Except ProcessorError Int :=
  (fun s => getI64 (s.2.drop 8)) <$> splitSuffix 16 k

def sessionKeyBytesOf (k : Bytes) : Except ProcessorError Bytes := (·.1) <$> splitSuffix 16 k

end KrabkaStreams
