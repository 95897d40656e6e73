import WeakIntern.Number.Instances
import WeakIntern.Text.Column
import WeakIntern.Text.Json

/-!
# Statistics

The shape of a table: how many buckets and slots it has, how long the chains are, and how many bytes
it all takes. Mean and variance of the chain length are taken over all buckets. Byte counts are
64-bit numbers and wrap around.
-/

namespace WeakIntern

/-- A 64-bit count. -/
def wrapped (n : Nat) : Nat := n % 2 ^ 64

/-- The shape of a table. -/
structure TableShape where
  bucketCount : Nat
  /-- Slots, live or dead. -/
  entryCount : Nat
  liveCount : Nat
  /-- Bytes of the live strings. -/
  literalBytes : Nat
  /-- Bytes of a bucket. -/
  bucketBytes : Nat
  /-- Bytes of a slot. -/
  entryBytes : Nat
  maxBucketLength : Nat
  averageBucketLength : Float
  variance : Float
  deriving Inhabited

namespace TableShape

def standardDeviation (t : TableShape) : Float := t.variance.sqrt

/-- The bytes of all buckets. -/
def allBucketBytes (t : TableShape) : Nat := wrapped (t.bucketCount * t.bucketBytes)

/-- The bytes of all slots. -/
def allEntryBytes (t : TableShape) : Nat := wrapped (t.entryCount * t.entryBytes)

/-- The bytes of the table and of the strings it leads to. -/
def payloadBytes (t : TableShape) : Nat :=
  wrapped (t.allBucketBytes + t.allEntryBytes + t.literalBytes)

/-- The mean size of a live string, zero if there is none. -/
def averageLiteral (t : TableShape) : Float :=
  if t.liveCount = 0 then 0.0 else Float.ofNat t.literalBytes / Float.ofNat t.liveCount

/-- The table of figures, under a name. -/
def print (t : TableShape) (name : String) : String :=
  name ++ " statistics:\n" ++
    "Number of buckets       : " ++ countColumn t.bucketCount ++ " = " ++
      countColumn t.allBucketBytes ++ " bytes, each " ++ toString t.bucketBytes ++ "\n" ++
    "Number of entries       : " ++ countColumn t.entryCount ++ " = " ++
      countColumn t.allEntryBytes ++ " bytes, each " ++ toString t.entryBytes ++ "\n" ++
    "Number of literals      : " ++ countColumn t.liveCount ++ " = " ++
      countColumn t.literalBytes ++ " bytes, avg " ++ numberColumn 7 t.averageLiteral ++ "\n" ++
    "Total footprint         : " ++ rightAligned 9 "" ++ " = " ++
      countColumn t.payloadBytes ++ " bytes\n" ++
    "Average bucket size     : " ++ numberColumn 9 t.averageBucketLength ++ "\n" ++
    "Variance of bucket size : " ++ numberColumn 9 t.variance ++ "\n" ++
    "Std. dev. of bucket size: " ++ numberColumn 9 t.standardDeviation ++ "\n" ++
    "Maximum bucket size     : " ++ countColumn t.maxBucketLength ++ "\n"

/-- The figures as fields of a JSON record. -/
def jsonFields (t : TableShape) : List (String × Json) :=
  [("bucket_count", .count t.bucketCount), ("entry_count", .count t.entryCount),
    ("live_count", .count t.liveCount), ("literal_bytes", .count t.literalBytes),
    ("bucket_bytes", .count t.bucketBytes), ("entry_bytes", .count t.entryBytes),
    ("max_bucket_len", .count t.maxBucketLength),
    ("average_bucket_len", .float t.averageBucketLength),
    ("bucket_len_variance", .float t.variance)]

def toJson (t : TableShape) : Json := .record t.jsonFields

end TableShape

/-- What is known of a bucket: the length of its chain, and the bytes of each live string in it. -/
structure BucketFigures where
  length : Nat
  literals : List Nat
  deriving Inhabited

namespace BucketFigures

/-- Bytes of a bucket. -/
def bucketBytes : Nat := 16

/-- Bytes of a slot with its weak reference. -/
def entryBytes : Nat := 48

/-- The square of the chain length. -/
def squaredLength (b : BucketFigures) : Float := Float.ofNat (b.length * b.length)

/-- The variance of numbers with this sum and this sum of squares, never negative. -/
def varianceOf (count sum : Nat) (squares : Float) : Float :=
  let n := Float.ofNat count
  let mean := Float.ofNat sum / n
  let variance := squares / n - mean * mean
  if 0.0 < variance then variance else 0.0

/-- The shape of a table with these buckets. -/
def summarize (buckets : List BucketFigures) : TableShape :=
  let count := buckets.length
  let entries := (buckets.map length).sum
  let literals := buckets.flatMap literals
  let squares := buckets.foldl (fun sum b => sum + b.squaredLength) 0.0
  { bucketCount := count
    entryCount := entries
    liveCount := literals.length
    literalBytes := literals.sum
    bucketBytes
    entryBytes
    maxBucketLength := buckets.foldl (fun longest b => max longest b.length) 0
    averageBucketLength := if count = 0 then 0.0 else Float.ofNat entries / Float.ofNat count
    variance := if count = 0 then 0.0 else varianceOf count entries squares }

end BucketFigures

end WeakIntern
