import WeakIntern.Number.Literal
import WeakIntern.Text.Json
/-!
# Settings

The settings of a table: its sizes, when maintenance is wanted, and how it reports. `Settings.check`
says whether a table can be built and grown with them; of several faults the first in the order of
the checks is named. Settings are read from environment variables, which are lenient, or from a JSON
value, which is not.
-/

namespace WeakIntern

/-- Settings that no table can have. -/
inductive SettingsError where
  | size (detail : String)
  | threshold (detail : String)
  | chunk (detail : String)
  deriving DecidableEq, Repr, Inhabited

/-- What is wrong with the settings. -/
def SettingsError.message : SettingsError → String
  | .size detail => "Invalid table size: " ++ detail
  | .threshold detail => "Invalid threshold: " ++ detail
  | .chunk detail => "Invalid chunk size: " ++ detail

/-- The kind of fault, in a word. -/
def SettingsError.kind : SettingsError → String
  | .size _ => "InvalidSize"
  | .threshold _ => "InvalidThreshold"
  | .chunk _ => "InvalidChunk"

/-- The settings of a table. -/
structure Settings where
  /-- The number of buckets to start with, rounded up to a power of two. -/
  initialSize : UInt64 := 65536
  /-- No table grows beyond `2 ^ maxLog2` buckets. -/
  maxLog2 : UInt32 := 24
  /-- A walk over more slots than this raises the alarm. -/
  alarmLength : UInt64 := 100
  /-- Above this number of slots to a bucket the table wants to grow. -/
  preferredLoad : Float := 2.0
  /-- Above this number of dead strings to a bucket the table wants to be cleaned. -/
  deadLimit : Float := 0.5
  /-- Buckets that a structural task processes at a time. -/
  chunkBuckets : UInt64 := 4096
  /-- Does maintenance run in the background? -/
  background : Bool := true
  /-- Is maintenance reported to the process log? -/
  verbose : Bool := false
  /-- Are events handed to the process log as JSON? -/
  jsonEvents : Bool := false
  deriving Inhabited

namespace Settings

instance : BEq Settings where
  beq a b :=
    a.initialSize == b.initialSize && a.maxLog2 == b.maxLog2 && a.alarmLength == b.alarmLength &&
      a.preferredLoad == b.preferredLoad && a.deadLimit == b.deadLimit &&
      a.chunkBuckets == b.chunkBuckets &&
      a.background == b.background && a.verbose == b.verbose && a.jsonEvents == b.jsonEvents

/-! ## Sizes -/

/-- The least `k` from `k` on, in at most `fuel` steps, with `n ≤ 2 ^ k`. -/
def log2From (n : Nat) : Nat → Nat → Nat
  | 0, k => k
  | fuel + 1, k => if n ≤ 2 ^ k then k else log2From n fuel (k + 1)

/-- The least `k` such that `2 ^ k` is at least `n`, for a 64-bit `n`. -/
def ceilLog2 (n : UInt64) : Nat := log2From n.toNat 64 0

/-- The logarithm of the number of buckets to start with. -/
def initialLog2 (s : Settings) : Nat := ceilLog2 s.initialSize

/-- The greatest `maxLog2` that is allowed. -/
def maxLog2Limit : Nat := 30

/-- Can a table be built and grown with these settings? -/
def check (s : Settings) : Except SettingsError Unit :=
  if s.initialSize = 0 then .error (.size "initial_size must be > 0")
  else if maxLog2Limit < s.maxLog2.toNat then
    .error (.size ("max_size_log2 must be <= " ++ toString maxLog2Limit))
  else if s.maxLog2.toNat < s.initialLog2 then
    .error (.size "initial_size cannot exceed 2^max_size_log2")
  else if s.alarmLength = 0 then .error (.threshold "rehash_chain_len must be > 0")
  else if !(0.0 < s.preferredLoad) then .error (.threshold "preferred_avg_chain_len must be > 0")
  else if !(0.0 < s.deadLimit) then .error (.threshold "clean_dead_high_water_mark must be > 0")
  else if s.chunkBuckets = 0 then .error (.chunk "task_chunk_buckets must be > 0")
  else .ok ()

/-! ## Environment variables -/

/-- An environment: names and values. -/
abbrev Environment := List (String × String)

/-- The value of a variable. -/
def valueOf? (env : Environment) (name : String) : Option String := env.lookup name

/-- `1`, or `true` in any case. -/
def readFlag (text : String) : Bool :=
  text == "1" || text.toList.map Char.toLower == "true".toList

/-- A number from the environment; what is not a number up to `limit` is ignored. -/
def numberFrom? (env : Environment) (name : String) (limit : Nat) : Option Nat :=
  (valueOf? env name).bind (readUnsigned limit)

/-- The default settings, with the values that the environment gives. -/
def ofEnvironment (env : Environment) : Settings :=
  let base : Settings := {}
  { base with
    initialSize := ((numberFrom? env "STRTAB_SIZE" maxCount).map Nat.toUInt64).getD base.initialSize
    maxLog2 :=
      ((numberFrom? env "STRTAB_MAX_SIZE_LOG2" (2 ^ 32 - 1)).map Nat.toUInt32).getD base.maxLog2
    chunkBuckets :=
      ((numberFrom? env "STRTAB_CHUNK_BUCKETS" maxCount).map Nat.toUInt64).getD base.chunkBuckets
    background := ((valueOf? env "STRTAB_BACKGROUND").map readFlag).getD base.background
    verbose := ((valueOf? env "STRTAB_VERBOSE").map readFlag).getD base.verbose }

/-! ## JSON -/

/-- A whole number from `0` to `limit`. -/
def readCount? (limit : Nat) : Json → Option Nat
  | .int (.ofNat n) => if n ≤ limit then some n else none
  | _ => none

/-- A number; a whole number stands for a double. -/
def readNumber? : Json → Option Float
  | .float x => some x
  | .int n => some (Float.ofInt n)
  | _ => none

def readBool? : Json → Option Bool
  | .bool b => some b
  | _ => none

/-- The names of the settings, in the order of the fields. -/
def fieldNames : List String :=
  ["initial_size", "max_size_log2", "rehash_chain_len", "preferred_avg_chain_len",
    "clean_dead_high_water_mark", "task_chunk_buckets", "background_maintenance", "verbose",
    "json_events"]

/-- The settings with one of them changed. A value of the wrong type is refused, and an unknown name
has no effect. -/
def assign (s : Settings) (name : String) (value : Json) : Option Settings :=
  match name with
  | "initial_size" => (readCount? maxCount value).map fun n => { s with initialSize := n.toUInt64 }
  | "max_size_log2" => (readCount? (2 ^ 32 - 1) value).map fun n => { s with maxLog2 := n.toUInt32 }
  | "rehash_chain_len" =>
    (readCount? maxCount value).map fun n => { s with alarmLength := n.toUInt64 }
  | "preferred_avg_chain_len" => (readNumber? value).map fun x => { s with preferredLoad := x }
  | "clean_dead_high_water_mark" => (readNumber? value).map fun x => { s with deadLimit := x }
  | "task_chunk_buckets" =>
    (readCount? maxCount value).map fun n => { s with chunkBuckets := n.toUInt64 }
  | "background_maintenance" => (readBool? value).map fun b => { s with background := b }
  | "verbose" => (readBool? value).map fun b => { s with verbose := b }
  | "json_events" => (readBool? value).map fun b => { s with jsonEvents := b }
  | _ => some s

/-- Assign one value after another. -/
def assignAll (s : Settings) (values : List (String × Json)) : Option Settings :=
  values.foldlM (fun s (name, value) => s.assign name value) s

/-- Change `base` as a JSON value says: a record names the settings it changes, a list gives them in
order and may end early. -/
def ofJson? (base : Settings) : Json → Option Settings
  | .record fields => base.assignAll fields
  | .list values =>
    if values.length ≤ fieldNames.length then base.assignAll (fieldNames.zip values) else none
  | _ => none

/-- The settings as a JSON record. -/
def toJson (s : Settings) : Json :=
  .record [("initial_size", .count s.initialSize.toNat), ("max_size_log2", .count s.maxLog2.toNat),
    ("rehash_chain_len", .count s.alarmLength.toNat),
    ("preferred_avg_chain_len", .float s.preferredLoad),
    ("clean_dead_high_water_mark", .float s.deadLimit),
    ("task_chunk_buckets", .count s.chunkBuckets.toNat),
    ("background_maintenance", .bool s.background), ("verbose", .bool s.verbose),
    ("json_events", .bool s.jsonEvents)]

end Settings

end WeakIntern
