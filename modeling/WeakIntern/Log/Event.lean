import WeakIntern.Log.Level
import WeakIntern.Text.Column
import WeakIntern.Text.Json
/-!
# Maintenance events

Maintenance decisions are rare and worth keeping. Each is an `Event` with its numbers, which fixes
the level it is recorded at, a sentence for people and a JSON record for programs. The fields of a
record stand in alphabetical order.
-/

namespace WeakIntern

/-- Something that maintenance did, declined or found. -/
inductive Event where
  /-- A report of dead strings asked for concurrent work. -/
  | workTriggered (loadFactor deadFactor : Float) (numDead : Nat)
  /-- The bucket array was doubled. -/
  | grown (oldSize newSize moved reclaimed : Nat) (durationMs : Float)
  /-- Dead slots were unlinked in place. -/
  | cleaned (examined reclaimed : Nat) (durationMs : Float)
  /-- A structural task could not start. -/
  | taskSkipped (task reason : String)
  /-- A chain was longer than the alarm length. -/
  | rehashRequested (size : Nat)
  /-- Growth was preferred to a rehash. -/
  | rehashDeferredToGrow (loadFactor : Float)
  /-- A rehash was asked for after the one automatic rehash. -/
  | rehashRepeated
  /-- All strings were moved to a keyed hash. -/
  | rehashed (size : Nat) (seed : UInt64) (durationMs : Float)
  /-- A rehash could not start. -/
  | rehashFailed
  /-- The strings of a snapshot were transferred into the table. -/
  | overlayDrained (entries : Nat)
  /-- Verification found a problem. -/
  | verificationFailure (kind detail : String)
  deriving Inhabited

namespace Event

/-- The level an event is recorded at. -/
def level : Event → Level
  | .verificationFailure .. => .error
  | .rehashRepeated => .warn
  | .grown .. | .cleaned .. | .rehashed .. | .rehashFailed | .rehashDeferredToGrow ..
  | .overlayDrained .. => .info
  | .workTriggered .. | .taskSkipped .. | .rehashRequested .. => .debug

/-- The name of the kind of event. -/
def tag : Event → String
  | .workTriggered .. => "work_triggered"
  | .grown .. => "grown"
  | .cleaned .. => "cleaned"
  | .taskSkipped .. => "task_skipped"
  | .rehashRequested .. => "rehash_requested"
  | .rehashDeferredToGrow .. => "rehash_deferred_to_grow"
  | .rehashRepeated => "rehash_repeated"
  | .rehashed .. => "rehashed"
  | .rehashFailed => "rehash_failed"
  | .overlayDrained .. => "overlay_drained"
  | .verificationFailure .. => "verification_failure"

/-- A duration, and the parenthesis that closes it. -/
def durationText (ms : Float) : String := fixedPoint 2 ms ++ "ms)"

/-- The sentence for people. -/
def describe : Event → String
  | .workTriggered loadFactor deadFactor numDead =>
    "Concurrent work triggered: load factor " ++ fixedPoint 3 loadFactor ++ ", dead factor " ++
      fixedPoint 3 deadFactor ++ " (" ++ toString numDead ++ " dead)"
  | .grown oldSize newSize moved reclaimed ms =>
    "Grown to size " ++ toString newSize ++ " from " ++ toString oldSize ++ " (" ++
      toString moved ++ " moved, " ++
      toString reclaimed ++ " dead reclaimed, " ++ durationText ms
  | .cleaned examined reclaimed ms =>
    "Cleaned " ++ toString reclaimed ++ " of " ++ toString examined ++ " (" ++ durationText ms
  | .taskSkipped task reason => task ++ " skipped: " ++ reason
  | .rehashRequested size => "Chain alarm at size " ++ toString size ++ ", rehash requested"
  | .rehashDeferredToGrow loadFactor =>
    "Growing instead of rehashing (load factor " ++ fixedPoint 3 loadFactor ++ ")"
  | .rehashRepeated => "Rehash already happened, not rehashing again"
  | .rehashed size seed ms =>
    "Rehashed at size " ++ toString size ++ " with seed 0x" ++ hexWord seed ++ " (" ++
      durationText ms
  | .rehashFailed => "Resizes in progress rehashing skipped"
  | .overlayDrained entries =>
    "Transferred " ++ toString entries ++ " shared strings to the local table"
  | .verificationFailure kind detail => "Verification failure (" ++ kind ++ "): " ++ detail

/-- The event with its tag, as a JSON record. -/
def toJson (e : Event) : Json :=
  let tagField := ("event", Json.string e.tag)
  .record <| match e with
    | .workTriggered loadFactor deadFactor numDead =>
      [("dead_factor", .float deadFactor), tagField, ("load_factor", .float loadFactor),
        ("num_dead", .count numDead)]
    | .grown oldSize newSize moved reclaimed ms =>
      [("duration_ms", .float ms), tagField, ("moved", .count moved), ("new_size", .count newSize),
        ("old_size", .count oldSize), ("reclaimed", .count reclaimed)]
    | .cleaned examined reclaimed ms =>
      [("duration_ms", .float ms), tagField, ("examined", .count examined),
        ("reclaimed", .count reclaimed)]
    | .taskSkipped task reason => [tagField, ("reason", .string reason), ("task", .string task)]
    | .rehashRequested size => [tagField, ("size", .count size)]
    | .rehashDeferredToGrow loadFactor => [tagField, ("load_factor", .float loadFactor)]
    | .rehashRepeated => [tagField]
    | .rehashed size seed ms =>
      [("duration_ms", .float ms), tagField, ("seed", .count seed.toNat), ("size", .count size)]
    | .rehashFailed => [tagField]
    | .overlayDrained entries => [("entries", .count entries), tagField]
    | .verificationFailure kind detail =>
      [("detail", .string detail), tagField, ("kind", .string kind)]

end Event

end WeakIntern
