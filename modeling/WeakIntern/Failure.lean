import WeakIntern.Settings
/-!
# Failures

Why an operation has no result. Losing the race for a content, a task that cannot start, a dead slot
met in a lookup and a long chain are ordinary outcomes and no failures.
-/

namespace WeakIntern

/-- Why an operation has no result. -/
inductive Failure where
  /-- The settings fit no table. -/
  | configuration (cause : SettingsError)
  /-- The bytes are no snapshot. -/
  | malformedSnapshot (detail : String)
  /-- The strings of a snapshot take more bytes than an offset can count. -/
  | snapshotTooLarge (bytes : Nat)
  /-- A structural task was driven in the wrong order. -/
  | invalidState (expected actual : String)
  /-- A file could not be read or written. -/
  | io (detail : String)
  /-- Something that never happens. -/
  | internal (detail : String)
  deriving DecidableEq, Repr, Inhabited

namespace Failure

def message : Failure → String
  | .configuration cause => "Configuration error: " ++ cause.message
  | .malformedSnapshot detail => "Malformed snapshot: " ++ detail
  | .snapshotTooLarge bytes =>
    "Snapshot too large: heap region of " ++ toString bytes ++
      " bytes exceeds the 32-bit offset range"
  | .invalidState expected actual => "Invalid state: expected " ++ expected ++ ", got " ++ actual
  | .io detail => "I/O error: " ++ detail
  | .internal detail => "Internal error: " ++ detail

/-- The kind of failure, in a word. -/
def kind : Failure → String
  | .configuration _ => "Configuration"
  | .malformedSnapshot _ => "MalformedSnapshot"
  | .snapshotTooLarge _ => "SnapshotTooLarge"
  | .invalidState .. => "InvalidState"
  | .io _ => "Io"
  | .internal _ => "Internal"

/-- Can the caller carry on without what failed? -/
def isRecoverable : Failure → Bool
  | .malformedSnapshot _ | .io _ | .snapshotTooLarge _ => true
  | .configuration _ | .invalidState .. | .internal _ => false

/-- Does the failure show a mistake in the program? -/
def isBug : Failure → Bool
  | .invalidState .. | .internal _ => true
  | .configuration _ | .malformedSnapshot _ | .snapshotTooLarge _ | .io _ => false

end Failure

end WeakIntern
