/-!
# Levels and notices

What happens to a table is reported at a level, and a log keeps what is at least as severe as its
own. A `Notice` is a line that an operation hands to whoever reads the process log.
-/

namespace WeakIntern

/-- How severe a report is. -/
inductive Level where
  | error
  | warn
  | info
  | debug
  | trace
  deriving DecidableEq, Repr, Inhabited

namespace Level

/-- Zero is the most severe. -/
def rank : Level → Nat
  | .error => 0
  | .warn => 1
  | .info => 2
  | .debug => 3
  | .trace => 4

/-- Does a log at level `threshold` keep a report at this level? -/
def passes (level threshold : Level) : Bool := level.rank ≤ threshold.rank

def name : Level → String
  | .error => "ERROR"
  | .warn => "WARN"
  | .info => "INFO"
  | .debug => "DEBUG"
  | .trace => "TRACE"

def all : List Level := [.error, .warn, .info, .debug, .trace]

def ofName? (text : String) : Option Level := all.find? fun level => level.name == text

end Level

/-- A line for the process log. -/
structure Notice where
  level : Level
  text : String
  deriving DecidableEq, Repr, Inhabited

end WeakIntern
