import WeakIntern.Log.Event
/-!
# The event log

The log of a table keeps every event that is severe enough while it is switched on, with the time at
which it came, and hands each event it keeps to the process log too. It is a value: `record` says
what the log holds afterwards. The wall clock that it looks at is a sequence of texts, one for each
look; a log that nobody gave a clock keeps empty ones.
-/

namespace WeakIntern

/-- An event, and the text of the time at which it was recorded. -/
structure LogRecord where
  event : Event
  time : String
  deriving Inhabited

namespace LogRecord

/-- The fields of a record, in the order of their names. -/
def fields (r : LogRecord) : List (String × Json) :=
  [("event", r.event.toJson), ("level", .string r.event.level.name), ("timestamp", .string r.time)]

/-- A record, as one line of JSON. -/
def line (r : LogRecord) : String := (Json.record r.fields).compact

/-- Some records, one to a line. -/
def lines (records : List LogRecord) : String := "\n".intercalate (records.map line)

end LogRecord

/-- How a log records. -/
structure EventLogOptions where
  /-- The least severe level that is kept. -/
  threshold : Level := .debug
  /-- Are kept events handed to the process log? -/
  echo : Bool := true
  /-- Are they handed over as JSON? -/
  json : Bool := false
  deriving Inhabited

/-- A log of events, oldest first. -/
structure EventLog where
  options : EventLogOptions := {}
  enabled : Bool := true
  /-- What the clock says when it is looked at for the first time, the second time and so on. -/
  clock : Nat → String := fun _ => ""
  /-- How often it was looked at. -/
  looks : Nat := 0
  records : Array LogRecord := #[]
  /-- What the process log was handed. -/
  echoed : Array Notice := #[]
  deriving Inhabited

namespace EventLog

/-- The recorded events. -/
def events (log : EventLog) : Array Event := (log.records.toList.map LogRecord.event).toArray

/-- Does the log keep this event now? -/
def keeps (log : EventLog) (e : Event) : Bool := log.enabled && e.level.passes log.options.threshold

/-- The record of an event that comes now. -/
def stamp (log : EventLog) (e : Event) : LogRecord := ⟨e, log.clock log.looks⟩

/-- What the process log is handed for a record. -/
def echoOf (options : EventLogOptions) (r : LogRecord) : Notice where
  level := r.event.level
  text := if options.json then r.line else r.event.describe

/-- Record an event if the log keeps it. -/
def record (log : EventLog) (e : Event) : EventLog :=
  if log.keeps e then
    { log with
      looks := log.looks + 1
      records := log.records.push (log.stamp e)
      echoed :=
        if log.options.echo then log.echoed.push (echoOf log.options (log.stamp e))
        else log.echoed }
  else log

def enable (log : EventLog) : EventLog := { log with enabled := true }

def disable (log : EventLog) : EventLog := { log with enabled := false }

/-- Forget the records. -/
def clear (log : EventLog) : EventLog := { log with records := #[] }

/-- The number of recorded events at a level. -/
def countLevel (log : EventLog) (level : Level) : Nat :=
  log.records.countP fun r => r.event.level = level

/-- The recorded events, one JSON record to a line. -/
def jsonLines (log : EventLog) : String := LogRecord.lines log.records.toList

theorem records_record (log : EventLog) (e : Event) : (log.record e).records.toList =
    log.records.toList ++ if log.keeps e then [log.stamp e] else [] := by
  unfold record
  split <;> simp_all

theorem events_record (log : EventLog) (e : Event) :
    (log.record e).events.toList = log.events.toList ++ if log.keeps e then [e] else [] := by
  simp only [events, records_record, List.map_append, List.append_cancel_left_eq]
  split <;> rfl

/-- What is picked from the events is as before if nothing is picked from the new one. -/
theorem filterMap_record {α : Type} {pick : Event → Option α} (log : EventLog) {e : Event}
    (hnone : pick e = none) :
    (log.record e).events.toList.filterMap pick = log.events.toList.filterMap pick := by
  rw [events_record, List.filterMap_append]
  split <;> simp [hnone]

end EventLog

end WeakIntern
