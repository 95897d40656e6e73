import WeakIntern.Log.EventLog
import WeakIntern.Table.Task
/-!
# Maintenance

When a table needs structural work, and which. Two things ask for work: the collector, by the number
of strings that died, and the alarm that a walk over a long chain raises. At most one piece of work
is outstanding.

An alarm is answered by growth where the table is simply overloaded. Otherwise someone may be
crafting strings that collide: all slots are moved to a keyed hash, and that once in the life of a
table. If long chains show up again, the keyed hash cannot mend them, and ordinary work is asked
for.
-/

namespace WeakIntern

/-- The structural work that maintenance does on its own. -/
inductive WorkKind where
  | grow
  | clean
  deriving DecidableEq, Repr, Inhabited

def WorkKind.name : WorkKind → String
  | .grow => "Grow"
  | .clean => "Clean"

/-- The task that does the work. -/
def WorkKind.taskKind : WorkKind → TaskKind
  | .grow => .grow
  | .clean => .bulkDelete

/-- What came of an alarm. -/
inductive RehashOutcome where
  /-- The table is overloaded, so growth was asked for. -/
  | preferGrow
  /-- The one rehash was done before. -/
  | alreadyRehashed
  /-- All slots were moved to a keyed hash. -/
  | rehashed
  /-- Another task has the table. -/
  | busy
  deriving DecidableEq, Repr, Inhabited

def RehashOutcome.name : RehashOutcome → String
  | .preferGrow => "PreferGrow"
  | .alreadyRehashed => "AlreadyRehashed"
  | .rehashed => "Rehashed"
  | .busy => "Busy"

namespace Settings

/-- Does a table with this load and this share of dead strings need work? All comparisons are
strict. -/
def needsWork (s : Settings) (load dead : Float) : Bool :=
  load < dead || s.preferredLoad < load || s.deadLimit < dead

/-- Is a table with this load overloaded, and can it grow? -/
def prefersGrowth (s : Settings) (load : Float) (isMaxSize : Bool) : Bool :=
  s.preferredLoad < load && !isMaxSize

/-- The work for a table: growth if it is overloaded and can grow, and cleaning otherwise. -/
def selectWork (s : Settings) (load : Float) (isMaxSize : Bool) : WorkKind :=
  if s.prefersGrowth load isMaxSize then .grow else .clean

end Settings

/-- What is outstanding, and what has happened. -/
structure Maintenance where
  settings : Settings
  /-- Work is wanted. -/
  hasWork : Bool := false
  /-- The worker is to be woken. -/
  wakePending : Bool := false
  shutdown : Bool := false
  /-- An alarm was raised and not answered. -/
  needsRehash : Bool := false
  /-- The one rehash was done. -/
  rehashed : Bool := false
  log : EventLog := {}
  deriving Inhabited

namespace Maintenance

def record (m : Maintenance) (e : Event) : Maintenance := { m with log := m.log.record e }

/-- Ask for work. -/
def trigger (m : Maintenance) : Maintenance := { m with hasWork := true, wakePending := true }

/-- The collector reports dead strings. Work is asked for if none is outstanding and the table needs
it. -/
def notifyDead (m : Maintenance) (t : Table) (numDead : Nat) : Bool × Maintenance :=
  let load := t.loadFactor
  let dead := t.deadFactor numDead
  if m.hasWork || !m.settings.needsWork load dead then (false, m)
  else (true, (m.record (.workTriggered load dead numDead)).trigger)

/-- Take note of an alarm. Only the first one since the last answer is recorded and asks for
work. -/
def raiseAlarm (m : Maintenance) (t : Table) (alarm : Bool) : Maintenance :=
  if alarm && !m.needsRehash then
    ({ m with needsRehash := true }.record (.rehashRequested t.size)).trigger
  else m

/-- Why a task could not start. -/
def skipReason : WorkKind → String
  | .grow => "another task in flight or maximum size reached"
  | .clean => "another task in flight"

/-- The event of a finished piece of work. Durations are not measured. -/
def workEvent (kind : WorkKind) (summary : TaskSummary) : Event :=
  match kind with
  | .grow => .grown summary.oldSize summary.newSize summary.moved summary.reclaimed 0.0
  | .clean => .cleaned summary.examined summary.reclaimed 0.0

/-- Do the outstanding work: what was done, how often the world could have been paused, and the
state afterwards. -/
def doWork (m : Maintenance) (heap : Heap) (t : Table) : WorkKind × Nat × Maintenance × Table :=
  let kind := m.settings.selectWork t.loadFactor t.isMaxSize
  let run := Task.run heap (.new t kind.taskKind) t
  let event := match run.summary with
    | some summary => workEvent kind summary
    | none => .taskSkipped kind.taskKind.name (skipReason kind)
  (kind, run.pauses, { m.record event with hasWork := false }, run.table)

/-- Move all slots to the keyed hash of a seed, if the table is free. -/
def rekey (m : Maintenance) (heap : Heap) (t : Table) (seed : UInt64) :
    RehashOutcome × Nat × Maintenance × Table :=
  let run := Task.run heap (.new t (.rehash seed)) t
  match run.summary with
  | some summary =>
    (.rehashed, run.pauses, { m with rehashed := true }.record (.rehashed summary.newSize seed 0.0),
      run.table)
  | none => (.busy, run.pauses, m.record .rehashFailed, run.table)

/-- Answer an alarm. Whatever comes of it, the alarm is no longer outstanding; a rehash that could
not start is tried again at the next one. The seed is the one to use if the table is rehashed. -/
def rehash (m : Maintenance) (heap : Heap) (t : Table) (seed : UInt64) :
    RehashOutcome × Nat × Maintenance × Table :=
  let load := t.loadFactor
  let (outcome, pauses, m, t) :=
    if m.settings.prefersGrowth load t.isMaxSize then
      (.preferGrow, 0, (m.record (.rehashDeferredToGrow load)).trigger, t)
    else if m.rehashed then (.alreadyRehashed, 0, (m.record .rehashRepeated).trigger, t)
    else m.rekey heap t seed
  (outcome, pauses, { m with needsRehash := false }, t)

/-- What the worker finds when it waits: work to do, the end, or nothing yet. -/
def waitForWork (m : Maintenance) : Option Bool × Maintenance :=
  if m.shutdown then (some false, m)
  else if m.wakePending then (some true, { m with wakePending := false })
  else (none, m)

def requestShutdown (m : Maintenance) : Maintenance := { m with shutdown := true }

end Maintenance

end WeakIntern
