import WeakIntern.Maintenance
import WeakIntern.Overlay
import WeakIntern.Snapshot.Draft
import WeakIntern.Table.Survey
import WeakIntern.Text.DumpLine
/-!
# The interner

An `Interner` hands out one object per content: equal strings become the same object, for as long as
anyone keeps it. It asks the overlay first and the table then; what neither holds is linked in the
table.

Objects are counted: an operation that answers with an object gives the caller one reference to it,
which the caller gives up with `dropReference`. The overlay keeps its objects for good, the table
keeps none alive.
-/

namespace WeakIntern

/-- The interning service with the heap it works on. -/
structure Interner where
  heap : Heap := {}
  table : Table
  overlay : Overlay := {}
  maintenance : Maintenance
  running : Bool := true
  /-- How often maintenance has come to a pause point. -/
  pauses : Nat := 0
  deriving Inhabited

namespace Interner

/-- The name of the weak cells of a table that is given none. -/
def ownCells : CellStore := { name := "StringTable Weak" }

/-- The listener that stands for the interner itself. -/
def listener : Nat := 0

def settings (i : Interner) : Settings := i.maintenance.settings

def log (i : Interner) : EventLog := i.maintenance.log

/-! ## References -/

/-- Allocate an object that is in no table. -/
def newObject (i : Interner) (s : String) : ObjectId × Interner :=
  let (o, heap) := i.heap.alloc s
  (o, { i with heap })

def retain (i : Interner) (o : ObjectId) : Interner := { i with heap := i.heap.retain o }

/-- Give up a reference. -/
def dropReference (i : Interner) (o : ObjectId) : Interner := { i with heap := i.heap.drop o }

/-- Answer with an object: the caller gets a reference. -/
def give (i : Interner) (o : ObjectId) : ObjectId × Interner := (o, i.retain o)

/-! ## Interning -/

/-- Take note of an alarm. -/
def raiseAlarm (i : Interner) (alarm : Bool) : Interner :=
  { i with maintenance := i.maintenance.raiseAlarm i.table alarm }

/-- The object of the overlay with this content. -/
def lookupShared? (i : Interner) (s : String) : Option ObjectId :=
  if i.overlay.isEmpty then none else i.overlay.lookup? i.heap s (unitHash s)

/-- Look a key up in the table, and take note of an alarm. -/
def probe (i : Interner) (key : LookupKey) : Option ObjectId × Interner :=
  let found := i.table.get? i.heap key
  (found.value, i.raiseAlarm found.alarm)

/-- Link an object in the table unless its content is there; answers with the object that stands for
the content. -/
def link (i : Interner) (o : ObjectId) : ObjectId × Interner :=
  let (ref, table) := i.table.acquire o
  let (placed, table) := table.insertIfAbsent i.heap o ref
  ({ i with table }.raiseAlarm placed.alarm).give (placed.value.canonical o)

/-- The object that stands for the content of `o`, which is `o` itself if there was none. -/
def internObject (i : Interner) (o : ObjectId) : ObjectId × Interner :=
  match i.lookupShared? (i.heap.content o) with
  | some shared => i.give shared
  | none =>
    match i.probe (.object o) with
    | (some found, i) => i.give found
    | (none, i) => i.link o

/-- The object that stands for a content. -/
def intern (i : Interner) (s : String) : ObjectId × Interner :=
  match i.lookupShared? s with
  | some shared => i.give shared
  | none =>
    match i.probe (.text s) with
    | (some found, i) => i.give found
    | (none, i) =>
      let (o, i) := i.newObject s
      let (canonical, i) := i.link o
      (canonical, i.dropReference o)

/-- The object that stands for a content, if there is one. -/
def lookup? (i : Interner) (s : String) : Option ObjectId × Interner :=
  match i.lookupShared? s with
  | some shared => (some shared, i.retain shared)
  | none =>
    match i.probe (.text s) with
    | (some found, i) => (some found, i.retain found)
    | (none, i) => (none, i)

/-! ## The overlay -/

/-- Link the objects of the overlay in the table, and have the overlay empty from then on. Only the
first time has an effect; the number counts the entries. -/
def transferOverlay (i : Interner) : Nat × Interner :=
  let entries := i.overlay.entryCount
  let (objects, overlay) := i.overlay.drain
  let i := objects.foldl
    (fun i o =>
      let (canonical, i) := i.link o
      i.dropReference canonical)
    { i with overlay }
  if entries = 0 then (0, i)
  else (entries, { i with maintenance := i.maintenance.record (.overlayDrained entries) })

/-- Start an interner, with a snapshot to answer from and weak cells to use. The strings of a
snapshot in memory that may move are transferred at once. -/
def start (settings : Settings) (image : Option Image) (cells : CellStore) (heap : Heap) :
    Except Failure Interner :=
  match settings.check with
  | .error cause => .error (.configuration cause)
  | .ok () =>
    let (overlay, heap) := match image with
      | some image => Overlay.ofImage heap image
      | none => ({}, heap)
    let i : Interner :=
      { heap
        table := .ofSettings settings (cells.listen listener)
        overlay
        maintenance := { settings, log := { options := { json := settings.jsonEvents } } } }
    .ok (if overlay.requiresTransfer then i.transferOverlay.2 else i)

/-- Stop. The interner stays usable, but nobody is told of dead strings any more. -/
def shutdown (i : Interner) : Interner :=
  if i.running then
    { i with
      running := false
      maintenance := i.maintenance.requestShutdown
      table := { i.table with cells := i.table.cells.unlisten } }
  else i

/-! ## Maintenance -/

/-- The collector reports dead strings; was work asked for? -/
def notifyDead (i : Interner) (numDead : Nat) : Bool × Interner :=
  let (asked, maintenance) := i.maintenance.notifyDead i.table numDead
  (asked, { i with maintenance })

/-- The collector counts the dead cells, and tells the number to the interner if that is the one
that listens. -/
def reportDead (i : Interner) : Nat × Interner :=
  let (numDead, told) := i.table.cells.report i.heap
  (numDead, told.foldl (fun i (who, n) => if who = listener then (i.notifyDead n).2 else i) i)

/-- Answer an alarm; the seed is the one to use if the table is rehashed. -/
def rehash (i : Interner) (seed : UInt64) : RehashOutcome × Interner :=
  let (outcome, pauses, maintenance, table) := i.maintenance.rehash i.heap i.table seed
  (outcome, { i with maintenance, table, pauses := i.pauses + pauses })

/-- Do the outstanding work. -/
def doWork (i : Interner) : WorkKind × Interner :=
  let (kind, pauses, maintenance, table) := i.maintenance.doWork i.heap i.table
  (kind, { i with maintenance, table, pauses := i.pauses + pauses })

/-- The line about finished work. -/
def workNotice (i : Interner) (kind : WorkKind) : Notice :=
  let shape := i.table.shape i.heap
  { level := .info
    text := "After " ++ kind.name ++ ": " ++ toString shape.bucketCount ++ " buckets, " ++
      toString shape.entryCount ++ " entries (" ++ toString shape.liveCount ++
      " live), max chain " ++
      toString shape.maxBucketLength }

/-- Answer an outstanding alarm, and then do the outstanding work. -/
def runPending (i : Interner) (seed : UInt64) : Option WorkKind × Interner :=
  let i := if i.maintenance.needsRehash then (i.rehash seed).2 else i
  if i.maintenance.hasWork then
    let (kind, i) := i.doWork
    (some kind, if i.settings.verbose
      then { i with table := i.table.notify (i.workNotice kind) } else i)
  else (none, i)

/-- Do outstanding work until there is none, at most `fuel` times. -/
def runAll (seed : UInt64) : (fuel : Nat) → Interner → List WorkKind × Interner
  | 0, i => ([], i)
  | fuel + 1, i =>
    match i.runPending seed with
    | (none, i) => ([], i)
    | (some kind, i) =>
      let (kinds, i) := runAll seed fuel i
      (kind :: kinds, i)

/-! ## Reports -/

/-- The objects that the interner answers with: those of the overlay, then those of the table. -/
def visibleObjects (i : Interner) : List ObjectId := i.overlay.objects ++ i.table.liveObjects i.heap

/-- The contents of objects. -/
def contents (i : Interner) (objects : List ObjectId) : List String := objects.map i.heap.content

/-- The table of figures, of the table and of an overlay that has entries. -/
def dumpFigures (i : Interner) : String :=
  (i.table.shape i.heap).print "StringTable" ++
    if i.overlay.isEmpty then "" else (i.overlay.shape i.heap).print "Shared String Table"

/-- Strings, one to a line. -/
def dumpLines (strings : List String) : String :=
  String.join (strings.map fun s => dumpLine s ++ "\n")

/-- What the dump says of the table. While a task is under way it cannot be dumped. -/
def dumpTable (i : Interner) : String :=
  match i.table.scan? i.heap with
  | some objects => dumpLines (i.contents objects)
  | none => "dump unavailable at this moment\n"

/-- What the dump says of the overlay. -/
def dumpOverlay (i : Interner) : String :=
  if i.overlay.isEmpty then ""
  else "#----------------\n# Shared strings:\n#----------------\n" ++
    dumpLines (i.contents i.overlay.objects)

/-- All strings, one to a line. -/
def dumpStrings (i : Interner) : String := "VERSION: 1.1\n" ++ i.dumpTable ++ i.dumpOverlay

/-- Check the table; every problem is recorded, and their number is answered. -/
def verify (i : Interner) : Nat × Interner :=
  let problems := i.table.problems i.heap
  let record (m : Maintenance) (p : SlotProblem) :=
    m.record (.verificationFailure p.kind p.describe)
  (problems.length, { i with maintenance := problems.foldl record i.maintenance })

/-- How often each string occurs, in alphabetical order. -/
def tally (strings : List String) : List (String × Nat) :=
  (strings.mergeSort.splitBy (· == ·)).filterMap fun group => group.head?.map fun s =>
    (s, group.length)

/-- Check the table, and look for contents that more than one object stands for. Each spare object
counts once. -/
def verifyAndCompare (i : Interner) : Nat × Interner :=
  let (problems, i) := i.verify
  let repeated := (tally (i.contents i.visibleObjects)).filter fun (_, copies) => 1 < copies
  let record (m : Maintenance) : String × Nat → Maintenance
    | (content, copies) =>
      m.record (.verificationFailure "duplicate"
        (quoted content ++ " present " ++ toString copies ++ " times"))
  (problems + (repeated.map fun (_, copies) => copies - 1).sum,
    { i with maintenance := repeated.foldl record i.maintenance })

/-- A snapshot of all strings that the interner answers for. -/
def archive (i : Interner) (addressing : Addressing) : Except Failure (List UInt8) :=
  (SnapshotDraft.ofList addressing (i.contents i.visibleObjects)).encode

def stateName (i : Interner) : String := if i.running then "Running" else "Stopped"

/-- The state of the interner, as names and values. -/
def diagnostics (i : Interner) : List (String × String) :=
  [("state", i.stateName), ("size", toString i.table.size),
    ("item_count", toString i.table.itemCount), ("load_factor", fixedPoint 3 i.table.loadFactor),
    ("alt_hash", toString i.table.epoch.isAlternate),
    ("needs_rehashing", toString i.maintenance.needsRehash),
    ("rehashed", toString i.maintenance.rehashed), ("has_work", toString i.maintenance.hasWork),
    ("task_in_flight", toString i.table.owned), ("shared_entries", toString i.overlay.entryCount),
    ("weak_cells", toString i.table.cells.allocated), ("events", toString i.log.records.size)]

/-- The diagnostic text. -/
def describe (i : Interner) : String :=
  "StringTable \x7b table: " ++ i.table.describe ++ ", overlay: " ++ i.overlay.describe ++
    ", state: " ++
    i.stateName ++ " \x7d"

end Interner

end WeakIntern
