import WeakIntern.Failure
import WeakIntern.Table.Probe
/-!
# Structural tasks

A task goes over every bucket of a table, a chunk at a time, so that the world can be paused between
chunks and strings can be interned and die meanwhile. Growing and rehashing move the live slots into
a new array, which becomes the active one at the commit; a bulk delete unlinks dead slots in place.
Dead slots are reaped on the way in all three.

A task is idle, running, paused or done, and owns its table while it is running or paused. A task
that is given up half-way finishes its pass and commits (`Task.abandon`).
-/

namespace WeakIntern

inductive TaskKind where
  /-- Double the number of buckets. -/
  | grow
  /-- Move to the keyed hash of a seed, at the same size. -/
  | rehash (seed : UInt64)
  /-- Unlink dead slots. -/
  | bulkDelete
  deriving DecidableEq, Repr, Inhabited

def TaskKind.name : TaskKind → String
  | .grow => "Grow"
  | .rehash _ => "Rehash"
  | .bulkDelete => "BulkDelete"

inductive TaskState where
  | idle
  | running
  | paused
  | done
  deriving DecidableEq, Repr, Inhabited

def TaskState.name : TaskState → String
  | .idle => "Idle"
  | .running => "Running"
  | .paused => "Paused"
  | .done => "Done"

/-- What a task did. -/
structure TaskSummary where
  kind : TaskKind
  oldSize : Nat
  newSize : Nat
  /-- Slots looked at. -/
  examined : Nat
  /-- Live slots that were moved. -/
  moved : Nat
  /-- Dead slots that were reaped. -/
  reclaimed : Nat
  deriving DecidableEq, Repr, Inhabited

/-- A pass over the buckets of a table. -/
structure Task where
  kind : TaskKind
  state : TaskState := .idle
  /-- Was the array that the task goes over looked up? -/
  hasSource : Bool := false
  /-- The next bucket. -/
  cursor : Nat := 0
  /-- Buckets in a chunk, at least one. -/
  chunk : Nat
  examined : Nat := 0
  moved : Nat := 0
  reclaimed : Nat := 0
  deriving DecidableEq, Repr, Inhabited

namespace Task

/-- A task for a table, with the chunks that its settings ask for. -/
def new (t : Table) (kind : TaskKind) : Task := { kind, chunk := max 1 t.chunkBuckets }

/-- Set the number of buckets in a chunk. -/
def withChunk (task : Task) (chunk : Nat) : Task := { task with chunk := max 1 chunk }

/-- Does the task own its table? -/
def isUnderWay (task : Task) : Bool := task.state = .running || task.state = .paused

/-- Refuse an operation that another state is needed for. -/
def require (task : Task) (state : TaskState) : Except Failure Unit :=
  if task.state = state then .ok () else .error (.invalidState state.name task.state.name)

/-- Refuse an operation on the buckets of an array that was never looked up. -/
def requireSource (task : Task) : Except Failure Unit :=
  if task.hasSource then .ok () else .error (.internal "running task without a source table")

/-- The array that the task moves slots into; none for a bulk delete. -/
def targetArray (kind : TaskKind) (source : BucketArray) : Option BucketArray :=
  match kind with
  | .grow => some (.empty (source.log2 + 1) source.epoch)
  | .rehash seed => some (.empty source.log2 (.alternate seed))
  | .bulkDelete => none

/-- Take the table. A task can start if it is idle, no other task is under way and, for growth, the
table is below its greatest size. -/
def prepare (task : Task) (t : Table) : Option (Task × Table) :=
  if task.state ≠ .idle || t.owned || (task.kind = .grow && t.isMaxSize) then none
  else
    let successors := match targetArray task.kind t.active with
      | some target => [target]
      | none => t.successors
    some ({ task with state := .running, hasSource := true }, { t with owned := true, successors })

/-- Append a slot to the chain that its hash selects in the array slots are moved into. -/
def place (t : Table) (slot : Slot) : Table :=
  { t with successors := match t.successors with
      | [] => []
      | target :: rest => target.link (target.placeOf slot.hash) slot :: rest }

/-- The hash of a string in the array slots are moved into; within one epoch hashes are kept. -/
def movedHash (t : Table) (heap : Heap) (slot : Slot) (o : ObjectId) : UInt32 :=
  match t.successors with
  | [] => slot.hash
  | target :: _ => if target.epoch = t.epoch then slot.hash else target.epoch.hash (heap.content o)

/-- Move a slot, or reap it if its string is gone. -/
def migrateSlot (heap : Heap) : Task × Table → Slot → Task × Table
  | (task, t), slot =>
    let task := { task with examined := task.examined + 1 }
    match slot.ref.resolve? heap with
    | none => ({ task with reclaimed := task.reclaimed + 1 }, t.reap slot)
    | some o =>
      ({ task with moved := task.moved + 1 }, place t { slot with hash := movedHash t heap slot o })

/-- Move the slots of a bucket, in order, and redirect it. -/
def migrateBucket (heap : Heap) (task : Task) (t : Table) (index : Nat) : Task × Table :=
  let (task, t) := (t.active.slotsAt index).foldl (migrateSlot heap) (task, t)
  (task, { t with active := t.active.redirect index })

/-- Unlink the dead slots of a bucket. -/
def reapBucket (heap : Heap) (task : Task) (t : Table) (index : Nat) : Task × Table :=
  let slots := t.active.slotsAt index
  let (dead, live) := slots.partition fun slot => slot.ref.isDead heap
  let task := { task with examined := task.examined + slots.length }
  if dead.isEmpty then (task, t)
  else
    let t := { t with active := t.active.setSlots index live }
    ({ task with reclaimed := task.reclaimed + dead.length }, dead.foldl Table.reap t)

/-- Process a bucket. -/
def processBucket (heap : Heap) : Task × Table → Nat → Task × Table
  | (task, t), index =>
    match task.kind with
    | .bulkDelete => reapBucket heap task t index
    | .grow | .rehash _ => migrateBucket heap task t index

/-- Where the next chunk ends. The sum is a 64-bit number and wraps around. -/
def chunkEnd (task : Task) (size : Nat) : Nat := min ((task.cursor + task.chunk) % 2 ^ 64) size

/-- The buckets of the next chunk, in order. -/
def nextBuckets (task : Task) (size : Nat) : List Nat :=
  List.range' task.cursor (task.chunkEnd size - task.cursor)

/-- Process the buckets of the next chunk. -/
def processChunk (heap : Heap) (task : Task) (t : Table) : Task × Table :=
  let stop := task.chunkEnd t.size
  let (task, t) := (task.nextBuckets t.size).foldl (processBucket heap) (task, t)
  ({ task with cursor := stop }, t)

/-- Does any bucket of the table remain? -/
def hasMore (task : Task) (t : Table) : Bool := task.cursor < t.size

/-- Process the next chunk of a running task; does any bucket remain? -/
def doChunk (heap : Heap) (task : Task) (t : Table) : Except Failure (Bool × Task × Table) := do
  task.require .running
  task.requireSource
  let (task, t) := processChunk heap task t
  return (task.hasMore t, task, t)

/-- Let the world be paused between two chunks. -/
def yieldPoint (task : Task) : Except Failure Task := do
  task.require .running
  return { task with state := .paused }

/-- Go on after a pause. -/
def resume (task : Task) : Except Failure Task := do
  task.require .paused
  return { task with state := .running }

/-- Make the array that slots were moved into the active one, if there is such an array. -/
def publish (task : Task) (t : Table) : Table :=
  match task.kind, t.successors with
  | .bulkDelete, _ | _, [] => t
  | _, target :: rest => { t with active := target, successors := rest }

/-- Publish the result and give the table up. -/
def finish (task : Task) (t : Table) : TaskSummary × Task × Table :=
  let oldSize := t.size
  let t := { publish task t with owned := false }
  let summary : TaskSummary :=
    { kind := task.kind
      oldSize
      newSize := t.size
      examined := task.examined
      moved := task.moved
      reclaimed := task.reclaimed }
  (summary, { task with state := .done }, t)

/-- Finish a running task that has processed all buckets. -/
def commit (task : Task) (t : Table) : Except Failure (TaskSummary × Task × Table) := do
  task.require .running
  task.requireSource
  if task.hasMore t then
    throw (.invalidState ("all " ++ toString t.size ++ " buckets processed")
      (toString task.cursor ++ " processed"))
  return task.finish t

/-- Process chunks until none remains, in at most `fuel` steps; the number counts the pauses between
them. -/
def processAll (heap : Heap) : (fuel : Nat) → Task → Table → Nat × Task × Table
  | 0, task, t => (0, task, t)
  | fuel + 1, task, t =>
    let (task, t) := processChunk heap task t
    if task.hasMore t then
      let (pauses, task, t) := processAll heap fuel task t
      (pauses + 1, task, t)
    else (0, task, t)

/-- Chunks that surely reach the end of a table of this size, from any bucket on. -/
def enoughChunks (size : Nat) : Nat := size + 2

/-- Process all chunks that remain and commit. -/
def complete (heap : Heap) (task : Task) (t : Table) : Nat × TaskSummary × Task × Table :=
  let (pauses, task, t) := processAll heap (enoughChunks t.size) task t
  (pauses, task.finish t)

/-- What a run of a task came to. -/
structure Run where
  summary : Option TaskSummary
  /-- How often the world could have been paused. -/
  pauses : Nat
  task : Task
  table : Table
  deriving Inhabited

/-- Run a task from the start to the commit; without a summary if it cannot start. -/
def run (heap : Heap) (task : Task) (t : Table) : Run :=
  match task.prepare t with
  | none => { summary := none, pauses := 0, task, table := t }
  | some (task, t) =>
    let (pauses, summary, task, table) := complete heap task t
    { summary := some summary, pauses, task, table }

/-- The report of a task that is given up half-way. -/
def abandonNotice (task : Task) : Notice where
  level := .warn
  text := task.kind.name ++ " task dropped before commit, finishing at bucket " ++
    toString task.cursor

/-- Give a task up. One that is under way is finished first, since its table is in its hands. -/
def abandon (heap : Heap) (task : Task) (t : Table) : Table :=
  if task.isUnderWay then
    let (_, _, _, t) := complete heap { task with state := .running } (t.notify task.abandonNotice)
    t
  else t

end Task

end WeakIntern
