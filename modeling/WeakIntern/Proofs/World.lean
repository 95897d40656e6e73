import WeakIntern.Proofs.Pass
/-!
# A table in the world

A `World` is one table with all that works on it: the heap of strings, the weak references that were
handed out for it, and any number of structural tasks. Everything happens in whole steps, in any
order: strings are allocated, kept and dropped, inserted and looked up, and tasks are created and
driven, by anyone, between any two chunks of each other.

An `Action` is a step in which an insert takes a fresh reference to the very string that it inserts.
A `Move` is more liberal: a reference may be acquired for any live object, and later be passed to an
insert of another one.
-/

namespace WeakIntern

/-- One table, and all that works on it. -/
structure World where
  heap : Heap
  table : Table
  /-- References that were acquired and that no insert has taken yet. -/
  spare : List WeakRef := []
  /-- References that inserts have taken. -/
  passed : List WeakRef := []
  /-- All tasks ever created. -/
  tasks : List Task := []

/-- A step of the program around a table. Tasks go by their number. -/
inductive Action where
  | allocate (s : String)
  | retain (o : ObjectId)
  | drop (o : ObjectId)
  | insert (o : ObjectId)
  | get (key : LookupKey)
  | create (kind : TaskKind) (chunk : Option UInt64)
  | prepare (i : Nat)
  | chunk (i : Nat)
  | pause (i : Nat)
  | resume (i : Nat)
  | commit (i : Nat)
  | abandon (i : Nat)
  deriving DecidableEq, Repr

/-- Is the step one of a task? -/
def Action.isTask : Action → Bool
  | .create .. | .prepare _ | .chunk _ | .pause _ | .resume _ | .commit _ | .abandon _ => true
  | .allocate _ | .retain _ | .drop _ | .insert _ | .get _ => false

/-- A step in which references may be acquired ahead, and for other objects than the one that is
inserted. -/
inductive Move where
  | act (action : Action)
  | acquire (o : ObjectId)
  | offer (o : ObjectId) (ref : WeakRef)
  deriving DecidableEq, Repr

/-- What a step answers. -/
inductive Answer where
  | done
  /-- There is no such task, object or reference. -/
  | refused
  | found (o : Option ObjectId)
  | placed (placement : Table.Placement)
  | prepared (started : Bool)
  | more (remains : Bool)
  | summary (summary : TaskSummary)
  | failed (failure : Failure)
  deriving DecidableEq, Repr

namespace World

/-- An empty table in a heap. -/
def start (settings : Settings) (cells : CellStore) (heap : Heap) : World :=
  { heap, table := .ofSettings settings cells }

/-- A new task. -/
def create (w : World) (kind : TaskKind) (chunk : Option UInt64) : World :=
  let task := match chunk with
    | some n => (Task.new w.table kind).withChunk n.toNat
    | none => Task.new w.table kind
  { w with tasks := w.tasks ++ [task] }

/-- Pass a reference to an insert. -/
def pass (w : World) (o : ObjectId) (ref : WeakRef) : World × Answer :=
  let (probe, table) := w.table.insertIfAbsent w.heap o ref
  ({ w with table, passed := ref :: w.passed }, .placed probe.value)

/-- Insert a live object under a reference of its own. -/
def insert (w : World) (o : ObjectId) : World × Answer :=
  let (ref, table) := w.table.acquire o
  { w with table }.pass o ref

/-- Put the outcome of a step of task `i` in its place. -/
def update (w : World) (i : Nat) (task : Task) (table : Table) : World :=
  { w with table, tasks := w.tasks.set i task }

/-- Let task `i` do something. -/
def drive (w : World) (i : Nat) (f : Task → World × Answer) : World × Answer :=
  match w.tasks[i]? with
  | some task => f task
  | none => (w, .refused)

def prepare (w : World) (i : Nat) (task : Task) : World × Answer :=
  match task.prepare w.table with
  | some (task, table) => (w.update i task table, .prepared true)
  | none => (w, .prepared false)

def chunk (w : World) (i : Nat) (task : Task) : World × Answer :=
  match task.doChunk w.heap w.table with
  | .ok (more, task, table) => (w.update i task table, .more more)
  | .error failure => (w, .failed failure)

def pause (w : World) (i : Nat) (task : Task) : World × Answer :=
  match task.yieldPoint with
  | .ok task => (w.update i task w.table, .done)
  | .error failure => (w, .failed failure)

def resume (w : World) (i : Nat) (task : Task) : World × Answer :=
  match task.resume with
  | .ok task => (w.update i task w.table, .done)
  | .error failure => (w, .failed failure)

def commit (w : World) (i : Nat) (task : Task) : World × Answer :=
  match task.commit w.table with
  | .ok (summary, task, table) => (w.update i task table, .summary summary)
  | .error failure => (w, .failed failure)

/-- Give a task up; nobody uses it again. -/
def abandon (w : World) (i : Nat) (task : Task) : World × Answer :=
  (w.update i { task with state := .done } (task.abandon w.heap w.table), .done)

/-- Take a step. -/
def step (w : World) : Action → World × Answer
  | .allocate s => ({ w with heap := (w.heap.alloc s).2 }, .found (w.heap.alloc s).1)
  | .retain o => ({ w with heap := w.heap.retain o }, .done)
  | .drop o => ({ w with heap := w.heap.drop o }, .done)
  | .insert o => if w.heap.isLive o then w.insert o else (w, .refused)
  | .get key => (w, .found (w.table.get? w.heap key).value)
  | .create kind chunk => (w.create kind chunk, .done)
  | .prepare i => w.drive i (w.prepare i)
  | .chunk i => w.drive i (w.chunk i)
  | .pause i => w.drive i (w.pause i)
  | .resume i => w.drive i (w.resume i)
  | .commit i => w.drive i (w.commit i)
  | .abandon i => w.drive i (w.abandon i)

/-- Make a move. -/
def move (w : World) : Move → World × Answer
  | .act action => w.step action
  | .acquire o =>
    if w.heap.isLive o then
      let (ref, table) := w.table.acquire o
      ({ w with table, spare := ref :: w.spare }, .done)
    else (w, .refused)
  | .offer o ref =>
    if w.heap.isLive o && w.spare.contains ref then { w with spare := w.spare.erase ref }.pass o ref
    else (w, .refused)

/-- Make one move after another. -/
def run (w : World) : List Move → World
  | [] => w
  | m :: rest => (w.move m).1.run rest

/-- What the moves answer. -/
def answers (w : World) : List Move → List Answer
  | [] => []
  | m :: rest => (w.move m).2 :: (w.move m).1.answers rest

/-- Does a task go back over buckets whose slots it has moved? -/
def goesBack (w : World) : Move → Bool
  | .act (.chunk i) => w.tasks[i]?.any fun task => task.state = .running && task.goesBack
  | .act (.abandon i) => w.tasks[i]?.any fun task => task.isUnderWay && task.goesBack
  | _ => false

/-- No move lets a task go back. -/
def neverGoesBack (w : World) : List Move → Bool
  | [] => true
  | m :: rest => !w.goesBack m && (w.move m).1.neverGoesBack rest

theorem run_append (w : World) (before after : List Move) :
    w.run (before ++ after) = (w.run before).run after := by
  induction before generalizing w with
  | nil => rfl
  | cons m rest ih => exact ih _

theorem neverGoesBack_append (w : World) (before after : List Move) :
    w.neverGoesBack (before ++ after) =
      (w.neverGoesBack before && (w.run before).neverGoesBack after) := by
  induction before generalizing w with
  | nil => rfl
  | cons m rest ih =>
    rw [List.cons_append, neverGoesBack, neverGoesBack, ih, Bool.and_assoc]
    rfl

/-- A property that every move keeps holds after any moves. -/
theorem run_induction {P : World → Prop} (hmove : ∀ w m, P w → P (w.move m).1) {w : World} (h : P w)
    (moves : List Move) : P (w.run moves) := by
  induction moves generalizing w with
  | nil => exact h
  | cons m rest ih => exact ih (hmove w m h)

end World

end WeakIntern
