import WeakIntern.CommandLine.Profile
import WeakIntern.Interner
/-!
# Stress runs

A stress run interns the same words several times over, keeps those of even length, lets the rest
die, reports the dead and lets maintenance run, and checks the table after every round. Rounds use
words of their own.
-/

namespace WeakIntern.CommandLine

/-- The word that a round interns in a place. Every word comes twice at least, if there are two
places. -/
def stressWord (round words place : Nat) : String :=
  "r" ++ toString round ++ "-w" ++ toString (place % max 1 (words / 2))

/-- What a stress run saw. -/
structure StressReport where
  interned : Nat := 0
  kept : Nat := 0
  reportedDead : Nat := 0
  maintenancePasses : Nat := 0
  deriving DecidableEq, Repr, Inhabited

/-- The objects of a list that another object stands before with the same content. -/
def copies (heap : Heap) (objects : List ObjectId) : List ObjectId :=
  let sorted := objects.mergeSort fun a b => heap.content a ≤ heap.content b
  let groups := sorted.splitBy fun a b => heap.content a == heap.content b
  groups.flatMap fun group => group.filter fun o => some o != group.head?

/-- Refuse a list in which two objects have one content; the first that is not the first of its
content is named. -/
def checkCanonical (heap : Heap) (objects : List ObjectId) : Except Trouble Unit :=
  let copies := copies heap objects
  match objects.find? copies.contains with
  | none => .ok ()
  | some o => .error (.verification ("two objects for " ++ quoted (heap.content o)))

/-- Intern words one after the other, and hold on to all of them. -/
def internAll (i : Interner) : List String → List ObjectId × Interner
  | [] => ([], i)
  | s :: rest =>
    let (o, i) := i.intern s
    let (os, i) := internAll i rest
    (o :: os, i)

/-- Is the object kept? -/
def isKept (heap : Heap) (o : ObjectId) : Bool := (utf8Bytes (heap.content o)).length % 2 = 0

/-- A stress run that is under way. -/
structure StressState where
  interner : Interner
  /-- The objects kept, round by round. -/
  kept : List ObjectId := []
  report : StressReport := {}
  deriving Inhabited

/-- One round. Work that was done leaves none behind, so two attempts are enough. -/
def stressRound (words : Nat) (seed : UInt64) (state : StressState) (round : Nat) :
    Except Trouble StressState := do
  let (values, i) := internAll state.interner ((List.range words).map (stressWord round words))
  checkCanonical i.heap values
  let (kept, rest) := values.partition (isKept i.heap)
  let (dead, i) := (rest.foldl Interner.dropReference i).reportDead
  let (passes, i) := Interner.runAll seed 2 i
  let (failures, i) := i.verifyAndCompare
  if 0 < failures then
    throw (.verification (toString failures ++ " problems after round " ++ toString round))
  return {
    interner := i
    kept := state.kept ++ kept
    report :=
      { interned := state.report.interned + values.length
        kept := state.report.kept + kept.length
        reportedDead := state.report.reportedDead + dead
        maintenancePasses := state.report.maintenancePasses + passes.length } }

/-- Check that an object still stands for its content. -/
def checkKept (i : Interner) (o : ObjectId) : Except Trouble Interner :=
  let (found, i) := i.lookup? (i.heap.content o)
  if found = some o then .ok (i.dropReference o)
  else .error
    (.verification ("kept value " ++ quoted (i.heap.content o) ++ " is no longer canonical"))

/-- Run all rounds, check what was kept, and let go of it. -/
def stressTable (i : Interner) (words rounds : Nat) (seed : UInt64) :
    Except Trouble (StressReport × Interner) := do
  let state ← (List.range rounds).foldlM (stressRound words seed) { interner := i }
  let i ← state.kept.foldlM checkKept state.interner
  return (state.report, state.kept.foldl Interner.dropReference i)

end WeakIntern.CommandLine
