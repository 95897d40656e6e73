import WeakIntern.Text.Json
/-!
# Tables under construction

The tables of a configuration file while it is read. A header opens the table at its path, a header
in double brackets a further table of a list, and a key with points puts its value into a table
below the open one. Tables that a path passes through are made where they are missing. How a table
came to be decides what may still be done with it:

* a header opens a table once, also one that other headers have passed through, but none that a key
  has made;
* a key passes through no table that a header has opened, and adds only to tables that keys have
  made.
-/

namespace WeakIntern.Toml

/-- How a table came to be. -/
inductive Origin where
  /-- Its own header opened it. -/
  | header
  /-- The header of a table below it passed through it. -/
  | passed
  /-- A key with points made it. -/
  | key
  deriving DecidableEq, Repr, Inhabited

/-- What stands under a key. Fields and tables of a list are held with the newest first. -/
inductive Node where
  /-- A value, complete as it stands. -/
  | value (j : Json)
  | table (origin : Origin) (fields : List (String × Node))
  /-- A list of tables, of which the last is the one that grows. -/
  | tables (last : List (String × Node)) (complete : List (List (String × Node)))
  deriving Inhabited

/-- The keys of a table and what stands under them, the newest first. -/
abbrev Fields := List (String × Node)

/-! ## As a record -/

mutual

/-- What stands under a key, as a value. -/
def Node.toJson : Node → Json
  | .value j => j
  | .table _ fields => .record (fieldsInOrder fields [])
  | .tables last complete => .list (tablesInOrder complete [.record (fieldsInOrder last [])])

/-- Fields with the oldest first, before those that are `done`. -/
def fieldsInOrder : List (String × Node) → List (String × Json) → List (String × Json)
  | [], done => done
  | (key, node) :: older, done => fieldsInOrder older ((key, node.toJson) :: done)

/-- Tables with the oldest first, before those that are `done`. -/
def tablesInOrder : List (List (String × Node)) → List Json → List Json
  | [], done => done
  | fields :: older, done => tablesInOrder older (.record (fieldsInOrder fields []) :: done)

end

namespace Fields

/-- The record that the fields make. -/
def toJson (fields : Fields) : Json := .record (fieldsInOrder fields [])

/-! ## Paths -/

/-- Put another node under a key. -/
def replace (key : String) (node : Node) (fields : Fields) : Fields :=
  fields.map fun (k, old) => if k == key then (k, node) else (k, old)

/-- Change the table at the end of a path. Missing tables are made with the origin `via`, and a way
through a list goes on in its last table. `change` is told how the table came to be. -/
def descend (via : Origin) (change : Origin → Fields → Option Fields) :
    (path : List String) → Origin → Fields → Option Fields
  | [], origin, fields => change origin fields
  | key :: path, _, fields =>
    match fields.lookup key with
    | none => (descend via change path via []).map fun inner => (key, .table via inner) :: fields
    | some (.value _) => none
    | some (.tables last complete) =>
      (descend via change path .header last).map fun last =>
        replace key (.tables last complete) fields
    | some (.table origin inner) =>
      if via = .key ∧ origin = .header then none
      else (descend via change path origin inner).map fun inner =>
        replace key (.table origin inner) fields

/-! ## Headers and keys -/

/-- Open a table by its header. -/
def openTable (path : List String) (fields : Fields) : Option Fields := do
  let name ← path.getLast?
  descend .passed (fun _ fields =>
    match fields.lookup name with
    | none => some ((name, .table .header []) :: fields)
    | some (.table .passed inner) => some (replace name (.table .header inner) fields)
    | some _ => none) path.dropLast .header fields

/-- Add a table to a list by its header in double brackets. -/
def openListed (path : List String) (fields : Fields) : Option Fields := do
  let name ← path.getLast?
  descend .passed (fun _ fields =>
    match fields.lookup name with
    | none => some ((name, .tables [] []) :: fields)
    | some (.tables last complete) => some (replace name (.tables [] (last :: complete)) fields)
    | some _ => none) path.dropLast .header fields

/-- Give a key its value. A key without points belongs to the table itself; for any other the path
must end in a table that keys have made. -/
def assign (key : List String) (value : Json) (fields : Fields) : Option Fields := do
  let name ← key.getLast?
  descend .key (fun origin fields =>
    if (1 < key.length ∧ origin ≠ .key) ∨ (fields.lookup name).isSome then none
    else some ((name, .value value) :: fields)) key.dropLast .header fields

/-- Give a key its value in the table that a header has opened. -/
def assignAt (path key : List String) (value : Json) (fields : Fields) : Option Fields :=
  descend .passed (fun _ fields => fields.assign key value) path .header fields

end Fields

end WeakIntern.Toml
