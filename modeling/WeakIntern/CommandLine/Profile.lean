import WeakIntern.CommandLine.FileTree
import WeakIntern.Failure
import WeakIntern.Text.Toml
import WeakIntern.Text.Utf8
/-!
# Profiles

A profile is what a configuration file holds: the settings of the table and those of a stress run.
Where no file is named, one is looked for in the working directory and then in the usual directories
for configuration; where none is found, the environment gives the settings of the table.
-/

namespace WeakIntern.CommandLine

/-- Why a command came to nothing. -/
inductive Trouble where
  | configuration (detail : String)
  | validation (detail : String)
  | table (cause : Failure)
  | verification (detail : String)
  | io
  deriving DecidableEq, Repr, Inhabited

/-- The report. What the operating system has to say about a file is left out. -/
def Trouble.message : Trouble → String
  | .configuration detail => "Error: Configuration error: " ++ detail
  | .validation detail => "Error: Validation error: " ++ detail
  | .table (.io _) => "Error: String table error: I/O error"
  | .table cause => "Error: String table error: " ++ cause.message
  | .verification detail => "Error: Verification failed: " ++ detail
  | .io => "Error: IO error"

/-- The settings of a stress run. The number of threads has no influence on what it prints. -/
structure StressSettings where
  words : Nat := 10000
  rounds : Nat := 4
  deriving DecidableEq, Repr, Inhabited

/-- What a configuration file holds. -/
structure Profile where
  table : Settings := {}
  stress : StressSettings := {}
  deriving Inhabited

namespace Profile

/-- A count in a field of a record, with its default; the wrong type is refused. -/
def countField (fields : List (String × Json)) (name : String) (absent : Nat) : Option Nat :=
  match fields.lookup name with
  | none => some absent
  | some value => Settings.readCount? maxCount value

/-- The names of the settings of a stress run, in their order. -/
def stressNames : List String := ["threads", "words", "rounds"]

/-- The settings of a stress run, by their names. -/
def stressOfFields? (fields : List (String × Json)) : Option StressSettings := do
  let base : StressSettings := {}
  let _ ← countField fields "threads" 1
  return {
    words := ← countField fields "words" base.words
    rounds := ← countField fields "rounds" base.rounds }

/-- The settings of a stress run: a record, or a list that gives them in order. What a list has
beyond them does not count. -/
def stressOf? : Json → Option StressSettings
  | .record fields => stressOfFields? fields
  | .list values => stressOfFields? (stressNames.zip values)
  | _ => none

/-- The settings of the table, likewise. -/
def tableOf? : Json → Option Settings
  | .list values => Settings.assignAll {} (Settings.fieldNames.zip values)
  | value => Settings.ofJson? {} value

/-- A section of the file, with its default. -/
def section? {α : Type} (fields : List (String × Json)) (name : String) (absent : α)
    (read : Json → Option α) : Option α :=
  match fields.lookup name with
  | none => some absent
  | some value => read value

/-- The profile in the record of a file. -/
def ofJson? : Json → Option Profile
  | .record fields => do
    let _ ← section? fields "verbose" false Settings.readBool?
    return {
      table := ← section? fields "table" {} tableOf?
      stress := ← section? fields "stress" {} stressOf? }
  | _ => none

/-- The profile in a file that must be there. -/
def load (tree : FileTree) (path : String) : Except Trouble Profile :=
  if !tree.contains path then .error (.configuration ("Configuration file not found: " ++ path))
  else
    match (tree.read? path).map ofUtf8 with
    | some (.ok text) =>
      match (Toml.read? text).bind ofJson? with
      | none => .error (.configuration "Failed to parse configuration")
      | some profile =>
        match profile.table.check with
        | .ok () => .ok profile
        | .error cause => .error (.configuration (path ++ ": " ++ cause.message))
    | _ => .error .io

/-- The path of something in a directory. -/
def inDirectory (directory name : String) : String :=
  if directory.endsWith "/" then directory ++ name else directory ++ "/" ++ name

/-- Where the profile stands in a directory for configuration. -/
def ownPath : String := "strtab/strtab.toml"

/-- Where a configuration file is looked for: here, below the home directory, and in the directory
that the environment sets apart for configuration, which counts only as an absolute path. -/
def candidates (env : Settings.Environment) : List String :=
  let home := (Settings.valueOf? env "HOME").filter (!·.isEmpty)
  let apart := (Settings.valueOf? env "XDG_CONFIG_HOME").filter (·.startsWith "/")
  ["strtab.toml"] ++ (home.map (inDirectory · (".config/" ++ ownPath))).toList ++
    (apart.map (inDirectory · ownPath)).toList

/-- The profile to use: of the file that is named, of one that is found, or of the environment. -/
def find (tree : FileTree) (env : Settings.Environment) (path : Option String) :
    Except Trouble Profile :=
  match path.or ((candidates env).find? tree.contains) with
  | some path => load tree path
  | none => .ok { table := Settings.ofEnvironment env }

end Profile

end WeakIntern.CommandLine
