import WeakIntern.CommandLine.Invocation
import WeakIntern.CommandLine.Stress
import WeakIntern.Text.Blank
/-!
# Running commands

What a command prints, which files it writes, and how it ends. All commands start a table of their
own, without background work, from the settings of the profile.
-/

namespace WeakIntern.CommandLine

/-- The first line of a text, without a carriage return at its end. -/
def firstLine (text : String) : String :=
  let line := text.toList.takeWhile (· != '\n')
  String.ofList (if line.getLast? = some '\r' then line.dropLast else line)

/-- What a run of the program leaves. -/
structure Outcome where
  exitCode : Nat
  output : String := ""
  /-- The first line of the report of a run that failed. -/
  message : Option String := none
  tree : FileTree
  deriving Inhabited

/-- Start a table. -/
def startTable (settings : Settings) (image : Option Image) : Except Trouble Interner :=
  match Interner.start { settings with background := false } image Interner.ownCells {} with
  | .ok i => .ok i
  | .error cause => .error (.table cause)

/-- A table that holds the words of some texts. -/
def holding (i : Interner) (texts : List String) : List ObjectId × Interner :=
  internAll i (texts.flatMap words)

/-- The text of a file. -/
def readText (tree : FileTree) (path : String) : Except Trouble String :=
  match (tree.read? path).map ofUtf8 with
  | some (.ok text) => .ok text
  | _ => .error .io

/-- The words to archive: those given, and those of a file. -/
def archiveTexts (tree : FileTree) (given : List String) :
    Option String → Except Trouble (List String)
  | none => .ok given
  | some input => (readText tree input).map fun text => given ++ [text]

/-- Write a snapshot of all words. -/
def runArchive (profile : Profile) (tree : FileTree) (given : List String) (input : Option String)
    (output : String) (narrow : Bool) : Except Trouble FileTree := do
  let texts ← archiveTexts tree given input
  let (held, i) := holding (← startTable profile.table none) texts
  if held.isEmpty then throw (.validation "no words to archive")
  match i.archive (if narrow then .narrow else .offset) with
  | .error cause => throw (.table cause)
  | .ok bytes =>
    match tree.write? output bytes with
    | some tree => return tree
    | none => throw .io

/-- Read a snapshot, mapped or into memory. -/
def readImage (tree : FileTree) (path : String) (map : Bool) : Except Trouble Image :=
  match tree.read? path with
  | none => .error (.table (.io ""))
  | some bytes => (Image.read (if map then .mapped else .loaded) bytes).mapError .table

/-- A record with its fields in alphabetical order. -/
def sortedRecord (fields : List (String × Json)) : Json :=
  .record (fields.mergeSort fun (a, _) (b, _) => a ≤ b)

/-- The state of a table as a JSON record. -/
def jsonReport (i : Interner) : Json :=
  let overlay := match (i.overlay.shape i.heap).toJson with
    | .record fields => fields
    | _ => []
  sortedRecord [("table", sortedRecord (i.table.shape i.heap).jsonFields),
    ("overlay", sortedRecord overlay),
    ("diagnostics", sortedRecord (i.diagnostics.map fun (name, value) => (name, .string value)))]

/-- The text of a dump. -/
def runDump (profile : Profile) (tree : FileTree) (given : List String) (snapshot : Option String)
    (map all json : Bool) : Except Trouble String := do
  let image ← match snapshot with
    | none => pure none
    | some path => (readImage tree path map).map some
  let (_, i) := holding (← startTable profile.table image) given
  if json then return (jsonReport i).pretty ++ "\n"
  return if all then i.dumpStrings else i.dumpFigures

/-- The figures after a stress run. -/
def runStress (profile : Profile) (words rounds : Option Nat) (seed : UInt64) :
    Except Trouble String := do
  let i ← startTable profile.table none
  let (_, i) ← stressTable i (words.getD profile.stress.words)
    (rounds.getD profile.stress.rounds) seed
  return i.dumpFigures

/-- What a command prints, and the files after it. -/
def Command.run (profile : Profile) (tree : FileTree) (seed : UInt64) :
    Command → Except Trouble (String × FileTree)
  | .archive given input output narrow => (runArchive profile tree given input output narrow).map
    fun tree => ("", tree)
  | .dump given snapshot map all json =>
    (runDump profile tree given snapshot map all json).map fun text => (text, tree)
  | .stress _ words rounds => (runStress profile words rounds seed).map fun text => (text, tree)

/-- Run the program. The seed is the one to use if a table has to be rehashed. -/
def run (tree : FileTree) (env : Settings.Environment) (seed : UInt64)
    (args : List String) : Outcome :=
  match Request.ofArguments env args with
  | .usage => { exitCode := 2, tree }
  | .help => { exitCode := 0, tree }
  | .version text => { exitCode := 0, output := text, tree }
  | .run invocation =>
    let result := do
      let profile ← Profile.find tree env invocation.config
      invocation.command.run profile tree seed
    match result with
    | .ok (output, tree) => { exitCode := 0, output, tree }
    | .error trouble => { exitCode := 1, message := some (firstLine trouble.message), tree }

/-- The files that a run may read. -/
def filesToRead (env : Settings.Environment) (args : List String) : List String :=
  match Request.ofArguments env args with
  | .run invocation =>
    Profile.candidates env ++ invocation.config.toList ++
      match invocation.command with
      | .archive _ input _ _ => input.toList
      | .dump _ snapshot _ _ _ => snapshot.toList
      | .stress .. => []
  | _ => []

/-- The files that a run may write. -/
def filesToWrite (env : Settings.Environment) (args : List String) : List String :=
  match Request.ofArguments env args with
  | .run { command := .archive _ _ output _, .. } => [output]
  | _ => []

/-- The variables that a run may look at. -/
def variablesToRead : List String :=
  ["HOME", "XDG_CONFIG_HOME", "STRTAB_SIZE", "STRTAB_MAX_SIZE_LOG2", "STRTAB_CHUNK_BUCKETS",
    "STRTAB_BACKGROUND", "STRTAB_VERBOSE"] ++
    sharedOptions.map Prod.snd

end WeakIntern.CommandLine
