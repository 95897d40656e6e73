import WeakIntern.CommandLine.Options
import WeakIntern.Settings
/-!
# Invocations

What the arguments and the environment ask the program to do: which command, on which words and
files, and which configuration file to read. Three options are understood before and after the name
of the command; the one after it counts, and both before a variable of the environment.
-/

namespace WeakIntern.CommandLine

/-- A command with its arguments. -/
inductive Command where
  /-- Write a snapshot of words. -/
  | archive (words : List String) (input : Option String) (output : String) (narrow : Bool)
  /-- Print a table of words, with a snapshot to answer from. -/
  | dump (words : List String) (snapshot : Option String) (map all json : Bool)
  /-- Intern from many sides and check that the table holds up. -/
  | stress (threads words rounds : Option Nat)
  deriving DecidableEq, Repr, Inhabited

/-- What the program is asked to do. -/
structure Invocation where
  config : Option String
  command : Command
  deriving DecidableEq, Repr, Inhabited

/-- What the program answers to its arguments alone. -/
inductive Request where
  | run (invocation : Invocation)
  | version (text : String)
  | help
  | usage
  deriving DecidableEq, Repr, Inhabited

/-- A path: any text that is not empty. -/
def isPath (text : String) : Bool := !text.isEmpty

/-- A count of sixty-four bits. -/
def isCount (text : String) : Bool := (readUnsigned maxCount text).isSome

/-- A number of threads: at least one, and sixteen bits. -/
def isThreadCount (text : String) : Bool := (readUnsigned 65535 text).any (0 < ·)

/-- The options of every command, and the variables that stand for them. -/
def sharedOptions : List (OptionSpec × String) :=
  [({ name := "verbose", letter := some 'v' }, "STRTAB_CLI_VERBOSE"),
    ({ name := "config", letter := some 'c', accepts := some isPath }, "STRTAB_CONFIG"),
    ({ name := "no-color" }, "STRTAB_NO_COLOR")]

/-- The commands and their own options. -/
def commandOptions : List (String × List OptionSpec) :=
  [("archive", [{ name := "input", letter := some 'i', accepts := some isPath },
      { name := "output", letter := some 'o', accepts := some isPath }, { name := "narrow" }]),
    ("dump", [{ name := "snapshot", letter := some 's', accepts := some isPath }, { name := "map" },
      { name := "all", letter := some 'a' }, { name := "json" }]),
    ("stress", [{ name := "threads", letter := some 't', accepts := some isThreadCount },
      { name := "words", letter := some 'w', accepts := some isCount },
      { name := "rounds", letter := some 'r', accepts := some isCount }])]

/-- The value that an option has after its variable was looked up; a variable that makes no sense is
refused. -/
def fromEnvironment (env : Settings.Environment) (g : Given) :
    OptionSpec × String → Except Stop Given
  | (spec, name) =>
    if g.has spec.name then .ok g
    else
      match Settings.valueOf? env name, spec.accepts with
      | none, _ => .ok g
      | some value, some accepts =>
        if accepts value then .ok { g with options := (spec.name, value) :: g.options }
        else .error .usage
      | some "true", none => .ok { g with options := (spec.name, "") :: g.options }
      | some "false", none => .ok g
      | some _, none => .error .usage

/-- The command that its options describe; `none` if they do not go together. -/
def commandOf? (name : String) (g : Given) : Option Command :=
  let count (option : String) := (g.value? option).bind (readUnsigned maxCount)
  match name with
  | "archive" =>
    (g.value? "output").map fun output =>
      .archive g.words (g.value? "input") output (g.has "narrow")
  | "dump" =>
    if (g.has "map" && !g.has "snapshot") || (g.has "json" && g.has "all") then none
    else some (.dump g.words (g.value? "snapshot") (g.has "map") (g.has "all") (g.has "json"))
  | _ => some (.stress (count "threads") (count "words") (count "rounds"))

/-- The words a command takes: none for a stress run. -/
def takesWords (name : String) : Bool := name != "stress"

/-- Read the arguments after the name of a command. Those before it are looked at once these are
read, so that help and the version of a command come first. -/
def readCommand (env : Settings.Environment) (g : Given) (name : String) (own : List OptionSpec)
    (args : List String) : Except Stop Invocation := do
  let (inner, rest) ← readArguments (sharedOptions.map Prod.fst ++ own) (takesWords name) {} args
  if !rest.isEmpty || inner.refused || g.refused then throw .usage
  let innerAll ← sharedOptions.foldlM (fromEnvironment env) inner
  let outerAll ← sharedOptions.foldlM (fromEnvironment env) g
  let config := (inner.value? "config").or ((g.value? "config").or
    ((innerAll.value? "config").or (outerAll.value? "config")))
  match commandOf? name inner with
  | some command => return { config, command }
  | none => throw .usage

/-- The name and the version of the program. -/
def programName : String := "strtab"

def programVersion : String := "0.1.0"

/-- The line that tells the version, of the program or of a command. -/
def versionLine (name : String) : String := name ++ " " ++ programVersion ++ "\n"

/-- What is answered where reading stops. -/
def Stop.request (name : String) : Stop → Request
  | .usage => .usage
  | .help => .help
  | .version => .version (versionLine name)

/-- Help is given on the whole program, or on one command. -/
def isHelpTopic : List String → Bool
  | [] => true
  | [name] => name == "help" || (commandOptions.lookup name).isSome
  | _ => false

/-- What the arguments ask for. -/
def Request.ofArguments (env : Settings.Environment) (args : List String) : Request :=
  match readArguments (sharedOptions.map Prod.fst) false {} args with
  | .error stop => stop.request programName
  | .ok (_, []) => .usage
  | .ok (g, name :: rest) =>
    match commandOptions.lookup name with
    | none => if name == "help" && isHelpTopic rest then .help else .usage
    | some own =>
      match readCommand env g name own rest with
      | .ok invocation => .run invocation
      | .error stop => stop.request (programName ++ "-" ++ name)

end WeakIntern.CommandLine
