/-!
# Options

How arguments are read. An option has a long name, written `--name`, and perhaps a letter, written
`-n`. One that takes a value finds it after `=`, right behind the letter, or in the next argument,
which must not look like an option itself. Letters of options without a value may be written
together. Everything else is a word, and after `--` every argument is.

No option may be given twice. One that is refused, for this or for its value, stops the reading at
once if its value is in the same argument. A value in an argument of its own is looked at later,
when the next option is read or the arguments end.
-/

namespace WeakIntern.CommandLine

/-- An option of a command. -/
structure OptionSpec where
  name : String
  letter : Option Char := none
  /-- Which values the option takes; none if it takes no value. -/
  accepts : Option (String → Bool) := none

/-- Why arguments are read no further. -/
inductive Stop where
  /-- They are not used as they should be. -/
  | usage
  /-- The version was asked for. -/
  | version
  /-- Help was asked for. -/
  | help
  deriving DecidableEq, Repr, Inhabited

/-- Options with their values, empty for one without a value; and words, in order. -/
structure Given where
  options : List (String × String) := []
  words : List String := []
  /-- The option read last was refused, with its value in an argument of its own. -/
  refused : Bool := false
  deriving Repr, Inhabited

namespace Given

def has (g : Given) (name : String) : Bool := (g.options.lookup name).isSome

def value? (g : Given) (name : String) : Option String := g.options.lookup name

/-- Note an option. -/
def add (g : Given) (spec : OptionSpec) (value : String) : Except Stop Given :=
  if g.has spec.name || spec.accepts.any fun accepts => !accepts value then .error .usage
  else .ok { g with options := (spec.name, value) :: g.options }

/-- Note an option whose value is in an argument of its own. -/
def addLate (g : Given) (spec : OptionSpec) (value : String) : Given :=
  match g.add spec value with
  | .ok g => g
  | .error _ => { g with refused := true }

end Given

/-- Can an argument be the value of the option before it? -/
def isFreeValue (arg : String) : Bool := arg == "-" || !arg.startsWith "-"

/-- What an argument asks for. -/
inductive Reading where
  /-- Nothing more. -/
  | done (g : Given)
  /-- The next argument, as the value of an option. -/
  | wants (g : Given) (spec : OptionSpec)

/-- Read the letters of one argument. -/
def readLetters (specs : List OptionSpec) (g : Given) : List Char → Except Stop Reading
  | [] => .ok (.done g)
  | c :: rest =>
    if c = 'h' then .error .help
    else if c = 'V' then .error .version
    else
      match specs.find? fun spec => spec.letter == some c with
      | none => .error .usage
      | some spec =>
        if spec.accepts.isNone then do readLetters specs (← g.add spec "") rest
        else
          match rest with
          | [] => .ok (.wants g spec)
          | '=' :: value => (g.add spec (String.ofList value)).map .done
          | value => (g.add spec (String.ofList value)).map .done

/-- Read one argument that starts with two dashes and more. -/
def readLong (specs : List OptionSpec) (g : Given) (text : List Char) : Except Stop Reading :=
  let name := String.ofList (text.takeWhile (· != '='))
  let value? := match text.dropWhile (· != '=') with
    | _ :: value => some (String.ofList value)
    | [] => none
  if value?.isNone && name == "help" then .error .help
  else if value?.isNone && name == "version" then .error .version
  else
    match specs.find? fun spec => spec.name == name with
    | none => .error .usage
    | some spec =>
      match spec.accepts, value? with
      | none, none => (g.add spec "").map .done
      | none, some _ => .error .usage
      | some _, some value => (g.add spec value).map .done
      | some _, none => .ok (.wants g spec)

/-- Read arguments. If words are not allowed, reading ends at the first one, and that one and the
rest are answered too. -/
def readArguments (specs : List OptionSpec) (wordsAllowed : Bool) (g : Given) (args : List String) :
    Except Stop (Given × List String) :=
  match args with
  | [] => .ok (g, [])
  | arg :: rest =>
    match arg.toList with
    | ['-', '-'] =>
      if wordsAllowed || rest.isEmpty then .ok ({ g with words := g.words ++ rest }, [])
      else .error .usage
    | '-' :: c :: text =>
      if g.refused then .error .usage
      else
        let reading := if c = '-' then readLong specs g text else readLetters specs g (c :: text)
        match reading with
        | .error stop => .error stop
        | .ok (.done g) => readArguments specs wordsAllowed g rest
        | .ok (.wants g spec) =>
          match rest with
          | [] => .error .usage
          | value :: rest =>
            if isFreeValue value then readArguments specs wordsAllowed (g.addLate spec value) rest
            else .error .usage
    | _ =>
      if wordsAllowed then readArguments specs wordsAllowed
        { g with words := g.words ++ [arg] } rest
      else .ok (g, args)
termination_by args.length

end WeakIntern.CommandLine
