/-!
# A tree of files

The command line reads and writes files. A `FileTree` holds their bytes under their paths, which are
lists of names: relative to the working directory, or, if the first name is empty, absolute. A path
that leaves the working directory starts with `..` as often as it goes up. A directory is there if a
file lies below it or if it is listed. Paths as they are written may hold `.`, `..` and doubled
slashes, and are resolved first. A name or a path that is too long leads nowhere.
-/

namespace WeakIntern

/-- Files and directories. -/
structure FileTree where
  files : List (List String × List UInt8) := []
  directories : List (List String) := []
  deriving Inhabited

namespace FileTree

/-- The working directory, those above it and the root are always there. -/
def isAnchor (path : List String) : Bool := path == [""] || path.all (· == "..")

/-- Is the path a directory? -/
def isDirectory (tree : FileTree) (path : List String) : Bool :=
  isAnchor path || tree.directories.contains path ||
    tree.files.any fun (file, _) => path.isPrefixOf file && path.length < file.length

/-- The directory above; the root is above itself. -/
def parent (path : List String) : List String :=
  if path == [""] then path else if isAnchor path then path ++ [".."] else path.dropLast

/-- The place that a name leads to. -/
def enter (place : List String) (name : String) : List String :=
  if name == "" || name == "." then place else if name == ".." then parent place
    else place ++ [name]

/-- The most bytes that a name has. -/
def maxNameBytes : Nat := 255

/-- The most bytes that a path has. -/
def maxPathBytes : Nat := 4095

/-- Walk from a place along names. Only a directory can be walked on from. -/
def walk (tree : FileTree) (place : List String) : List String → Option (List String)
  | [] => some place
  | name :: rest =>
    if !tree.isDirectory place || maxNameBytes < name.utf8ByteSize then none
    else tree.walk (enter place name) rest

/-- Where a path starts: at the root or in the working directory. -/
def start (path : String) : List String := if path.startsWith "/" then [""] else []

/-- The names of a path. -/
def resolve? (tree : FileTree) (path : String) : Option (List String) :=
  if path.isEmpty || maxPathBytes < path.utf8ByteSize then none
  else tree.walk (start path) (path.splitOn "/")

/-- The bytes of a file. -/
def read? (tree : FileTree) (path : String) : Option (List UInt8) :=
  (tree.resolve? path).bind fun names => tree.files.lookup names

/-- Is there a file or a directory? -/
def contains (tree : FileTree) (path : String) : Bool :=
  match tree.resolve? path with
  | some names => (tree.files.lookup names).isSome || tree.isDirectory names
  | none => false

/-- Put a file in a place. -/
def addFile (tree : FileTree) (names : List String) (bytes : List UInt8) : FileTree :=
  { tree with files := (names, bytes) :: tree.files.filter fun (file, _) => file != names }

theorem lookup_addFile (tree : FileTree) (names : List String) (bytes : List UInt8) :
    (tree.addFile names bytes).files.lookup names = some bytes := by
  simp [addFile]

/-- The other files stay as they were. -/
theorem lookup_addFile_other (tree : FileTree) {names file : List String} (bytes : List UInt8)
    (hne : file ≠ names) : (tree.addFile names bytes).files.lookup file =
      tree.files.lookup file := by
  have hfalse : (file == names) = false := by simpa using hne
  simp only [addFile, List.lookup_cons, hfalse]
  induction tree.files with
  | nil => rfl
  | cons entry rest ih =>
    obtain ⟨path, content⟩ := entry
    by_cases hpath : path = names
    · simp [hpath, hfalse, ih, List.lookup_cons]
    · by_cases hfile : file = path
      · simp [hfile, hpath]
      · have : (file == path) = false := by simpa using hfile
        simp [hpath, this, ih, List.lookup_cons]

/-- Put a directory in a place. -/
def addDirectory (tree : FileTree) (names : List String) : FileTree :=
  { tree with directories := names :: tree.directories }

/-- Write a file; the directory it lies in must be there. -/
def write? (tree : FileTree) (path : String) (bytes : List UInt8) : Option FileTree := do
  let names ← tree.resolve? path
  if tree.isDirectory names then none else some (tree.addFile names bytes)

/-- Put a file in the place that its path names, whether or not the directories are there. -/
def add (tree : FileTree) (path : String) (bytes : List UInt8) : FileTree :=
  tree.addFile ((path.splitOn "/").foldl enter (start path)) bytes

/-- The stages of a path: where it leads after its first name, after two, and so on to its end. -/
def stages (path : String) : List String :=
  let names := path.splitOn "/"
  ((List.range names.length).map fun n => "/".intercalate (names.take (n + 1))).filter (!·.isEmpty)

end FileTree

end WeakIntern
