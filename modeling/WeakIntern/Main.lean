import WeakIntern.CommandLine.Run
import WeakIntern.Hash.Seed
/-!
# The program

The outer layer of the command line. It looks up the variables and files that a run may need and
draws a seed, runs the command on them, and writes and prints what the run left. What to do is
decided in `CommandLine.run` alone.
-/

namespace WeakIntern.CommandLine

/-- What can be read to its end. -/
def readToEnd? (handle : IO.FS.Handle) : IO (Option ByteArray) := do
  try return some (← handle.readBinToEnd)
  catch _ => return none

/-- Open what lies at a path. -/
def openFile? (path : String) : IO (Option IO.FS.Handle) := do
  try return some (← IO.FS.Handle.mk path .read)
  catch _ => return none

/-- Take what lies at a path into the tree. What can be opened and not read is a directory. -/
def lookAt (tree : FileTree) (path : String) : IO FileTree := do
  match tree.resolve? path, ← openFile? path with
  | some names, some handle =>
    match ← readToEnd? handle with
    | some bytes => return tree.addFile names bytes.toList
    | none => return tree.addDirectory names
  | _, _ => return tree

/-- The tree of what lies on the way to some paths. -/
def readTree (paths : List String) : IO FileTree := (paths.flatMap FileTree.stages).foldlM lookAt {}

/-- The variables that are set, with their values. -/
def readEnvironment : IO Settings.Environment :=
  variablesToRead.filterMapM fun name => return (← IO.getEnv name).map fun value => (name, value)

/-- The next word of the system's random source. -/
def randomWord : IO UInt64 := do
  let bytes ← IO.getRandomBytes 8
  return bytes.toList.foldl (fun word byte => 256 * word + byte.toUInt64) 0

/-- Draw words until one is not zero, as `RandomSource.drawSeed` does. -/
def drawSeed : IO UInt64 := do
  let mut word ← randomWord
  while word = 0 do
    word ← randomWord
  return word

/-- Write the files that a run wrote. Is that possible? -/
def writeFiles (tree : FileTree) (paths : List String) : IO Bool := do
  try
    for path in paths do
      if let some bytes := tree.read? path then IO.FS.writeBinFile path ⟨bytes.toArray⟩
    return true
  catch _ => return false

end WeakIntern.CommandLine

open WeakIntern.CommandLine

def main (args : List String) : IO UInt32 := do
  let env ← readEnvironment
  let tree ← readTree (filesToRead env args ++ filesToWrite env args)
  let outcome := run tree env (← drawSeed) args
  (← IO.getStdout).putStr outcome.output
  if let some message := outcome.message then (← IO.getStderr).putStrLn message
  if outcome.exitCode = 0 then
    if !(← writeFiles outcome.tree (filesToWrite env args)) then
      (← IO.getStderr).putStrLn Trouble.io.message
      return 1
  return outcome.exitCode.toUInt32
