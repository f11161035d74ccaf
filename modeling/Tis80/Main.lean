import Tis80.Command.Response

/-!
# The command line

Reads the directory of ROMs that the arguments name, all below it included, and prints the response
to the arguments.
-/

namespace Tis80.CommandLine

/-- Adds a file, or a directory and all below it. What cannot be read counts as missing. -/
partial def addEntry (parent : Location) (tree : FileTree) (entry : IO.FS.DirEntry) : IO FileTree := do
  let l := parent ++ [entry.fileName]
  try
    if (← entry.path.symlinkMetadata).type == .dir then
      (← entry.path.readDir).foldlM (addEntry l) (tree.addDirectory l)
    else if (← entry.path.metadata).type == .file then
      return tree.writeFile l (← IO.FS.readBinFile entry.path).toList
    else
      return tree
  catch _ =>
    return tree

/-- Adds the directory at a path. -/
def addDirectory (tree : FileTree) (path : String) : IO FileTree := do
  try
    let real ← IO.FS.realPath path
    let l := Path.location [] real.toString
    (← real.readDir).foldlM (addEntry l) (tree.addDirectory l)
  catch _ =>
    return tree

/-- The part of the file system that the arguments are about. -/
def workplace (args : List String) : IO Workplace := do
  let here := Path.location [] (← IO.currentDir).toString
  let empty : FileTree := FileTree.addDirectory {} here
  match Invocation.read args with
  | .error _ => return { tree := empty, here }
  | .ok i =>
    match i.request.romDir? with
    | none => return { tree := empty, here }
    | some dir => return { tree := ← addDirectory empty (if dir.isEmpty then "." else dir), here }

/-- Tries with twice the fuel until there is a response. -/
partial def respondWith (fuel : Nat) (args : List String) (w : Workplace) (terminal : Bool) :
    Response :=
  match respond args w terminal fuel with
  | some response => response
  | none => respondWith (2 * fuel) args w terminal

end Tis80.CommandLine

def main (args : List String) : IO UInt32 := do
  let workplace ← Tis80.CommandLine.workplace args
  let terminal ← (← IO.getStdout).isTty
  let response := Tis80.CommandLine.respondWith 1000000 args workplace terminal
  if let some text := response.output? then
    IO.print text
  if let some trouble := response.trouble? then
    IO.eprintln trouble
  return UInt32.ofNat response.exitCode
