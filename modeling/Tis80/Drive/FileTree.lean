import Tis80.Drive.Source

/-!
# Directories and files

A tree of named nodes, kept as the list of its nodes with their locations: the components that lead
to a node from the root directory. A path is a text that a walk through the tree resolves, one
component after the other:

    ""  and  "."    stay where they are
    ".."            goes to the parent, and stays at the root
    other names     lead to a node of the current directory

Each step starts from a directory, so `f/` and `f/..` lead nowhere if `f` is a file.
-/

namespace Tis80

inductive Node
  | file (bytes : List Byte)
  | directory

abbrev Location := List String

structure FileTree where
  nodes : List (Location × Node) := []

/-- The parts of a text between slashes. -/
def splitSlashes : List Char → List (List Char)
  | [] => [[]]
  | c :: cs =>
    if c = '/' then [] :: splitSlashes cs
    else match splitSlashes cs with
      | [] => [[c]]
      | part :: parts => (c :: part) :: parts

namespace Path

def components (path : String) : List String := (splitSlashes path.toList).map String.ofList

def isAbsolute (path : String) : Bool := path.toList.head? == some '/'

/-- The path of `name` seen from `root`; an absolute name stands for itself. -/
def join (root name : String) : String :=
  if isAbsolute name then name
  else if root.isEmpty || root.toList.getLast? == some '/' then root ++ name
  else root ++ "/" ++ name

/-- The most bytes in a component. -/
def componentLimit : Nat := 255

/-- The most bytes in a path. -/
def pathLimit : Nat := 4095

end Path

namespace FileTree

def lookup (t : FileTree) (l : Location) : Option Node :=
  if l.isEmpty then some .directory else t.nodes.lookup l

def isDirectory (t : FileTree) (l : Location) : Bool :=
  match t.lookup l with
  | some .directory => true
  | _ => false

/-- The bytes of a file; a directory has none to read. -/
def bytesAt (t : FileTree) (l : Location) : List Byte :=
  match t.lookup l with
  | some (.file bytes) => bytes
  | _ => []

def put (t : FileTree) (l : Location) (n : Node) : FileTree :=
  ⟨(l, n) :: t.nodes.filter fun e => e.1 ≠ l⟩

/-- Makes a directory at `l` and wherever one is missing on the way there. -/
def addDirectory (t : FileTree) (l : Location) : FileTree :=
  (List.range (l.length + 1)).foldl
    (fun t k => if (t.lookup (l.take k)).isSome then t else t.put (l.take k) .directory) t

/-- Writes a file, over what it held before, and makes the directories on the way there. -/
def writeFile (t : FileTree) (l : Location) (bytes : List Byte) : FileTree :=
  (t.addDirectory l.dropLast).put l (.file bytes)

def walk (t : FileTree) (here : Location) : List String → Except IoFault Location
  | [] => .ok here
  | c :: cs =>
    if ¬ t.isDirectory here then .error .notADirectory
    else if c = "" ∨ c = "." then t.walk here cs
    else if c = ".." then t.walk here.dropLast cs
    else if Path.componentLimit < c.utf8ByteSize then .error .nameTooLong
    else if (t.lookup (here ++ [c])).isNone then .error .fileNotFound
    else t.walk (here ++ [c]) cs

/-- Where a path leads, seen from the directory `here`. -/
def resolve (t : FileTree) (here : Location) (path : String) : Except IoFault Location :=
  if path.toList.contains '\x00' then .error .nulInName
  else if path.isEmpty then .error .fileNotFound
  else if Path.pathLimit < path.utf8ByteSize then .error .nameTooLong
  else t.walk (if Path.isAbsolute path then [] else here) (Path.components path)

end FileTree

/-- Where a path would lead if all names on it existed. -/
def Path.location (here : Location) (path : String) : Location :=
  (components path).foldl
    (fun l c => if c = "" ∨ c = "." then l else if c = ".." then l.dropLast else l ++ [c])
    (if isAbsolute path then [] else here)

end Tis80
