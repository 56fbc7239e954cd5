/-!
# Files and paths

A command looks at paths through a `Disk`. A `Folder` is a disk of which the
working directory is known completely. Of what lies outside, only the
directories above it are known to be there.
-/

namespace Rill.Cli

inductive Node where
  | file (bytes : ByteArray)
  | directory

inductive PathError where
  | notFound
  | notADirectory
  | isADirectory
  deriving DecidableEq, Repr

def PathError.message : PathError → String
  | .notFound => "No such file or directory (os error 2)"
  | .notADirectory => "Not a directory (os error 20)"
  | .isADirectory => "Is a directory (os error 21)"

structure Disk where
  look : String → Option Node
  /-- Why no file can be written at a path. -/
  refusal : String → Option PathError

/-- The nodes of the working directory by their paths inside it. -/
structure Folder where
  nodes : List (String × Node)

namespace Folder

/-- Whether a place is the working directory or a directory above it. -/
def isAbove (place : List String) : Bool :=
  place.all (· == "..")

/-- The node at the place that the parts lead to from the working directory. -/
def node? (folder : Folder) (place : List String) : Option Node :=
  if isAbove place then some .directory
  else folder.nodes.lookup (String.intercalate "/" place)

/-- One step of a path from a place, which has to be a directory. -/
def step (folder : Folder) (place : List String) (part : String) :
    Except PathError (List String) :=
  match folder.node? place with
  | none => .error .notFound
  | some (.file _) => .error .notADirectory
  | some .directory =>
    if part = "" ∨ part = "." then .ok place
    else if part = ".." ∧ !isAbove place then .ok place.dropLast
    else .ok (place ++ [part])

def walk (folder : Folder) (parts : List String) : Except PathError (List String) :=
  parts.foldlM folder.step []

def look (folder : Folder) (path : String) : Option Node :=
  if path.startsWith "/" then
    none
  else
    match folder.walk (path.splitOn "/") with
    | .ok place => folder.node? place
    | .error _ => none

/-- The place of a file to be written at a path. A path that ends in a slash or a dot names a
directory. -/
def target (folder : Folder) (path : String) : Except PathError (List String) := do
  if path.startsWith "/" then
    throw .notFound
  let parts := path.splitOn "/"
  let named := (parts.reverse.dropWhile (· == "")).reverse
  let parent ← folder.walk named.dropLast
  let name := named.getLast?.getD "."
  let place ← folder.step parent name
  if named.length < parts.length ∨ name = "." ∨ name = ".." then
    throw .isADirectory
  match folder.node? place with
  | some .directory => throw .isADirectory
  | _ => return place

/-- The name of the new file that writing at a path makes right in the working directory. -/
def created? (folder : Folder) (path : String) : Option String :=
  match folder.target path with
  | .ok [name] => if (folder.node? [name]).isNone then some name else none
  | _ => none

def disk (folder : Folder) : Disk where
  look := folder.look
  refusal path :=
    match folder.target path with
    | .ok _ => none
    | .error e => some e

end Folder

end Rill.Cli
