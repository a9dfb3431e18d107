import RuleGraph.OrderedMap

/-!
# Files by their paths

The files that a program finds and leaves, named from the directory that it runs in if they are
below it, and from the root otherwise. A path is taken apart at its slashes and walked part by part,
from the root or from the working directory, whose own path is known by its names (`home`). A
directory is there if it leads to a file or to the working directory. Names and paths have a
greatest length, counted in bytes.
-/

namespace RuleGraph.CommandLine

/-- Files by their path. -/
abbrev Directory := OrderedMap String ByteArray

/-- Why a path cannot be opened. -/
inductive Refusal where
  | notFound
  | notDirectory
  | isDirectory
  | nameTooLong
deriving DecidableEq, Repr

def Refusal.message : Refusal → String
  | notFound => "No such file or directory (os error 2)"
  | notDirectory => "Not a directory (os error 20)"
  | isDirectory => "Is a directory (os error 21)"
  | nameTooLong => "File name too long (os error 36)"

/-- What a path leads to. -/
inductive Place where
  | file (name : String)
  | directory
  /-- Nothing yet, in a directory that exists. -/
  | free (name : String)
  /-- Nothing, and no file can be put there. -/
  | barred (why : Refusal)
deriving DecidableEq, Repr

namespace Directory

/-- The greatest length of a name, in bytes. -/
def maxName : Nat := 255

/-- The greatest length of a path, in bytes. -/
def maxPath : Nat := 4095

/-- Whether a part of a path is too long to be the name of anything. -/
def isTooLong (part : String) : Bool := maxName < part.utf8ByteSize

def fromRoot (names : List String) : String := "/" ++ "/".intercalate names

/-- What a file is called that some names lead to from the root. -/
def fileName (home names : List String) : String :=
  match home.isPrefixOf? names with
  | some below => "/".intercalate below
  | none => fromRoot names

def isFile (dir : Directory) (name : String) : Bool := (OrderedMap.find? name dir).isSome

/-- Whether there are files in a directory of a name, or the working directory is. -/
def isDirectory (dir : Directory) (home : List String) (name : String) : Bool :=
  ((fromRoot home ++ "/") :: OrderedMap.keys dir).any fun file =>
    (name ++ "/").toList.isPrefixOf file.toList

/-! ## Along a path -/

/-- The parts of a path between its slashes. -/
def parts (path : String) : List String := (path.toList.splitOn '/').map String.ofList

/-- Go on to the directory that a part of a path names. The root is above itself. -/
def enter (dir : Directory) (home names : List String) (part : String) :
    Except Refusal (List String) :=
  if part = "" ∨ part = "." then .ok names
  else if isTooLong part then .error .nameTooLong
  else if part = ".." then .ok names.dropLast
  else
    let name := fileName home (names ++ [part])
    if dir.isFile name then .error .notDirectory
    else if dir.isDirectory home name then .ok (names ++ [part])
    else .error .notFound

/-- What the last part of a path leads to. -/
def lookUp (dir : Directory) (home names : List String) (part : String) : Place :=
  if part = "." ∨ part = ".." then .directory
  else if isTooLong part then .barred .nameTooLong
  else
    let name := fileName home (names ++ [part])
    if dir.isFile name then .file name
    else if dir.isDirectory home name then .directory
    else .free name

/-- What a path leads to, whatever slashes are at its end. -/
def place (dir : Directory) (home : List String) (path : String) : Except Refusal Place :=
  if maxPath < path.utf8ByteSize then .error .nameTooLong
  else
    let start := if path.toList.head? = some '/' then [] else home
    match (parts path).reverse.dropWhile (· = "") with
    | [] => if path = "" then .error .notFound else .ok .directory
    | last :: before => do
      let names ← before.reverse.foldlM (dir.enter home) start
      return dir.lookUp home names last

def endsInSlash (path : String) : Bool := path.toList.getLast? = some '/'

/-! ## Reading and writing -/

/-- The bytes of the file that a path leads to; none if it leads to a directory. -/
def read (dir : Directory) (home : List String) (path : String) :
    Except Refusal (Option ByteArray) := do
  match ← dir.place home path with
  | .file name =>
    if endsInSlash path then .error .notDirectory else return OrderedMap.find? name dir
  | .directory => return none
  | .free _ => .error .notFound
  | .barred why => .error why

/-- The directory with a file written. -/
def write (dir : Directory) (home : List String) (path : String) (bytes : ByteArray) :
    Except Refusal Directory := do
  match ← dir.place home path with
  | .file name | .free name =>
    if endsInSlash path then .error .isDirectory else return OrderedMap.put name bytes dir
  | .directory => .error .isDirectory
  | .barred why => .error (if endsInSlash path then .isDirectory else why)

end Directory

end RuleGraph.CommandLine
