import TagBalance.Utf8

/-!
A tree of files and directories, and what reading a path in it gives. A path is walked
component by component; empty components and single dots stay where they are, and two dots
go up. Nothing exists outside the tree: an absolute path, or one that goes above the top,
starts from an empty directory.
-/
namespace TagBalance

inductive Node where
  | file (content : Utf8.Bytes)
  | directory (entries : List (Text × Node))

/-- The entries of the current directory. -/
abbrev FileTree := List (Text × Node)

inductive ReadError where
  | nulByte
  | notFound
  | notADirectory
  | isADirectory
  | nameTooLong
  /-- A cause that only a real disk has, in its own words. -/
  | other (cause : Text)
  deriving DecidableEq

namespace ReadError

def message : ReadError → Text
  | nulByte => "file name contained an unexpected NUL byte".toList
  | notFound => "No such file or directory (os error 2)".toList
  | notADirectory => "Not a directory (os error 20)".toList
  | isADirectory => "Is a directory (os error 21)".toList
  | nameTooLong => "File name too long (os error 36)".toList
  | other cause => cause

end ReadError

namespace Path

def split : Text → List Text
  | [] => [[]]
  | c :: cs =>
    if c = '/' then [] :: split cs
    else
      match split cs with
      | [] => [[c]]
      | part :: parts => (c :: part) :: parts

def isBlank (part : Text) : Bool := part = [] || part = ['.']

def components (path : Text) : List Text := (split path).filter fun part => !isBlank part

def join (parts : List Text) : Text := List.intercalate ['/'] parts

def isAbsolute (path : Text) : Bool := path.head? = some '/'

def normal (path : Text) : Text :=
  (if isAbsolute path then ['/'] else []) ++ join (components path)

def maxComponent : Nat := 255

def maxPath : Nat := 4095

end Path

namespace Node

/-- What a row of path parts leads to, with the directories above `here`, innermost first. -/
def walk (above : List FileTree) (here : Node) : List Text → Except ReadError Node
  | [] => .ok here
  | part :: parts =>
    match here with
    | file _ => .error .notADirectory
    | directory entries =>
      if Path.isBlank part then walk above here parts
      else if part = ['.', '.'] then
        match above with
        | [] => walk [] (directory []) parts
        | up :: rest => walk rest (directory up) parts
      else if Path.maxComponent < Utf8.size part then .error .nameTooLong
      else
        match entries.lookup part with
        | none => .error .notFound
        | some next => walk (entries :: above) next parts

/-- Puts a node at the end of a row of names. Directories on the way are made where they
are missing, and an empty directory does not replace one that is there. -/
def put (new : Node) : List Text → Node → Node
  | [], directory entries =>
    match new with
    | directory [] => directory entries
    | _ => new
  | [], file _ => new
  | name :: names, here =>
    let entries := match here with
      | directory entries => entries
      | file _ => []
    let next := put new names ((entries.lookup name).getD (directory []))
    if (entries.lookup name).isSome then
      directory (entries.map fun e => if e.1 = name then (name, next) else e)
    else directory (entries ++ [(name, next)])

end Node

namespace FileTree

def empty : FileTree := []

def put (tree : FileTree) (path : Text) (new : Node) : FileTree :=
  match Node.put new (Path.components path) (.directory tree) with
  | .directory entries => entries
  | .file _ => tree

def read (tree : FileTree) (path : Text) : Except ReadError Utf8.Bytes :=
  if Char.ofNat 0 ∈ path then .error .nulByte
  else if path = [] then .error .notFound
  else if Path.maxPath < Utf8.size path then .error .nameTooLong
  else
    match Node.walk [] (.directory (if Path.isAbsolute path then [] else tree))
      (Path.split path) with
    | .error e => .error e
    | .ok (.directory _) => .error .isADirectory
    | .ok (.file content) => .ok content

def isFile (tree : FileTree) (path : Text) : Bool := (tree.read path).isOk

end FileTree

end TagBalance
