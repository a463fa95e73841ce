import TagBalance.Config.Defaults
import TagBalance.Config.TagNames
import TagBalance.FileTree

/-!
Building a configuration from its layers: the defaults, the files in their order, and the
overrides above all files. The first layer that fails decides the outcome.
-/
namespace TagBalance.Config

/-- A file to be layered. One that is not required may be missing or not be text. -/
structure FileLayer where
  path : Text
  required : Bool
  deriving DecidableEq

structure Layers where
  files : List FileLayer
  overrides : List (KeyPath × Value)

inductive BuildError where
  | fileNotFound (path : Text)
  | fileNotText
  | malformedFile (file : Text)
  | indexOutOfRange
  | shape (e : ShapeError)

inductive Change where
  | requireFile (path : Text)
  | allowFile (path : Text)
  | override (key : Text) (value : Value)

namespace BuildError

def message? : BuildError → Option Text
  | fileNotFound path =>
    some ("configuration file \"".toList ++ path ++ "\" not found".toList)
  | fileNotText => some "stream did not contain valid UTF-8".toList
  | malformedFile _ => none
  | indexOutOfRange => none
  | shape e => some e.message

end BuildError

namespace FileLayer

def suffix : Text := ".toml".toList

def withSuffix? (path : Text) : Option Text :=
  match (Path.components path).getLast? with
  | none => none
  | some last =>
    if last = ['.', '.'] then none else some (Path.normal path ++ suffix)

/-- The path that is read: the given one if it is a file, or else the one with the suffix. -/
def locate? (tree : FileTree) (path : Text) : Option Text :=
  if tree.isFile path then some path
  else (withSuffix? path).filter tree.isFile

/-- The name of the file in messages, and its text. -/
def contents (tree : FileTree) (path : Text) : Except BuildError (Text × Text) :=
  match locate? tree path with
  | none => .error (.fileNotFound path)
  | some used =>
    match tree.read used with
    | .error _ => .error (.fileNotFound path)
    | .ok content =>
      match Utf8.decode? content with
      | none => .error .fileNotText
      | some text => .ok (Path.normal used, text)

end FileLayer

namespace Layers

def base : Layers := ⟨[], []⟩

/-- A later override with an equal key path takes the place of the earlier one. -/
def addOverride (p : KeyPath) (v : Value) : List (KeyPath × Value) → List (KeyPath × Value)
  | [] => [(p, v)]
  | (p', v') :: os => if p' = p then (p, v) :: os else (p', v') :: addOverride p v os

def apply (l : Layers) : Change → Except KeyPathError Layers
  | .requireFile path => .ok { l with files := l.files ++ [⟨path, true⟩] }
  | .allowFile path => .ok { l with files := l.files ++ [⟨path, false⟩] }
  | .override key value =>
    (KeyPath.parse key).map fun p => { l with overrides := addOverride p value l.overrides }

def applyAll (l : Layers) : List Change → Except KeyPathError Layers
  | [] => .ok l
  | c :: cs => do (← l.apply c).applyAll cs

/-- Sets the entries of a table, each at the place that its key names. They are taken in the
order of the document. A table as such has no order, so where the places of two entries overlap
this is one of the possible outcomes. -/
def mergeEntries : List (Text × Value) → Value → Except BuildError Value
  | [], root => .ok root
  | (k, v) :: es, root =>
    match root.set (KeyPath.ofFileKey k) v with
    | none => .error .indexOutOfRange
    | some root => mergeEntries es root

def mergeText (file : Option Text) (text : Text) (root : Value) : Except BuildError Value :=
  match Toml.read text with
  | none => .error (.malformedFile (file.getD []))
  | some entries => mergeEntries (Value.entriesOfToml file entries) root

/-- A file that is not required and cannot be opened changes nothing. -/
def mergeFile (tree : FileTree) (layer : FileLayer) (root : Value) : Except BuildError Value :=
  match FileLayer.contents tree layer.path with
  | .ok (file, text) => mergeText (some file) text root
  | .error e => if layer.required then .error e else .ok root

def mergeFiles (tree : FileTree) : List FileLayer → Value → Except BuildError Value
  | [], root => .ok root
  | l :: ls, root =>
    match mergeFile tree l root with
    | .error e => .error e
    | .ok root => mergeFiles tree ls root

/-- Sets the overrides in the order in which their paths were first used. As with the entries of
a table this is one of the possible orders, and it matters only where two places overlap. -/
def mergeOverrides : List (KeyPath × Value) → Value → Except BuildError Value
  | [], root => .ok root
  | (p, v) :: os, root =>
    match root.set p v with
    | none => .error .indexOutOfRange
    | some root => mergeOverrides os root

def documents (tree : FileTree) (l : Layers) : Except BuildError Value := do
  let root ← mergeText none defaultDocument Value.emptyTable
  mergeFiles tree l.files root

/-- The whole configuration as one table. The keys of the documents are read once more
before the overrides, as they are then spelled in small letters. -/
def root (tree : FileTree) (l : Layers) : Except BuildError Value := do
  let below ← l.documents tree
  let root ← mergeEntries below.entries Value.emptyTable
  mergeOverrides l.overrides root

def build (tree : FileTree) (l : Layers) : Except BuildError (List Text) := do
  let root ← l.root tree
  match TagNames.ofRoot root with
  | .ok names => .ok names
  | .error e => .error (.shape e)

end Layers

def defaultNames : Except BuildError (List Text) := Layers.base.build FileTree.empty

end TagBalance.Config
