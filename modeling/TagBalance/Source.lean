import TagBalance.FileTree
import TagBalance.Log

/-!
Loading a source from a file. A file that can be read always loads: bytes that are not
valid UTF-8 are decoded with U+FFFD in their place, after a warning.
-/
namespace TagBalance

structure LoadError where
  path : Text
  cause : Text
  deriving DecidableEq

namespace LoadError

def message (e : LoadError) : Text := e.path ++ ": ".toList ++ e.cause

end LoadError

namespace Source

def ofBytes (path : Text) (content : Utf8.Bytes) : Logged Text := do
  let source ← match Utf8.decode? content with
    | some source => pure source
    | none => Logged.noting (.invalidUtf8 path) (Utf8.decodeLossy content)
  Logged.noting (.sourceLoaded path (Utf8.size source)) source

def ofReading (path : Text) (reading : Except ReadError Utf8.Bytes) :
    Except LoadError (Logged Text) :=
  match reading with
  | .error e => .error ⟨path, e.message⟩
  | .ok content => .ok (ofBytes path content)

def load (tree : FileTree) (path : Text) : Except LoadError (Logged Text) :=
  ofReading path (tree.read path)

end Source

end TagBalance
