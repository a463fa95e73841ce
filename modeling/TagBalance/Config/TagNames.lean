import TagBalance.Config.Merge
import TagBalance.Text.Quoted

/-!
Reading the list of tag names out of a configuration. The names are the field `tag_names`
of the field `extraction`; an array in the place of `extraction` gives them as its first
element. Truth values and numbers among the names count as their text.
-/
namespace TagBalance.Config

inductive ShapeError where
  | missingField (name : Text)
  | emptyExtraction
  | extractionOfWrongKind (found : Value)
  | namesOfWrongKind (found : Value)
  | nameOfWrongKind (found : Value) (place : Text)

namespace Value

def described : Value → Text
  | nil => "unit value".toList
  | bool b => "boolean `".toList ++ (if b then "true" else "false").toList ++ "`".toList
  | int i => "integer `".toList ++ Text.ofInt i ++ "`".toList
  | float x => "floating point `".toList ++ Decimal.pointed x ++ "`".toList
  | text s => "string ".toList ++ Text.quoted s
  | array _ _ => "sequence".toList
  | table _ _ => "map".toList

def file : Value → Option Text
  | array file _ => file
  | table file _ => file
  | _ => none

end Value

namespace ShapeError

def message : ShapeError → Text
  | missingField name => "missing field `".toList ++ name ++ "`".toList
  | emptyExtraction => "invalid length 0, expected struct ExtractionConfig with 1 element".toList
  | extractionOfWrongKind found =>
    "invalid type: ".toList ++ found.described ++ ", expected struct ExtractionConfig".toList
  | namesOfWrongKind found =>
    "invalid type: ".toList ++ found.described ++ ", expected a sequence".toList
  | nameOfWrongKind found place =>
    "invalid type: ".toList ++ found.described ++ ", expected a string for key `".toList ++ place ++
      "`".toList ++ (found.file.map (" in ".toList ++ ·)).getD []

end ShapeError

namespace TagNames

def extractionKey : Text := "extraction".toList

def namesKey : Text := "tag_names".toList

def name? : Value → Option Text
  | .text s => some s
  | .bool b => some (if b then "true" else "false").toList
  | .int i => some (Text.ofInt i)
  | .float x => some (Decimal.plain x)
  | _ => none

/-- The names in the elements from number `i` on, all of them below the given place. -/
def namesFrom (place : Text) : Nat → List Value → Except ShapeError (List Text)
  | _, [] => .ok []
  | i, v :: vs =>
    match name? v with
    | some name => (namesFrom place (i + 1) vs).map (name :: ·)
    | none => .error (.nameOfWrongKind v (place ++ '[' :: Text.ofNat i ++ [']']))

def ofNames (place : Text) : Value → Except ShapeError (List Text)
  | .array _ items => namesFrom place 0 items
  | v => .error (.namesOfWrongKind v)

def ofExtraction : Value → Except ShapeError (List Text)
  | .table _ entries =>
    match entries.lookup namesKey with
    | some v => ofNames (extractionKey ++ '.' :: namesKey) v
    | none => .error (.missingField namesKey)
  | .array _ (v :: _) => ofNames (extractionKey ++ "[0]".toList) v
  | .array _ [] => .error .emptyExtraction
  | v => .error (.extractionOfWrongKind v)

def ofRoot (root : Value) : Except ShapeError (List Text) :=
  match root.get? extractionKey with
  | some v => ofExtraction v
  | none => .error (.missingField extractionKey)

end TagNames

end TagBalance.Config
