import TagBalance.Toml.Moment

/-!
Dates and times that are wrapped in tables. A table whose first key is the reserved one
stands for the date or time that the string under this key gives, whatever else it holds. The
string is read as a date or time that is written plainly; if there is no such string the
document has an error.
-/
namespace TagBalance.Toml

def reservedKey : Text := "$__toml_private_datetime".toList

/-- What stands under the reserved key, if that is the first key. -/
def wrapped? : List (Text × Value) → Option Value
  | (k, v) :: _ => if k = reservedKey then some v else none
  | [] => none

def unwrapMoment : Value → Option Value
  | .string s => (moment? s).map .moment
  | _ => none

mutual

def unwrap : Value → Option Value
  | .array items => (unwrapItems items).map .array
  | .table entries =>
    match wrapped? entries with
    | some v => unwrapMoment v
    | none => (unwrapEntries entries).map .table
  | .string s => some (.string s)
  | .integer i => some (.integer i)
  | .float x => some (.float x)
  | .boolean b => some (.boolean b)
  | .moment m => some (.moment m)

def unwrapItems : List Value → Option (List Value)
  | [] => some []
  | v :: vs => (unwrap v).bind fun v => (unwrapItems vs).map (v :: ·)

def unwrapEntries : List (Text × Value) → Option (List (Text × Value))
  | [] => some []
  | (k, v) :: es => (unwrap v).bind fun v => (unwrapEntries es).map ((k, v) :: ·)

end

/-- The top-level entries of a document, which cannot stand for a moment themselves. -/
def unwrapDocument (entries : List (Text × Value)) : Option (List (Text × Value)) :=
  if (wrapped? entries).isSome then none else unwrapEntries entries

end TagBalance.Toml
