import TagBalance.Toml.Document

/-!
Configuration values. An array or table keeps the name of the file it was read from, and
tables keep the order in which their entries were added.
-/
namespace TagBalance.Config

inductive Value where
  | nil
  | bool (b : Bool)
  | int (i : Int)
  | float (x : Float)
  | text (s : Text)
  | array (file : Option Text) (items : List Value)
  | table (file : Option Text) (entries : List (Text × Value))
  deriving Inhabited

namespace Value

mutual

/-- A value of a document, where a date or time becomes its canonical text. -/
def ofToml (file : Option Text) : Toml.Value → Value
  | .string s => text s
  | .integer i => int i
  | .float x => float x
  | .boolean b => bool b
  | .moment m => text m.text
  | .array items => array file (itemsOfToml file items)
  | .table entries => table file (entriesOfToml file entries)

def itemsOfToml (file : Option Text) : List Toml.Value → List Value
  | [] => []
  | v :: vs => ofToml file v :: itemsOfToml file vs

def entriesOfToml (file : Option Text) : List (Text × Toml.Value) → List (Text × Value)
  | [] => []
  | (k, v) :: es => (k, ofToml file v) :: entriesOfToml file es

end

def emptyTable : Value := table none []

def asTable : Value → Value
  | table file entries => table file entries
  | _ => emptyTable

def asArray : Value → Value
  | array file items => array file items
  | _ => array none []

def entries : Value → List (Text × Value)
  | table _ es => es
  | _ => []

def get? (here : Value) (k : Text) : Option Value := here.entries.lookup k

/-- The entries with another value under a key; a new key comes last. -/
def putEntry (k : Text) (v : Value) : List (Text × Value) → List (Text × Value)
  | [] => [(k, v)]
  | (k', v') :: es => if k' = k then (k, v) :: es else (k', v') :: putEntry k v es

def put (here : Value) (k : Text) (v : Value) : Value :=
  match here with
  | table file entries => table file (putEntry k v entries)
  | _ => table none [(k, v)]

theorem lookup_putEntry (k k' : Text) (v : Value) (es : List (Text × Value)) :
    (putEntry k v es).lookup k' = if k' = k then some v else es.lookup k' := by
  induction es with
  | nil =>
    by_cases h : k' = k
    · simp [putEntry, h]
    · simp [putEntry, List.lookup_cons, h, beq_eq_false_iff_ne.mpr h]
  | cons e es ih =>
    obtain ⟨k₁, v₁⟩ := e
    by_cases h₁ : k₁ = k
    · subst h₁
      by_cases h : k' = k₁
      · simp [putEntry, h]
      · simp [putEntry, List.lookup_cons, h, beq_eq_false_iff_ne.mpr h]
    · by_cases h : k' = k₁
      · subst h
        simp [putEntry, h₁]
      · simp [putEntry, h₁, List.lookup_cons, ih, beq_eq_false_iff_ne.mpr h]

end Value

end TagBalance.Config
