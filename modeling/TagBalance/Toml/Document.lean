import TagBalance.Toml.Statement
import TagBalance.Toml.Wrapped

/-!
Putting the statements of a document together. A table is implied by a longer header, or
declared by its own, or made by dotted keys; a table may be declared once, and dotted keys
go only into tables that dotted keys made. What an inline table holds is closed.
-/
namespace TagBalance.Toml

inductive Origin where
  | implied
  | declared
  | dotted
  deriving DecidableEq

/-- A part of a document that may still grow. Of an array of tables only the last one does. -/
inductive Item where
  | value (v : Value)
  | table (origin : Origin) (entries : List (Text × Item))
  | tables (earlier : List Item) (last : List (Text × Item))

abbrev Entries := List (Text × Item)

namespace Item

mutual

def toValue : Item → Value
  | value v => v
  | table _ entries => .table (entriesToValues entries)
  | tables earlier last => .array (itemsToValues earlier ++ [.table (entriesToValues last)])

def itemsToValues : List Item → List Value
  | [] => []
  | i :: is => i.toValue :: itemsToValues is

def entriesToValues : List (Text × Item) → List (Text × Value)
  | [] => []
  | (k, i) :: es => (k, i.toValue) :: entriesToValues es

end

end Item

namespace Entries

def set (k : Text) (i : Item) : Entries → Entries
  | [] => [(k, i)]
  | (k', i') :: es => if k' = k then (k, i) :: es else (k', i') :: set k i es

/-- Changes the table at the end of a row of keys. Tables that are missing on the way are
made, as tables of the given origin; what is not a table stops the walk, and so does a
declared table where only dotted keys led. -/
def modify (made : Origin) (change : Origin → Entries → Option Entries) :
    List Text → Origin → Entries → Option Entries
  | [], here, es => change here es
  | k :: ks, _, es =>
    match es.lookup k with
    | none => (modify made change ks made []).map fun inner => es ++ [(k, .table made inner)]
    | some (.value _) => none
    | some (.table origin inner) =>
      if made = .dotted ∧ origin = .declared then none
      else (modify made change ks origin inner).map fun inner => es.set k (.table origin inner)
    | some (.tables earlier last) =>
      (modify made change ks .declared last).map fun last => es.set k (.tables earlier last)

/-- Adds a value that is not there yet. Dotted keys end in a table of their own kind, and a
plain key in one of another kind. -/
def addLast (plain : Bool) (k : Text) (v : Value) (here : Origin) (es : Entries) :
    Option Entries :=
  if plain = decide (here = .dotted) then none
  else
    match es.lookup k with
    | some _ => none
    | none => some (es ++ [(k, .value v)])

def addPair (p : Pair Value) (here : Origin) (es : Entries) : Option Entries :=
  match p.keys.getLast? with
  | none => none
  | some k => modify .dotted (addLast (p.keys.length = 1) k p.value) p.keys.dropLast here es

/-- Declares a table that is missing or only implied so far. It comes last from then on. -/
def declare (k : Text) (_ : Origin) (es : Entries) : Option Entries :=
  match es.lookup k with
  | none => some (es ++ [(k, .table .declared [])])
  | some (.table .implied inner) =>
    some ((es.filter fun e => e.1 ≠ k) ++ [(k, .table .declared inner)])
  | some _ => none

def addElement (k : Text) (_ : Origin) (es : Entries) : Option Entries :=
  match es.lookup k with
  | none => some (es ++ [(k, .tables [] [])])
  | some (.tables earlier last) => some (es.set k (.tables (earlier ++ [.table .declared last]) []))
  | some _ => none

end Entries

/-- A document so far, with the keys of the table that new pairs belong to. -/
structure Draft where
  here : List Text
  entries : Entries

namespace Draft

def start : Draft := ⟨[], []⟩

def openTable (d : Draft) (change : Text → Origin → Entries → Option Entries)
    (keys : List Text) : Option Draft :=
  match keys.getLast? with
  | none => none
  | some k =>
    (Entries.modify .implied (change k) keys.dropLast .declared d.entries).map fun es =>
      ⟨keys, es⟩

def add (d : Draft) : Statement Value → Option Draft
  | .pair p =>
    (Entries.modify .implied (Entries.addPair p) d.here .declared d.entries).map fun es =>
      ⟨d.here, es⟩
  | .table keys => d.openTable Entries.declare keys
  | .element keys => d.openTable Entries.addElement keys

def addAll (d : Draft) : List (Statement Value) → Option Draft
  | [] => some d
  | s :: ss => (d.add s).bind fun d => d.addAll ss

end Draft

def inlineEntries (pairs : List (Pair Value)) : Option (List (Text × Value)) :=
  (Draft.start.addAll (pairs.map .pair)).map fun d => Item.entriesToValues d.entries

def read (text : Text) : Option (List (Text × Value)) := do
  let ss ← statements inlineEntries text
  let d ← Draft.start.addAll ss
  unwrapDocument (Item.entriesToValues d.entries)

end TagBalance.Toml
