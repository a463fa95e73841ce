import TagBalance.Config.Value
import TagBalance.Config.KeyPath

/-!
Setting a value at a key path. On the way, whatever is missing or of the wrong kind gives
way to an empty table or array. A table is merged into what is there, key by key; any other
value replaces it.
-/
namespace TagBalance.Config

namespace Value

mutual

/-- Sets a field. An empty table leaves alone what is there already. -/
def setField (k : Text) (new : Value) (here : Value) : Value :=
  let k := Text.lower k
  match new with
  | table _ entries =>
    here.asTable.put k (setFields entries ((here.asTable.get? k).getD emptyTable))
  | leaf => here.asTable.put k leaf

/-- Fields are set in the order of the document, which is one of the possible orders. It matters
only for keys that differ in the case of letters alone, of which the last one wins. -/
def setFields : List (Text × Value) → Value → Value
  | [], here => here
  | (k, v) :: es, here => setFields es (setField k v here)

end

def maxPadding : Nat := 0x100000000

/-- The place that an index names in an array of so many elements; a negative index counts
from the end. -/
def position? (i : Int) (size : Nat) : Option Nat :=
  if 0 ≤ i then
    if i.toNat < size + maxPadding then some i.toNat else none
  else if i.natAbs ≤ size then some (size - i.natAbs)
  else none

def padded (items : List Value) (size : Nat) : List Value :=
  items ++ List.replicate (size - items.length) nil

/-- Sets what a row of steps leads to. There is no result if an index lies before the first
element or much too far behind the last one. -/
def setAt : List Step → Value → Value → Option Value
  | [], new, _ => some new
  | [.field k], new, here => some (setField k new here)
  | .field k :: steps, new, here =>
    let k := Text.lower k
    (setAt steps new ((here.asTable.get? k).getD nil)).map fun v => here.asTable.put k v
  | .index i :: steps, new, here =>
    match here.asArray with
    | array file items =>
      (position? i items.length).bind fun n =>
        let items := padded items (n + 1)
        (setAt steps new (items.getD n nil)).map fun v => array file (items.set n v)
    | _ => none

def set (root : Value) (p : KeyPath) (new : Value) : Option Value := setAt p.toSteps new root

end Value

end TagBalance.Config
