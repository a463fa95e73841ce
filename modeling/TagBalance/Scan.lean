import TagBalance.AllowList
import TagBalance.Checker

/-!
Finding tags in text. At each position the scanner looks for a closing tag of the first
listed name that fits, then for an opening tag; after a hit it goes on behind the lexeme,
otherwise one character further.
-/
namespace TagBalance.Scan

def firstName (names : List Text) (text : Text) : Option Text :=
  names.find? fun name => name.isPrefixOf text

/-- The tag that starts here. A slash is taken as part of the tag where that leads to a
listed name, and as part of the name otherwise. -/
def candidate (names : List Text) : Text → Option Tag
  | '<' :: '/' :: rest =>
    match firstName names rest with
    | some n => some (.closing n)
    | none => (firstName names ('/' :: rest)).map .opening
  | '<' :: rest => (firstName names rest).map .opening
  | _ => none

/-- The tags of the text behind its first `skip` characters, which belong to a lexeme that
is already read. -/
def tagsFrom (names : List Text) : Nat → Text → List Tag
  | _, [] => []
  | skip + 1, _ :: rest => tagsFrom names skip rest
  | 0, c :: rest =>
    match candidate names (c :: rest) with
    | some t => t :: tagsFrom names (t.lexeme.length - 1) rest
    | none => tagsFrom names 0 rest

theorem tagsFrom_eq_drop (names : List Text) (skip : Nat) (text : Text) :
    tagsFrom names skip text = tagsFrom names 0 (text.drop skip) := by
  induction text generalizing skip with
  | nil => cases skip <;> simp [tagsFrom]
  | cons c rest ih =>
    cases skip with
    | zero => simp
    | succ skip => simp [tagsFrom, ih]

end Scan

namespace AllowList

def tags (l : AllowList) (source : Text) : List Tag := Scan.tagsFrom l.names 0 source

def check (l : AllowList) (source : Text) : List Diagnostic := diagnostics (l.tags source)

end AllowList

end TagBalance
