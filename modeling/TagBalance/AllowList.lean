import TagBalance.Pattern

/-!
Allow-lists of tag names, in matching order. A list has a name, and no name is empty. Whether
it is accepted depends on the compiler of its pattern as well, which may find it too large;
what is said of an allow-list holds whichever lists the compiler takes. The standard list is
the one used when no other is given.
-/
namespace TagBalance

inductive AllowListError where
  | empty
  | emptyName
  | invalidPattern (reason : Text)
  deriving DecidableEq

namespace AllowListError

def message : AllowListError → Text
  | empty => "Tag allow-list is empty".toList
  | emptyName => "Tag allow-list contains an empty name".toList
  | invalidPattern reason => "Invalid tag pattern: ".toList ++ reason

end AllowListError

@[ext]
structure AllowList where
  names : List Text
  names_ne_nil : names ≠ []
  nil_notMem : [] ∉ names

namespace AllowList

def pattern (l : AllowList) : Text := Pattern.ofNames l.names

/-- An empty list is refused first, then an empty name, and then a pattern that the compiler
refuses, with the reason that it gives. -/
def ofNamesWith (refusal? : Text → Option Text) (names : List Text) :
    Except AllowListError AllowList :=
  if h : names = [] then .error .empty
  else if h' : [] ∈ names then .error .emptyName
  else
    match refusal? (Pattern.ofNames names) with
    | some reason => .error (.invalidPattern reason)
    | none => .ok ⟨names, h, h'⟩

def ofNames : List Text → Except AllowListError AllowList := ofNamesWith Pattern.refusal?

def standardNames : List Text :=
  ["div".toList, "button".toList, "table".toList, "thead".toList, "tbody".toList,
    "tr".toList, "th".toList, "td".toList, "span".toList, "h1".toList, "h2".toList,
    "h3".toList, "p".toList, "label".toList, "select".toList, "SignaturePad".toList,
    "ReactQuill".toList]

def standard : AllowList := ⟨standardNames, by decide +kernel, by decide +kernel⟩

/-- A list is kept as it is, and it is accepted exactly when it has the two properties and the
compiler takes its pattern. -/
theorem ofNamesWith_eq_ok_iff {refusal? : Text → Option Text} {names : List Text}
    {l : AllowList} :
    ofNamesWith refusal? names = .ok l ↔ l.names = names ∧ refusal? l.pattern = none := by
  constructor
  · intro h
    unfold ofNamesWith at h
    split at h
    · cases h
    · split at h
      · cases h
      · split at h
        · cases h
        · rename_i hnone
          obtain rfl := Except.ok.inj h
          exact ⟨rfl, hnone⟩
  · rintro ⟨rfl, hnone⟩
    rw [pattern] at hnone
    simp [ofNamesWith, l.names_ne_nil, l.nil_notMem, hnone]

end AllowList

end TagBalance
