import TagBalance.AllowList

/-!
The pattern of an allow-list read back. Inside its frame stand the escaped names with bars
between them. A name may itself hold bars, and backslashes in any number, but in its escaped
form each of them comes with a backslash of its own. So no backslash at the end of a name is
left to escape the bar behind it, and cutting at the other bars gives the escaped names.
-/
namespace TagBalance

namespace Pattern

/-- The parts of a text between its bars. A backslash takes the character behind it along,
so that this is neither a bar to cut at nor a backslash that escapes another character. -/
def splitBars : Text → List Text
  | [] => [[]]
  | '\\' :: c :: rest => (splitBars rest).modifyHead fun part => '\\' :: c :: part
  | '|' :: rest => [] :: splitBars rest
  | c :: rest => (splitBars rest).modifyHead fun part => c :: part

def unescape : Text → Text
  | [] => []
  | '\\' :: c :: rest => c :: unescape rest
  | c :: rest => c :: unescape rest

/-- Each special character is escaped by a backslash, or it is the backslash that does so. -/
inductive Escaped : Text → Prop
  | nil : Escaped []
  | pair {c : Char} {rest : Text} : c ∈ special → Escaped rest → Escaped ('\\' :: c :: rest)
  | plain {c : Char} {rest : Text} : c ∉ special → Escaped rest → Escaped (c :: rest)

theorem backslash_mem_special : '\\' ∈ special := by decide

theorem bar_mem_special : '|' ∈ special := by decide

theorem splitBars_plain {c : Char} (hc : c ∉ special) (rest : Text) :
    splitBars (c :: rest) = (splitBars rest).modifyHead fun part => c :: part := by
  rw [splitBars]
  · rintro - - rfl -
    exact hc backslash_mem_special
  · rintro rfl
    exact hc bar_mem_special

theorem unescape_plain {c : Char} (hc : c ∉ special) (rest : Text) :
    unescape (c :: rest) = c :: unescape rest := by
  rw [unescape]
  rintro - - rfl -
  exact hc backslash_mem_special

theorem escape_cons_of_mem {c : Char} (hc : c ∈ special) (name : Text) :
    escape (c :: name) = '\\' :: c :: escape name := by
  rw [escape, List.flatMap_cons, escapeChar, if_pos hc]
  rfl

theorem escape_cons_of_notMem {c : Char} (hc : c ∉ special) (name : Text) :
    escape (c :: name) = c :: escape name := by
  rw [escape, List.flatMap_cons, escapeChar, if_neg hc]
  rfl

theorem escaped_escape (name : Text) : Escaped (escape name) := by
  induction name with
  | nil => exact .nil
  | cons c name ih =>
    by_cases hc : c ∈ special
    · rw [escape_cons_of_mem hc]
      exact .pair hc ih
    · rw [escape_cons_of_notMem hc]
      exact .plain hc ih

theorem unescape_escape (name : Text) : unescape (escape name) = name := by
  induction name with
  | nil => rfl
  | cons c name ih =>
    by_cases hc : c ∈ special
    · rw [escape_cons_of_mem hc, unescape, ih]
    · rw [escape_cons_of_notMem hc, unescape_plain hc, ih]

/-- An escaped text has no bar to cut at, and it ends without a backslash that could escape
what stands behind it. -/
theorem Escaped.splitBars_append {part : Text} (h : Escaped part) (rest : Text) :
    splitBars (part ++ rest) = (splitBars rest).modifyHead fun first => part ++ first := by
  induction h with
  | nil => exact (congrFun List.modifyHead_id (splitBars rest)).symm
  | pair _ _ ih =>
    rw [List.cons_append, List.cons_append, splitBars, ih, List.modifyHead_modifyHead]
    rfl
  | plain hc _ ih =>
    rw [List.cons_append, splitBars_plain hc, ih, List.modifyHead_modifyHead]
    rfl

theorem splitBars_intercalate {parts : List Text} (hparts : ∀ part ∈ parts, Escaped part)
    (hne : parts ≠ []) : splitBars (List.intercalate ['|'] parts) = parts := by
  induction parts with
  | nil => exact absurd rfl hne
  | cons part parts ih =>
    obtain ⟨hpart, hrest⟩ := List.forall_mem_cons.mp hparts
    cases parts with
    | nil => simpa [splitBars] using hpart.splitBars_append []
    | cons next parts =>
      rw [List.intercalate_cons_cons, List.append_assoc, hpart.splitBars_append,
        List.singleton_append, splitBars, ih hrest (List.cons_ne_nil next parts),
        List.modifyHead_cons, List.append_nil]

theorem splitBars_alternation {names : List Text} (hne : names ≠ []) :
    splitBars (alternation names) = names.map escape := by
  apply splitBars_intercalate
  · exact List.forall_mem_map.mpr fun name _ => escaped_escape name
  · simpa using hne

end Pattern

namespace AllowList

open Pattern

theorem map_unescape_splitBars (l : AllowList) :
    (splitBars (alternation l.names)).map unescape = l.names := by
  rw [splitBars_alternation l.names_ne_nil, List.map_map]
  exact List.map_id'' unescape_escape l.names

theorem eq_of_pattern_eq {l m : AllowList} (h : l.pattern = m.pattern) : l = m := by
  have hbody : alternation l.names = alternation m.names :=
    List.append_cancel_left (List.append_cancel_right h)
  apply AllowList.ext
  rw [← l.map_unescape_splitBars, hbody, m.map_unescape_splitBars]

/-- Inside its frame a pattern falls into parts that are escaped throughout, and without
their backslashes these are the names in their order. So each list has its own pattern. -/
theorem exists_body_and_pattern_eq_iff (l : AllowList) :
    (∃ body, l.pattern = "<(/?)(".toList ++ body ++ [')'] ∧
        (splitBars body).map unescape = l.names ∧ ∀ part ∈ splitBars body, Escaped part) ∧
      ∀ m : AllowList, m.pattern = l.pattern ↔ m = l := by
  refine ⟨⟨alternation l.names, rfl, l.map_unescape_splitBars, ?_⟩, ?_⟩
  · rw [splitBars_alternation l.names_ne_nil]
    exact List.forall_mem_map.mpr fun name _ => escaped_escape name
  · intro m
    exact ⟨eq_of_pattern_eq, congrArg pattern⟩

def barred : AllowList :=
  ⟨["a|b\\".toList, "\\".toList, "a|b\\".toList], by decide, by decide⟩

def barredBody : Text := "a\\|b\\\\|\\\\|a\\|b\\\\".toList

def parted : AllowList :=
  ⟨["a".toList, "b\\".toList, "\\".toList, "a|b\\".toList], by decide, by decide⟩

theorem pattern_eq_iff_barred :
    barred.pattern = "<(/?)(".toList ++ barredBody ++ [')'] ∧
      (splitBars barredBody).map unescape = barred.names ∧
      "a\\|b\\\\".toList ∈ splitBars barredBody ∧ Escaped "a\\|b\\\\".toList ∧
      parted.pattern ≠ barred.pattern := by
  have hpattern : barred.pattern = "<(/?)(".toList ++ barredBody ++ [')'] := by decide
  have hmem : "a\\|b\\\\".toList ∈ splitBars barredBody := by decide
  have hne : parted ≠ barred := fun h => absurd (congrArg names h) (by decide)
  obtain ⟨⟨body, hbody, hnames, hparts⟩, hiff⟩ := exists_body_and_pattern_eq_iff barred
  obtain rfl : body = barredBody :=
    List.append_cancel_left (List.append_cancel_right (hbody.symm.trans hpattern))
  exact ⟨hpattern, hnames, hmem, hparts _ hmem, fun h => hne ((hiff parted).mp h)⟩

end AllowList

end TagBalance
