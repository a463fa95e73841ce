import TagBalance.Diagnostic
import Mathlib.Data.List.Basic

/-!
A report can be read in one way only. Nothing in a name is escaped, but behind each name comes
a character that the name must not have: a greater-than sign behind the name of a tag, and a
quote behind a name in a list. So both ends of each name are settled, and with them what kind
of text comes next.
-/
namespace TagBalance

/-- Two texts that end at the first place of the same character are told apart from what
stands behind it. -/
theorem Text.append_cons_inj {c : Char} {n m rest rest' : Text} (hn : c ∉ n) (hm : c ∉ m)
    (h : n ++ c :: rest = m ++ c :: rest') : n = m ∧ rest = rest' := by
  have hindex := congrArg (List.idxOf c) h
  rw [List.idxOf_append_of_notMem hn, List.idxOf_append_of_notMem hm, List.idxOf_cons_self,
    List.idxOf_cons_self] at hindex
  obtain ⟨hname, hbehind⟩ := List.append_inj h hindex
  exact ⟨hname, (List.cons.inj hbehind).2⟩

namespace Diagnostic

def names : Diagnostic → List Text
  | excessClosing n => [n]
  | mismatch m n => [m, n]
  | unclosed ns => ns

def IsPlain (n : Text) : Prop := '>' ∉ n ∧ '\'' ∉ n

instance : DecidablePred IsPlain := fun _ => inferInstanceAs (Decidable (_ ∧ _))

def initial : Diagnostic → Char
  | excessClosing _ => 'E'
  | mismatch _ _ => 'M'
  | unclosed _ => 'U'

theorem head?_line_append (d : Diagnostic) (rest : Text) :
    (d.line ++ rest).head? = some d.initial := by
  cases d <;> rfl

/-- What stands behind the closing quote of a listed name: the other names, the bracket and
the rest of the text. -/
def behindQuote (rest : Text) : List Text → Text
  | [] => ']' :: rest
  | n :: ns => ',' :: ' ' :: '\'' :: (n ++ '\'' :: behindQuote rest ns)

theorem commaList_nil_append (rest : Text) :
    Text.commaList (([] : List Text).map quoted) ++ ']' :: rest = ']' :: rest := rfl

theorem commaList_cons_append (n : Text) (ns : List Text) (rest : Text) :
    Text.commaList ((n :: ns).map quoted) ++ ']' :: rest =
      '\'' :: (n ++ '\'' :: behindQuote rest ns) := by
  induction ns generalizing n with
  | nil =>
    change quoted n ++ [] ++ ']' :: rest = _
    simp [quoted, behindQuote]
  | cons m ns ih =>
    rw [Text.commaList, List.map_cons, List.map_cons, List.intercalate_cons_cons,
      List.append_assoc, ← List.map_cons, ← Text.commaList, ih m]
    simp [quoted, behindQuote]

theorem behindQuote_inj {rest rest' : Text} {ns ms : List Text} (hns : ∀ n ∈ ns, IsPlain n)
    (hms : ∀ m ∈ ms, IsPlain m) (h : behindQuote rest ns = behindQuote rest' ms) :
    ns = ms ∧ rest = rest' := by
  induction ns generalizing ms with
  | nil =>
    cases ms with
    | nil => exact ⟨rfl, (List.cons.inj h).2⟩
    | cons m ms => simp [behindQuote] at h
  | cons n ns ih =>
    cases ms with
    | nil => simp [behindQuote] at h
    | cons m ms =>
      rw [List.forall_mem_cons] at hns hms
      have hname : n ++ '\'' :: behindQuote rest ns = m ++ '\'' :: behindQuote rest' ms := by
        simpa [behindQuote] using h
      obtain ⟨rfl, hbehind⟩ := Text.append_cons_inj hns.1.2 hms.1.2 hname
      obtain ⟨rfl, hrest⟩ := ih hns.2 hms.2 hbehind
      exact ⟨rfl, hrest⟩

theorem commaList_inj {rest rest' : Text} {ns ms : List Text} (hns : ∀ n ∈ ns, IsPlain n)
    (hms : ∀ m ∈ ms, IsPlain m)
    (h : Text.commaList (ns.map quoted) ++ ']' :: rest =
      Text.commaList (ms.map quoted) ++ ']' :: rest') : ns = ms ∧ rest = rest' := by
  cases ns with
  | nil =>
    cases ms with
    | nil => exact ⟨rfl, (List.cons.inj h).2⟩
    | cons m ms =>
      rw [commaList_cons_append, commaList_nil_append] at h
      simp at h
  | cons n ns =>
    cases ms with
    | nil =>
      rw [commaList_cons_append, commaList_nil_append] at h
      simp at h
    | cons m ms =>
      rw [commaList_cons_append, commaList_cons_append] at h
      -- With a comma and a blank in front, these are what stands behind a quote.
      exact behindQuote_inj hns hms (congrArg (fun s => ',' :: ' ' :: s) h)

theorem line_excessClosing_append (n rest : Text) :
    (excessClosing n).line ++ rest = "Excess closing tag: </".toList ++ (n ++ '>' :: rest) := by
  change "Excess closing tag: </".toList ++ n ++ ['>'] ++ rest = _
  rw [List.append_assoc, List.append_assoc, List.singleton_append]

theorem line_mismatch_append (m n rest : Text) :
    (mismatch m n).line ++ rest = "Mismatch: <".toList ++
      (m ++ '>' :: (" closed by </".toList ++ (n ++ '>' :: rest))) := by
  change "Mismatch: <".toList ++ m ++ ('>' :: " closed by </".toList) ++ n ++ ['>'] ++ rest = _
  simp only [List.append_assoc, List.cons_append, List.nil_append]

theorem line_unclosed_append (ns : List Text) (rest : Text) :
    (unclosed ns).line ++ rest =
      "Unclosed tags: [".toList ++ (Text.commaList (ns.map quoted) ++ ']' :: rest) := by
  change "Unclosed tags: [".toList ++ Text.commaList (ns.map quoted) ++ [']'] ++ rest = _
  rw [List.append_assoc, List.append_assoc, List.singleton_append]

/-- A line is told apart from what stands behind it, and it has one reading. -/
theorem line_append_inj {d e : Diagnostic} {rest rest' : Text} (hd : ∀ n ∈ d.names, IsPlain n)
    (he : ∀ n ∈ e.names, IsPlain n) (h : d.line ++ rest = e.line ++ rest') :
    d = e ∧ rest = rest' := by
  have hinitial := congrArg List.head? h
  rw [head?_line_append, head?_line_append] at hinitial
  cases d with
  | excessClosing n =>
    cases e with
    | mismatch => simp [initial] at hinitial
    | unclosed => simp [initial] at hinitial
    | excessClosing n' =>
      have hn := hd n (by simp [names])
      have hn' := he n' (by simp [names])
      rw [line_excessClosing_append, line_excessClosing_append] at h
      obtain ⟨rfl, hrest⟩ := Text.append_cons_inj hn.1 hn'.1 (List.append_cancel_left h)
      exact ⟨rfl, hrest⟩
  | mismatch m n =>
    cases e with
    | excessClosing => simp [initial] at hinitial
    | unclosed => simp [initial] at hinitial
    | mismatch m' n' =>
      have hm := hd m (by simp [names])
      have hm' := he m' (by simp [names])
      have hn := hd n (by simp [names])
      have hn' := he n' (by simp [names])
      rw [line_mismatch_append, line_mismatch_append] at h
      obtain ⟨rfl, hclosed⟩ := Text.append_cons_inj hm.1 hm'.1 (List.append_cancel_left h)
      obtain ⟨rfl, hrest⟩ := Text.append_cons_inj hn.1 hn'.1 (List.append_cancel_left hclosed)
      exact ⟨rfl, hrest⟩
  | unclosed ns =>
    cases e with
    | excessClosing => simp [initial] at hinitial
    | mismatch => simp [initial] at hinitial
    | unclosed ns' =>
      rw [line_unclosed_append, line_unclosed_append] at h
      obtain ⟨rfl, hrest⟩ := commaList_inj hd he (List.append_cancel_left h)
      exact ⟨rfl, hrest⟩

theorem report_cons (d : Diagnostic) (ds : List Diagnostic) :
    report (d :: ds) = d.line ++ '\n' :: report ds :=
  Text.unlines_cons d.line (ds.map line)

/-- For plain names, lists that are printed alike are the same. A name may hold line ends,
commas or brackets, as they cannot be taken for what stands behind a name. -/
theorem report_eq_iff {ds es : List Diagnostic} (hds : ∀ d ∈ ds, ∀ n ∈ d.names, IsPlain n)
    (hes : ∀ e ∈ es, ∀ n ∈ e.names, IsPlain n) : report ds = report es ↔ ds = es := by
  refine ⟨?_, congrArg report⟩
  intro h
  induction ds generalizing es with
  | nil =>
    cases es with
    | nil => rfl
    | cons e es =>
      rw [report_cons] at h
      exact absurd h.symm (List.append_ne_nil_of_right_ne_nil _ (List.cons_ne_nil _ _))
  | cons d ds ih =>
    cases es with
    | nil =>
      rw [report_cons] at h
      exact absurd h (List.append_ne_nil_of_right_ne_nil _ (List.cons_ne_nil _ _))
    | cons e es =>
      rw [report_cons, report_cons] at h
      rw [List.forall_mem_cons] at hds hes
      obtain ⟨rfl, hrest⟩ := line_append_inj hds.1 hes.1 h
      rw [ih hds.2 hes.2 (List.cons.inj hrest).2]

def listed : List Diagnostic :=
  [.excessClosing "td".toList, .unclosed ["p".toList, [], "th\n".toList]]

def joined : List Diagnostic :=
  [.excessClosing "td".toList, .unclosed ["p, , th\n".toList]]

theorem report_listed_ne_report_joined :
    (∀ d ∈ listed, ∀ n ∈ d.names, IsPlain n) ∧ (∀ e ∈ joined, ∀ n ∈ e.names, IsPlain n) ∧
      report listed ≠ report joined := by
  have hlisted : ∀ d ∈ listed, ∀ n ∈ d.names, IsPlain n := by decide
  have hjoined : ∀ e ∈ joined, ∀ n ∈ e.names, IsPlain n := by decide
  have hne : listed ≠ joined := by decide
  exact ⟨hlisted, hjoined, mt (report_eq_iff hlisted hjoined).mp hne⟩

/-- With a quote in a name, one name and two names are printed alike. -/
example : report [.unclosed ["p', 'th".toList]] = report [.unclosed ["p".toList, "th".toList]] :=
  rfl

end Diagnostic

end TagBalance
