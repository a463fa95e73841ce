import TagBalance.Config.KeyPath
import Mathlib.Data.List.Forall2
import Mathlib.Data.List.TakeWhile
import Mathlib.Tactic.SplitIfs

/-!
The grammar of key paths. A key spells an identifier and then one part for each step: a field
behind a point, or an index between brackets, with blanks around it. The reader accepts the
spellings of key paths and nothing else, and it reads back the path that was spelled. No part
can be read too far, because what stands behind it never belongs to it.
-/
namespace TagBalance

namespace Text

variable {q : Char → Bool} {run rest : Text}

/-- A run of characters ends in front of one that does not belong to it. -/
theorem takeWhile_run (hrun : ∀ c ∈ run, q c) (hrest : ∀ c ∈ rest.head?, q c = false) :
    (run ++ rest).takeWhile q = run := by
  rw [List.takeWhile_append_of_pos hrun]
  cases rest with
  | nil => exact List.append_nil run
  | cons c rest =>
    rw [List.takeWhile_cons_of_neg (by rw [hrest c rfl]; exact Bool.false_ne_true),
      List.append_nil]

theorem dropWhile_run (hrun : ∀ c ∈ run, q c) (hrest : ∀ c ∈ rest.head?, q c = false) :
    (run ++ rest).dropWhile q = rest := by
  rw [List.dropWhile_append_of_pos hrun]
  cases rest with
  | nil => rfl
  | cons c rest =>
    exact List.dropWhile_cons_of_neg (by rw [hrest c rfl]; exact Bool.false_ne_true)

theorem digitsValue_eq (digits : Text) : digitsValue digits = Nat.ofDigitChars 10 digits 0 := rfl

end Text

theorem Toml.isBlank_iff {c : Char} : Toml.isBlank c ↔ c = ' ' ∨ c = '\t' := by
  simp [Toml.isBlank]

theorem Toml.fitsInt64_iff {i : Int} : Toml.fitsInt64 i ↔ ∃ n : Int64, n.toInt = i := by
  rw [Toml.fitsInt64, Bool.and_eq_true, decide_eq_true_eq, decide_eq_true_eq]
  constructor
  · rintro ⟨hleast, hgreatest⟩
    exact ⟨Int64.ofInt i, Int64.toInt_ofInt_of_le hleast (Int.lt_add_one_of_le hgreatest)⟩
  · rintro ⟨n, rfl⟩
    exact ⟨n.le_toInt, Int.le_of_lt_add_one n.toInt_lt⟩

theorem Config.exists_of_map_eq_ok {ε α β : Type} {x : Except ε α} {f : α → β} {b : β}
    (h : x.map f = .ok b) : ∃ a, x = .ok a ∧ f a = b := by
  cases x with
  | error e => cases h
  | ok a => exact ⟨a, rfl, Except.ok.inj h⟩

namespace Config.KeyPath

/-- One or more letters and digits of ASCII, spaces, underscores and hyphens. -/
def IsIdentifier (s : Text) : Prop :=
  s ≠ [] ∧ ∀ c ∈ s, c.isAlphanum ∨ c = ' ' ∨ c = '_' ∨ c = '-'

def IsBlanks (s : Text) : Prop := ∀ c ∈ s, c = ' ' ∨ c = '\t'

/-- One or more decimal digits. There may be zeros in front. -/
def IsNumeral (s : Text) : Prop := s ≠ [] ∧ ∀ c ∈ s, c.isDigit

inductive SpellsInt : Int → Text → Prop
  | plain {digits : Text} (h : IsNumeral digits) :
    SpellsInt (Nat.ofDigitChars 10 digits 0) digits
  | minus {digits : Text} (h : IsNumeral digits) :
    SpellsInt (-Nat.ofDigitChars 10 digits 0) ('-' :: digits)

/-- An index is an integer of 64 bits. -/
inductive SpellsStep : Step → Text → Prop
  | field {name : Text} (h : IsIdentifier name) : SpellsStep (.field name) ('.' :: name)
  | index (i : Int64) {front numeral back : Text} (hfront : IsBlanks front)
    (hi : SpellsInt i.toInt numeral) (hback : IsBlanks back) :
    SpellsStep (.index i.toInt) ('[' :: (front ++ (numeral ++ (back ++ [']']))))

/-- The whole key is the first identifier with one part behind it for each step. -/
def Spells (p : KeyPath) (key : Text) : Prop :=
  IsIdentifier p.head ∧
    ∃ parts, List.Forall₂ SpellsStep p.steps parts ∧ key = p.head ++ parts.flatten

theorem isIdentifierChar_iff {c : Char} :
    isIdentifierChar c ↔ c.isAlphanum ∨ c = ' ' ∨ c = '_' ∨ c = '-' := by
  simp [isIdentifierChar, or_assoc]

theorem IsIdentifier.isIdentifierChar {s : Text} (h : IsIdentifier s) :
    ∀ c ∈ s, isIdentifierChar c :=
  fun c hc => isIdentifierChar_iff.mpr (h.2 c hc)

theorem isIdentifier_takeWhile {text : Text} (h : text.takeWhile isIdentifierChar ≠ []) :
    IsIdentifier (text.takeWhile isIdentifierChar) :=
  ⟨h, fun _ hc => isIdentifierChar_iff.mp (List.mem_takeWhile_imp hc)⟩

theorem IsBlanks.isBlank {s : Text} (h : IsBlanks s) : ∀ c ∈ s, Toml.isBlank c :=
  fun c hc => Toml.isBlank_iff.mpr (h c hc)

/-- What stands behind blanks is left, if it does not start with a blank. -/
theorem IsBlanks.skipBlanks_append {s rest : Text} (h : IsBlanks s)
    (hrest : ∀ c ∈ rest.head?, Toml.isBlank c = false) : Toml.skipBlanks (s ++ rest) = rest :=
  Text.dropWhile_run h.isBlank hrest

theorem exists_isBlanks_append (text : Text) :
    ∃ front, IsBlanks front ∧ text = front ++ Toml.skipBlanks text :=
  ⟨text.takeWhile Toml.isBlank, fun _ hc => Toml.isBlank_iff.mp (List.mem_takeWhile_imp hc),
    List.takeWhile_append_dropWhile.symm⟩

theorem isBlank_of_isDigit {c : Char} (h : c.isDigit) : Toml.isBlank c = false := by
  apply Bool.eq_false_iff.mpr
  intro hblank
  rcases Toml.isBlank_iff.mp hblank with rfl | rfl
  · exact absurd h (by decide)
  · exact absurd h (by decide)

theorem isDigit_of_isBlank {c : Char} (h : Toml.isBlank c) : c.isDigit = false := by
  apply Bool.eq_false_iff.mpr
  intro hdigit
  rw [isBlank_of_isDigit hdigit] at h
  exact Bool.false_ne_true h

/-- No digit stands behind the digits of an index, whether or not there are blanks. -/
theorem IsBlanks.isDigit_of_mem_head? {back : Text} (h : IsBlanks back) (rest : Text) :
    ∀ c ∈ (back ++ ']' :: rest).head?, c.isDigit = false := by
  intro c hc
  cases back with
  | nil => rw [← Option.some.inj hc]; decide
  | cons d back =>
    rw [← Option.some.inj hc]
    exact isDigit_of_isBlank (h.isBlank d List.mem_cons_self)

section Index

variable {text body rest : Text} {value : Nat → Int} {i : Int}

/-- The digits of an index and what stands behind them, where the blanks in front and the sign
have been read already. -/
theorem index_eq_ok_iff
    (hbody : (if (Toml.skipBlanks text).head? = some '-' then (Toml.skipBlanks text).drop 1
      else Toml.skipBlanks text) = body)
    (hvalue : ∀ n : Nat,
      (if (Toml.skipBlanks text).head? = some '-' then -(n : Int) else n) = value n) :
    index text = .ok (i, rest) ↔ ∃ digits back, IsNumeral digits ∧ IsBlanks back ∧
      body = digits ++ (back ++ ']' :: rest) ∧ value (Nat.ofDigitChars 10 digits 0) = i ∧
      Toml.fitsInt64 i := by
  rw [index]
  simp only [hbody, hvalue, Text.digitsValue_eq]
  constructor
  · intro h
    split at h
    · cases h
    · rename_i hdigits
      split_ifs at h with hfits
      split at h
      · rename_i hskip
        obtain ⟨rfl, rfl⟩ := Prod.mk.inj (Except.ok.inj h)
        obtain ⟨back, hback, hrest⟩ := exists_isBlanks_append (body.dropWhile Char.isDigit)
        refine ⟨body.takeWhile Char.isDigit, back, ⟨hdigits, fun _ => List.mem_takeWhile_imp⟩,
          hback, ?_, rfl, hfits⟩
        rw [← hskip, ← hrest, List.takeWhile_append_dropWhile]
      · cases h
  · rintro ⟨digits, back, hdigits, hback, rfl, rfl, hfits⟩
    have hstop := hback.isDigit_of_mem_head? rest
    have hskip : Toml.skipBlanks (back ++ ']' :: rest) = ']' :: rest :=
      hback.skipBlanks_append fun c hc => by rw [← Option.some.inj hc]; decide
    rw [Text.takeWhile_run hdigits.2 hstop, Text.dropWhile_run hdigits.2 hstop, hskip]
    obtain ⟨d, ds, rfl⟩ := List.exists_cons_of_ne_nil hdigits.1
    simp only [hfits, if_true]

end Index

theorem IsNumeral.exists_cons {digits : Text} (h : IsNumeral digits) :
    ∃ d ds, digits = d :: ds ∧ d.isDigit := by
  obtain ⟨d, ds, rfl⟩ := List.exists_cons_of_ne_nil h.1
  exact ⟨d, ds, rfl, h.2 d List.mem_cons_self⟩

/-- An integer starts with a digit or a sign, so that the blanks end in front of it. -/
theorem IsBlanks.skipBlanks_spellsInt {front numeral : Text} (hfront : IsBlanks front) {i : Int}
    (hi : SpellsInt i numeral) (behind : Text) :
    Toml.skipBlanks (front ++ (numeral ++ behind)) = numeral ++ behind := by
  apply hfront.skipBlanks_append
  intro c hc
  cases hi with
  | plain hdigits =>
    obtain ⟨d, ds, rfl, hd⟩ := hdigits.exists_cons
    exact Option.some.inj hc ▸ isBlank_of_isDigit hd
  | minus hdigits =>
    rw [← Option.some.inj hc]
    decide

/-- An index is read with the blanks around it and its closing bracket. -/
theorem index_append {front numeral back : Text} (hfront : IsBlanks front) {i : Int}
    (hi : SpellsInt i numeral) (hback : IsBlanks back) (hfits : Toml.fitsInt64 i) (rest : Text) :
    index (front ++ (numeral ++ (back ++ ']' :: rest))) = .ok (i, rest) := by
  have hskip := hfront.skipBlanks_spellsInt hi (back ++ ']' :: rest)
  cases hi with
  | plain hdigits =>
    have hplain : ¬ (Toml.skipBlanks (front ++ (numeral ++ (back ++ ']' :: rest)))).head? =
        some '-' := by
      obtain ⟨d, ds, rfl, hd⟩ := hdigits.exists_cons
      rw [hskip]
      intro hminus
      rw [Option.some.inj hminus] at hd
      exact absurd hd (by decide)
    exact (index_eq_ok_iff (if_neg hplain) fun n => if_neg hplain).mpr
      ⟨numeral, back, hdigits, hback, hskip, rfl, hfits⟩
  | @minus digits hdigits =>
    have hminus : (Toml.skipBlanks
        (front ++ ('-' :: digits ++ (back ++ ']' :: rest)))).head? = some '-' := by
      rw [hskip]
      rfl
    refine (index_eq_ok_iff (if_pos hminus) fun n => if_pos hminus).mpr
      ⟨digits, back, hdigits, hback, ?_, rfl, hfits⟩
    rw [hskip]
    rfl

theorem exists_spellsInt_of_index_eq_ok {text rest : Text} {i : Int}
    (h : index text = .ok (i, rest)) :
    ∃ front numeral back, IsBlanks front ∧ SpellsInt i numeral ∧ IsBlanks back ∧
      Toml.fitsInt64 i ∧ text = front ++ (numeral ++ (back ++ ']' :: rest)) := by
  obtain ⟨front, hfront, htext⟩ := exists_isBlanks_append text
  by_cases hminus : (Toml.skipBlanks text).head? = some '-'
  · obtain ⟨digits, back, hdigits, hback, hbody, rfl, hfits⟩ :=
      (index_eq_ok_iff (if_pos hminus) fun n => if_pos hminus).mp h
    obtain ⟨body, hcons⟩ := List.head?_eq_some_iff.mp hminus
    rw [hcons, List.drop_one, List.tail_cons] at hbody
    refine ⟨front, '-' :: digits, back, hfront, .minus hdigits, hback, hfits, ?_⟩
    rw [htext, hcons, hbody]
    rfl
  · obtain ⟨digits, back, hdigits, hback, hbody, rfl, hfits⟩ :=
      (index_eq_ok_iff (if_neg hminus) fun n => if_neg hminus).mp h
    refine ⟨front, digits, back, hfront, .plain hdigits, hback, hfits, ?_⟩
    rw [htext, hbody]

/-- Behind a part comes the mark of the next one, or the end of the key. -/
theorem head?_flatten_of_spellsStep {steps : List Step} {parts : List Text}
    (h : List.Forall₂ SpellsStep steps parts) :
    ∀ c ∈ parts.flatten.head?, isIdentifierChar c = false := by
  intro c hc
  cases h with
  | nil => simp at hc
  | cons hstep hrest =>
    cases hstep with
    | field hname => rw [← Option.some.inj hc]; decide
    | index i hfront hi hback => rw [← Option.some.inj hc]; decide

/-- A part of a key is read as the step that it spells, up to the next part. -/
theorem step_append {s : Step} {part rest : Text} (h : SpellsStep s part)
    (hrest : ∀ c ∈ rest.head?, isIdentifierChar c = false) :
    step (part ++ rest) = .ok (s, rest) := by
  cases h with
  | @field name hname =>
    have htake := Text.takeWhile_run hname.isIdentifierChar hrest
    have hdrop := Text.dropWhile_run hname.isIdentifierChar hrest
    rw [List.cons_append, step, htake, hdrop]
    obtain ⟨c, cs, rfl⟩ := List.exists_cons_of_ne_nil hname.1
    rfl
  | @index i front numeral back hfront hi hback =>
    have hindex := index_append hfront hi hback (Toml.fitsInt64_iff.mpr ⟨i, rfl⟩) rest
    have htext : '[' :: (front ++ (numeral ++ (back ++ [']']))) ++ rest =
        '[' :: (front ++ (numeral ++ (back ++ ']' :: rest))) := by
      simp only [List.cons_append, List.append_assoc, List.nil_append]
    rw [htext, step, hindex]
    rfl

theorem exists_part_of_step_eq_ok {text rest : Text} {s : Step} (h : step text = .ok (s, rest)) :
    ∃ part, SpellsStep s part ∧ text = part ++ rest := by
  unfold step at h
  split at h
  · rename_i behind
    split at h
    · cases h
    · rename_i hname
      obtain ⟨rfl, rfl⟩ := Prod.mk.inj (Except.ok.inj h)
      refine ⟨'.' :: behind.takeWhile isIdentifierChar, .field (isIdentifier_takeWhile hname), ?_⟩
      rw [List.cons_append, List.takeWhile_append_dropWhile]
  · rename_i behind
    obtain ⟨⟨i, rest'⟩, hindex, heq⟩ := exists_of_map_eq_ok h
    obtain ⟨rfl, rfl⟩ := Prod.mk.inj heq
    obtain ⟨front, numeral, back, hfront, hi, hback, hfits, rfl⟩ :=
      exists_spellsInt_of_index_eq_ok hindex
    obtain ⟨n, rfl⟩ := Toml.fitsInt64_iff.mp hfits
    refine ⟨_, .index n hfront hi hback, ?_⟩
    simp only [List.cons_append, List.append_assoc, List.nil_append]
  · cases h

theorem stepsFrom_nil (fuel : Nat) : stepsFrom fuel [] = .ok [] := by
  rw [stepsFrom]

theorem stepsFrom_succ {c : Char} {text rest : Text} {s : Step}
    (h : step (c :: text) = .ok (s, rest)) (fuel : Nat) :
    stepsFrom (fuel + 1) (c :: text) = (stepsFrom fuel rest).map (s :: ·) := by
  simp only [stepsFrom, h]

theorem SpellsStep.exists_cons {s : Step} {part : Text} (h : SpellsStep s part) :
    ∃ c cs, part = c :: cs := by
  cases h with
  | field hname => exact ⟨_, _, rfl⟩
  | index i hfront hi hback => exact ⟨_, _, rfl⟩

/-- Each part takes at least one character, so that the length of the text is fuel enough. -/
theorem stepsFrom_flatten {steps : List Step} {parts : List Text}
    (h : List.Forall₂ SpellsStep steps parts) {fuel : Nat} (hfuel : parts.flatten.length ≤ fuel) :
    stepsFrom fuel parts.flatten = .ok steps := by
  induction h generalizing fuel with
  | nil => exact stepsFrom_nil fuel
  | @cons s part steps parts hstep hrest ih =>
    have hread := step_append hstep (head?_flatten_of_spellsStep hrest)
    obtain ⟨c, cs, rfl⟩ := hstep.exists_cons
    rw [List.cons_append] at hread
    rw [List.flatten_cons, List.cons_append, List.length_cons, List.length_append] at hfuel
    cases fuel with
    | zero => omega
    | succ fuel =>
      rw [List.flatten_cons, List.cons_append, stepsFrom_succ hread, ih (by omega)]
      rfl

theorem exists_parts_of_stepsFrom_eq_ok {fuel : Nat} {text : Text} {steps : List Step}
    (h : stepsFrom fuel text = .ok steps) :
    ∃ parts, List.Forall₂ SpellsStep steps parts ∧ text = parts.flatten := by
  fun_induction stepsFrom fuel text generalizing steps with
  | case1 fuel => exact ⟨[], Except.ok.inj h ▸ .nil, rfl⟩
  | case2 text hne => cases h
  | case3 fuel text hne e hstep => cases h
  | case4 fuel text hne s rest hstep ih =>
    obtain ⟨steps', hsteps, rfl⟩ := exists_of_map_eq_ok h
    obtain ⟨part, hpart, rfl⟩ := exists_part_of_step_eq_ok hstep
    obtain ⟨parts, hparts, rfl⟩ := ih hsteps
    exact ⟨part :: parts, .cons hpart hparts, rfl⟩

theorem parse_append {head rest : Text} (hhead : IsIdentifier head)
    (hrest : ∀ c ∈ rest.head?, isIdentifierChar c = false) :
    parse (head ++ rest) = (stepsFrom rest.length rest).map (⟨head, ·⟩) := by
  have htake := Text.takeWhile_run hhead.isIdentifierChar hrest
  have hdrop := Text.dropWhile_run hhead.isIdentifierChar hrest
  unfold parse
  rw [htake, hdrop]
  obtain ⟨c, cs, rfl⟩ := List.exists_cons_of_ne_nil hhead.1
  rfl

/-- A key is read as a path if and only if it spells that path. -/
theorem parse_eq_ok_iff {key : Text} {p : KeyPath} : parse key = .ok p ↔ p.Spells key := by
  constructor
  · intro h
    unfold parse at h
    split at h
    · cases h
    · rename_i hhead
      obtain ⟨steps, hsteps, rfl⟩ := exists_of_map_eq_ok h
      obtain ⟨parts, hparts, hrest⟩ := exists_parts_of_stepsFrom_eq_ok hsteps
      refine ⟨isIdentifier_takeWhile hhead, parts, hparts, ?_⟩
      rw [← hrest, List.takeWhile_append_dropWhile]
  · rintro ⟨hhead, parts, hparts, rfl⟩
    rw [parse_append hhead (head?_flatten_of_spellsStep hparts),
      stepsFrom_flatten hparts (Nat.le_refl _)]
    rfl

end Config.KeyPath

end TagBalance
