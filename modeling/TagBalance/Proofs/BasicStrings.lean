import TagBalance.Toml.Quoted
import Mathlib.Data.Nat.Init
import Mathlib.Tactic.SplitIfs

/-!
Basic strings as they are written: quotes and backslashes behind a backslash, control
characters by four hexadecimal digits, all else as it is. Any text can be written so on one
line, and what is written is read back, whatever stands behind it.
-/
namespace TagBalance.Toml

def isControl (c : Char) : Bool := c.toNat < 0x20 || c.toNat = 0x7F

def hexChar (capitals : Bool) (n : Nat) : Char :=
  if capitals then (Nat.digitChar n).toUpper else Nat.digitChar n

def controlDigits (capitals : Bool) (c : Char) : Text :=
  ['0', '0', hexChar capitals (c.toNat / 16), hexChar capitals (c.toNat % 16)]

def writeChar (capitals : Bool) (c : Char) : Text :=
  if c = '"' ∨ c = '\\' then ['\\', c]
  else if isControl c then '\\' :: 'u' :: controlDigits capitals c
  else [c]

def writeBasic (capitals : Bool) (s : Text) : Text :=
  '"' :: s.flatMap (writeChar capitals) ++ ['"']

variable {capitals : Bool}

theorem hexDigit?_hexChar : ∀ n < 16, hexDigit? (hexChar capitals n) = some n := by
  cases capitals <;> decide

/-- The digits of a control character give it back. -/
theorem codePoint?_controlDigits {c : Char} (hc : isControl c) (rest : Text) :
    codePoint? 4 (controlDigits capitals c ++ rest) = some c := by
  have hbound : c.toNat < 128 := by
    simp only [isControl, Bool.or_eq_true, decide_eq_true_eq] at hc
    omega
  have hhigh := @hexDigit?_hexChar capitals (c.toNat / 16) (by omega)
  have hlow := @hexDigit?_hexChar capitals (c.toNat % 16) (by omega)
  have hvalue : hexValue? (controlDigits capitals c) = some c.toNat := by
    simp only [hexValue?, controlDigits, List.foldl_cons, List.foldl_nil, hhigh, hlow]
    change some (16 * (16 * 0 + c.toNat / 16) + c.toNat % 16) = some c.toNat
    congr 1
    omega
  have htake : (controlDigits capitals c ++ rest).take 4 = controlDigits capitals c := rfl
  have hvalid : c.toNat.isValidChar := Or.inl (by omega)
  rw [codePoint?, htake, hvalue, Option.bind_some, if_pos hvalid, Char.ofNat_toNat]
  rfl

theorem basicFrom_escape {text : Text} {c : Char} {n : Nat} (h : escape? text = some (c, n)) :
    basicFrom 0 ('\\' :: text) = consRead c (basicFrom n text) := by
  rw [basicFrom, if_neg (by decide), if_pos rfl, h]

/-- One written character is read as a whole, whatever stands behind it. -/
theorem basicFrom_writeChar (c : Char) (rest : Text) :
    basicFrom 0 (writeChar capitals c ++ rest) = consRead c (basicFrom 0 rest) := by
  by_cases hescape : c = '"' ∨ c = '\\'
  · rw [writeChar, if_pos hescape]
    rcases hescape with rfl | rfl <;> rfl
  · rw [writeChar, if_neg hescape]
    obtain ⟨hquote, hbackslash⟩ := not_or.mp hescape
    by_cases hcontrol : isControl c
    · rw [if_pos hcontrol]
      have hread : escape? ('u' :: controlDigits capitals c ++ rest) = some (c, 5) := by
        change (codePoint? 4 (controlDigits capitals c ++ rest)).map (fun c => (c, 5)) = _
        rw [codePoint?_controlDigits hcontrol, Option.map_some]
      exact basicFrom_escape hread
    · have hbasic : isBasicChar c := by
        simp only [isControl, isBasicChar, isCommentChar, Bool.or_eq_true, Bool.and_eq_true,
          decide_eq_true_eq] at hcontrol ⊢
        exact ⟨⟨Or.inr (by omega), hquote⟩, hbackslash⟩
      rw [if_neg hcontrol, List.singleton_append, basicFrom, if_neg hquote, if_neg hbackslash,
        if_pos hbasic]

theorem basicFrom_flatMap_writeChar (s rest : Text) :
    basicFrom 0 (s.flatMap (writeChar capitals) ++ '"' :: rest) = some (s, rest) := by
  induction s with
  | nil => rfl
  | cons c s ih =>
    rw [List.flatMap_cons, List.append_assoc, basicFrom_writeChar, ih]
    rfl

/-- A quote with no two others behind it opens a string on one line. -/
theorem quoted_eq_lineString {text : Text} (h : ¬ ['"', '"'] <+: text) :
    quoted ('"' :: text) = lineString ('"' :: text) := by
  match text with
  | [] => rfl
  | [_] => rfl
  | c :: d :: rest =>
    have htriple : ¬ ('"' = '"' ∧ c = '"' ∧ d = '"') := by
      rintro ⟨-, rfl, rfl⟩
      exact h ⟨rest, rfl⟩
    have hliteral : ¬ ('"' = singleQuote ∧ c = singleQuote ∧ d = singleQuote) := by
      rintro ⟨hquote, -⟩
      exact absurd hquote (by decide)
    rw [quoted, if_neg htriple, if_neg hliteral]

theorem head?_writeChar_ne (c : Char) (rest : Text) :
    (writeChar capitals c ++ rest).head? ≠ some '"' := by
  rw [writeChar]
  split_ifs with hescape
  · simp
  · simp
  · simpa using (not_or.mp hescape).1

/-- Behind a written string anything may stand but one more quote. -/
theorem quoted_writeBasic (s : Text) {rest : Text} (hrest : rest.head? ≠ some '"') :
    quoted (writeBasic capitals s ++ rest) = some (s, rest) := by
  have htext : writeBasic capitals s ++ rest =
      '"' :: (s.flatMap (writeChar capitals) ++ '"' :: rest) := by
    rw [writeBasic, List.append_assoc, List.singleton_append, List.cons_append]
  have hopen : ¬ ['"', '"'] <+: s.flatMap (writeChar capitals) ++ '"' :: rest := by
    rintro ⟨tail, htail⟩
    cases s with
    | nil =>
      rw [List.flatMap_nil, List.nil_append] at htail
      exact hrest (by rw [← (List.cons.inj htail).2]; rfl)
    | cons c s =>
      rw [List.flatMap_cons, List.append_assoc] at htail
      exact head?_writeChar_ne c _ (by rw [← htail]; rfl)
  rw [htext, quoted_eq_lineString hopen]
  exact basicFrom_flatMap_writeChar s rest

end TagBalance.Toml
