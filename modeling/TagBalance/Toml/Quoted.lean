import TagBalance.Toml.Blank

/-!
The four kinds of TOML strings. Basic strings stand between double quotes and have escapes,
literal strings stand between single quotes and have none; each kind may run over several
lines between tripled quotes. A reader below starts behind the opening quotes.
-/
namespace TagBalance.Toml

def singleQuote : Char := Char.ofNat 0x27

def hexDigit? (c : Char) : Option Nat :=
  if '0' ≤ c ∧ c ≤ '9' then some (c.toNat - '0'.toNat)
  else if 'a' ≤ c ∧ c ≤ 'f' then some (c.toNat - 'a'.toNat + 10)
  else if 'A' ≤ c ∧ c ≤ 'F' then some (c.toNat - 'A'.toNat + 10)
  else none

def hexValue? (digits : Text) : Option Nat :=
  digits.foldl (fun n c => n.bind fun n => (hexDigit? c).map (16 * n + ·)) (some 0)

def codePoint? (count : Nat) (text : Text) : Option Char :=
  if (text.take count).length = count then
    (hexValue? (text.take count)).bind fun n => if n.isValidChar then some (Char.ofNat n) else none
  else none

/-- What a backslash and the text behind it stand for, and how much of that text belongs
to the escape. -/
def escape? : Text → Option (Char × Nat)
  | 'b' :: _ => some (Char.ofNat 0x08, 1)
  | 't' :: _ => some ('\t', 1)
  | 'n' :: _ => some ('\n', 1)
  | 'f' :: _ => some (Char.ofNat 0x0C, 1)
  | 'r' :: _ => some ('\r', 1)
  | '"' :: _ => some ('"', 1)
  | '\\' :: _ => some ('\\', 1)
  | 'u' :: rest => (codePoint? 4 rest).map fun c => (c, 5)
  | 'U' :: rest => (codePoint? 8 rest).map fun c => (c, 9)
  | _ => none

def isBasicChar (c : Char) : Bool := isCommentChar c && c ≠ '"' && c ≠ '\\'

def isLiteralChar (c : Char) : Bool := isCommentChar c && c ≠ singleQuote

def consRead (c : Char) (r : Option (Text × Text)) : Option (Text × Text) :=
  r.map fun p => (c :: p.1, p.2)

/-- The rest of a basic string, behind `skip` characters of an escape. -/
def basicFrom : Nat → Reader Text
  | _, [] => none
  | skip + 1, _ :: rest => basicFrom skip rest
  | 0, c :: rest =>
    if c = '"' then some ([], rest)
    else if c = '\\' then
      match escape? rest with
      | some (e, n) => consRead e (basicFrom n rest)
      | none => none
    else if isBasicChar c then consRead c (basicFrom 0 rest)
    else none

def literal : Reader Text
  | [] => none
  | c :: rest =>
    if c = singleQuote then some ([], rest)
    else if isLiteralChar c then consRead c (literal rest)
    else none

/-- The quotes that stand right before the three closing ones, at most two. -/
def closing (quote : Char) (rest : Text) : Text × Text :=
  let extra := min 2 (rest.takeWhile (· = quote)).length
  (List.replicate extra quote, rest.drop extra)

def lineFeed? : Text → Option Nat
  | '\n' :: _ => some 0
  | '\r' :: '\n' :: _ => some 1
  | _ => none

def spaceRun : Text → Nat
  | [] => 0
  | c :: rest =>
    if isBlank c || (lineFeed? (c :: rest)).isSome then spaceRun rest + 1 else 0

/-- How many characters a backslash at the end of a line takes away: the blanks up to the
line end, and all blanks and line ends that follow. -/
def joint? (text : Text) : Option Nat :=
  if (lineFeed? (skipBlanks text)).isSome then some (spaceRun text) else none

def basicLinesFrom : Nat → Reader Text
  | _, [] => none
  | skip + 1, _ :: rest => basicLinesFrom skip rest
  | 0, c :: rest =>
    if c = '"' then
      match rest with
      | '"' :: '"' :: behind => some (closing '"' behind)
      | _ => consRead c (basicLinesFrom 0 rest)
    else if c = '\\' then
      match joint? rest with
      | some n => basicLinesFrom n rest
      | none =>
        match escape? rest with
        | some (e, n) => consRead e (basicLinesFrom n rest)
        | none => none
    else
      match lineFeed? (c :: rest) with
      | some n => consRead '\n' (basicLinesFrom n rest)
      | none => if isBasicChar c then consRead c (basicLinesFrom 0 rest) else none

def literalLinesFrom : Nat → Reader Text
  | _, [] => none
  | skip + 1, _ :: rest => literalLinesFrom skip rest
  | 0, c :: rest =>
    if c = singleQuote then
      match rest with
      | q :: q' :: behind =>
        if q = singleQuote ∧ q' = singleQuote then some (closing singleQuote behind)
        else consRead c (literalLinesFrom 0 rest)
      | _ => consRead c (literalLinesFrom 0 rest)
    else
      match lineFeed? (c :: rest) with
      | some n => consRead '\n' (literalLinesFrom n rest)
      | none => if isLiteralChar c then consRead c (literalLinesFrom 0 rest) else none

def behindFirstLine : Text → Text
  | '\n' :: rest => rest
  | '\r' :: '\n' :: rest => rest
  | text => text

def lineString : Reader Text
  | [] => none
  | c :: rest =>
    if c = '"' then basicFrom 0 rest
    else if c = singleQuote then literal rest
    else none

def quoted (text : Text) : Option (Text × Text) :=
  match text with
  | q :: q' :: q'' :: rest =>
    if q = '"' ∧ q' = '"' ∧ q'' = '"' then basicLinesFrom 0 (behindFirstLine rest)
    else if q = singleQuote ∧ q' = singleQuote ∧ q'' = singleQuote then
      literalLinesFrom 0 (behindFirstLine rest)
    else lineString text
  | _ => lineString text

end TagBalance.Toml
