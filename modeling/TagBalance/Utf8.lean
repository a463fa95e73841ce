import TagBalance.Text

/-!
UTF-8 in both directions. Reading runs over the bytes once and cuts them into pieces: a
well-formed sequence gives its character, and each longest part of a sequence that cannot
be completed gives one blank piece. The strict reader refuses a blank piece, the lenient
one puts U+FFFD in its place.
-/
namespace TagBalance.Utf8

abbrev Bytes := List UInt8

def encodeChar (c : Char) : Bytes :=
  let n := c.toNat
  if n < 0x80 then
    [.ofNat n]
  else if n < 0x800 then
    [.ofNat (0xC0 + n / 64), .ofNat (0x80 + n % 64)]
  else if n < 0x10000 then
    [.ofNat (0xE0 + n / 4096), .ofNat (0x80 + n / 64 % 64), .ofNat (0x80 + n % 64)]
  else
    [.ofNat (0xF0 + n / 262144), .ofNat (0x80 + n / 4096 % 64), .ofNat (0x80 + n / 64 % 64),
      .ofNat (0x80 + n % 64)]

def encode (s : Text) : Bytes := s.flatMap encodeChar

def sizeChar (c : Char) : Nat :=
  let n := c.toNat
  if n < 0x80 then 1 else if n < 0x800 then 2 else if n < 0x10000 then 3 else 4

def size (s : Text) : Nat := s.foldl (fun n c => n + sizeChar c) 0

/-- A sequence that has begun: the bits read so far, the bounds of the next byte, and how
many bytes follow that one. -/
structure Pending where
  bits : Nat
  least : Nat
  greatest : Nat
  further : Nat
  deriving DecidableEq

inductive Lead where
  | whole (c : Char)
  | first (p : Pending)
  | invalid
  deriving DecidableEq

/-- The bounds of the second byte leave out overlong forms, surrogates and all that lies
above U+10FFFF. -/
def lead (b : UInt8) : Lead :=
  let n := b.toNat
  if n < 0x80 then .whole (Char.ofNat n)
  else if n < 0xC2 then .invalid
  else if n < 0xE0 then .first ⟨n - 0xC0, 0x80, 0xBF, 0⟩
  else if n = 0xE0 then .first ⟨0, 0xA0, 0xBF, 1⟩
  else if n = 0xED then .first ⟨0xD, 0x80, 0x9F, 1⟩
  else if n < 0xF0 then .first ⟨n - 0xE0, 0x80, 0xBF, 1⟩
  else if n = 0xF0 then .first ⟨0, 0x90, 0xBF, 2⟩
  else if n < 0xF4 then .first ⟨n - 0xF0, 0x80, 0xBF, 2⟩
  else if n = 0xF4 then .first ⟨4, 0x80, 0x8F, 2⟩
  else .invalid

def Pending.extend (p : Pending) (b : UInt8) : Pending ⊕ Char :=
  let bits := 64 * p.bits + b.toNat % 64
  match p.further with
  | 0 => .inr (Char.ofNat bits)
  | k + 1 => .inl ⟨bits, 0x80, 0xBF, k⟩

/-- The pieces of the bytes, where `pending` is a sequence begun before them. -/
def piecesFrom (pending : Option Pending) : Bytes → List (Option Char)
  | [] => if pending.isSome then [none] else []
  | b :: bs =>
    match pending with
    | some p =>
      if p.least ≤ b.toNat ∧ b.toNat ≤ p.greatest then
        match p.extend b with
        | .inl q => piecesFrom (some q) bs
        | .inr c => some c :: piecesFrom none bs
      else
        match lead b with
        | .whole c => none :: some c :: piecesFrom none bs
        | .first q => none :: piecesFrom (some q) bs
        | .invalid => none :: none :: piecesFrom none bs
    | none =>
      match lead b with
      | .whole c => some c :: piecesFrom none bs
      | .first q => piecesFrom (some q) bs
      | .invalid => none :: piecesFrom none bs

def pieces (bytes : Bytes) : List (Option Char) := piecesFrom none bytes

def replacement : Char := '\uFFFD'

def decode? (bytes : Bytes) : Option Text :=
  if (pieces bytes).all Option.isSome then some ((pieces bytes).filterMap id) else none

def decodeLossy (bytes : Bytes) : Text := (pieces bytes).map (·.getD replacement)

end TagBalance.Utf8
