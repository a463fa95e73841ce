import TagBalance.Proofs.Decoding

/-!
Encoding and strict decoding undo each other, and what a file loads as follows from that. The
bounds of the second byte leave exactly those numbers that stand for a character and need all
bytes of their sequence. So the bytes of a character are read as that character, and whatever
is read as a character is the encoding of it.
-/
namespace TagBalance.Utf8

def tailByte (n : ℕ) : UInt8 := .ofNat (0x80 + n % 64)

theorem toNat_ofNat_byte {n : ℕ} (h : n < 256) : (UInt8.ofNat n).toNat = n := by
  simpa using Nat.mod_eq_of_lt h

theorem ofNat_eq_of_toNat {b : UInt8} {n : ℕ} (h : n = b.toNat) : UInt8.ofNat n = b := by
  rw [h, UInt8.ofNat_toNat]

theorem toNat_tailByte (n : ℕ) : (tailByte n).toNat = 0x80 + n % 64 :=
  toNat_ofNat_byte (by omega)

theorem tailByte_eq {b : UInt8} {n : ℕ} (h : 0x80 ≤ b.toNat) (h' : b.toNat ≤ 0xBF)
    (hn : n % 64 = b.toNat % 64) : tailByte n = b :=
  ofNat_eq_of_toNat (by omega)

section

variable {c : Char}

theorem encodeChar_one (h : c.toNat < 0x80) : encodeChar c = [.ofNat c.toNat] := by
  simp only [encodeChar, if_pos h]

theorem encodeChar_two (h : 0x80 ≤ c.toNat) (h' : c.toNat < 0x800) :
    encodeChar c = [.ofNat (0xC0 + c.toNat / 64), tailByte c.toNat] := by
  simp only [encodeChar, if_neg (Nat.not_lt_of_le h), if_pos h', tailByte]

theorem encodeChar_three (h : 0x800 ≤ c.toNat) (h' : c.toNat < 0x10000) :
    encodeChar c =
      [.ofNat (0xE0 + c.toNat / 64 / 64), tailByte (c.toNat / 64), tailByte c.toNat] := by
  have hone : ¬ c.toNat < 0x80 := by omega
  simp only [encodeChar, if_neg hone, if_neg (Nat.not_lt_of_le h), if_pos h', tailByte,
    Nat.div_div_eq_div_mul]

theorem encodeChar_four (h : 0x10000 ≤ c.toNat) :
    encodeChar c = [.ofNat (0xF0 + c.toNat / 64 / 64 / 64), tailByte (c.toNat / 64 / 64),
      tailByte (c.toNat / 64), tailByte c.toNat] := by
  have hone : ¬ c.toNat < 0x80 := by omega
  have htwo : ¬ c.toNat < 0x800 := by omega
  simp only [encodeChar, if_neg hone, if_neg htwo, if_neg (Nat.not_lt_of_le h), tailByte,
    Nat.div_div_eq_div_mul]

end

/-- The bytes of a character are those that it has in a `String`. -/
theorem encodeChar_eq_utf8EncodeChar (c : Char) : encodeChar c = String.utf8EncodeChar c := by
  have hvalid : c.toNat < 0xD800 ∨ 0xDFFF < c.toNat ∧ c.toNat < 0x110000 := c.valid
  simp only [String.utf8EncodeChar, Char.toNat_val]
  by_cases hone : c.toNat < 0x80
  · rw [encodeChar_one hone, if_pos (by omega)]
  by_cases htwo : c.toNat < 0x800
  · have hlead : c.toNat / 64 % 32 + 0xC0 = 0xC0 + c.toNat / 64 := by omega
    rw [encodeChar_two (by omega) htwo, if_neg (by omega), if_pos (by omega), hlead]
    simp only [tailByte, Nat.add_comm]
  by_cases hthree : c.toNat < 0x10000
  · have hlead : c.toNat / 4096 % 16 + 0xE0 = 0xE0 + c.toNat / 64 / 64 := by omega
    rw [encodeChar_three (by omega) hthree, if_neg (by omega), if_neg (by omega),
      if_pos (by omega), hlead]
    simp only [tailByte, Nat.add_comm]
  · have hlead : c.toNat / 262144 % 8 + 0xF0 = 0xF0 + c.toNat / 64 / 64 / 64 := by omega
    rw [encodeChar_four (by omega), if_neg (by omega), if_neg (by omega), if_neg (by omega),
      hlead]
    simp only [tailByte, Nat.add_comm, Nat.div_div_eq_div_mul, Nat.reduceMul]

theorem toByteArray_encode (s : Text) : (encode s).toByteArray = List.utf8Encode s := by
  rw [encode, List.utf8Encode, funext encodeChar_eq_utf8EncodeChar]

section

variable {b : UInt8}

theorem lead_two (h : 0xC2 ≤ b.toNat) (h' : b.toNat < 0xE0) :
    lead b = .first ⟨b.toNat - 0xC0, 0x80, 0xBF, 0⟩ := by
  have hone : ¬ b.toNat < 0x80 := by omega
  simp only [lead, if_neg hone, if_neg (Nat.not_lt_of_le h), if_pos h']

/-- The second of three bytes may be any tail byte from which on neither two bytes would do
nor a surrogate comes out. -/
theorem exists_lead_three (h : 0xE0 ≤ b.toNat) (h' : b.toNat < 0xF0) :
    ∃ least greatest, lead b = .first ⟨b.toNat - 0xE0, least, greatest, 1⟩ ∧
      ∀ n, (least ≤ n ∧ n ≤ greatest) ↔ (0x80 ≤ n ∧ n ≤ 0xBF) ∧
        0x20 ≤ 64 * (b.toNat - 0xE0) + n % 64 ∧
        (64 * (b.toNat - 0xE0) + n % 64 < 0x360 ∨ 0x380 ≤ 64 * (b.toNat - 0xE0) + n % 64) := by
  have hone : ¬ b.toNat < 0x80 := by omega
  have htail : ¬ b.toNat < 0xC2 := by omega
  simp only [lead, if_neg hone, if_neg htail, if_neg (Nat.not_lt_of_le h), if_pos h']
  split_ifs with hleast hsurrogate
  · exact ⟨0xA0, 0xBF, by rw [hleast], by omega⟩
  · exact ⟨0x80, 0x9F, by rw [hsurrogate], by omega⟩
  · exact ⟨0x80, 0xBF, rfl, by omega⟩

/-- The second of four bytes may be any tail byte from which on neither three bytes would do
nor a number above U+10FFFF comes out. -/
theorem exists_lead_four (h : 0xF0 ≤ b.toNat) (h' : b.toNat < 0xF5) :
    ∃ least greatest, lead b = .first ⟨b.toNat - 0xF0, least, greatest, 2⟩ ∧
      ∀ n, (least ≤ n ∧ n ≤ greatest) ↔ (0x80 ≤ n ∧ n ≤ 0xBF) ∧
        0x10 ≤ 64 * (b.toNat - 0xF0) + n % 64 ∧ 64 * (b.toNat - 0xF0) + n % 64 < 0x110 := by
  have hone : ¬ b.toNat < 0x80 := by omega
  have htail : ¬ b.toNat < 0xC2 := by omega
  have htwo : ¬ b.toNat < 0xE0 := by omega
  have hleast : b.toNat ≠ 0xE0 := by omega
  have hsurrogate : b.toNat ≠ 0xED := by omega
  simp only [lead, if_neg hone, if_neg htail, if_neg htwo, if_neg hleast, if_neg hsurrogate,
    if_neg (Nat.not_lt_of_le h)]
  split_ifs with hfirst hmiddle hlast
  · exact ⟨0x90, 0xBF, by rw [hfirst], by omega⟩
  · exact ⟨0x80, 0xBF, rfl, by omega⟩
  · exact ⟨0x80, 0x8F, by rw [hlast], by omega⟩
  · omega

end

theorem piecesFrom_first {b : UInt8} {p : Pending} (h : lead b = .first p) (bytes : Bytes) :
    piecesFrom none (b :: bytes) = piecesFrom (some p) bytes := by
  rw [piecesFrom, h]

section

variable {n least greatest : ℕ} (h : least ≤ 0x80 + n % 64 ∧ 0x80 + n % 64 ≤ greatest)
include h

theorem piecesFrom_next (further : ℕ) (bytes : Bytes) :
    piecesFrom (some ⟨n / 64, least, greatest, further + 1⟩) (tailByte n :: bytes) =
      piecesFrom (some ⟨n, 0x80, 0xBF, further⟩) bytes := by
  have hbits : 64 * (n / 64) + (0x80 + n % 64) % 64 = n := by omega
  rw [← toNat_tailByte] at h hbits
  rw [piecesFrom, if_pos h, Pending.extend, hbits]

theorem piecesFrom_last (bytes : Bytes) :
    piecesFrom (some ⟨n / 64, least, greatest, 0⟩) (tailByte n :: bytes) =
      some (Char.ofNat n) :: piecesFrom none bytes := by
  have hbits : 64 * (n / 64) + (0x80 + n % 64) % 64 = n := by omega
  rw [← toNat_tailByte] at h hbits
  rw [piecesFrom, if_pos h, Pending.extend, hbits]

end

/-- The bytes of a character are read as that character. -/
theorem piecesFrom_encodeChar (c : Char) (bytes : Bytes) :
    piecesFrom none (encodeChar c ++ bytes) = some c :: piecesFrom none bytes := by
  have hvalid : c.toNat < 0xD800 ∨ 0xDFFF < c.toNat ∧ c.toNat < 0x110000 := c.valid
  by_cases hone : c.toNat < 0x80
  · have hb : (UInt8.ofNat c.toNat).toNat = c.toNat := toNat_ofNat_byte (by omega)
    have hlead : lead (.ofNat c.toNat) = .whole (Char.ofNat c.toNat) := by
      simp only [lead, hb, if_pos hone]
    rw [encodeChar_one hone, List.singleton_append, piecesFrom, hlead, Char.ofNat_toNat]
  by_cases htwo : c.toNat < 0x800
  · have hb : (UInt8.ofNat (0xC0 + c.toNat / 64)).toNat = 0xC0 + c.toNat / 64 :=
      toNat_ofNat_byte (by omega)
    have hlead := lead_two (b := .ofNat (0xC0 + c.toNat / 64)) (by omega) (by omega)
    rw [hb, Nat.add_sub_cancel_left] at hlead
    rw [encodeChar_two (by omega) htwo, List.cons_append, List.singleton_append,
      piecesFrom_first hlead, piecesFrom_last (by omega), Char.ofNat_toNat]
  by_cases hthree : c.toNat < 0x10000
  · have hb : (UInt8.ofNat (0xE0 + c.toNat / 64 / 64)).toNat = 0xE0 + c.toNat / 64 / 64 :=
      toNat_ofNat_byte (by omega)
    obtain ⟨least, greatest, hlead, hbounds⟩ :=
      exists_lead_three (b := .ofNat (0xE0 + c.toNat / 64 / 64)) (by omega) (by omega)
    rw [hb, Nat.add_sub_cancel_left] at hlead hbounds
    rw [encodeChar_three (by omega) hthree, List.cons_append, List.cons_append,
      List.singleton_append, piecesFrom_first hlead,
      piecesFrom_next ((hbounds _).mpr (by omega)), piecesFrom_last (by omega), Char.ofNat_toNat]
  · have hb : (UInt8.ofNat (0xF0 + c.toNat / 64 / 64 / 64)).toNat =
        0xF0 + c.toNat / 64 / 64 / 64 := toNat_ofNat_byte (by omega)
    obtain ⟨least, greatest, hlead, hbounds⟩ :=
      exists_lead_four (b := .ofNat (0xF0 + c.toNat / 64 / 64 / 64)) (by omega) (by omega)
    rw [hb, Nat.add_sub_cancel_left] at hlead hbounds
    rw [encodeChar_four (by omega), List.cons_append, List.cons_append, List.cons_append,
      List.singleton_append, piecesFrom_first hlead,
      piecesFrom_next ((hbounds _).mpr (by omega)), piecesFrom_next (by omega),
      piecesFrom_last (by omega), Char.ofNat_toNat]

theorem pieces_encode (s : Text) : pieces (encode s) = s.map some := by
  induction s with
  | nil => rfl
  | cons c s ih =>
    rw [pieces, encode, List.flatMap_cons, piecesFrom_encodeChar]
    exact congrArg (some c :: ·) ih

/-- Whatever so many tail bytes come behind the given bytes, all of them together encode the
character of the number that they complete. -/
def Spells : ℕ → ℕ → Bytes → Prop
  | 0, n, front => encodeChar (Char.ofNat n) = front
  | k + 1, n, front => ∀ b : UInt8, 0x80 ≤ b.toNat → b.toNat ≤ 0xBF →
      Spells k (64 * n + b.toNat % 64) (front ++ [b])

def Pending.BeginsWith (p : Pending) (front : Bytes) : Prop :=
  ∀ b : UInt8, p.least ≤ b.toNat → b.toNat ≤ p.greatest →
    Spells p.further (64 * p.bits + b.toNat % 64) (front ++ [b])

theorem beginsWith_of_lead {b : UInt8} {p : Pending} (h : lead b = .first p) :
    p.BeginsWith [b] := by
  have hb : 0xC2 ≤ b.toNat ∧ b.toNat < 0xF5 := by grind [lead]
  intro b₁ hleast hgreatest
  by_cases htwo : b.toNat < 0xE0
  · obtain rfl := Lead.first.inj ((lead_two hb.1 htwo).symm.trans h)
    generalize hn : 64 * (b.toNat - 0xC0) + b₁.toNat % 64 = n
    have hc : (Char.ofNat n).toNat = n := toNat_ofNat (Or.inl (by omega))
    change encodeChar (Char.ofNat n) = [b, b₁]
    rw [encodeChar_two (by omega) (by omega), hc, ofNat_eq_of_toNat (b := b) (by omega),
      tailByte_eq hleast hgreatest (by omega)]
  by_cases hthree : b.toNat < 0xF0
  · obtain ⟨least, greatest, hlead, hbounds⟩ := exists_lead_three (Nat.le_of_not_lt htwo) hthree
    obtain rfl := Lead.first.inj (hlead.symm.trans h)
    obtain ⟨htail, hnumber⟩ := (hbounds b₁.toNat).mp ⟨hleast, hgreatest⟩
    intro b₂ h₂ h₂'
    generalize hn : 64 * (64 * (b.toNat - 0xE0) + b₁.toNat % 64) + b₂.toNat % 64 = n
    have hvalid : n.isValidChar := by
      rw [Nat.isValidChar]
      omega
    have hc : (Char.ofNat n).toNat = n := toNat_ofNat hvalid
    change encodeChar (Char.ofNat n) = [b, b₁, b₂]
    rw [encodeChar_three (by omega) (by omega), hc, ofNat_eq_of_toNat (b := b) (by omega),
      tailByte_eq htail.1 htail.2 (by omega), tailByte_eq h₂ h₂' (by omega)]
  · obtain ⟨least, greatest, hlead, hbounds⟩ := exists_lead_four (Nat.le_of_not_lt hthree) hb.2
    obtain rfl := Lead.first.inj (hlead.symm.trans h)
    obtain ⟨htail, hnumber⟩ := (hbounds b₁.toNat).mp ⟨hleast, hgreatest⟩
    intro b₂ h₂ h₂' b₃ h₃ h₃'
    generalize hn : 64 * (64 * (64 * (b.toNat - 0xF0) + b₁.toNat % 64) + b₂.toNat % 64) +
      b₃.toNat % 64 = n
    have hc : (Char.ofNat n).toNat = n := toNat_ofNat (Or.inr (by omega))
    change encodeChar (Char.ofNat n) = [b, b₁, b₂, b₃]
    rw [encodeChar_four (by omega), hc, ofNat_eq_of_toNat (b := b) (by omega),
      tailByte_eq htail.1 htail.2 (by omega), tailByte_eq h₂ h₂' (by omega),
      tailByte_eq h₃ h₃' (by omega)]

def Begun : Option Pending → Bytes → Prop
  | none, front => front = []
  | some p, front => p.BeginsWith front

theorem encodeChar_of_lead {b : UInt8} {c : Char} (h : lead b = .whole c) :
    encodeChar c = [b] := by
  rcases lead_spec b with ⟨hascii, hlead⟩ | ⟨-, hlead | ⟨p, hlead, -⟩⟩
  · obtain rfl := Lead.whole.inj (hlead.symm.trans h)
    have hc : (Char.ofNat b.toNat).toNat = b.toNat := toNat_ofNat (Or.inl (by omega))
    rw [encodeChar_one (by omega), hc, UInt8.ofNat_toNat]
  · simp [hlead] at h
  · simp [hlead] at h

theorem none_cons_ne_map_some (ps : List (Option Char)) (s : Text) :
    none :: ps ≠ s.map some := by
  cases s <;> simp

theorem exists_of_cons_eq_map_some {c : Char} {ps : List (Option Char)} {s : Text}
    (h : some c :: ps = s.map some) : ∃ t, s = c :: t ∧ ps = t.map some := by
  obtain ⟨c', t, rfl, hc, ht⟩ := List.map_eq_cons_iff.mp h.symm
  exact ⟨t, by rw [Option.some.inj hc], ht.symm⟩

/-- Where no piece is blank, the bytes are the encoding of the text. The bytes `front` belong
to the sequence that was begun before. -/
theorem append_eq_encode {pending : Option Pending} {front bytes : Bytes} {s : Text}
    (h : Begun pending front) (hs : piecesFrom pending bytes = s.map some) :
    front ++ bytes = encode s := by
  induction bytes generalizing pending front s with
  | nil =>
    cases pending with
    | none =>
      obtain rfl : front = [] := h
      obtain rfl : s = [] := List.map_eq_nil_iff.mp hs.symm
      rfl
    | some p => exact absurd hs (none_cons_ne_map_some [] s)
  | cons b bytes ih =>
    cases pending with
    | none =>
      obtain rfl : front = [] := h
      rw [piecesFrom] at hs
      cases hlead : lead b with
      | whole c =>
        rw [hlead] at hs
        obtain ⟨s, rfl, hrest⟩ := exists_of_cons_eq_map_some hs
        rw [encode, List.flatMap_cons, encodeChar_of_lead hlead]
        exact congrArg (b :: ·) (@ih none [] s rfl hrest)
      | first p =>
        rw [hlead] at hs
        exact @ih (some p) [b] s (beginsWith_of_lead hlead) hs
      | invalid =>
        rw [hlead] at hs
        exact absurd hs (none_cons_ne_map_some _ s)
    | some p =>
      by_cases hb : p.least ≤ b.toNat ∧ b.toNat ≤ p.greatest
      · -- The byte completes the sequence, or belongs to what it has begun with.
        have hspells := h b hb.1 hb.2
        obtain ⟨bits, least, greatest, further⟩ := p
        rw [piecesFrom, if_pos hb] at hs
        cases further with
        | zero =>
          obtain ⟨s, rfl, hrest⟩ := exists_of_cons_eq_map_some hs
          change encodeChar (Char.ofNat (64 * bits + b.toNat % 64)) = front ++ [b] at hspells
          rw [encode, List.flatMap_cons, hspells, List.append_cons]
          exact congrArg (front ++ [b] ++ ·) (@ih none [] s rfl hrest)
        | succ k =>
          rw [List.append_cons]
          exact @ih (some ⟨64 * bits + b.toNat % 64, 0x80, 0xBF, k⟩) _ s hspells hs
      · rw [piecesFrom_broken hb] at hs
        exact absurd hs (none_cons_ne_map_some _ s)

theorem decode?_eq_some_iff {bytes : Bytes} {s : Text} :
    decode? bytes = some s ↔ encode s = bytes := by
  rw [decode?_eq_some_iff_pieces]
  constructor
  · intro h
    exact (@append_eq_encode none [] bytes s rfl h).symm
  · rintro rfl
    exact pieces_encode s

/-- The strict reader takes the bytes that a string can consist of, and no others. -/
theorem isSome_decode?_iff_isValidUTF8 (bytes : Bytes) :
    (decode? bytes).isSome ↔ bytes.toByteArray.IsValidUTF8 := by
  rw [Option.isSome_iff_exists]
  constructor
  · rintro ⟨s, hs⟩
    exact ⟨s, by rw [← decode?_eq_some_iff.mp hs, toByteArray_encode]⟩
  · rintro ⟨s, hs⟩
    rw [← toByteArray_encode, List.toByteArray_inj] at hs
    exact ⟨s, decode?_eq_some_iff.mpr hs.symm⟩

/-- Only of well-formed bytes does the lenient reader lose nothing. -/
theorem encode_decodeLossy_ne_iff {bytes : Bytes} :
    encode (decodeLossy bytes) ≠ bytes ↔ decode? bytes = none := by
  constructor
  · intro hne
    cases h : decode? bytes with
    | none => rfl
    | some s =>
      obtain rfl := eq_decodeLossy_of_decode? h
      exact absurd (decode?_eq_some_iff.mp h) hne
  · intro hnone heq
    rw [decode?_eq_some_iff.mpr heq] at hnone
    exact Option.some_ne_none _ hnone

theorem replacement_mem_decodeLossy {bytes : Bytes} (h : decode? bytes = none) :
    replacement ∈ decodeLossy bytes := by
  have hblank : none ∈ pieces bytes := by
    unfold decode? at h
    split_ifs at h with hall
    simpa using hall
  exact List.mem_map.mpr ⟨none, hblank, rfl⟩

end TagBalance.Utf8

namespace TagBalance.Source

open Utf8

theorem invalidUtf8_mem_events_ofBytes_iff (path : Text) (content : Bytes) :
    .invalidUtf8 path ∈ (ofBytes path content).events ↔ decode? content = none := by
  unfold ofBytes
  cases decode? content <;>
    simp [Logged.events_bind, Logged.events_pure, Logged.noting]

/-- A file that can be read always loads. The warning is given exactly where the loaded text
does not encode to the content again, and then the text has a mark of replacement in it. What
a text encodes to is loaded as that text, marks of replacement included, without a warning. -/
theorem load_and_invalidUtf8_mem_iff (tree : FileTree) (path : Text) (content : Bytes)
    (hread : tree.read path = .ok content) :
    ∃ source, Source.load tree path = .ok source ∧
      (.invalidUtf8 path ∈ source.events ↔ encode source.value ≠ content) ∧
      (∀ s, content = encode s → source.value = s ∧ .invalidUtf8 path ∉ source.events) ∧
      (.invalidUtf8 path ∈ source.events → replacement ∈ source.value) := by
  have hvalue := value_ofBytes path content
  have hevents := invalidUtf8_mem_events_ofBytes_iff path content
  refine ⟨ofBytes path content, ?_, ?_, ?_, ?_⟩
  · rw [load, hread, ofReading]
  · rw [hevents, hvalue, encode_decodeLossy_ne_iff]
  · intro s hs
    have hdecode : decode? content = some s := decode?_eq_some_iff.mpr hs.symm
    rw [hevents, hvalue, ← eq_decodeLossy_of_decode? hdecode, hdecode]
    exact ⟨rfl, Option.some_ne_none s⟩
  · rw [hevents, hvalue]
    exact replacement_mem_decodeLossy

def markedText : Text := "\uFEFF<é€😀\uFFFD>".toList

def brokenOff : Bytes := [0x3C, 0x70, 0xF0, 0x9F]

def twoFiles : FileTree :=
  [("whole".toList, .file (encode markedText)), ("broken".toList, .file brokenOff)]

theorem load_markedText_and_brokenOff :
    twoFiles.read "whole".toList = .ok (encode markedText) ∧
      twoFiles.read "broken".toList = .ok brokenOff ∧
      (∃ source, Source.load twoFiles "whole".toList = .ok source ∧
        source.value = markedText ∧ .invalidUtf8 "whole".toList ∉ source.events) ∧
      ∃ source, Source.load twoFiles "broken".toList = .ok source ∧
        .invalidUtf8 "broken".toList ∈ source.events ∧ replacement ∈ source.value := by
  have hwhole : twoFiles.read "whole".toList = .ok (encode markedText) := by rfl
  have hbroken : twoFiles.read "broken".toList = .ok brokenOff := by rfl
  obtain ⟨source, hload, -, hexact, -⟩ := load_and_invalidUtf8_mem_iff _ _ _ hwhole
  obtain ⟨source', hload', hwarning, -, hmark⟩ := load_and_invalidUtf8_mem_iff _ _ _ hbroken
  have hnotEncoded : encode source'.value ≠ brokenOff := by
    rw [load, hbroken] at hload'
    obtain rfl := Except.ok.inj hload'
    decide
  have hwarned := hwarning.mpr hnotEncoded
  exact ⟨hwhole, hbroken, ⟨source, hload, hexact markedText rfl⟩,
    source', hload', hwarned, hmark hwarned⟩

end TagBalance.Source
