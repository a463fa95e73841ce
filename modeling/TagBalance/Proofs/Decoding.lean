import TagBalance.Proofs.Skeleton
import TagBalance.Source
import Mathlib.Data.List.Forall2
import Mathlib.Tactic.SplitIfs

/-!
Lenient decoding next to the simplest decoding of all, which takes each byte for the character
of the same number. A byte below 0x80 is never part of a longer sequence, and what the other
bytes come to is never ASCII, be it one character or a mark of replacement. So the two texts
have the same ASCII characters with the same gaps between them, and the same tags.
-/
namespace TagBalance.Utf8

open Scan

def latin (bytes : Bytes) : Text := bytes.map fun b => Char.ofNat b.toNat

/-- Whatever so many further tail bytes make of the bits is a character outside ASCII. -/
def CompletesForeign : Nat → Nat → Prop
  | 0, bits => bits.isValidChar ∧ 0x80 ≤ bits
  | k + 1, bits => ∀ d < 64, CompletesForeign k (64 * bits + d)

structure Pending.IsSound (p : Pending) : Prop where
  least_le : 0x80 ≤ p.least
  le_greatest : p.greatest ≤ 0xBF
  completes : ∀ b : Nat, p.least ≤ b → b ≤ p.greatest →
    CompletesForeign p.further (64 * p.bits + b % 64)

/-- The text stands for the bytes of the sequence that has begun, if there is one. -/
def StandsFor : Option Pending → Text → Prop
  | none, g => g = []
  | some p, g => p.IsSound ∧ IsGap g

theorem toNat_ofNat {n : ℕ} (h : n.isValidChar) : (Char.ofNat n).toNat = n := by
  rw [Char.ofNat, dif_pos h]
  rfl

theorem isAscii_ofNat_byte_iff {b : UInt8} : IsAscii (Char.ofNat b.toNat) ↔ b.toNat < 0x80 := by
  have hb := b.toNat_lt_size
  have hvalid : b.toNat.isValidChar := by
    rw [UInt8.size] at hb
    exact Or.inl (by omega)
  rw [IsAscii, toNat_ofNat hvalid]

theorem isGap_byte {b : UInt8} (h : 0x80 ≤ b.toNat) : IsGap [Char.ofNat b.toNat] :=
  isGap_singleton (mt isAscii_ofNat_byte_iff.mp (Nat.not_lt_of_le h))

theorem isGap_replacement : IsGap [replacement] := isGap_singleton (by decide)

theorem latin_cons (b : UInt8) (bytes : Bytes) :
    latin (b :: bytes) = Char.ofNat b.toNat :: latin bytes := rfl

/-- The bounds of the second byte are chosen so that nothing overlong and no surrogate comes
out, whatever the tail bytes are. -/
theorem isSound_of_lead {b : UInt8} {p : Pending} (h : lead b = .first p) : p.IsSound := by
  simp only [lead] at h
  split_ifs at h
  all_goals
    obtain rfl := Lead.first.inj h
    refine ⟨by simp, by simp, ?_⟩
    simp only [CompletesForeign, Nat.isValidChar]
    omega

/-- What a byte can say at the start of a sequence. -/
theorem lead_spec (b : UInt8) :
    (b.toNat < 0x80 ∧ lead b = .whole (Char.ofNat b.toNat)) ∨
      0x80 ≤ b.toNat ∧ (lead b = .invalid ∨ ∃ p, lead b = .first p ∧ p.IsSound) := by
  by_cases hascii : b.toNat < 0x80
  · exact Or.inl ⟨hascii, by simp only [lead, if_pos hascii]⟩
  · refine Or.inr ⟨Nat.le_of_not_lt hascii, ?_⟩
    cases hb : lead b with
    | invalid => exact Or.inl rfl
    | first p => exact Or.inr ⟨p, rfl, isSound_of_lead hb⟩
    | whole c =>
      simp only [lead, if_neg hascii] at hb
      split_ifs at hb

theorem extend_spec {p : Pending} (hp : p.IsSound) {b : UInt8} (hleast : p.least ≤ b.toNat)
    (hgreatest : b.toNat ≤ p.greatest) :
    (∃ q, p.extend b = .inl q ∧ q.IsSound) ∨ ∃ c, p.extend b = .inr c ∧ ¬ IsAscii c := by
  obtain ⟨bits, least, greatest, further⟩ := p
  have hcompletes := hp.completes b.toNat hleast hgreatest
  cases further with
  | zero =>
    refine Or.inr ⟨_, rfl, ?_⟩
    rw [IsAscii, toNat_ofNat hcompletes.1]
    exact Nat.not_lt_of_le hcompletes.2
  | succ k =>
    refine Or.inl ⟨_, rfl, Nat.le_refl _, Nat.le_refl _, ?_⟩
    intro d _ _
    exact hcompletes (d % 64) (Nat.mod_lt d (by decide))

theorem piecesFrom_broken {p : Pending} {b : UInt8}
    (h : ¬ (p.least ≤ b.toNat ∧ b.toNat ≤ p.greatest)) (bytes : Bytes) :
    piecesFrom (some p) (b :: bytes) = none :: piecesFrom none (b :: bytes) := by
  rw [piecesFrom, if_neg h, piecesFrom]
  cases lead b <;> rfl

def filled (ps : List (Option Char)) : Text := ps.map (·.getD replacement)

/-- The text `g` belongs to the bytes of the sequence that was begun before. -/
theorem sameAscii_piecesFrom {pending : Option Pending} {g : Text} (h : StandsFor pending g)
    (bytes : Bytes) : SameAscii (filled (piecesFrom pending bytes)) (g ++ latin bytes) := by
  induction bytes generalizing pending g with
  | nil =>
    cases pending with
    | none =>
      obtain rfl : g = [] := h
      exact .nil
    | some p => exact .gap (s := []) isGap_replacement h.2 .nil
  | cons b bytes ih =>
    have hfresh : SameAscii (filled (piecesFrom none (b :: bytes))) (latin (b :: bytes)) := by
      have hrest := @ih none [] rfl
      rw [piecesFrom, latin_cons]
      rcases lead_spec b with ⟨hascii, hlead⟩ | ⟨hforeign, hlead | ⟨p, hlead, hp⟩⟩
      · rw [hlead]
        exact .ascii (isAscii_ofNat_byte_iff.mpr hascii) hrest
      · rw [hlead]
        exact .gap isGap_replacement (isGap_byte hforeign) hrest
      · rw [hlead]
        exact @ih (some p) [Char.ofNat b.toNat] ⟨hp, isGap_byte hforeign⟩
    cases pending with
    | none =>
      obtain rfl : g = [] := h
      exact hfresh
    | some p =>
      obtain ⟨hp, hg⟩ := h
      by_cases hb : p.least ≤ b.toNat ∧ b.toNat ≤ p.greatest
      · -- The byte goes on with the sequence, so it belongs to the gap as well.
        have hgap := hg.append (isGap_byte (hp.least_le.trans hb.1))
        rw [piecesFrom, if_pos hb, latin_cons, List.append_cons]
        rcases extend_spec hp hb.1 hb.2 with ⟨q, hq, hsound⟩ | ⟨c, hc, hchar⟩
        · rw [hq]
          exact ih ⟨hsound, hgap⟩
        · rw [hc]
          exact .gap (isGap_singleton hchar) hgap (@ih none [] rfl)
      · rw [piecesFrom_broken hb]
        exact .gap isGap_replacement hg hfresh

theorem sameAscii_decodeLossy (bytes : Bytes) : SameAscii (decodeLossy bytes) (latin bytes) :=
  @sameAscii_piecesFrom none [] rfl bytes

/-- The strict reader takes the bytes exactly if no piece of them is blank. -/
theorem decode?_eq_some_iff_pieces {bytes : Bytes} {s : Text} :
    decode? bytes = some s ↔ pieces bytes = s.map some := by
  unfold decode?
  generalize pieces bytes = ps
  constructor
  · intro h
    split_ifs at h with hall
    rw [← Option.some.inj h]
    clear h
    induction ps with
    | nil => rfl
    | cons p ps ih =>
      rw [List.all_cons, Bool.and_eq_true] at hall
      obtain ⟨c, rfl⟩ := Option.isSome_iff_exists.mp hall.1
      exact congrArg (some c :: ·) (ih hall.2)
  · rintro rfl
    simp

/-- Where all bytes are well formed both readers give the same text. -/
theorem eq_decodeLossy_of_decode? {bytes : Bytes} {s : Text} (h : decode? bytes = some s) :
    s = decodeLossy bytes := by
  rw [decodeLossy, decode?_eq_some_iff_pieces.mp h, List.map_map]
  exact (List.map_id s).symm

end TagBalance.Utf8

namespace TagBalance

open Scan Utf8

theorem Source.value_ofBytes (path : Text) (content : Bytes) :
    (Source.ofBytes path content).value = decodeLossy content := by
  unfold Source.ofBytes
  cases h : decode? content with
  | none => rfl
  | some s => exact eq_decodeLossy_of_decode? h

/-- The bytes agree below 0x80, and the others stand at the same places in both lists. -/
def AgreeBelow (bytes bytes' : Bytes) : Prop :=
  List.Forall₂ (fun b b' : UInt8 => b = b' ∨ 0x80 ≤ b.toNat ∧ 0x80 ≤ b'.toNat) bytes bytes'

theorem AgreeBelow.sameAscii {bytes bytes' : Bytes} (h : AgreeBelow bytes bytes') :
    SameAscii (latin bytes) (latin bytes') := by
  unfold AgreeBelow at h
  induction h with
  | nil => exact .nil
  | @cons b b' bytes bytes' hb _ ih =>
    by_cases hascii : b.toNat < 0x80
    · obtain rfl : b = b' := by
        rcases hb with hb | hb
        · exact hb
        · omega
      exact .ascii (isAscii_ofNat_byte_iff.mpr hascii) ih
    · have hascii' : ¬ b'.toNat < 0x80 := by
        rcases hb with rfl | hb
        · exact hascii
        · omega
      exact .gap (isGap_byte (Nat.le_of_not_lt hascii)) (isGap_byte (Nat.le_of_not_lt hascii')) ih

namespace AllowList

/-- For names of ASCII, the tags of a file that can be read and the reports on them are those
of the text in which each byte is the character of its own number. Neither depends on which
bytes from 0x80 on the file has, well formed or not. -/
theorem tags_load_eq_tags_latin (l : AllowList) (hl : ∀ n ∈ l.names, ∀ c ∈ n, IsAscii c)
    (tree : FileTree) (path : Text) (content : Bytes) (hread : tree.read path = .ok content) :
    ∃ source, Source.load tree path = .ok source ∧
      l.tags source.value = l.tags (latin content) ∧
      l.check source.value = l.check (latin content) ∧
      ∀ path' content', AgreeBelow content content' →
        l.tags (Source.ofBytes path' content').value = l.tags source.value ∧
          l.check (Source.ofBytes path' content').value = l.check source.value := by
  have hlatin : ∀ path content,
      l.tags (Source.ofBytes path content).value = l.tags (latin content) := by
    intro path content
    rw [Source.value_ofBytes]
    exact (sameAscii_decodeLossy content).tagsFrom_eq hl
  refine ⟨Source.ofBytes path content, ?_, hlatin path content, ?_, ?_⟩
  · rw [Source.load, hread, Source.ofReading]
  · rw [check, check, hlatin]
  · intro path' content' h
    have htags : l.tags (Source.ofBytes path' content').value =
        l.tags (Source.ofBytes path content).value := by
      rw [hlatin, hlatin]
      exact (h.sameAscii.tagsFrom_eq hl).symm
    exact ⟨htags, by rw [check, check, htags]⟩

def brokenBytes : Bytes :=
  [0xF0, 0x9F, 0x98] ++ encode "<div".toList ++ [0xED, 0xA0, 0x80] ++ encode "></p".toList ++
    [0xBF, 0xBF] ++ encode "div".toList

def mendedBytes : Bytes :=
  [0xE2, 0x82, 0xAC] ++ encode "<div".toList ++ [0xEF, 0xBF, 0xBD] ++ encode "></p".toList ++
    [0xC3, 0xA9] ++ encode "div".toList

theorem tags_load_brokenBytes :
    (∀ n ∈ standard.names, ∀ c ∈ n, IsAscii c) ∧
      FileTree.read [("form".toList, .file brokenBytes)] "form".toList = .ok brokenBytes ∧
      AgreeBelow brokenBytes mendedBytes ∧
      ∃ source, Source.load [("form".toList, .file brokenBytes)] "form".toList = .ok source ∧
        standard.tags source.value = [.opening "div".toList, .closing "p".toList] ∧
        standard.tags (Source.ofBytes [] mendedBytes).value =
          [.opening "div".toList, .closing "p".toList] := by
  have hl : ∀ n ∈ standard.names, ∀ c ∈ n, IsAscii c := by
    have hall : standard.names.all (fun n => n.all fun c => IsAscii c) := by decide
    simpa only [List.all_eq_true, decide_eq_true_eq] using hall
  have hread : FileTree.read [("form".toList, .file brokenBytes)] "form".toList =
      .ok brokenBytes := by
    rfl
  have hagree : AgreeBelow brokenBytes mendedBytes := by
    unfold AgreeBelow
    decide
  obtain ⟨source, hload, htags, -, hother⟩ :=
    tags_load_eq_tags_latin standard hl _ "form".toList brokenBytes hread
  have hsource : standard.tags source.value = [.opening "div".toList, .closing "p".toList] :=
    htags.trans (by decide)
  exact ⟨hl, hread, hagree, source, hload, hsource,
    (hother [] mendedBytes hagree).1.trans hsource⟩

end AllowList

end TagBalance
