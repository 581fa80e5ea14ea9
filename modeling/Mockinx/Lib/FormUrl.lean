import Mathlib.Data.List.Basic

/-!
Form encoding of text. A space becomes a plus sign, a byte of a chosen plain set stands for itself,
and any other byte of the UTF-8 form becomes a percent sign and two hexadecimal digits. Reading
the bytes back as one character each gives the text again exactly when it is ASCII.
-/

set_option autoImplicit false
set_option relaxedAutoImplicit false

namespace Mockinx.Lib.FormUrl

/-- Which bytes an encoder leaves as they are: ASCII bytes other than a space, a plus sign, a
percent sign and the two separators of a query. -/
structure PlainSet where
  mem : UInt8 → Bool
  ascii : ∀ b, mem b = true → b < 0x80
  reserved : ∀ b, mem b = true → b ≠ 0x20 ∧ b ≠ 0x2B ∧ b ≠ 0x25 ∧ b ≠ 0x26 ∧ b ≠ 0x3D

/-- The unreserved characters of a URI: letters, digits and four marks. -/
def unreserved : PlainSet where
  mem b := (0x30 ≤ b && b ≤ 0x39) || (0x41 ≤ b && b ≤ 0x5A) || (0x61 ≤ b && b ≤ 0x7A) ||
    b == 0x2D || b == 0x2E || b == 0x5F || b == 0x7E
  ascii b h := by grind
  reserved b h := by
    refine ⟨?_, ?_, ?_, ?_, ?_⟩ <;>
    · rintro rfl
      exact absurd h (by decide)

/-- An upper-case hexadecimal digit. -/
def hexDigit (n : ℕ) : UInt8 := if n < 10 then UInt8.ofNat (0x30 + n) else UInt8.ofNat (0x37 + n)

def encodeByte (P : PlainSet) (b : UInt8) : List UInt8 :=
  if b = 0x20 then [0x2B]
  else if P.mem b then [b]
  else [0x25, hexDigit (b.toNat / 16), hexDigit (b.toNat % 16)]

def encode (P : PlainSet) (bytes : List UInt8) : List UInt8 := bytes.flatMap (encodeByte P)

/-- Each byte read as the character with its number. -/
def latin1 (bytes : List UInt8) : List Char := bytes.map fun b => Char.ofNat b.toNat

/-- The encoded form of a text. -/
def encodeText (P : PlainSet) (s : List Char) : List Char :=
  latin1 (encode P (s.flatMap String.utf8EncodeChar))

/-- The query string of key/value pairs. -/
def encodePairs (P : PlainSet) (pairs : List (List Char × List Char)) : List Char :=
  ['&'].intercalate (pairs.map fun p => encodeText P p.1 ++ '=' :: encodeText P p.2)

def IsAscii (s : List Char) : Prop := ∀ c ∈ s, c.toNat < 0x80

instance (s : List Char) : Decidable (IsAscii s) :=
  inferInstanceAs (Decidable (∀ c ∈ s, c.toNat < 0x80))

private theorem toNat_ofNat_byte (b : UInt8) : (Char.ofNat b.toNat).toNat = b.toNat := by
  have hb : b.toNat < 256 := b.toNat_lt
  have hvalid : Nat.isValidChar b.toNat := Or.inl (by omega)
  rw [Char.ofNat, dif_pos hvalid]
  rfl

@[simp] theorem length_latin1 (bytes : List UInt8) : (latin1 bytes).length = bytes.length :=
  List.length_map _

theorem latin1_injective : Function.Injective latin1 := by
  refine List.map_injective_iff.mpr fun a b h => ?_
  have htoNat := congrArg Char.toNat h
  simp only [toNat_ofNat_byte] at htoNat
  exact UInt8.toNat_inj.mp htoNat

private theorem utf8Size_eq_one {c : Char} : c.utf8Size = 1 ↔ c.toNat < 0x80 := by
  rw [Char.utf8Size_eq_one_iff, UInt32.le_iff_toNat_le]
  exact Nat.lt_succ_iff.symm

private theorem utf8EncodeChar_of_lt {c : Char} (h : c.toNat < 0x80) :
    String.utf8EncodeChar c = [UInt8.ofNat c.toNat] := by
  rw [String.utf8EncodeChar_eq_singleton (utf8Size_eq_one.mpr h)]
  rfl

private theorem utf8_latin1 {bytes : List UInt8} (h : ∀ b ∈ bytes, b < 0x80) :
    (latin1 bytes).flatMap String.utf8EncodeChar = bytes := by
  rw [latin1, List.flatMap_map]
  have hone : ∀ b ∈ bytes, String.utf8EncodeChar (Char.ofNat b.toNat) = [b] := by
    intro b hb
    have hlt : b.toNat < 0x80 := UInt8.lt_iff_toNat_lt.mp (h b hb)
    rw [utf8EncodeChar_of_lt (by rwa [toNat_ofNat_byte]), toNat_ofNat_byte, UInt8.ofNat_toNat]
  rw [List.flatMap_congr hone]
  simp

theorem length_le_length_utf8 (s : List Char) :
    s.length ≤ (s.flatMap String.utf8EncodeChar).length := by
  induction s with
  | nil => simp
  | cons c s ih =>
    have hpos := c.utf8Size_pos
    simp only [List.flatMap_cons, List.length_append, List.length_cons,
      String.length_utf8EncodeChar]
    omega

theorem isAscii_of_length {s : List Char}
    (h : (s.flatMap String.utf8EncodeChar).length ≤ s.length) : IsAscii s := by
  induction s with
  | nil => simp [IsAscii]
  | cons c s ih =>
    have hpos := c.utf8Size_pos
    have hle := length_le_length_utf8 s
    simp only [List.flatMap_cons, List.length_append, List.length_cons,
      String.length_utf8EncodeChar] at h
    intro d hd
    rcases List.mem_cons.mp hd with rfl | hd
    · exact utf8Size_eq_one.mp (by omega)
    · exact ih (by omega) d hd

theorem latin1_utf8_eq_iff {s : List Char} :
    latin1 (s.flatMap String.utf8EncodeChar) = s ↔ IsAscii s := by
  constructor
  · intro h
    refine isAscii_of_length (Nat.le_of_eq ?_)
    rw [← length_latin1, h]
  · intro h
    induction s with
    | nil => rfl
    | cons c s ih =>
      have hc : c.toNat < 0x80 := h c (by simp)
      have hs : IsAscii s := fun d hd => h d (by simp [hd])
      rw [List.flatMap_cons, utf8EncodeChar_of_lt hc, latin1, List.singleton_append,
        List.map_cons, ← latin1, ih hs]
      have hmod : (UInt8.ofNat c.toNat).toNat = c.toNat := by simp; omega
      rw [hmod, Char.ofNat_toNat]

private theorem hexDigit_plain : ∀ n < 16,
    hexDigit n < 0x80 ∧ hexDigit n ≠ 0x26 ∧ hexDigit n ≠ 0x3D := by
  decide

private theorem encode_plain (P : PlainSet) {bytes : List UInt8} {b : UInt8}
    (h : b ∈ encode P bytes) :
    b < 0x80 ∧ b ≠ 0x26 ∧ b ≠ 0x3D := by
  obtain ⟨a, _, hb⟩ := List.mem_flatMap.mp h
  have ha : a.toNat < 256 := a.toNat_lt
  rw [encodeByte] at hb
  split_ifs at hb with hspace hplain
  · obtain rfl : b = 0x2B := by simpa using hb
    decide
  · obtain rfl : b = a := by simpa using hb
    obtain ⟨_, _, _, hamp, heq⟩ := P.reserved b hplain
    exact ⟨P.ascii b hplain, hamp, heq⟩
  · simp only [List.mem_cons, List.not_mem_nil, or_false] at hb
    rcases hb with rfl | rfl | rfl
    · decide
    · exact hexDigit_plain _ (by omega)
    · exact hexDigit_plain _ (by omega)

theorem utf8_encodeText (P : PlainSet) (s : List Char) :
    (encodeText P s).flatMap String.utf8EncodeChar =
      encode P (s.flatMap String.utf8EncodeChar) :=
  utf8_latin1 fun _ hb => (encode_plain P hb).1

private theorem not_mem_encodeText (P : PlainSet) (s : List Char) {b : UInt8}
    (h : b = 0x26 ∨ b = 0x3D) : Char.ofNat b.toNat ∉ encodeText P s := by
  intro hmem
  obtain ⟨a, ha, he⟩ := List.mem_map.mp hmem
  obtain ⟨_, hamp, heq⟩ := encode_plain P ha
  have hab : a = b := by
    have htoNat := congrArg Char.toNat he
    simp only [toNat_ofNat_byte] at htoNat
    exact UInt8.toNat_inj.mp htoNat
  subst hab
  exact h.elim hamp heq

private theorem amp_not_mem_encodeText (P : PlainSet) (s : List Char) : '&' ∉ encodeText P s :=
  not_mem_encodeText P s (Or.inl rfl)

theorem eq_not_mem_encodeText (P : PlainSet) (s : List Char) : '=' ∉ encodeText P s :=
  not_mem_encodeText P s (Or.inr rfl)

theorem splitOn_encodePairs (P : PlainSet) {pairs : List (List Char × List Char)}
    (h : pairs ≠ []) : (encodePairs P pairs).splitOn '&' =
      pairs.map fun p => encodeText P p.1 ++ '=' :: encodeText P p.2 := by
  refine List.splitOn_intercalate '&' ?_ (by simpa using h)
  intro piece hpiece
  obtain ⟨p, _, rfl⟩ := List.mem_map.mp hpiece
  simp [amp_not_mem_encodeText]

theorem encodePairs_eq_nil {P : PlainSet} {pairs : List (List Char × List Char)} :
    encodePairs P pairs = [] ↔ pairs = [] := by
  constructor
  · intro h
    by_contra hne
    have hsplit := splitOn_encodePairs P hne
    rw [h, List.splitOn_nil] at hsplit
    obtain ⟨p, rest, rfl⟩ := List.exists_cons_of_ne_nil hne
    simp at hsplit
  · rintro rfl
    rfl

end Mockinx.Lib.FormUrl
