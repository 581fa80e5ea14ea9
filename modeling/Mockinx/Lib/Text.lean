import Mathlib.Algebra.Ring.Nat
import Mathlib.Data.List.DropRight

/-!
The string operations of a systems language on lists of characters: trimming, splitting,
stripping, case mapping and the integer readers of 64-bit machine types.
-/

set_option autoImplicit false
set_option relaxedAutoImplicit false

namespace Mockinx.Lib.Text

/-- Code points with the Unicode `White_Space` property. -/
def isWhitespace (c : Char) : Bool :=
  let n := c.toNat
  (0x09 ≤ n && n ≤ 0x0D) || n == 0x20 || n == 0x85 || n == 0xA0 || n == 0x1680 ||
    (0x2000 ≤ n && n ≤ 0x200A) || n == 0x2028 || n == 0x2029 || n == 0x202F || n == 0x205F ||
    n == 0x3000

def trim (s : List Char) : List Char := (s.dropWhile isWhitespace).rdropWhile isWhitespace

def trimStartMatches (c : Char) (s : List Char) : List Char := s.dropWhile (· == c)

def trimEndMatches (c : Char) (s : List Char) : List Char := s.rdropWhile (· == c)

def trimMatches (c : Char) (s : List Char) : List Char := trimEndMatches c (trimStartMatches c s)

/-- What follows the given prefix, when the text starts with it. -/
def stripPrefix (p s : List Char) : Option (List Char) :=
  if p <+: s then some (s.drop p.length) else none

/-- What precedes the given suffix, when the text ends with it. -/
def stripSuffix (p s : List Char) : Option (List Char) :=
  if p <:+ s then some (s.take (s.length - p.length)) else none

/-- The texts around the first occurrence of a pattern. -/
def splitOnce (pat : List Char) : List Char → Option (List Char × List Char)
  | [] => (stripPrefix pat []).map ([], ·)
  | c :: s =>
    match stripPrefix pat (c :: s) with
    | some rest => some ([], rest)
    | none => (splitOnce pat s).map fun r => (c :: r.1, r.2)

/-- Lower case. Two code points outside ASCII have a mapping that contains an ASCII letter. All
other upper-case letters outside ASCII are left as they are, where the language's own mapping lowers
them: no literal has any of them, so that only the texts of errors differ. -/
def lowerChar (c : Char) : List Char :=
  if c.isUpper then [c.toLower]
  else if c.toNat = 0x212A then ['k']
  else if c.toNat = 0x130 then ['i', Char.ofNat 0x307]
  else [c]

def toLowercase (s : List Char) : List Char := s.flatMap lowerChar

def eqIgnoreAsciiCase (a b : String) : Bool :=
  a.toList.map Char.toLower == b.toList.map Char.toLower

/-- Upper case of a text of ASCII characters. -/
def toAsciiUppercase (s : String) : String := String.ofList (s.toList.map Char.toUpper)

/-- Decimal digits to a number; an empty text or any other character is an error. -/
def parseDigits (s : List Char) : Option Nat :=
  if s ≠ [] ∧ s.all Char.isDigit then some (Nat.ofDigitChars 10 s 0) else none

/-- Reading an unsigned 64-bit integer: an optional plus sign, then digits, within range. -/
def parseU64 (s : List Char) : Option UInt64 :=
  let digits := match s with
    | '+' :: rest => rest
    | _ => s
  match parseDigits digits with
  | some n => if n < 2 ^ 64 then some (UInt64.ofNat n) else none
  | none => none

/-- Reading a signed 64-bit integer: an optional sign, then digits, within range. -/
def parseI64 (s : List Char) : Option Int :=
  match s with
  | '-' :: rest =>
    match parseDigits rest with
    | some n => if n ≤ 2 ^ 63 then some (-(n : Int)) else none
    | none => none
  | '+' :: rest =>
    match parseDigits rest with
    | some n => if n < 2 ^ 63 then some (n : Int) else none
    | none => none
  | _ =>
    match parseDigits s with
    | some n => if n < 2 ^ 63 then some (n : Int) else none
    | none => none

example : parseU64 "+007".toList = some 7 := by decide

example : parseI64 "-5".toList = some (-5) := by decide

example : splitOnce "..".toList "4s..6s".toList = some ("4s".toList, "6s".toList) := by decide

theorem stripPrefix_eq_some {p s t : List Char} : stripPrefix p s = some t ↔ s = p ++ t := by
  rw [stripPrefix]
  constructor
  · intro h
    split_ifs at h with hp
    obtain ⟨u, rfl⟩ := hp
    simpa using h
  · rintro rfl
    simp

theorem splitOnce_char {c : Char} {a : List Char} (b : List Char) (h : c ∉ a) :
    splitOnce [c] (a ++ c :: b) = some (a, b) := by
  induction a with
  | nil => simp [splitOnce, stripPrefix]
  | cons d a ih =>
    have hd : c ≠ d := fun he => h (by simp [he])
    have hstrip : stripPrefix [c] (d :: (a ++ c :: b)) = none := by
      rw [stripPrefix, if_neg (by simpa using hd)]
    rw [List.cons_append, splitOnce, hstrip]
    simp [ih fun hm => h (by simp [hm])]

theorem trimEndMatches_append_of_all {c : Char} (s : List Char) {t : List Char}
    (h : ∀ x ∈ t, x = c) : trimEndMatches c (s ++ t) = trimEndMatches c s := by
  induction t using List.reverseRecOn with
  | nil => simp
  | append_singleton t x ih =>
    rw [← List.append_assoc, trimEndMatches, List.rdropWhile_concat_pos _ _ _ (by
      simpa using h x (by simp))]
    exact ih fun y hy => h y (by simp [hy])

theorem trimEndMatches_append_of_ne {c x : Char} (s t : List Char) (h : x ≠ c) :
    trimEndMatches c (s ++ t ++ [x]) = s ++ t ++ [x] :=
  List.rdropWhile_concat_neg _ _ _ (by simpa using h)

theorem trimEndMatches_spec (c : Char) (s : List Char) :
    ∃ n, s = trimEndMatches c s ++ List.replicate n c := by
  refine ⟨(s.rtakeWhile (· == c)).length, ?_⟩
  have hall : s.rtakeWhile (· == c) = List.replicate (s.rtakeWhile (· == c)).length c := by
    apply List.eq_replicate_of_mem
    intro b hb
    simpa using List.mem_rtakeWhile_imp hb
  calc s = s.rdropWhile (· == c) ++ s.rtakeWhile (· == c) :=
        List.rdropWhile_append_rtakeWhile.symm
    _ = trimEndMatches c s ++ List.replicate (s.rtakeWhile (· == c)).length c := by
        rw [← hall, trimEndMatches]

end Mockinx.Lib.Text
