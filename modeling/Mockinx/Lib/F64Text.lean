import Mathlib.Data.List.TakeWhile
import Mockinx.Lib.F64

/-!
The characters of a text that is read as a float.
-/

set_option autoImplicit false
set_option relaxedAutoImplicit false

namespace Mockinx.Lib.F64

/-- The characters of float literals: digits, signs, the point, the exponent mark, and the letters
of the words for the infinities and the NaN. -/
def isLiteralChar (c : Char) : Bool :=
  c.isDigit || "+-.eE".toList.contains c || "infinityna".toList.contains c.toLower

private theorem isLiteralChar_of_isDigit {c : Char} (h : c.isDigit) : isLiteralChar c := by
  simp [isLiteralChar, h]

private theorem isLiteralChar_of_all {s : List Char} (h : s.all Char.isDigit) :
    ∀ c ∈ s, isLiteralChar c :=
  fun c hc => isLiteralChar_of_isDigit (List.all_eq_true.mp h c hc)

private theorem isLiteralChar_of_takeWhile (s : List Char) :
    ∀ c ∈ s.takeWhile Char.isDigit, isLiteralChar c :=
  fun _ hc => isLiteralChar_of_isDigit ((List.mem_takeWhile_imp hc))

private theorem isLiteralChar_of_digits {digits : List Char} {e : ℤ} {v : Option ℤ}
    (h : (if digits ≠ [] ∧ digits.all Char.isDigit then v else none) = some e) :
    ∀ c ∈ digits, isLiteralChar c := by
  split_ifs at h with hdigits
  exact isLiteralChar_of_all hdigits.2

private theorem sign_cases (s : List Char) :
    (∃ t, s = '-' :: t) ∨ (∃ t, s = '+' :: t) ∨
      (∀ t, s = '-' :: t → False) ∧ (∀ t, s = '+' :: t → False) := by
  cases s with
  | nil => simp
  | cons c t =>
    by_cases hneg : c = '-'
    · exact Or.inl ⟨t, by rw [hneg]⟩
    · by_cases hpos : c = '+'
      · exact Or.inr (Or.inl ⟨t, by rw [hpos]⟩)
      · exact Or.inr (Or.inr ⟨fun _ h => hneg (List.cons.inj h).1,
          fun _ h => hpos (List.cons.inj h).1⟩)

private theorem isLiteralChar_of_parseExponent {s : List Char} {e : ℤ}
    (h : parseExponent s = some e) :
    ∀ c ∈ s, isLiteralChar c := by
  have hmark : ∀ {m : Char} {v : Option ℤ},
      (if m = 'e' ∨ m = 'E' then v else none) = some e → isLiteralChar m ∧ v = some e := by
    intro m v hm
    split_ifs at hm with hcases
    exact ⟨by rcases hcases with rfl | rfl <;> decide, hm⟩
  cases s with
  | nil => simp
  | cons m s =>
    rcases sign_cases s with ⟨t, rfl⟩ | ⟨t, rfl⟩ | ⟨hneg, hpos⟩
    · rw [parseExponent.eq_2] at h
      simp only [List.forall_mem_cons]
      exact ⟨(hmark h).1, by decide, isLiteralChar_of_digits (hmark h).2⟩
    · rw [parseExponent.eq_3] at h
      simp only [List.forall_mem_cons]
      exact ⟨(hmark h).1, by decide, isLiteralChar_of_digits (hmark h).2⟩
    · rw [parseExponent.eq_4 m s hneg hpos] at h
      rw [List.forall_mem_cons]
      exact ⟨(hmark h).1, isLiteralChar_of_digits (hmark h).2⟩

private theorem isLiteralChar_of_parseDecimal {s : List Char} {q : ℚ}
    (h : parseDecimal s = some q) :
    ∀ c ∈ s, isLiteralChar c := by
  have hsplit : s = s.takeWhile Char.isDigit ++ s.dropWhile Char.isDigit :=
    List.takeWhile_append_dropWhile.symm
  rw [parseDecimal] at h
  dsimp only at h
  rw [hsplit, List.forall_mem_append]
  refine ⟨isLiteralChar_of_takeWhile s, ?_⟩
  generalize s.dropWhile Char.isDigit = rest at h
  split at h
  · rename_i t
    split_ifs at h
    obtain ⟨e, he, _⟩ := Option.map_eq_some_iff.mp h
    have htail : t = t.takeWhile Char.isDigit ++ t.dropWhile Char.isDigit :=
      List.takeWhile_append_dropWhile.symm
    rw [List.forall_mem_cons, htail, List.forall_mem_append]
    exact ⟨by decide, isLiteralChar_of_takeWhile t, isLiteralChar_of_parseExponent he⟩
  · split_ifs at h
    obtain ⟨e, he, _⟩ := Option.map_eq_some_iff.mp h
    exact isLiteralChar_of_parseExponent he

private theorem isLiteralChar_of_word {s : List Char} {word : String}
    (h : String.ofList (s.map Char.toLower) = word)
    (hword : word.toList.all "infinityna".toList.contains) : ∀ c ∈ s, isLiteralChar c := by
  intro c hc
  have hmem : c.toLower ∈ word.toList := by
    rw [← h, String.toList_ofList]
    exact List.mem_map_of_mem hc
  rw [isLiteralChar, List.all_eq_true.mp hword _ hmem, Bool.or_true]

private theorem isLiteralChar_of_parse {s : List Char} {x : F64} (h : parse s = some x) :
    ∀ c ∈ s, isLiteralChar c := by
  have hbody : ∀ (negative : Bool) (body : List Char),
      (if String.ofList (body.map Char.toLower) = "inf" ∨
            String.ofList (body.map Char.toLower) = "infinity" then some (.inf negative)
        else if String.ofList (body.map Char.toLower) = "nan" then some .nan
        else (parseDecimal body).map fun q => ofRat (if negative then -q else q)) = some x →
      ∀ c ∈ body, isLiteralChar c := by
    intro negative body hread
    by_cases hinf : String.ofList (body.map Char.toLower) = "inf" ∨
        String.ofList (body.map Char.toLower) = "infinity"
    · rcases hinf with hword | hword
      · exact isLiteralChar_of_word hword (by decide)
      · exact isLiteralChar_of_word hword (by decide)
    · rw [if_neg hinf] at hread
      by_cases hnan : String.ofList (body.map Char.toLower) = "nan"
      · exact isLiteralChar_of_word hnan (by decide)
      · rw [if_neg hnan] at hread
        obtain ⟨q, hq, _⟩ := Option.map_eq_some_iff.mp hread
        exact isLiteralChar_of_parseDecimal hq
  rcases sign_cases s with ⟨t, rfl⟩ | ⟨t, rfl⟩ | ⟨hneg, hpos⟩
  · rw [parse.eq_1] at h
    rw [List.forall_mem_cons]
    exact ⟨by decide, hbody true t h⟩
  · rw [parse.eq_2] at h
    rw [List.forall_mem_cons]
    exact ⟨by decide, hbody false t h⟩
  · rw [parse.eq_3 s hneg hpos] at h
    exact hbody false s h

theorem not_mem_of_parse {s : List Char} {x : F64} {c : Char} (h : parse s = some x)
    (hc : isLiteralChar c = false) : c ∉ s := by
  intro hmem
  rw [isLiteralChar_of_parse h c hmem] at hc
  cases hc

end Mockinx.Lib.F64
