import Mockinx.Lib.Split
import Mockinx.MatchRule

/-!
Path matching in its own terms: a path is its list of segments, where one trailing slash does not
count, and a rule covers the paths whose segments begin with its own.
-/

set_option autoImplicit false
set_option relaxedAutoImplicit false

namespace Mockinx

open Lib Lib.Text Lib.Split

/-- The segments between the slashes of a path; one trailing slash does not count. -/
def pathSegments (path : List Char) : List (List Char) := (normalizePath path).splitOn '/'

/-- Whether a rule's method admits a request's method. -/
def MethodAdmits (ruleMethod : Option String) (method : String) : Prop :=
  ∀ own, ruleMethod = some own → eqIgnoreAsciiCase own method = true

private theorem normalizePath_concat (l : List Char) : normalizePath (l ++ ['/']) = l := by
  have hsuffix : "/".toList <:+ l ++ ['/'] := ⟨l, rfl⟩
  rw [normalizePath, stripSuffix, if_pos hsuffix]
  simp

private theorem eq_normalizePath_or (path : List Char) :
    path = normalizePath path ∨ path = normalizePath path ++ ['/'] := by
  by_cases h : "/".toList <:+ path
  · obtain ⟨l, rfl⟩ := h
    right
    exact congrArg (· ++ ['/']) (normalizePath_concat l).symm
  · left
    rw [normalizePath, stripSuffix, if_neg h, Option.getD_none]

private theorem head?_drop_eq_slash {a b : List Char} :
    (a.isPrefixOf b && (b.drop a.length).head? == some '/') = true ↔ a ++ ['/'] <+: b := by
  rw [Bool.and_eq_true, List.isPrefixOf_iff_prefix, beq_iff_eq]
  constructor
  · rintro ⟨⟨t, rfl⟩, hhead⟩
    rw [List.drop_left] at hhead
    obtain ⟨rest, rfl⟩ := List.head?_eq_some_iff.mp hhead
    exact ⟨rest, by simp⟩
  · rintro ⟨t, rfl⟩
    exact ⟨⟨'/' :: t, by simp⟩, by simp⟩

private theorem pathMatches_iff (rulePath path : List Char) :
    pathMatches rulePath path = true ↔ pathSegments rulePath <+: pathSegments path := by
  rw [pathSegments, pathSegments, splitOn_isPrefix_iff, ← head?_drop_eq_slash, pathMatches,
    Bool.or_eq_true, beq_iff_eq]

private theorem matches_methodPath_iff (ruleMethod : Option String)
    (rulePath method path : String) :
    (MatchRule.methodPath ruleMethod rulePath).matches method path = true ↔
      MethodAdmits ruleMethod method ∧
        pathSegments rulePath.toList <+: pathSegments path.toList := by
  simp only [MatchRule.matches, Bool.and_eq_true, pathMatches_iff, MethodAdmits]
  cases ruleMethod <;> simp

private theorem segments_isPrefix_below (path rest : List Char) :
    pathSegments path <+: pathSegments (normalizePath path ++ '/' :: rest) := by
  rw [pathSegments, pathSegments, splitOn_isPrefix_iff]
  rcases List.eq_nil_or_concat' rest with rfl | ⟨init, last, rfl⟩
  · exact Or.inl (normalizePath_concat _)
  · rw [← List.cons_append, ← List.append_assoc]
    rcases eq_normalizePath_or (normalizePath path ++ '/' :: init ++ [last]) with h | h
    · exact Or.inr ⟨init ++ [last], by rw [← h]; simp⟩
    · have hinit := List.append_inj_left' h rfl
      exact Or.inr ⟨init, by rw [← hinit]; simp⟩

private theorem segments_isPrefix_append (path rest : List Char) :
    pathSegments path <+: pathSegments (path ++ '/' :: rest) := by
  have hbelow := segments_isPrefix_below path
  rcases eq_normalizePath_or path with h | h
  · have hrest := hbelow rest
    rwa [← h] at hrest
  · have hrest := hbelow ('/' :: rest)
    have hsplit : normalizePath path ++ '/' :: '/' :: rest = path ++ '/' :: rest := by
      conv_rhs => rw [h]
      simp
    rwa [hsplit] at hrest

private theorem not_segments_isPrefix_of_ne {path : List Char} {c : Char} (rest : List Char)
    (hc : c ≠ '/') : ¬ pathSegments path <+: pathSegments (normalizePath path ++ c :: rest) := by
  rw [pathSegments, pathSegments, splitOn_isPrefix_iff]
  rintro (h | ⟨t, h⟩)
  · rcases eq_normalizePath_or (normalizePath path ++ c :: rest) with hn | hn
    · rw [h] at hn
      simp at hn
    · rw [h] at hn
      have hcons := List.append_cancel_left hn
      simp only [List.cons.injEq] at hcons
      exact hc hcons.1
  · rcases eq_normalizePath_or (normalizePath path ++ c :: rest) with hn | hn
    · rw [← h, List.append_assoc] at hn
      have hcons := List.append_cancel_left hn
      simp only [List.singleton_append, List.cons.injEq] at hcons
      exact hc hcons.1
    · rw [← h, List.append_assoc, List.append_assoc] at hn
      have hcons := List.append_cancel_left hn
      simp only [List.cons_append, List.cons.injEq] at hcons
      exact hc hcons.1

private theorem segments_root_isPrefix {path : List Char} (h : path.head? = some '/') :
    pathSegments "/".toList <+: pathSegments path := by
  obtain ⟨rest, rfl⟩ := List.head?_eq_some_iff.mp h
  exact segments_isPrefix_below "/".toList rest

/-- A rule matches by method and by segment prefix. So the root covers every path, no rule covers
a path that goes on within its last segment, and a rule that covers a path covers every path
below it. -/
theorem matches_segment_prefix (ruleMethod : Option String) (r m : String) :
    (∀ p : String, p.toList.head? = some '/' →
      ((MatchRule.methodPath ruleMethod r).matches m p = true ↔
        MethodAdmits ruleMethod m ∧ pathSegments r.toList <+: pathSegments p.toList)) ∧
    (∀ p : String, p.toList.head? = some '/' →
      ((MatchRule.methodPath ruleMethod "/").matches m p = true ↔ MethodAdmits ruleMethod m)) ∧
    (∀ (c : Char) (rest : List Char), c ≠ '/' →
      (MatchRule.methodPath ruleMethod r).matches m
        (String.ofList (normalizePath r.toList ++ c :: rest)) = false) ∧
    ∀ p : String, p.toList.head? = some '/' →
      (MatchRule.methodPath ruleMethod r).matches m p = true →
      (∀ q : String, pathSegments p.toList <+: pathSegments q.toList →
        (MatchRule.methodPath ruleMethod r).matches m q = true) ∧
      ∀ rest : String, (MatchRule.methodPath ruleMethod r).matches m (p ++ "/" ++ rest) = true := by
  refine ⟨fun p _ => matches_methodPath_iff ruleMethod r m p, ?_, ?_, ?_⟩
  · intro p hp
    rw [matches_methodPath_iff]
    exact and_iff_left (segments_root_isPrefix hp)
  · intro c rest hc
    rw [Bool.eq_false_iff, ne_eq, matches_methodPath_iff, String.toList_ofList]
    exact fun h => not_segments_isPrefix_of_ne rest hc h.2
  · intro p _ hmatch
    obtain ⟨hmethod, hprefix⟩ := (matches_methodPath_iff ruleMethod r m p).mp hmatch
    have hbelow : ∀ q : String, pathSegments p.toList <+: pathSegments q.toList →
        (MatchRule.methodPath ruleMethod r).matches m q = true := fun q hq =>
      (matches_methodPath_iff ruleMethod r m q).mpr ⟨hmethod, hprefix.trans hq⟩
    refine ⟨hbelow, fun rest => hbelow _ ?_⟩
    rw [String.toList_append, String.toList_append, List.append_assoc]
    exact segments_isPrefix_append p.toList rest.toList

theorem matches_segment_prefix_toys :
    ((MatchRule.methodPath (some "GET") "/toys/").matches "get" "/toys/1/" = true ↔
        MethodAdmits (some "GET") "get" ∧
          pathSegments "/toys/".toList <+: pathSegments "/toys/1/".toList) ∧
      ((MatchRule.methodPath (some "GET") "/").matches "get" "/a" = true ↔
        MethodAdmits (some "GET") "get") ∧
      (MatchRule.methodPath (some "GET") "/toys/").matches "get"
        (String.ofList (normalizePath "/toys/".toList ++ 'x' :: [])) = false ∧
      (MatchRule.methodPath (some "GET") "/toys/").matches "get" ("/toys/1/" ++ "/" ++ "b") =
        true := by
  obtain ⟨hiff, hroot, hext, hbelow⟩ := matches_segment_prefix (some "GET") "/toys/" "get"
  exact ⟨hiff "/toys/1/" rfl, hroot "/a" rfl, hext 'x' [] (by decide),
    (hbelow "/toys/1/" rfl (by decide)).2 "b"⟩

end Mockinx
