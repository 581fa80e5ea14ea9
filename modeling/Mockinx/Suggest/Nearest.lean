import Mockinx.Suggest.EditDistance

/-!
The nearest valid key. The scan passes over keys at distance zero from the lower-case input; as long
as there are none, it finds the first of the nearest keys.
-/

set_option autoImplicit false
set_option relaxedAutoImplicit false

namespace Mockinx

open Lib Lib.Text

def keyDistance (input : List Char) (key : String) : ℕ := levenshtein input key.toList

/-- The first of the nearest keys, if it is two edits away at most. -/
def nearestKey (input : List Char) (keys : List String) : Option String :=
  (keys.argmin (keyDistance input)).filter fun key => keyDistance input key ≤ 2

private theorem keyDistance_eq_zero_iff {input : List Char} {key : String} :
    keyDistance input key = 0 ↔ key.toList = input := by
  rw [keyDistance, levenshtein_eq_zero_iff, eq_comm]

def nearKeys (input : List Char) (keys : List String) : List String :=
  keys.filter fun key => keyDistance input key ≤ 2 ∧ 0 < keyDistance input key

private theorem nearKeys_concat (input : List Char) (keys : List String) (key : String) :
    nearKeys input (keys ++ [key]) =
      if keyDistance input key ≤ 2 ∧ 0 < keyDistance input key then nearKeys input keys ++ [key]
      else nearKeys input keys :=
  filter_concat _ keys key

def bestOf (input : List Char) (keys : List String) : Option (String × ℕ) :=
  ((nearKeys input keys).argmin (keyDistance input)).map fun key => (key, keyDistance input key)

private theorem nearer_bestOf (input : List Char) (keys : List String) (key : String) :
    nearer input (bestOf input keys) key = .ok (bestOf input (keys ++ [key])) := by
  have hdist : editDistance input key.toList = .ok (keyDistance input key) :=
    editDistance_eq input key.toList
  rw [nearer, hdist, ok_bind, bestOf, bestOf, nearKeys_concat]
  by_cases hnear : keyDistance input key ≤ 2 ∧ 0 < keyDistance input key
  · rw [if_pos hnear, if_pos hnear, List.argmin_concat]
    cases (nearKeys input keys).argmin (keyDistance input) with
    | none => rfl
    | some best =>
      change Except.ok (if keyDistance input key < keyDistance input best then _ else _) = _
      split_ifs with hlt
      · simp [hlt]
      · simp [hlt]
  · rw [if_neg hnear, if_neg hnear]
    rfl

private theorem foldlM_nearer (input : List Char) (keys : List String) :
    keys.foldlM (nearer input) none = .ok (bestOf input keys) := by
  induction keys using List.reverseRecOn with
  | nil => rfl
  | append_singleton keys key ih =>
    rw [List.foldlM_append, ih, ok_bind, List.foldlM_cons, nearer_bestOf]
    rfl

private theorem suggestFrom_eq {input : String} {aliases hints : List (String × String)}
    (halias : ∀ p ∈ aliases, p.1.toList ≠ toLowercase input.toList)
    (hhint : ∀ p ∈ hints, p.1.toList ≠ toLowercase input.toList) (keys : List String) :
    suggestFrom input aliases hints keys =
      .ok (((nearKeys (toLowercase input.toList) keys).argmin
        (keyDistance (toLowercase input.toList))).map .useKey) := by
  have hfind : ∀ l : List (String × String), (∀ p ∈ l, p.1.toList ≠ toLowercase input.toList) →
      l.find? (fun p => toLowercase input.toList == p.1.toList) = none := by
    intro l hl
    rw [List.find?_eq_none]
    intro p hp heq
    exact hl p hp (beq_iff_eq.mp heq).symm
  rw [suggestFrom, hfind aliases halias]
  dsimp only
  rw [hfind hints hhint]
  dsimp only
  rw [foldlM_nearer, ok_bind, bestOf, Option.map_map]
  rfl

private theorem argmin_nearKeys {input : List Char} {keys : List String}
    (hkeys : ∀ k ∈ keys, k.toList ≠ input) :
    (nearKeys input keys).argmin (keyDistance input) = nearestKey input keys := by
  have hpositive : ∀ k ∈ keys, 0 < keyDistance input k := fun k hk =>
    Nat.pos_of_ne_zero fun hzero => hkeys k hk (keyDistance_eq_zero_iff.mp hzero)
  have hfilter : nearKeys input keys = keys.filter fun key => keyDistance input key ≤ 2 := by
    refine List.filter_congr fun k hk => ?_
    simp [hpositive k hk]
  rw [hfilter, argmin_filter_le, nearestKey]

private theorem nearestKey_of_mem {input : List Char} {keys : List String} {k : String}
    (hk : k ∈ keys) (heq : k.toList = input) : nearestKey input keys = some k := by
  rw [nearestKey]
  cases hmin : keys.argmin (keyDistance input) with
  | none =>
    rw [List.argmin_eq_none.mp hmin] at hk
    cases hk
  | some k' =>
    have hle : keyDistance input k' ≤ keyDistance input k := List.le_of_mem_argmin hk hmin
    rw [keyDistance_eq_zero_iff.mpr heq, Nat.le_zero] at hle
    have hsame : k' = k := String.toList_inj.mp ((keyDistance_eq_zero_iff.mp hle).trans heq.symm)
    rw [Option.filter_some, hle, ← hsame]
    rfl

private theorem ne_of_argmin_nearKeys {input : List Char} {keys : List String} {k : String}
    (h : (nearKeys input keys).argmin (keyDistance input) = some k) : k.toList ≠ input := by
  have hmem : k ∈ nearKeys input keys := List.argmin_mem h
  rw [nearKeys, List.mem_filter, decide_eq_true_eq] at hmem
  intro heq
  have hzero := keyDistance_eq_zero_iff.mpr heq
  omega

/-- The answer to an input that is no alias and no hint is the nearest valid key, or none if that is
more than two edits away, exactly when its lower-case form is not itself valid. The valid key that
the lower-case form equals is never the answer. -/
theorem suggestFrom_nearest_iff {input : String} {aliases hints : List (String × String)}
    {keys : List String} (halias : ∀ p ∈ aliases, p.1.toList ≠ toLowercase input.toList)
    (hhint : ∀ p ∈ hints, p.1.toList ≠ toLowercase input.toList) :
    (suggestFrom input aliases hints keys =
        .ok ((nearestKey (toLowercase input.toList) keys).map .useKey) ↔
      ∀ k ∈ keys, k.toList ≠ toLowercase input.toList) ∧
    ∀ k ∈ keys, k.toList = toLowercase input.toList →
      suggestFrom input aliases hints keys ≠ .ok (some (.useKey k)) := by
  have hnever : ∀ k, k.toList = toLowercase input.toList →
      suggestFrom input aliases hints keys ≠ .ok (some (.useKey k)) := by
    intro k heq h
    rw [suggestFrom_eq halias hhint, Except.ok.injEq, Option.map_eq_some_iff] at h
    obtain ⟨k', hscan, hkey⟩ := h
    rw [Suggestion.useKey.injEq] at hkey
    exact ne_of_argmin_nearKeys hscan (hkey ▸ heq)
  refine ⟨⟨fun h k hk heq => ?_, fun hkeys => ?_⟩, fun k _ heq => hnever k heq⟩
  · rw [nearestKey_of_mem hk heq] at h
    exact hnever k heq h
  · rw [suggestFrom_eq halias hhint, argmin_nearKeys hkeys]

theorem suggestReplyKey_nearest : suggestReplyKey "HB" = .ok (some (.useKey "h")) := by
  have halias : ∀ p ∈ replyAliases, p.1.toList ≠ toLowercase "HB".toList := by decide
  have hhint : ∀ p ∈ replyHints, p.1.toList ≠ toLowercase "HB".toList := by decide
  have hkeys : ∀ k ∈ replyKeys, k.toList ≠ toLowercase "HB".toList := by decide
  have hnearest : nearestKey (toLowercase "HB".toList) replyKeys = some "h" := by decide
  have h := (suggestFrom_nearest_iff halias hhint).1.mpr hkeys
  rwa [hnearest] at h

/-- A valid key in upper case is answered with nothing, or with another key. -/
theorem suggestRuleKey_upper_case :
    ("Reply" ∉ ruleKeys ∧ (∀ p ∈ ruleAliases, p.1.toList ≠ toLowercase "Reply".toList) ∧
      nearestKey (toLowercase "Reply".toList) ruleKeys = some "reply" ∧
      suggestRuleKey "Reply" = .ok none) ∧
    "S" ∉ replyKeys ∧ (∀ p ∈ replyAliases ++ replyHints, p.1.toList ≠ toLowercase "S".toList) ∧
      nearestKey (toLowercase "S".toList) replyKeys = some "s" ∧
      suggestReplyKey "S" = .ok (some (.useKey "h")) := by
  refine ⟨⟨by decide, by decide, ?_, by decide⟩, by decide, by decide, ?_, by decide⟩
  · exact nearestKey_of_mem (by decide) (by decide)
  · exact nearestKey_of_mem (by decide) (by decide)

end Mockinx
