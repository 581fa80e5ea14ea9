import Mockinx.Lib.Text

/-!
Trimming commutes with itself and with a separator, and the texts that a separator, a prefix or a
suffix is found in.
-/

set_option autoImplicit false
set_option relaxedAutoImplicit false

namespace Mockinx.Lib.Text

section drop

variable {α : Type} {p : α → Bool}

private theorem dropWhile_append_cons_of_neg {x : α} (hx : p x = false) (a b : List α) :
    (a ++ x :: b).dropWhile p = a.dropWhile p ++ x :: b := by
  induction a with
  | nil => simp [hx]
  | cons y a ih =>
    rw [List.cons_append, List.dropWhile_cons, List.dropWhile_cons, ih]
    split_ifs <;> rfl

private theorem rdropWhile_append_cons_of_neg {x : α} (hx : p x = false) (a b : List α) :
    (a ++ x :: b).rdropWhile p = a ++ x :: b.rdropWhile p := by
  have hrev : (a ++ x :: b).reverse = b.reverse ++ x :: a.reverse := by simp
  rw [List.rdropWhile, hrev, dropWhile_append_cons_of_neg hx, List.rdropWhile]
  simp

private theorem rdropWhile_cons (x : α) (l : List α) :
    (x :: l).rdropWhile p =
      if l.rdropWhile p = [] ∧ p x then [] else x :: l.rdropWhile p := by
  cases hx : p x with
  | false => simpa [hx] using rdropWhile_append_cons_of_neg hx [] l
  | true =>
    induction l using List.reverseRecOn with
    | nil => simp [List.rdropWhile, hx]
    | append_singleton l y ih =>
      cases hy : p y with
      | true =>
        rw [← List.cons_append, List.rdropWhile_concat_pos _ _ _ hy,
          List.rdropWhile_concat_pos _ _ _ hy]
        exact ih
      | false =>
        have hyn : ¬ p y = true := by simp [hy]
        rw [← List.cons_append, List.rdropWhile_concat_neg _ _ _ hyn,
          List.rdropWhile_concat_neg _ _ _ hyn]
        simp

private theorem rdropWhile_dropWhile (l : List α) :
    (l.dropWhile p).rdropWhile p = (l.rdropWhile p).dropWhile p := by
  induction l with
  | nil => rfl
  | cons x l ih =>
    rw [rdropWhile_cons, List.dropWhile_cons]
    cases hx : p x with
    | false => simp [rdropWhile_cons, hx]
    | true =>
      rw [if_pos rfl, ih]
      split_ifs with hnil
      · simp [hnil.1]
      · rw [List.dropWhile_cons_of_pos hx]

end drop

theorem trim_dropWhile (s : List Char) : trim (s.dropWhile isWhitespace) = trim s := by
  rw [trim, trim, List.dropWhile_idempotent]

theorem trim_rdropWhile (s : List Char) : trim (s.rdropWhile isWhitespace) = trim s := by
  rw [trim, trim, rdropWhile_dropWhile, rdropWhile_dropWhile, List.rdropWhile_idempotent]

theorem trim_trim (s : List Char) : trim (trim s) = trim s := by
  calc trim (trim s) = trim ((s.dropWhile isWhitespace).rdropWhile isWhitespace) := rfl
    _ = trim s := by rw [trim_rdropWhile, trim_dropWhile]

theorem trim_append_cons {c : Char} (hc : isWhitespace c = false) (a b : List Char) :
    trim (a ++ c :: b) = a.dropWhile isWhitespace ++ c :: b.rdropWhile isWhitespace := by
  rw [trim, dropWhile_append_cons_of_neg hc, rdropWhile_append_cons_of_neg hc]

theorem mem_trim {c : Char} (hc : isWhitespace c = false) {s : List Char} :
    c ∈ trim s ↔ c ∈ s := by
  constructor
  · intro h
    exact (List.dropWhile_sublist _).subset ((List.rdropWhile_prefix _ _).subset h)
  · intro h
    obtain ⟨a, b, rfl⟩ := List.append_of_mem h
    rw [trim_append_cons hc]
    simp

private theorem trim_isInfix (s : List Char) : trim s <:+: s :=
  (List.rdropWhile_prefix _ _).isInfix.trans (List.dropWhile_suffix _).isInfix

theorem pair_isInfix_trim {c d : Char} (hc : isWhitespace c = false) (hd : isWhitespace d = false)
    {s : List Char} : [c, d] <:+: trim s ↔ [c, d] <:+: s := by
  constructor
  · intro h
    exact h.trans (trim_isInfix s)
  · rintro ⟨a, b, rfl⟩
    have hshape : a ++ [c, d] ++ b = (a ++ [c]) ++ d :: b := by simp
    rw [hshape, trim_append_cons hd, dropWhile_append_cons_of_neg hc]
    exact ⟨a.dropWhile isWhitespace, b.rdropWhile isWhitespace, by simp⟩

theorem mem_toLowercase {c : Char} (hc : lowerChar c = [c]) {s : List Char} (h : c ∈ s) :
    c ∈ toLowercase s := by
  rw [toLowercase, List.mem_flatMap]
  exact ⟨c, h, by simp [hc]⟩

theorem eq_of_splitOnce {pat s a b : List Char} (h : splitOnce pat s = some (a, b)) :
    s = a ++ pat ++ b := by
  induction s generalizing a with
  | nil =>
    obtain ⟨t, ht, heq⟩ := Option.map_eq_some_iff.mp h
    obtain ⟨rfl, rfl⟩ := Prod.mk.inj heq
    simpa using stripPrefix_eq_some.mp ht
  | cons c s ih =>
    rw [splitOnce] at h
    cases hstrip : stripPrefix pat (c :: s) with
    | some rest =>
      rw [hstrip] at h
      obtain ⟨rfl, rfl⟩ := Prod.mk.inj (Option.some.inj h)
      simpa using stripPrefix_eq_some.mp hstrip
    | none =>
      rw [hstrip] at h
      obtain ⟨⟨a', b'⟩, hsplit, heq⟩ := Option.map_eq_some_iff.mp h
      obtain ⟨rfl, rfl⟩ := Prod.mk.inj heq
      rw [ih hsplit]
      simp

theorem isSome_splitOnce_iff {pat s : List Char} : (splitOnce pat s).isSome ↔ pat <:+: s := by
  constructor
  · intro h
    obtain ⟨⟨a, b⟩, hsplit⟩ := Option.isSome_iff_exists.mp h
    exact ⟨a, b, (eq_of_splitOnce hsplit).symm⟩
  · intro h
    induction s with
    | nil =>
      obtain rfl : pat = [] := List.infix_nil.mp h
      rfl
    | cons c s ih =>
      rw [splitOnce]
      cases hstrip : stripPrefix pat (c :: s) with
      | some rest => rfl
      | none =>
        rcases List.infix_cons_iff.mp h with ⟨t, ht⟩ | h
        · rw [stripPrefix_eq_some.mpr ht.symm] at hstrip
          cases hstrip
        · rw [Option.isSome_map]
          exact ih h

theorem splitOnce_eq_none_of_not_mem {c : Char} {s : List Char} (h : c ∉ s) :
    splitOnce [c] s = none := by
  rw [← Option.not_isSome_iff_eq_none, isSome_splitOnce_iff]
  rintro ⟨a, b, rfl⟩
  exact h (by simp)

theorem stripSuffix_eq_some {p s t : List Char} : stripSuffix p s = some t ↔ s = t ++ p := by
  rw [stripSuffix]
  constructor
  · intro h
    split_ifs at h with hp
    obtain ⟨u, rfl⟩ := hp
    simpa using h
  · rintro rfl
    simp

end Mockinx.Lib.Text
