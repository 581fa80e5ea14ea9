import Mockinx.Lib.Edits
import Mockinx.Lib.Fold
import Mockinx.Suggest

/-!
The edit distance table. A cell stands for a prefix of each text; the loops write every cell once it
follows from cells that hold distances already, and end with the distance of the whole texts.
-/

set_option autoImplicit false
set_option relaxedAutoImplicit false

namespace Mockinx

open Lib

structure Rectangular (rows cols : ℕ) (dp : Table) : Prop where
  size : dp.size = rows
  row : ∀ (i : ℕ) (row : Array ℕ), dp[i]? = some row → row.size = cols

def cell (dp : Table) (i j : ℕ) : Option ℕ := dp[i]?.bind fun row => row[j]?

private theorem readCell_of_cell {dp : Table} {i j n : ℕ} (h : cell dp i j = some n) :
    readCell dp i j = .ok n := by
  obtain ⟨row, hrow, hn⟩ := Option.bind_eq_some_iff.mp h
  rw [readCell, hrow]
  dsimp only
  rw [hn]

private theorem Rectangular.writeCell {rows cols i j : ℕ} {dp : Table}
    (h : Rectangular rows cols dp) (hi : i < rows) (hj : j < cols) (n : ℕ) :
    ∃ dp', writeCell dp i j n = .ok dp' ∧ Rectangular rows cols dp' ∧
      ∀ i' j', cell dp' i' j' = if i' = i ∧ j' = j then some n else cell dp i' j' := by
  have hi' : i < dp.size := h.size ▸ hi
  have hrow : dp[i]? = some dp[i] := Array.getElem?_eq_getElem hi'
  have hj' : j < dp[i].size := h.row i dp[i] hrow ▸ hj
  refine ⟨dp.setIfInBounds i (dp[i].setIfInBounds j n), ?_, ⟨?_, ?_⟩, ?_⟩
  · rw [Mockinx.writeCell, hrow]
    exact if_pos hj'
  · rw [Array.size_setIfInBounds, h.size]
  · intro i' row hrow'
    rw [Array.getElem?_setIfInBounds] at hrow'
    by_cases hsame : i = i'
    · rw [if_pos hsame, if_pos hi', Option.some.injEq] at hrow'
      rw [← hrow', Array.size_setIfInBounds, h.row i dp[i] hrow]
    · rw [if_neg hsame] at hrow'
      exact h.row i' row hrow'
  · intro i' j'
    rw [cell, Array.getElem?_setIfInBounds]
    by_cases hsame : i = i'
    · rw [if_pos hsame, if_pos hi', Option.bind_some, Array.getElem?_setIfInBounds]
      subst hsame
      by_cases hcol : j = j'
      · rw [if_pos hcol, if_pos hj', if_pos ⟨rfl, hcol.symm⟩]
      · rw [if_neg hcol, if_neg fun hcell => hcol hcell.2.symm, cell, hrow, Option.bind_some]
    · rw [if_neg hsame, if_neg fun hcell => hsame hcell.1.symm, cell]

structure Knows (a b : List Char) (known : ℕ → ℕ → Prop) (dp : Table) : Prop where
  rectangular : Rectangular (a.length + 1) (b.length + 1) dp
  cells : ∀ i j, known i j → i ≤ a.length → j ≤ b.length →
    cell dp i j = some (levenshtein (a.take i) (b.take j))

namespace Knows

variable {a b : List Char} {known known' : ℕ → ℕ → Prop} {dp : Table} {i j : ℕ}

private theorem mono (h : Knows a b known dp)
    (hsub : ∀ i j, i ≤ a.length → j ≤ b.length → known' i j → known i j) : Knows a b known' dp :=
  ⟨h.rectangular, fun i j hknown hi hj => h.cells i j (hsub i j hi hj hknown) hi hj⟩

private theorem write (h : Knows a b known dp) (hi : i ≤ a.length) (hj : j ≤ b.length) {n : ℕ}
    (hn : n = levenshtein (a.take i) (b.take j))
    (hknown : ∀ i' j', known' i' j' → known i' j' ∨ i' = i ∧ j' = j) :
    ∃ dp', writeCell dp i j n = .ok dp' ∧ Knows a b known' dp' := by
  obtain ⟨dp', hwrite, hrectangular, hcells⟩ :=
    h.rectangular.writeCell (Nat.lt_succ_of_le hi) (Nat.lt_succ_of_le hj) n
  refine ⟨dp', hwrite, hrectangular, fun i' j' hknown' hi' hj' => ?_⟩
  rw [hcells]
  split_ifs with hcell
  · obtain ⟨rfl, rfl⟩ := hcell
    rw [hn]
  · exact h.cells i' j' ((hknown i' j' hknown').resolve_right hcell) hi' hj'

private theorem fillCell (h : Knows a b known dp) (hi : i < a.length) (hj : j < b.length)
    (hup : known i (j + 1)) (hleft : known (i + 1) j) (hdiagonal : known i j)
    (hknown : ∀ i' j', known' i' j' → known i' j' ∨ i' = i + 1 ∧ j' = j + 1) :
    ∃ dp', fillCell a b dp (i + 1) (j + 1) = .ok dp' ∧ Knows a b known' dp' := by
  have hreadA : readChar a i = .ok a[i] := by rw [readChar, List.getElem?_eq_getElem hi]
  have hreadB : readChar b j = .ok b[j] := by rw [readChar, List.getElem?_eq_getElem hj]
  have hdeletion := readCell_of_cell (h.cells i (j + 1) hup hi.le hj)
  have hinsertion := readCell_of_cell (h.cells (i + 1) j hleft hi hj.le)
  have hsubstitution := readCell_of_cell (h.cells i j hdiagonal hi.le hj.le)
  have hdistance : levenshtein (a.take (i + 1)) (b.take (j + 1)) =
      min (min (levenshtein (a.take i) (b.take (j + 1)) + 1)
          (levenshtein (a.take (i + 1)) (b.take j) + 1))
        (levenshtein (a.take i) (b.take j) + if a[i] = b[j] then 0 else 1) := by
    rw [List.take_succ_eq_append_getElem hi, List.take_succ_eq_append_getElem hj]
    exact levenshtein_concat_concat a[i] b[j] (a.take i) (b.take j)
  obtain ⟨dp', hwrite, hknows⟩ := h.write (i := i + 1) (j := j + 1) hi hj hdistance.symm hknown
  refine ⟨dp', ?_, hknows⟩
  rw [Mockinx.fillCell, Nat.add_sub_cancel, Nat.add_sub_cancel, hreadA, ok_bind, hreadB, ok_bind,
    hdeletion, ok_bind, hinsertion, ok_bind, hsubstitution, ok_bind]
  exact hwrite

end Knows

def Before (i j i' j' : ℕ) : Prop := j' = 0 ∨ i' < i ∨ i' = i ∧ j' < j

private theorem knows_replicate (a b : List Char) :
    Knows a b (fun _ _ => False)
      (Array.replicate (a.length + 1) (Array.replicate (b.length + 1) 0)) := by
  refine ⟨⟨Array.size_replicate, fun i row hrow => ?_⟩, fun _ _ hfalse => hfalse.elim⟩
  rw [Array.getElem?_replicate] at hrow
  split_ifs at hrow
  rw [← Option.some.inj hrow, Array.size_replicate]

private theorem fillColumn (a b : List Char) {dp : Table} (h : Knows a b (fun _ _ => False) dp) :
    ∃ dp', (List.range (a.length + 1)).foldlM (fun dp i => writeCell dp i 0 i) dp = .ok dp' ∧
      Knows a b (fun i j => j = 0 ∧ i < a.length + 1) dp' := by
  refine exists_foldlM_range (I := fun k => Knows a b fun i j => j = 0 ∧ i < k)
    (fun k dp hk hknows => ?_) (h.mono fun i j _ _ hknown => by omega)
  have hdistance : k = levenshtein (a.take k) (b.take 0) := by
    rw [List.take_zero, levenshtein_nil_right, List.length_take, Nat.min_eq_left (by omega)]
  exact hknows.write (by omega) (Nat.zero_le _) hdistance (by omega)

private theorem fillRow (a b : List Char) {dp : Table}
    (h : Knows a b (fun i j => j = 0 ∧ i < a.length + 1) dp) :
    ∃ dp', (List.range (b.length + 1)).foldlM (fun dp j => writeCell dp 0 j j) dp = .ok dp' ∧
      Knows a b (fun i j => j = 0 ∨ i = 0 ∧ j < b.length + 1) dp' := by
  refine exists_foldlM_range (I := fun k => Knows a b fun i j => j = 0 ∨ i = 0 ∧ j < k)
    (fun k dp hk hknows => ?_) (h.mono fun i j _ _ hknown => by omega)
  have hdistance : k = levenshtein (a.take 0) (b.take k) := by
    rw [List.take_zero, levenshtein_nil_left, List.length_take, Nat.min_eq_left (by omega)]
  exact hknows.write (Nat.zero_le _) (by omega) hdistance (by omega)

private theorem fillRest (a b : List Char) {dp : Table} {i : ℕ} (hi : 1 ≤ i) (ha : i < 1 + a.length)
    (h : Knows a b (Before i 1) dp) :
    ∃ dp', (List.range' 1 b.length).foldlM (fun dp j => fillCell a b dp i j) dp = .ok dp' ∧
      Knows a b (Before i (1 + b.length)) dp' := by
  refine exists_foldlM_range' (I := fun j => Knows a b (Before i j))
    (fun j dp hj hb hknows => ?_) h
  obtain ⟨i, rfl⟩ := Nat.exists_eq_add_of_le' hi
  obtain ⟨j, rfl⟩ := Nat.exists_eq_add_of_le' hj
  refine hknows.fillCell (by omega) (by omega) ?_ ?_ ?_ fun i' j' hknown => ?_
  · exact .inr (.inl (Nat.lt_succ_self i))
  · exact .inr (.inr ⟨rfl, Nat.lt_succ_self j⟩)
  · exact .inr (.inl (Nat.lt_succ_self i))
  · unfold Before at hknown ⊢
    omega

private theorem fillRows (a b : List Char) {dp : Table} (h : Knows a b (Before 1 1) dp) :
    ∃ dp', (List.range' 1 a.length).foldlM (fun dp i =>
        (List.range' 1 b.length).foldlM (fun dp j => fillCell a b dp i j) dp) dp = .ok dp' ∧
      Knows a b (Before (1 + a.length) 1) dp' := by
  refine exists_foldlM_range' (I := fun i => Knows a b (Before i 1))
    (fun i dp hi ha hknows => ?_) h
  obtain ⟨dp', hrest, hknows'⟩ := fillRest a b hi ha hknows
  refine ⟨dp', hrest, hknows'.mono fun i' j' _ _ hknown => ?_⟩
  unfold Before at hknown ⊢
  omega

theorem editDistance_eq (a b : List Char) : editDistance a b = .ok (levenshtein a b) := by
  obtain ⟨dp₁, hcolumn, h₁⟩ := fillColumn a b (knows_replicate a b)
  obtain ⟨dp₂, hrow, h₂⟩ := fillRow a b h₁
  have hborders : Knows a b (Before 1 1) dp₂ :=
    h₂.mono fun i j _ _ hknown => by
      unfold Before at hknown
      omega
  obtain ⟨dp₃, hrows, h₃⟩ := fillRows a b hborders
  have hlast := h₃.cells a.length b.length (.inr (.inl (by omega))) le_rfl le_rfl
  rw [List.take_length, List.take_length] at hlast
  rw [editDistance, hcolumn, ok_bind, hrow, ok_bind, hrows, ok_bind]
  exact readCell_of_cell hlast

/-- What the table computes is the least number of edits from one text to the other, and hence a
metric. -/
theorem editDistance_isLeast (a b : List Char) :
    ∃ n, editDistance a b = .ok n ∧ IsLeast {k | Edits k a b} n ∧ (n = 0 ↔ a = b) ∧
      editDistance b a = .ok n ∧
      ∀ c, ∃ m l, editDistance b c = .ok m ∧ editDistance a c = .ok l ∧ l ≤ n + m := by
  refine ⟨levenshtein a b, editDistance_eq a b, isLeast_levenshtein a b, levenshtein_eq_zero_iff,
    ?_, fun c => ?_⟩
  · rw [levenshtein_comm]
    exact editDistance_eq b a
  · exact ⟨levenshtein b c, levenshtein a c, editDistance_eq b c, editDistance_eq a c,
      levenshtein_triangle a b c⟩

end Mockinx
