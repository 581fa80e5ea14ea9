import Mockinx.Chaos
import Mockinx.Lib.Weights

/-!
Which chaos entry a roll selects, in exact arithmetic. The percentages cut the range of the roll
into intervals, one for each entry, and what is left above their sum is a normal request.
-/

set_option autoImplicit false
set_option relaxedAutoImplicit false

namespace Mockinx

open Lib

variable {F : Type}

def percentages (entries : List (ChaosEntry F)) : List F := entries.map ChaosEntry.p

/-- The position at which the scan of the entries stops, if it does. -/
def selectedAt [Zero F] [Add F] [LT F] [DecidableLT F] (entries : List (ChaosEntry F)) (roll : F) :
    Option ℕ :=
  pick roll 0 (percentages entries)

def resultAt (entries : List (ChaosEntry F)) (i : Option ℕ) : ChaosResult :=
  match i.bind fun i => entries[i]? with
  | some entry => .override entry.reply entry.serve
  | none => .normal

private theorem resultAt_cons (entry : ChaosEntry F) (entries : List (ChaosEntry F))
    (i : Option ℕ) :
    resultAt (entry :: entries) (i.map (· + 1)) = resultAt entries i := by
  cases i <;> rfl

private theorem selectChaos_eq [Add F] [LT F] [DecidableLT F] (roll cumulative : F)
    (entries : List (ChaosEntry F)) :
    selectChaos roll cumulative entries =
      resultAt entries (pick roll cumulative (percentages entries)) := by
  induction entries generalizing cumulative with
  | nil => rfl
  | cons entry entries ih =>
    rw [selectChaos, percentages, List.map_cons, pick]
    split_ifs with hlt
    · rfl
    · rw [resultAt_cons]
      exact ih (cumulative + entry.p)

theorem resolveChaos_eq [Zero F] [Add F] [LT F] [DecidableLT F] (entries : List (ChaosEntry F))
    (roll : F) : resolveChaos entries roll = resultAt entries (selectedAt entries roll) :=
  selectChaos_eq roll 0 entries

private theorem exists_of_selectedAt [Zero F] [Add F] [LT F] [DecidableLT F]
    {entries : List (ChaosEntry F)} {roll : F} {i : ℕ} (h : selectedAt entries roll = some i) :
    ∃ entry, entries[i]? = some entry := by
  have hi : i < (percentages entries).length := lt_length_of_pick h
  rw [percentages, List.length_map] at hi
  exact ⟨entries[i], List.getElem?_eq_getElem hi⟩

private theorem resolveChaos_eq_normal_iff [Zero F] [Add F] [LT F] [DecidableLT F]
    {entries : List (ChaosEntry F)} {roll : F} :
    resolveChaos entries roll = .normal ↔ selectedAt entries roll = none := by
  rw [resolveChaos_eq, resultAt]
  cases h : selectedAt entries roll with
  | none => simp
  | some i =>
    obtain ⟨entry, hentry⟩ := exists_of_selectedAt h
    simp [hentry]

private theorem resolveChaos_append [Zero F] [Add F] [LT F] [DecidableLT F]
    {entries : List (ChaosEntry F)} {roll : F} {i : ℕ} (h : selectedAt entries roll = some i)
    (more : List (ChaosEntry F)) :
    resolveChaos (entries ++ more) roll = resolveChaos entries roll := by
  have happend : selectedAt (entries ++ more) roll = some i := by
    rw [selectedAt, percentages, List.map_append]
    exact pick_append h _
  obtain ⟨entry, hentry⟩ := exists_of_selectedAt h
  have hi : i < entries.length := (List.getElem?_eq_some_iff.mp hentry).1
  rw [resolveChaos_eq, resolveChaos_eq, happend, h, resultAt, resultAt, Option.bind_some,
    Option.bind_some, List.getElem?_append_left hi]

section Exact

variable [AddCommGroup F] [LinearOrder F]

def rolls (entries : List (ChaosEntry F)) (i : ℕ) : Set F :=
  Set.Ico (startOf (percentages entries) i) (startOf (percentages entries) (i + 1))

/-- The entries share the rolls below their total, each as much as its percentage. -/
structure PartitionsRolls (entries : List (ChaosEntry F)) : Prop where
  resolves : ∀ roll, resolveChaos entries roll = resultAt entries (selectedAt entries roll)
  selects : ∀ roll, 0 ≤ roll → ∀ i,
    selectedAt entries roll = some i ↔ i < entries.length ∧ roll ∈ rolls entries i
  normal : ∀ roll, 0 ≤ roll →
    (resolveChaos entries roll = .normal ↔ (percentages entries).sum ≤ roll)
  disjoint : Pairwise (Function.onFun Disjoint (rolls entries))
  covers : ∀ roll, (∃ i < entries.length, roll ∈ rolls entries i) ↔
    0 ≤ roll ∧ roll < (percentages entries).sum
  length : ∀ i entry, entries[i]? = some entry →
    startOf (percentages entries) (i + 1) = startOf (percentages entries) i + entry.p
  zero : ∀ i entry, entries[i]? = some entry → entry.p = 0 →
    ∀ roll, 0 ≤ roll → selectedAt entries roll ≠ some i
  append : ∀ roll, (selectedAt entries roll).isSome → ∀ more,
    resolveChaos (entries ++ more) roll = resolveChaos entries roll

variable [IsOrderedAddMonoid F] {entries : List (ChaosEntry F)}

private theorem selectedAt_eq_some_iff (hp : ∀ p ∈ percentages entries, 0 ≤ p) {roll : F}
    (hroll : 0 ≤ roll) (i : ℕ) :
    selectedAt entries roll = some i ↔ i < entries.length ∧ roll ∈ rolls entries i := by
  rw [selectedAt, pick_eq_some_iff hp hroll, zero_add, zero_add, percentages, List.length_map]
  rfl

private theorem selectedAt_eq_none_iff (hp : ∀ p ∈ percentages entries, 0 ≤ p) {roll : F}
    (hroll : 0 ≤ roll) :
    selectedAt entries roll = none ↔ (percentages entries).sum ≤ roll := by
  rw [selectedAt, pick_eq_none_iff hp hroll, zero_add]

omit [LinearOrder F] [IsOrderedAddMonoid F] in
private theorem startOf_percentages_succ {i : ℕ} {entry : ChaosEntry F}
    (h : entries[i]? = some entry) :
    startOf (percentages entries) (i + 1) = startOf (percentages entries) i + entry.p := by
  refine startOf_succ ?_
  rw [percentages, List.getElem?_map, h, Option.map_some]

private theorem exists_mem_rolls_iff (hp : ∀ p ∈ percentages entries, 0 ≤ p) (roll : F) :
    (∃ i < entries.length, roll ∈ rolls entries i) ↔
      0 ≤ roll ∧ roll < (percentages entries).sum := by
  constructor
  · rintro ⟨i, hi, hmem⟩
    have hroll : 0 ≤ roll := (startOf_nonneg hp i).trans hmem.1
    refine ⟨hroll, ?_⟩
    by_contra hnot
    have hnone := (selectedAt_eq_none_iff hp hroll).mpr (not_lt.mp hnot)
    rw [(selectedAt_eq_some_iff hp hroll i).mpr ⟨hi, hmem⟩] at hnone
    cases hnone
  · rintro ⟨hroll, hlt⟩
    cases hselected : selectedAt entries roll with
    | none => exact absurd hlt (not_lt.mpr ((selectedAt_eq_none_iff hp hroll).mp hselected))
    | some i => exact ⟨i, (selectedAt_eq_some_iff hp hroll i).mp hselected⟩

/-- The selection partitions the rolls, whatever the percentages sum up to. -/
theorem chaos_partitions_rolls (hp : ∀ entry ∈ entries, 0 ≤ entry.p) :
    PartitionsRolls entries := by
  have hps : ∀ p ∈ percentages entries, 0 ≤ p := by
    intro p hmem
    obtain ⟨entry, hentry, rfl⟩ := List.mem_map.mp hmem
    exact hp entry hentry
  exact
    { resolves := resolveChaos_eq entries
      selects := fun roll hroll i => selectedAt_eq_some_iff hps hroll i
      normal := fun roll hroll =>
        resolveChaos_eq_normal_iff.trans (selectedAt_eq_none_iff hps hroll)
      disjoint := pairwise_disjoint_intervals hps
      covers := exists_mem_rolls_iff hps
      length := fun i entry h => startOf_percentages_succ h
      zero := fun i entry h hzero roll hroll hselected => by
        have hmem := ((selectedAt_eq_some_iff hps hroll i).mp hselected).2
        rw [rolls, startOf_percentages_succ h, hzero, add_zero, Set.Ico_self] at hmem
        exact hmem
      append := fun roll h more => by
        obtain ⟨i, hi⟩ := Option.isSome_iff_exists.mp h
        exact resolveChaos_append hi more }

theorem chaos_partitions_three_entries :
    let entry (p : ℚ) : ChaosEntry ℚ := { p, reply := none, serve := none }
    PartitionsRolls [entry 30, entry 0, entry 70] := by
  intro entry
  exact chaos_partitions_rolls (by simp [entry])

end Exact

end Mockinx
