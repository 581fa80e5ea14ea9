import Mathlib.Data.List.OfFn
import Mathlib.Data.List.Basic
import Mathlib.Data.List.Induction
import Mathlib.Data.List.Nodup

/-!
An insertion-ordered map: distinct keys in order, and one value for each position. The keys are
distinct by construction, so the map may also sit inside an inductive type as the carrier of an
object node. Insertion overwrites in place when the key is present and appends when it is absent;
removal shifts the later positions down and keeps their order.
-/

set_option autoImplicit false
set_option relaxedAutoImplicit false

namespace Mockinx.Lib

universe u v

/-- Distinct keys in insertion order, with the value stored at each position. -/
structure IndexMap (K : Type u) (V : Type v) where
  keys : List K
  nodup : keys.Nodup
  vals : Fin keys.length → V

namespace IndexMap

variable {K : Type u} {V : Type v}

def entries (m : IndexMap K V) : List (K × V) :=
  List.ofFn fun i => (m.keys.get i, m.vals i)

def values (m : IndexMap K V) : List V := m.entries.map Prod.snd

/-- The map with the given pairs, whose keys are already distinct. -/
def ofEntries (l : List (K × V)) (h : (l.map Prod.fst).Nodup) : IndexMap K V where
  keys := l.map Prod.fst
  nodup := h
  vals i := (l.get (i.cast (List.length_map _))).2

def empty : IndexMap K V := ofEntries [] List.nodup_nil

instance : EmptyCollection (IndexMap K V) := ⟨empty⟩

@[simp] theorem length_entries (m : IndexMap K V) : m.entries.length = m.keys.length := by
  simp [entries]

@[simp] theorem map_fst_entries (m : IndexMap K V) : m.entries.map Prod.fst = m.keys := by
  apply List.ext_get
  · simp
  · intro n h₁ h₂
    simp [entries]

theorem nodup_map_fst_entries (m : IndexMap K V) : (m.entries.map Prod.fst).Nodup := by
  rw [map_fst_entries]
  exact m.nodup

@[simp] theorem entries_ofEntries (l : List (K × V)) (h : (l.map Prod.fst).Nodup) :
    (ofEntries l h).entries = l := by
  apply List.ext_get
  · simp [ofEntries]
  · intro n h₁ h₂
    simp [entries, ofEntries]

private theorem mem_keys_iff {m : IndexMap K V} {k : K} : k ∈ m.keys ↔ ∃ v, (k, v) ∈ m.entries := by
  rw [← map_fst_entries m]
  simp only [List.mem_map, Prod.exists, exists_and_right, exists_eq_right]

private theorem mem_keys_of_mem {m : IndexMap K V} {k : K} {v : V} (h : (k, v) ∈ m.entries) :
    k ∈ m.keys :=
  mem_keys_iff.mpr ⟨v, h⟩

private theorem value_unique {m : IndexMap K V} {k : K} {v w : V}
    (hv : (k, v) ∈ m.entries) (hw : (k, w) ∈ m.entries) : v = w := by
  have h := List.inj_on_of_nodup_map m.nodup_map_fst_entries hv hw rfl
  exact congrArg Prod.snd h

private theorem ext_entries {m n : IndexMap K V} (h : m.entries = n.entries) : m = n := by
  have hkeys : m.keys = n.keys := by rw [← map_fst_entries, h, map_fst_entries]
  obtain ⟨ks, hks, vs⟩ := m
  obtain ⟨ls, hls, ws⟩ := n
  obtain rfl : ks = ls := hkeys
  have hvals : vs = ws := by
    funext i
    have hpair := congrFun (List.ofFn_injective h) i
    exact congrArg Prod.snd hpair
  subst hvals
  rfl

variable [DecidableEq K]

/-- The value stored under a key. -/
def get? (m : IndexMap K V) (k : K) : Option V :=
  if h : k ∈ m.keys then some (m.vals ⟨m.keys.idxOf k, List.idxOf_lt_length_of_mem h⟩) else none

def containsKey (m : IndexMap K V) (k : K) : Bool := decide (k ∈ m.keys)

theorem get?_eq_none {m : IndexMap K V} {k : K} : m.get? k = none ↔ k ∉ m.keys := by
  simp [get?]

theorem get?_eq_some {m : IndexMap K V} {k : K} {v : V} :
    m.get? k = some v ↔ (k, v) ∈ m.entries := by
  have own : ∀ h : k ∈ m.keys,
      (k, m.vals ⟨m.keys.idxOf k, List.idxOf_lt_length_of_mem h⟩) ∈ m.entries := by
    intro h
    simp only [entries, List.mem_ofFn]
    exact ⟨⟨m.keys.idxOf k, List.idxOf_lt_length_of_mem h⟩, by simp⟩
  constructor
  · intro h
    by_cases hk : k ∈ m.keys
    · simp only [get?, hk, ↓reduceDIte, Option.some.injEq] at h
      subst h
      exact own hk
    · simp [get?, hk] at h
  · intro h
    have hk := mem_keys_of_mem h
    simp only [get?, hk, ↓reduceDIte, Option.some.injEq]
    exact value_unique (own hk) h

private theorem get?_isSome {m : IndexMap K V} {k : K} : (m.get? k).isSome ↔ k ∈ m.keys := by
  simp [get?]

/-- Overwrite in place when the key is present, append the pair when it is absent. -/
def insert (m : IndexMap K V) (k : K) (v : V) : IndexMap K V :=
  if h : k ∈ m.keys then
    { m with vals := fun i => if m.keys.get i = k then v else m.vals i }
  else
    ofEntries (m.entries ++ [(k, v)]) (by
      simpa [List.nodup_append, m.nodup] using fun a ha => ne_of_mem_of_not_mem ha h)

def shiftRemove (m : IndexMap K V) (k : K) : IndexMap K V :=
  ofEntries (m.entries.filter fun p => p.1 ≠ k)
    (m.nodup_map_fst_entries.sublist (List.filter_sublist.map _))

theorem entries_insert_of_mem {m : IndexMap K V} {k : K} (v : V) (h : k ∈ m.keys) :
    (m.insert k v).entries = m.entries.map fun p => if p.1 = k then (k, v) else p := by
  rw [show m.insert k v =
    { m with vals := fun i => if m.keys.get i = k then v else m.vals i } by simp [insert, h]]
  simp only [entries, List.map_ofFn]
  congr 1
  funext i
  by_cases hi : m.keys.get i = k
  · simp only [hi, ↓reduceIte, Function.comp_apply]
  · simp only [hi, ↓reduceIte, Function.comp_apply]

theorem entries_insert_of_not_mem {m : IndexMap K V} {k : K} (v : V) (h : k ∉ m.keys) :
    (m.insert k v).entries = m.entries ++ [(k, v)] := by
  simp [insert, h]

@[simp] theorem entries_shiftRemove (m : IndexMap K V) (k : K) :
    (m.shiftRemove k).entries = m.entries.filter fun p => p.1 ≠ k := by
  simp [shiftRemove]

theorem keys_insert_of_mem {m : IndexMap K V} {k : K} (v : V) (h : k ∈ m.keys) :
    (m.insert k v).keys = m.keys := by
  simp [insert, h]

private theorem keys_insert_of_not_mem {m : IndexMap K V} {k : K} (v : V) (h : k ∉ m.keys) :
    (m.insert k v).keys = m.keys ++ [k] := by
  rw [← map_fst_entries, entries_insert_of_not_mem v h]
  simp

theorem values_insert_of_not_mem {m : IndexMap K V} {k : K} (v : V) (h : k ∉ m.keys) :
    (m.insert k v).values = m.values ++ [v] := by
  rw [values, entries_insert_of_not_mem v h, List.map_append]
  rfl

theorem mem_keys_insert {m : IndexMap K V} {k j : K} {v : V} :
    j ∈ (m.insert k v).keys ↔ j ∈ m.keys ∨ j = k := by
  by_cases h : k ∈ m.keys
  · rw [keys_insert_of_mem v h]
    constructor
    · exact Or.inl
    · rintro (hj | rfl)
      · exact hj
      · exact h
  · simp [keys_insert_of_not_mem v h]

theorem mem_keys_shiftRemove {m : IndexMap K V} {k j : K} :
    j ∈ (m.shiftRemove k).keys ↔ j ∈ m.keys ∧ j ≠ k := by
  rw [← map_fst_entries, entries_shiftRemove, ← map_fst_entries m]
  simp only [List.mem_map, List.mem_filter, decide_eq_true_eq]
  constructor
  · rintro ⟨p, ⟨hp, hk⟩, rfl⟩
    exact ⟨⟨p, hp, rfl⟩, hk⟩
  · rintro ⟨⟨p, hp, rfl⟩, hk⟩
    exact ⟨p, ⟨hp, hk⟩, rfl⟩

private theorem mem_entries_insert {m : IndexMap K V} {k j : K} {v w : V} :
    (j, w) ∈ (m.insert k v).entries ↔ (j = k ∧ w = v) ∨ (j ≠ k ∧ (j, w) ∈ m.entries) := by
  by_cases h : k ∈ m.keys
  · rw [entries_insert_of_mem v h]
    obtain ⟨old, hold⟩ := mem_keys_iff.mp h
    constructor
    · intro hm
      obtain ⟨⟨a, b⟩, hp, he⟩ := List.mem_map.mp hm
      by_cases ha : a = k
      · simp only [ha, ↓reduceIte, Prod.mk.injEq] at he
        exact Or.inl ⟨he.1.symm, he.2.symm⟩
      · simp only [ha, ↓reduceIte, Prod.mk.injEq] at he
        obtain ⟨rfl, rfl⟩ := he
        exact Or.inr ⟨ha, hp⟩
    · rintro (⟨rfl, rfl⟩ | ⟨hj, hm⟩)
      · exact List.mem_map.mpr ⟨(j, old), hold, by simp⟩
      · exact List.mem_map.mpr ⟨(j, w), hm, by simp [hj]⟩
  · rw [entries_insert_of_not_mem v h]
    simp only [List.mem_append, List.mem_singleton, Prod.mk.injEq]
    constructor
    · rintro (hm | he)
      · exact Or.inr ⟨fun hj => h (hj ▸ mem_keys_of_mem hm), hm⟩
      · exact Or.inl he
    · rintro (he | ⟨_, hm⟩)
      · exact Or.inr he
      · exact Or.inl hm

theorem get?_insert (m : IndexMap K V) (k j : K) (v : V) :
    (m.insert k v).get? j = if j = k then some v else m.get? j := by
  ext w
  rw [get?_eq_some, mem_entries_insert]
  by_cases hj : j = k
  · simp [hj, eq_comm]
  · simp [hj, get?_eq_some]

@[simp] theorem get?_insert_self (m : IndexMap K V) (k : K) (v : V) :
    (m.insert k v).get? k = some v := by
  simp [get?_insert]

theorem get?_shiftRemove (m : IndexMap K V) (k j : K) :
    (m.shiftRemove k).get? j = if j = k then none else m.get? j := by
  ext w
  rw [get?_eq_some, entries_shiftRemove, List.mem_filter]
  by_cases hj : j = k
  · simp [hj]
  · simp [hj, get?_eq_some]

@[simp] theorem get?_empty (k : K) : (∅ : IndexMap K V).get? k = none :=
  get?_eq_none.mpr List.not_mem_nil

def extend (m p : IndexMap K V) : IndexMap K V :=
  p.entries.foldl (fun m e => m.insert e.1 e.2) m

private theorem get?_foldl_insert {l : List (K × V)} (hl : (l.map Prod.fst).Nodup)
    (m : IndexMap K V) (k : K) (v : V) : (l.foldl (fun m e => m.insert e.1 e.2) m).get? k = some v ↔
      (k, v) ∈ l ∨ (k ∉ l.map Prod.fst ∧ m.get? k = some v) := by
  induction l generalizing m with
  | nil => simp
  | cons e l ih =>
    obtain ⟨j, w⟩ := e
    simp only [List.map_cons, List.nodup_cons] at hl
    rw [List.foldl_cons, ih hl.2, get?_insert]
    by_cases hk : k = j
    · subst hk
      have hnot : (k, v) ∉ l := fun hm => hl.1 (List.mem_map.mpr ⟨_, hm, rfl⟩)
      simp only [hnot, hl.1, not_false_eq_true, ↓reduceIte, Option.some.injEq, true_and,
        false_or, List.mem_cons, Prod.mk.injEq, or_false, List.map_cons, not_true_eq_false,
        false_and]
      exact eq_comm
    · simp [hk]

theorem get?_extend (m p : IndexMap K V) (k : K) :
    (m.extend p).get? k = (p.get? k).or (m.get? k) := by
  ext v
  rw [extend, get?_foldl_insert p.nodup_map_fst_entries, map_fst_entries, ← get?_eq_some,
    ← get?_eq_none]
  cases p.get? k with
  | none => simp
  | some w => simp

theorem exists_get?_of_mem {m : IndexMap K V} {k : K} (h : k ∈ m.keys) :
    ∃ v, m.get? k = some v :=
  Option.isSome_iff_exists.mp (get?_isSome.mpr h)

theorem mem_keys_of_get? {m : IndexMap K V} {k : K} {v : V} (h : m.get? k = some v) :
    k ∈ m.keys :=
  mem_keys_of_mem (get?_eq_some.mp h)

private theorem lookup_eq_some {l : List (K × V)} (hl : (l.map Prod.fst).Nodup) {k : K} {v : V} :
    l.lookup k = some v ↔ (k, v) ∈ l := by
  induction l with
  | nil => simp
  | cons e l ih =>
    obtain ⟨j, w⟩ := e
    simp only [List.map_cons, List.nodup_cons] at hl
    rw [List.lookup_cons]
    by_cases hk : k = j
    · subst hk
      have hnot : (k, v) ∉ l := fun hm => hl.1 (List.mem_map.mpr ⟨_, hm, rfl⟩)
      simp [hnot, eq_comm]
    · simp [hk, ih hl.2, beq_eq_false_iff_ne.mpr hk]

theorem lookup_entries (m : IndexMap K V) (k : K) : m.entries.lookup k = m.get? k := by
  ext v
  rw [lookup_eq_some m.nodup_map_fst_entries, get?_eq_some]

def fromPairs (l : List (K × V)) : IndexMap K V := l.foldl (fun m e => m.insert e.1 e.2) ∅

theorem fromPairs_concat (l : List (K × V)) (k : K) (v : V) :
    fromPairs (l ++ [(k, v)]) = (fromPairs l).insert k v := by
  simp [fromPairs]

theorem keys_fromPairs (l : List (K × V)) : (fromPairs l).keys = (l.map Prod.fst).eraseDups := by
  induction l using List.reverseRecOn with
  | nil => rfl
  | append_singleton l e ih =>
    obtain ⟨k, v⟩ := e
    rw [fromPairs_concat, List.map_append, List.eraseDups_append, ← ih]
    by_cases hk : k ∈ (fromPairs l).keys
    · have hm : k ∈ l.map Prod.fst := by simpa [ih] using hk
      rw [keys_insert_of_mem v hk]
      simp [List.removeAll, hm]
    · have hm : k ∉ l.map Prod.fst := by simpa [ih] using hk
      rw [keys_insert_of_not_mem v hk]
      simp [List.removeAll, hm, List.eraseDups_cons]

theorem get?_fromPairs (l : List (K × V)) (k : K) : (fromPairs l).get? k = l.reverse.lookup k := by
  induction l using List.reverseRecOn with
  | nil => simp [fromPairs]
  | append_singleton l e ih =>
    obtain ⟨j, v⟩ := e
    rw [fromPairs_concat, get?_insert, List.reverse_concat, List.lookup_cons, ih]
    by_cases hk : k = j
    · simp [hk]
    · simp [hk, beq_eq_false_iff_ne.mpr hk]

theorem get?_fromPairs_of_nodup {l : List (K × V)} (hl : (l.map Prod.fst).Nodup) {k : K} {v : V} :
    (fromPairs l).get? k = some v ↔ (k, v) ∈ l := by
  rw [fromPairs, get?_foldl_insert hl]
  simp

theorem entries_eq_filterMap (m : IndexMap K V) :
    m.entries = m.keys.filterMap fun k => (m.get? k).map fun v => (k, v) := by
  rw [← map_fst_entries m, List.filterMap_map]
  conv_lhs => rw [← List.filterMap_some (l := m.entries)]
  refine List.filterMap_congr fun e he => ?_
  have hget : m.get? e.1 = some e.2 := get?_eq_some.mpr he
  simp [hget]

def amend (m : IndexMap K V) (k : K) : Option V → IndexMap K V
  | some v => if k ∈ m.keys then m.insert k v else m
  | none => m.shiftRemove k

def amendEntry (k : K) (w : Option V) (p : K × V) : Option (K × V) :=
  if p.1 = k then w.map fun v => (k, v) else some p

private theorem entries_amend (m : IndexMap K V) (k : K) (w : Option V) :
    (m.amend k w).entries = m.entries.filterMap (amendEntry k w) := by
  cases w with
  | none =>
    rw [amend, entries_shiftRemove, ← List.filterMap_eq_filter]
    refine List.filterMap_congr fun p _ => ?_
    by_cases hp : p.1 = k <;> simp [amendEntry, hp, Option.guard]
  | some v =>
    by_cases hk : k ∈ m.keys
    · rw [amend, if_pos hk, entries_insert_of_mem v hk, ← List.filterMap_eq_map]
      refine List.filterMap_congr fun p _ => ?_
      by_cases hp : p.1 = k <;> simp [amendEntry, hp]
    · rw [amend, if_neg hk]
      conv_lhs => rw [← List.filterMap_some (l := m.entries)]
      refine List.filterMap_congr fun p hp => ?_
      have hne : p.1 ≠ k := ne_of_mem_of_not_mem (mem_keys_of_mem hp) hk
      simp [amendEntry, hne]

theorem amend_comm (m : IndexMap K V) {j k : K} (h : j ≠ k) (v w : Option V) :
    (m.amend j v).amend k w = (m.amend k w).amend j v := by
  refine ext_entries ?_
  simp only [entries_amend, List.filterMap_filterMap]
  refine List.filterMap_congr fun p _ => ?_
  by_cases hj : p.1 = j
  · cases v <;> simp [amendEntry, hj, h]
  · by_cases hk : p.1 = k
    · cases w <;> simp [amendEntry, hk, h.symm]
    · simp [amendEntry, hj, hk]

theorem get?_amend_of_ne (m : IndexMap K V) {j k : K} (h : k ≠ j) (w : Option V) :
    (m.amend j w).get? k = m.get? k := by
  cases w with
  | none => simp [amend, get?_shiftRemove, h]
  | some v =>
    rw [amend]
    split_ifs
    · simp [get?_insert, h]
    · rfl

end IndexMap

end Mockinx.Lib
