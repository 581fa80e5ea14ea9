import Mockinx.Lib.Run
import Mockinx.Reply.Crud

/-!
Identity of the stored items: whether each item is an object whose id field matches the key it is
stored under, and whether that field keeps its value for as long as the item stays in the store.
The condition under which one operation preserves this is exact, and so is its closure over runs.
-/

set_option autoImplicit false
set_option relaxedAutoImplicit false

namespace Mockinx

open Lib Lib.Run

def HasId (idField key : String) (item : Value) : Prop :=
  ∃ m v, item = .object m ∧ m.get? idField = some v ∧ valueToIdKey v = key

private theorem HasId.exists_get? {idField key : String} {item : Value}
    (h : HasId idField key item) :
    ∃ v, item.get? idField = some v ∧ valueToIdKey v = key := by
  obtain ⟨m, v, rfl, hv, hk⟩ := h
  exact ⟨v, hv, hk⟩

namespace CrudStore

def idOf (s : CrudStore) (key : String) : Option Value :=
  (s.state.items.get? key).bind fun item => item.get? s.idField

def Identified (s : CrudStore) : Prop :=
  ∀ key item, s.state.items.get? key = some item → HasId s.idField key item

def IdsKept (s s' : CrudStore) : Prop :=
  ∀ key, key ∈ s.state.items.keys → key ∈ s'.state.items.keys → s'.idOf key = s.idOf key

def KeepsId (s : CrudStore) : CrudOp → Prop
  | .create uuid _ => ∀ v, s.idOf (s.createdKey uuid) = some v → s.createdId uuid = v
  | .replace id _ => ∀ v, s.idOf id = some v → idKeyToValue id = v
  | .patch id body => id ∈ s.state.items.keys →
      ∃ p, body = .object p ∧ ∀ v, p.get? s.idField = some v → s.idOf id = some v
  | .list | .get _ | .delete _ | .methodNotAllowed => True

private theorem Identified.exists_idOf {s : CrudStore} (hs : s.Identified) {key : String}
    (hk : key ∈ s.state.items.keys) : ∃ v, s.idOf key = some v ∧ valueToIdKey v = key := by
  obtain ⟨item, hitem⟩ := IndexMap.exists_get?_of_mem hk
  obtain ⟨v, hv, hkey⟩ := (hs key item hitem).exists_get?
  exact ⟨v, by simp [idOf, hitem, hv], hkey⟩

private theorem mem_keys_of_idOf {s : CrudStore} {key : String} {v : Value}
    (h : s.idOf key = some v) :
    key ∈ s.state.items.keys := by
  obtain ⟨item, hitem, _⟩ := Option.bind_eq_some_iff.mp h
  exact IndexMap.mem_keys_of_get? hitem

private theorem idOf_insert {s s' : CrudStore} {key : String} {item : Value}
    (hf : s'.idField = s.idField) (hi : s'.state.items = s.state.items.insert key item)
    (j : String) : s'.idOf j = if j = key then item.get? s.idField else s.idOf j := by
  simp only [idOf, hi, hf, IndexMap.get?_insert]
  split_ifs <;> rfl

private theorem identified_insert_iff {s s' : CrudStore} {key : String} {item : Value}
    (hs : s.Identified) (hf : s'.idField = s.idField)
    (hi : s'.state.items = s.state.items.insert key item) :
    s'.Identified ∧ s.IdsKept s' ↔
      HasId s.idField key item ∧ ∀ v, s.idOf key = some v → item.get? s.idField = some v := by
  constructor
  · rintro ⟨hid, hkept⟩
    refine ⟨hf ▸ hid key item (by simp [hi]), ?_⟩
    intro v hv
    have hkey := hkept key (mem_keys_of_idOf hv) (by simp [hi, IndexMap.mem_keys_insert])
    rw [idOf_insert hf hi, if_pos rfl] at hkey
    exact hkey.trans hv
  · rintro ⟨hitem, hsame⟩
    constructor
    · intro j other hj
      rw [hi, IndexMap.get?_insert] at hj
      split_ifs at hj with hjk
      · obtain rfl : item = other := by simpa using hj
        exact hf ▸ hjk ▸ hitem
      · exact hf ▸ hs j other hj
    · intro j hj _
      rw [idOf_insert hf hi]
      split_ifs with hjk
      · subst hjk
        obtain ⟨v, hv, _⟩ := hs.exists_idOf hj
        exact (hsame v hv).trans hv.symm
      · rfl

private theorem identified_setItems_iff {s : CrudStore} (hs : s.Identified) (key : String)
    (item : Value) :
    (s.setItems (s.state.items.insert key item)).Identified ∧
        s.IdsKept (s.setItems (s.state.items.insert key item)) ↔
      HasId s.idField key item ∧ ∀ v, s.idOf key = some v → item.get? s.idField = some v :=
  identified_insert_iff hs rfl rfl

theorem valueToIdKey_createdId (s : CrudStore) (uuid : String) :
    valueToIdKey (s.createdId uuid) = s.createdKey uuid := by
  rw [createdId, createdKey]
  split_ifs <;> rfl

private theorem hasId_insert_id (m : Map) (idField : String) (v : Value) :
    HasId idField (valueToIdKey v) (.object (m.insert idField v)) :=
  ⟨_, v, rfl, IndexMap.get?_insert_self m idField v, rfl⟩

private theorem create_keeps_iff {o : OverflowChecks} {s s' : CrudStore} {uuid : String}
    {body : Value} {r : CrudResponse} (hs : s.Identified) (h : s.create o uuid body = .ok (s', r)) :
    s'.Identified ∧ s.IdsKept s' ↔ s.KeepsId (.create uuid body) := by
  rw [create_eq] at h
  cases hn : s.nextIdAfter o with
  | error p => simp [hn, Except.map] at h
  | ok n =>
    simp only [hn, Except.map, Except.ok.injEq, Prod.mk.injEq] at h
    have hf : s'.idField = s.idField := by rw [← h.1]
    have hi : s'.state.items =
        s.state.items.insert (s.createdKey uuid) (s.createdItem uuid body) := by rw [← h.1]
    rw [identified_insert_iff hs hf hi]
    have hid := hasId_insert_id (asItem body) s.idField (s.createdId uuid)
    rw [valueToIdKey_createdId] at hid
    simp [createdItem, hid, KeepsId, Value.get?]

private theorem unchanged_keeps {s : CrudStore} (hs : s.Identified) : s.Identified ∧ s.IdsKept s :=
  ⟨hs, fun _ _ _ => rfl⟩

private theorem replace_keeps_iff {s : CrudStore} {id : String} {body : Value} (hs : s.Identified) :
    (s.replace id body).1.Identified ∧ s.IdsKept (s.replace id body).1 ↔
      s.KeepsId (.replace id body) := by
  rw [replace, IndexMap.containsKey]
  split_ifs with hk
  · refine (identified_setItems_iff hs id _).trans ?_
    obtain ⟨v, hv, hkey⟩ := hs.exists_idOf (by simpa using hk)
    simp only [KeepsId, hv, Option.some.injEq, forall_eq', Value.get?, IndexMap.get?_insert_self]
    constructor
    · exact fun h => h.2
    · intro h
      refine ⟨?_, h⟩
      have hid := hasId_insert_id (asItem body) s.idField (idKeyToValue id)
      rwa [h, hkey, ← h] at hid
  · have hnone : ∀ v, s.idOf id ≠ some v := fun v hv => hk (by simpa using mem_keys_of_idOf hv)
    simp [unchanged_keeps hs, KeepsId, hnone]

private theorem patch_keeps_iff {s : CrudStore} {id : String} {body : Value} (hs : s.Identified) :
    (s.patch id body).1.Identified ∧ s.IdsKept (s.patch id body).1 ↔
      s.KeepsId (.patch id body) := by
  rw [patch]
  cases hget : s.state.items.get? id with
  | none =>
    have hk := IndexMap.get?_eq_none.mp hget
    simp [unchanged_keeps hs, KeepsId, hk]
  | some existing =>
    have hk := IndexMap.mem_keys_of_get? hget
    obtain ⟨m, v, rfl, hv, hkey⟩ := hs id existing hget
    have hidOf : s.idOf id = some v := by simp [idOf, hget, Value.get?, hv]
    refine (identified_setItems_iff hs id _).trans ?_
    simp only [KeepsId, hk, hidOf, forall_const, Option.some.injEq, forall_eq']
    constructor
    · rintro ⟨⟨m', w, hm', hw, _⟩, hsame⟩
      cases body with
      | object p =>
        refine ⟨p, rfl, fun u hu => ?_⟩
        have : some u = some v := by
          simpa [mergeValues, Value.get?, IndexMap.get?_extend, hu] using hsame
        exact (Option.some.inj this).symm
      | null | bool _ | number _ | string _ | array _ =>
        exact absurd hm' (by simp [mergeValues])
    · rintro ⟨p, rfl, hp⟩
      have hmerged : (m.extend p).get? s.idField = some v := by
        rw [IndexMap.get?_extend, hv]
        cases hpv : p.get? s.idField with
        | none => rfl
        | some u => rw [← hp u hpv]; rfl
      exact ⟨⟨_, v, rfl, hmerged, hkey⟩, hmerged⟩

private theorem delete_keeps {s : CrudStore} {id : String} (hs : s.Identified) :
    (s.delete id).1.Identified ∧ s.IdsKept (s.delete id).1 := by
  rw [delete]
  cases s.state.items.get? id with
  | none => exact unchanged_keeps hs
  | some item =>
    constructor
    · intro key other h
      rw [setItems, IndexMap.get?_shiftRemove] at h
      split_ifs at h
      exact hs key other h
    · intro key _ hk
      have hne : key ≠ id := (IndexMap.mem_keys_shiftRemove.mp hk).2
      simp [idOf, setItems, IndexMap.get?_shiftRemove, hne]

private theorem step_keeps_iff {o : OverflowChecks} {s : CrudStore} {op : CrudOp}
    {r : CrudStore × CrudResponse} (hs : s.Identified) (h : s.step o op = some r) :
    r.1.Identified ∧ s.IdsKept r.1 ↔ s.KeepsId op := by
  cases op with
  | create uuid body =>
    cases hc : s.create o uuid body with
    | error p => simp [step, CrudStore.apply, hc, Except.toOption] at h
    | ok q =>
      obtain rfl : q = r := by simpa [step, CrudStore.apply, hc, Except.toOption] using h
      exact create_keeps_iff hs hc
  | replace id body =>
    obtain rfl : s.replace id body = r := by
      simpa [step, CrudStore.apply, Except.toOption] using h
    exact replace_keeps_iff hs
  | patch id body =>
    obtain rfl : s.patch id body = r := by
      simpa [step, CrudStore.apply, Except.toOption] using h
    exact patch_keeps_iff hs
  | delete id =>
    obtain rfl : s.delete id = r := by
      simpa [step, CrudStore.apply, Except.toOption] using h
    simp [delete_keeps hs, KeepsId]
  | list | get id | methodNotAllowed =>
    obtain ⟨s', resp⟩ := r
    obtain ⟨rfl, _⟩ : s = s' ∧ _ := by
      simpa [step, CrudStore.apply, Except.toOption] using h
    simp [unchanged_keeps hs, KeepsId]

private theorem identified_loadItem {idField : String} {acc : IndexMap String Value × UInt64}
    (h : ∀ key item, acc.1.get? key = some item → HasId idField key item) (item : Value) :
    ∀ key other, (loadItem idField acc item).1.get? key = some other →
      HasId idField key other := by
  rw [loadItem]
  cases hid : item.get? idField with
  | none => exact h
  | some v =>
    intro key other hget
    rw [IndexMap.get?_insert] at hget
    split_ifs at hget with hkey
    · obtain rfl : item = other := by simpa using hget
      cases item with
      | object m => exact ⟨m, v, rfl, hid, hkey.symm⟩
      | null | bool _ | number _ | string _ | array _ => simp [Value.get?] at hid
    · exact h key other hget

private theorem identified_load (idField : String) (data : List Value) :
    ∀ key item, (load idField data).1.get? key = some item → HasId idField key item := by
  rw [load]
  refine List.foldlRecOn data _ (motive := fun acc : IndexMap String Value × UInt64 =>
    ∀ key item, acc.1.get? key = some item → HasId idField key item) (by simp) ?_
  intro acc h item _
  exact identified_loadItem h item

private theorem identified_new {o : OverflowChecks} {spec : CrudSpec} {s : CrudStore}
    (h : CrudStore.new o spec = .ok s) : s.Identified := by
  obtain ⟨hi, hf, _, _⟩ := new_eq_ok h
  intro key item hget
  rw [hi] at hget
  rw [hf]
  exact identified_load _ _ key item hget

end CrudStore

/-- Along a run of operations from a new store, every stored item is an object with the id of its
key, and no step changes the id value of an item that it leaves in the store. -/
def IdentityKept (o : OverflowChecks) (spec : CrudSpec) (ops : List CrudOp) : Prop :=
  ∀ s, CrudStore.new o spec = .ok s → s.Identified ∧
    Along (CrudStore.step o) (fun s _ r => r.1.Identified ∧ s.IdsKept r.1) s ops

/-- Every operation of the run meets its condition in the state before it. -/
def EveryStepKeepsId (o : OverflowChecks) (spec : CrudSpec) (ops : List CrudOp) : Prop :=
  ∀ s, CrudStore.new o spec = .ok s → Along (CrudStore.step o) (fun s op _ => s.KeepsId op) s ops

/-- A run keeps the identity of the items exactly when each of its operations meets its
condition. -/
theorem identity_kept_iff (o : OverflowChecks) (spec : CrudSpec) (ops : List CrudOp) :
    IdentityKept o spec ops ↔ EveryStepKeepsId o spec ops := by
  have hrun : ∀ s, CrudStore.new o spec = .ok s →
      (Along (CrudStore.step o) (fun s _ r => r.1.Identified ∧ s.IdsKept r.1) s ops ↔
        Along (CrudStore.step o) (fun s op _ => s.KeepsId op) s ops) := by
    intro s hs
    refine along_iff_along (I := CrudStore.Identified) ?_ ?_ (CrudStore.identified_new hs)
    · intro s op r hi hstep
      exact CrudStore.step_keeps_iff hi hstep
    · intro s op r _ _ hp
      exact hp.1
  constructor
  · intro h s hs
    exact (hrun s hs).mp (h s hs).2
  · intro h s hs
    exact ⟨CrudStore.identified_new hs, (hrun s hs).mpr (h s hs)⟩

/-- A patch whose body did not parse replaces the item by `null`. -/
theorem identity_lost_by_unparsed_patch :
    ¬ IdentityKept .checked { data := [.obj [("id", .ofNat 1)] (by decide)] }
      [.patch "1" .null] := by
  intro h
  obtain ⟨_, hrun⟩ := h _ rfl
  obtain ⟨hid, _⟩ := (hrun _ rfl).1
  obtain ⟨m, v, hm, _⟩ := hid "1" .null (by decide)
  cases hm

end Mockinx
