import Mockinx.Lib.Run
import Mockinx.Reply.Crud

/-!
The purpose of a resource in its own terms: a list of key/item pairs with distinct keys. Loading
keeps the first position and the last value of each key, a create appends under a new key, a
replace or patch changes one pair where it stands, and a delete removes one pair. The store with
its hashed, insertion-ordered map is this list as long as the created keys are new.
-/

set_option autoImplicit false
set_option relaxedAutoImplicit false

namespace Mockinx

open Lib Lib.Run

/-- The pairs of a resource in order, and the next automatic id. -/
structure CrudList where
  id : CrudIdSpec
  pairs : List (String × Value)
  distinct : (pairs.map Prod.fst).Nodup
  nextId : UInt64

namespace CrudList

/-- The first position and the last value of each key, with the next id past the largest one. -/
def load (o : OverflowChecks) (spec : CrudSpec) : Option CrudList :=
  let given := CrudStore.loadPairs spec.id.name spec.data
  let keys := (given.map Prod.fst).eraseDups
  (o.succ ((CrudStore.loadIds spec.id.name spec.data).foldl max 0)).toOption.map fun nextId =>
    { id := spec.id
      pairs := keys.filterMap fun k => (given.reverse.lookup k).map fun item => (k, item)
      distinct := by
        have hnodup : keys.Nodup := by
          rw [show keys = (IndexMap.fromPairs given).keys from (IndexMap.keys_fromPairs given).symm]
          exact IndexMap.nodup _
        rw [List.map_filterMap]
        refine hnodup.filterMap ?_
        intro a b c hc hb
        simp only [Option.map_map, Option.mem_def, Option.map_eq_some_iff,
          Function.comp_apply] at hc hb
        obtain ⟨_, _, rfl⟩ := hc
        obtain ⟨_, _, rfl⟩ := hb
        rfl
      nextId }

def append (L : CrudList) (key : String) (item : Value) (nextId : UInt64) : Option CrudList :=
  if h : key ∈ L.pairs.map Prod.fst then none
  else some {
    id := L.id
    pairs := L.pairs ++ [(key, item)]
    distinct := by
      rw [List.map_append, List.nodup_append]
      refine ⟨L.distinct, by simp, ?_⟩
      intro a ha b hb
      obtain rfl : b = key := by simpa using hb
      exact ne_of_mem_of_not_mem ha h
    nextId }

def set (L : CrudList) (key : String) (item : Value) : CrudList where
  id := L.id
  pairs := L.pairs.map fun p => if p.1 = key then (key, item) else p
  distinct := by
    have hmap : (L.pairs.map fun p => if p.1 = key then (key, item) else p).map Prod.fst =
        L.pairs.map Prod.fst := by
      rw [List.map_map]
      refine List.map_congr_left fun p _ => ?_
      by_cases h : p.1 = key <;> simp [h]
    rw [hmap]
    exact L.distinct
  nextId := L.nextId

def erase (L : CrudList) (key : String) : CrudList where
  id := L.id
  pairs := L.pairs.filter fun p => p.1 ≠ key
  distinct := L.distinct.sublist (List.filter_sublist.map _)
  nextId := L.nextId

def withId (L : CrudList) (body : Value) (idValue : Value) : Value :=
  .object ((asItem body).insert L.id.name idValue)

def create (o : OverflowChecks) (L : CrudList) (uuid : String) (body : Value) :
    Option (CrudList × CrudResponse) :=
  if L.id.new = "uuid" then
    let item := L.withId body (.string uuid)
    (L.append uuid item L.nextId).map (·, (201, item))
  else
    let item := L.withId body (.ofNat L.nextId)
    (o.succ L.nextId).toOption.bind fun nextId =>
      (L.append (toString L.nextId.toNat) item nextId).map (·, (201, item))

/-- One operation on the list of pairs. -/
def step (o : OverflowChecks) (L : CrudList) : CrudOp → Option (CrudList × CrudResponse)
  | .list => some (L, (200, .array (L.pairs.map Prod.snd)))
  | .get key =>
    match L.pairs.lookup key with
    | some item => some (L, (200, item))
    | none => some (L, notFound)
  | .create uuid body => L.create o uuid body
  | .replace key body =>
    match L.pairs.lookup key with
    | some _ =>
      let item := L.withId body (idKeyToValue key)
      some (L.set key item, (200, item))
    | none => some (L, notFound)
  | .patch key body =>
    match L.pairs.lookup key with
    | some existing =>
      let item := mergeValues existing body
      some (L.set key item, (200, item))
    | none => some (L, notFound)
  | .delete key =>
    match L.pairs.lookup key with
    | some _ => some (L.erase key, (204, .null))
    | none => some (L, notFound)
  | .methodNotAllowed => some (L, Mockinx.methodNotAllowed)

private theorem ext {L L' : CrudList} (hid : L.id = L'.id) (hp : L.pairs = L'.pairs)
    (hn : L.nextId = L'.nextId) : L = L' := by
  obtain ⟨id, pairs, _, nextId⟩ := L
  obtain ⟨id', pairs', _, nextId'⟩ := L'
  subst hid hp hn
  rfl

end CrudList

namespace CrudStore

/-- The list of pairs that a store holds. -/
def view (s : CrudStore) : CrudList where
  id := { name := s.idField, new := s.idStrategy }
  pairs := s.state.items.entries
  distinct := s.state.items.nodup_map_fst_entries
  nextId := s.state.nextId

/-- Whether an operation creates its item under a key that is not in the store. -/
def CreatesFresh (s : CrudStore) : CrudOp → Prop
  | .create uuid _ => s.createdKey uuid ∉ s.state.items.keys
  | _ => True

instance (s : CrudStore) : (op : CrudOp) → Decidable (s.CreatesFresh op)
  | .create uuid _ => inferInstanceAs (Decidable (s.createdKey uuid ∉ s.state.items.keys))
  | .list | .get _ | .replace .. | .patch .. | .delete _ | .methodNotAllowed =>
    inferInstanceAs (Decidable True)

@[simp] theorem lookup_view (s : CrudStore) (key : String) :
    s.view.pairs.lookup key = s.state.items.get? key :=
  IndexMap.lookup_entries _ _

private theorem view_new (o : OverflowChecks) (spec : CrudSpec) :
    (CrudStore.new o spec).toOption.map view = CrudList.load o spec := by
  rw [CrudStore.new, CrudList.load]
  rw [load_eq]
  dsimp only
  cases o.succ ((loadIds spec.id.name spec.data).foldl max 0) with
  | error p => rfl
  | ok nextId =>
    refine congrArg some (CrudList.ext rfl ?_ rfl)
    simp only [view]
    rw [IndexMap.entries_eq_filterMap, IndexMap.keys_fromPairs]
    simp only [IndexMap.get?_fromPairs]

private theorem view_setItems_insert {s : CrudStore} {key : String} (item : Value)
    (h : key ∈ s.state.items.keys) :
    (s.setItems (s.state.items.insert key item)).view = s.view.set key item :=
  CrudList.ext rfl (IndexMap.entries_insert_of_mem item h) rfl

private theorem view_setItems_shiftRemove (s : CrudStore) (key : String) :
    (s.setItems (s.state.items.shiftRemove key)).view = s.view.erase key :=
  CrudList.ext rfl (IndexMap.entries_shiftRemove _ key) rfl

private theorem append_view {s : CrudStore} {key : String} (item : Value) (nextId : UInt64)
    (h : key ∉ s.state.items.keys) :
    s.view.append key item nextId =
      some { s with state := { items := s.state.items.insert key item, nextId } }.view := by
  have hkey : key ∉ s.view.pairs.map Prod.fst := by
    rwa [view, IndexMap.map_fst_entries]
  rw [CrudList.append, dif_neg hkey]
  exact congrArg some (CrudList.ext rfl (IndexMap.entries_insert_of_not_mem item h).symm rfl)

private theorem view_create {o : OverflowChecks} {s : CrudStore} {uuid : String} {body : Value}
    (h : ∀ n, s.nextIdAfter o = .ok n → s.createdKey uuid ∉ s.state.items.keys) :
    (s.create o uuid body).toOption.map (Prod.map view id) = s.view.create o uuid body := by
  rw [create_eq]
  rw [CrudList.create]
  dsimp only
  by_cases hu : s.idStrategy = "uuid"
  · have hn : s.nextIdAfter o = .ok s.state.nextId := if_pos hu
    have hkey : s.createdKey uuid = uuid := if_pos hu
    have hitem : s.createdItem uuid body = s.view.withId body (.string uuid) := by
      simp [createdItem, createdId, hu, CrudList.withId, view]
    have ha := append_view (s.createdItem uuid body) s.state.nextId (h _ hn)
    rw [if_pos (show s.view.id.new = "uuid" from hu), hn, ← hitem]
    rw [hkey] at ha ⊢
    rw [show s.view.nextId = s.state.nextId from rfl, ha]
    rfl
  · have hn : s.nextIdAfter o = o.succ s.view.nextId := if_neg hu
    have hkey : s.createdKey uuid = toString s.view.nextId.toNat := if_neg hu
    have hitem : s.createdItem uuid body = s.view.withId body (.ofNat s.view.nextId) := by
      simp [createdItem, createdId, hu, CrudList.withId, view]
    rw [if_neg (show ¬ s.view.id.new = "uuid" from hu), ← hn, ← hitem, ← hkey]
    cases hn' : s.nextIdAfter o with
    | error p => rfl
    | ok nextId =>
      have ha := append_view (s.createdItem uuid body) nextId (h _ hn')
      simp only [Except.map, Except.toOption, Option.bind_some, ha]
      rfl

private theorem step_create_isSome {o : OverflowChecks} {s : CrudStore} {uuid : String}
    {body : Value}
    {n : UInt64} (h : s.nextIdAfter o = .ok n) : ∃ r, s.step o (.create uuid body) = some r := by
  simp [step, CrudStore.apply, create_eq, h, Except.map, Except.toOption]

private theorem view_step {o : OverflowChecks} {s : CrudStore} {op : CrudOp}
    (h : ∀ r, s.step o op = some r → s.CreatesFresh op) :
    (s.step o op).map (Prod.map view id) = s.view.step o op := by
  cases op with
  | list => rfl
  | get key =>
    simp only [step, CrudStore.apply, CrudStore.get, CrudList.step, lookup_view]
    cases s.state.items.get? key <;> rfl
  | create uuid body =>
    refine view_create fun n hn => ?_
    obtain ⟨r, hr⟩ := step_create_isSome hn
    exact h r hr
  | replace key body =>
    simp only [step, CrudStore.apply, replace, IndexMap.containsKey, CrudList.step, lookup_view]
    cases hget : s.state.items.get? key with
    | none =>
      have hk := IndexMap.get?_eq_none.mp hget
      simp [hk, Except.toOption]
    | some item =>
      have hk := IndexMap.mem_keys_of_get? hget
      simp only [hk, decide_true, ↓reduceIte, Except.toOption, Option.map_some, Prod.map_apply,
        id_eq, view_setItems_insert _ hk]
      rfl
  | patch key body =>
    simp only [step, CrudStore.apply, patch, CrudList.step, lookup_view]
    cases hget : s.state.items.get? key with
    | none => rfl
    | some existing =>
      have hk := IndexMap.mem_keys_of_get? hget
      simp only [Except.toOption, Option.map_some, Prod.map_apply, id_eq,
        view_setItems_insert _ hk]
  | delete key =>
    simp only [step, CrudStore.apply, delete, CrudList.step, lookup_view]
    cases s.state.items.get? key with
    | none => rfl
    | some item =>
      simp only [Except.toOption, Option.map_some, Prod.map_apply, id_eq,
        view_setItems_shiftRemove]
  | methodNotAllowed => rfl

private theorem unchanged_of_refused {o : OverflowChecks} {s : CrudStore} {op : CrudOp}
    {r : CrudStore × CrudResponse} (h : s.step o op = some r)
    (hr : r.2.1 = 404 ∨ r.2.1 = 405) : r.1 = s := by
  cases op with
  | create uuid body =>
    simp only [step, CrudStore.apply, create_eq] at h
    cases hn : s.nextIdAfter o with
    | error p => simp [hn, Except.map, Except.toOption] at h
    | ok n =>
      simp only [hn, Except.map, Except.toOption, Option.some.injEq] at h
      subst h
      simp at hr
  | list | get key | methodNotAllowed =>
    simp only [step, CrudStore.apply, Except.toOption, Option.some.injEq] at h
    rw [← h]
  | replace key body =>
    simp only [step, CrudStore.apply, replace, Except.toOption, Option.some.injEq] at h
    split_ifs at h
    · subst h
      simp at hr
    · rw [← h]
  | patch key body =>
    simp only [step, CrudStore.apply, patch, Except.toOption, Option.some.injEq] at h
    cases hget : s.state.items.get? key with
    | none => rw [hget] at h; rw [← h]
    | some existing =>
      rw [hget] at h
      subst h
      simp at hr
  | delete key =>
    simp only [step, CrudStore.apply, delete, Except.toOption, Option.some.injEq] at h
    cases hget : s.state.items.get? key with
    | none => rw [hget] at h; rw [← h]
    | some item =>
      rw [hget] at h
      subst h
      simp at hr

end CrudStore

/-- The store refines the list of pairs: loading gives the list of the specification, every run
whose created keys are new is the run of the list with the same answers, and no step that answers
404 or 405 changes anything. -/
theorem crud_store_refines_list (o : OverflowChecks) (spec : CrudSpec) :
    (CrudStore.new o spec).toOption.map CrudStore.view = CrudList.load o spec ∧
      ∀ s ops, CrudStore.new o spec = .ok s →
        Along (CrudStore.step o) (fun s op _ => s.CreatesFresh op) s ops →
        (run (CrudStore.step o) s ops).map (Prod.map CrudStore.view id) =
            run (CrudList.step o) s.view ops ∧
          Along (CrudStore.step o) (fun s _ r => r.2.1 = 404 ∨ r.2.1 = 405 → r.1 = s) s ops := by
  refine ⟨CrudStore.view_new o spec, ?_⟩
  intro s ops _ hfresh
  constructor
  · refine run_map ?_ hfresh
    intro s op hcond
    exact CrudStore.view_step hcond
  · refine along_of_inv (I := fun _ => True) ?_ trivial hfresh
    intro s op r _ hstep _
    exact ⟨CrudStore.unchanged_of_refused hstep, trivial⟩

theorem crud_store_refines_list_run :
    ∃ s, CrudStore.new .checked { data := [.obj [("id", .ofNat 4)] (by decide)] } = .ok s ∧
      (run (CrudStore.step .checked) s
          [.create "" .null, .delete "4", .create "" .null, .patch "9" .null, .list]).map
          (Prod.map CrudStore.view id) =
        run (CrudList.step .checked) s.view
          [.create "" .null, .delete "4", .create "" .null, .patch "9" .null, .list] :=
  ⟨_, rfl, ((crud_store_refines_list .checked
    { data := [.obj [("id", .ofNat 4)] (by decide)] }).2 _ _ rfl (by decide)).1⟩

end Mockinx
