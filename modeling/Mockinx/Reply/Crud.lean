import Mockinx.Lib.Panic
import Mockinx.Lib.Text
import Mockinx.Serve.CrudSpec

/-!
The in-memory resource: items under string keys in insertion order, and the counter of the next
automatic id. Every operation answers with a status and a body.
-/

set_option autoImplicit false
set_option relaxedAutoImplicit false

namespace Mockinx

open Lib Lib.Text

structure CrudState where
  items : IndexMap String Value
  nextId : UInt64

structure CrudStore where
  state : CrudState
  idField : String
  idStrategy : String

abbrev CrudResponse := ℕ × Value

/-- The map key of an id value. -/
def valueToIdKey : Value → String
  | .number n => n.toString
  | .string s => s
  | other => other.toString

/-- An id value from a key: an unsigned integer first, then a signed one, else the text. -/
def idKeyToValue (key : String) : Value :=
  match parseU64 key.toList with
  | some n => .number (.posInt n)
  | none =>
    match parseI64 key.toList with
    | some i => .number (Number.ofI64 i)
    | none => .string key

/-- Two objects are merged field by field; any other patch takes the place of the value. -/
def mergeValues : Value → Value → Value
  | .object baseMap, .object patchMap =>
    .object (baseMap.extend patchMap)
  | _, patch => patch

/-- A body as an object: any other value is wrapped under `value`. -/
def asItem : Value → Map
  | .object m => m
  | other => (∅ : Map).insert "value" other

/-- The id segment of a path below the resource base; none for the base itself or below an item. -/
def extractId (basePath requestPath : List Char) : Option (List Char) :=
  let base := trimEndMatches '/' basePath
  let path := trimEndMatches '/' requestPath
  if path = base then none
  else (stripPrefix base path).bind fun rest =>
    (stripPrefix "/".toList rest).bind fun rest =>
      if rest = [] ∨ '/' ∈ rest then none else some rest

def notFound : CrudResponse := (404, .obj [("error", .string "not found")] (by decide))

def methodNotAllowed : CrudResponse :=
  (405, .obj [("error", .string "method not allowed")] (by decide))

namespace CrudStore

def loadItem (idField : String) (acc : IndexMap String Value × UInt64) (item : Value) :
    IndexMap String Value × UInt64 :=
  match item.get? idField with
  | some idVal =>
    (acc.1.insert (valueToIdKey idVal) item,
      match idVal.asU64 with
      | some n => max acc.2 n
      | none => acc.2)
  | none => acc

def load (idField : String) (data : List Value) : IndexMap String Value × UInt64 :=
  data.foldl (loadItem idField) (∅, 0)

/-- Build a store. The next id is one past the largest id, which may overflow. -/
def new (o : OverflowChecks) (spec : CrudSpec) : Except Panic CrudStore :=
  let loaded := load spec.id.name spec.data
  (o.succ loaded.2).map fun nextId =>
    { state := { items := loaded.1, nextId }, idField := spec.id.name, idStrategy := spec.id.new }

def setItems (s : CrudStore) (items : IndexMap String Value) : CrudStore :=
  { s with state := { s.state with items } }

def list (s : CrudStore) : CrudResponse := (200, .array s.state.items.values)

def get (s : CrudStore) (id : String) : CrudResponse :=
  match s.state.items.get? id with
  | some item => (200, item)
  | none => notFound

/-- The id value of the next item, its key, and the counter afterwards. A fresh UUID is an input. -/
def generateId (o : OverflowChecks) (s : CrudStore) (uuid : String) :
    Except Panic (Value × String × UInt64) :=
  if s.idStrategy = "uuid" then .ok (.string uuid, uuid, s.state.nextId)
  else
    let id := s.state.nextId
    (o.succ id).map fun nextId => (Value.ofNat id, toString id.toNat, nextId)

def create (o : OverflowChecks) (s : CrudStore) (uuid : String) (body : Value) :
    Except Panic (CrudStore × CrudResponse) :=
  (s.generateId o uuid).map fun (idValue, idKey, nextId) =>
    let item := Value.object ((asItem body).insert s.idField idValue)
    ({ s with state := { items := s.state.items.insert idKey item, nextId } }, (201, item))

def replace (s : CrudStore) (id : String) (body : Value) : CrudStore × CrudResponse :=
  if s.state.items.containsKey id then
    let item := Value.object ((asItem body).insert s.idField (idKeyToValue id))
    (s.setItems (s.state.items.insert id item), (200, item))
  else (s, notFound)

def patch (s : CrudStore) (id : String) (body : Value) : CrudStore × CrudResponse :=
  match s.state.items.get? id with
  | some existing =>
    let merged := mergeValues existing body
    (s.setItems (s.state.items.insert id merged), (200, merged))
  | none => (s, notFound)

def delete (s : CrudStore) (id : String) : CrudStore × CrudResponse :=
  match s.state.items.get? id with
  | some _ => (s.setItems (s.state.items.shiftRemove id), (204, .null))
  | none => (s, notFound)

def createdId (s : CrudStore) (uuid : String) : Value :=
  if s.idStrategy = "uuid" then .string uuid else .ofNat s.state.nextId

def createdKey (s : CrudStore) (uuid : String) : String :=
  if s.idStrategy = "uuid" then uuid else toString s.state.nextId.toNat

def createdItem (s : CrudStore) (uuid : String) (body : Value) : Value :=
  .object ((asItem body).insert s.idField (s.createdId uuid))

def nextIdAfter (o : OverflowChecks) (s : CrudStore) : Except Panic UInt64 :=
  if s.idStrategy = "uuid" then .ok s.state.nextId else o.succ s.state.nextId

theorem create_eq (o : OverflowChecks) (s : CrudStore) (uuid : String) (body : Value) :
    s.create o uuid body = (s.nextIdAfter o).map fun nextId =>
      ({ s with
          state := {
            items := s.state.items.insert (s.createdKey uuid) (s.createdItem uuid body)
            nextId } },
        (201, s.createdItem uuid body)) := by
  rw [create, generateId, createdItem, createdKey, createdId, nextIdAfter]
  split_ifs
  · rfl
  · dsimp only
    cases o.succ s.state.nextId <;> rfl

theorem new_eq_ok {o : OverflowChecks} {spec : CrudSpec} {s : CrudStore}
    (h : CrudStore.new o spec = .ok s) :
    s.state.items = (load spec.id.name spec.data).1 ∧ s.idField = spec.id.name ∧
      s.idStrategy = spec.id.new ∧ o.succ (load spec.id.name spec.data).2 = .ok s.state.nextId := by
  rw [CrudStore.new] at h
  cases hn : o.succ (load spec.id.name spec.data).2 with
  | error p => simp [hn, Except.map] at h
  | ok n =>
    simp only [hn, Except.map, Except.ok.injEq] at h
    subst h
    exact ⟨rfl, rfl, rfl, rfl⟩

def loadPairs (idField : String) (data : List Value) : List (String × Value) :=
  data.filterMap fun item => (item.get? idField).map fun idVal => (valueToIdKey idVal, item)

def loadIds (idField : String) (data : List Value) : List UInt64 :=
  data.filterMap fun item => (item.get? idField).bind Value.asU64

theorem load_eq (idField : String) (data : List Value) :
    load idField data =
      (IndexMap.fromPairs (loadPairs idField data), (loadIds idField data).foldl max 0) := by
  rw [load]
  induction data using List.reverseRecOn with
  | nil => rfl
  | append_singleton data item ih =>
    rw [List.foldl_append, List.foldl_cons, List.foldl_nil, ih]
    simp only [loadItem, loadPairs, loadIds]
    simp only [List.filterMap_append]
    cases hid : item.get? idField with
    | none => simp [hid]
    | some v =>
      cases hv : v.asU64 with
      | none => simp [hid, hv, IndexMap.fromPairs_concat]
      | some n => simp [hid, hv, IndexMap.fromPairs_concat]

end CrudStore

/-- The operations that the router can perform on a store. -/
inductive CrudOp where
  | list
  | get (id : String)
  | create (uuid : String) (body : Value)
  | replace (id : String) (body : Value)
  | patch (id : String) (body : Value)
  | delete (id : String)
  | methodNotAllowed

def CrudStore.apply (o : OverflowChecks) (s : CrudStore) :
    CrudOp → Except Panic (CrudStore × CrudResponse)
  | .list => .ok (s, s.list)
  | .get id => .ok (s, s.get id)
  | .create uuid body => s.create o uuid body
  | .replace id body => .ok (s.replace id body)
  | .patch id body => .ok (s.patch id body)
  | .delete id => .ok (s.delete id)
  | .methodNotAllowed => .ok (s, Mockinx.methodNotAllowed)

/-- One step of a run of operations; a panic ends the run. -/
def CrudStore.step (o : OverflowChecks) (s : CrudStore) (op : CrudOp) :
    Option (CrudStore × CrudResponse) :=
  (s.apply o op).toOption

example : (CrudStore.new .checked { data := [.obj [("id", .ofNat 3)] (by decide)] }).toOption.map
    (fun s => s.state.nextId) = some 4 := by decide

example : extractId "/toys".toList "/toys/3/".toList = some "3".toList := by decide

end Mockinx
