import Mockinx.Json
import Mockinx.Units

/-!
Configuration of an in-memory resource: the id field, the id strategy and the initial items.
-/

set_option autoImplicit false
set_option relaxedAutoImplicit false

namespace Mockinx

structure CrudIdSpec where
  name : String := "id"
  new : String := "inc"
  deriving DecidableEq

structure CrudSpec where
  id : CrudIdSpec := {}
  data : List Value := []
  deriving DecidableEq

/-- Parse the object inside `crud!`. -/
def parseCrudSpec (crudObj : Map) : Parse CrudSpec := do
  let id ← match crudObj.get? "id" with
    | none => pure ({} : CrudIdSpec)
    | some idVal => do
      let idObj ← okOr idVal.asObject "crud.id must be an object"
      let name := ((idObj.get? "name").bind Value.asStr).getD "id"
      let new := ((idObj.get? "new").bind Value.asStr).getD "inc"
      pure { name, new }
  let data ← match crudObj.get? "data" with
    | none => pure []
    | some (.array arr) => pure arr
    | some v => fail ("crud.data must be an array, got " ++ toString v)
  return { id, data }

end Mockinx
