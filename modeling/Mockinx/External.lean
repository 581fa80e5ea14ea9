import Mockinx.Json
import Mockinx.Lib.F64

/-!
What the program calls and does not contain: the rule text reader, the HTTP library's validity
rules for header names and values, the seeded word generator, and the file system.
-/

set_option autoImplicit false
set_option relaxedAutoImplicit false

namespace Mockinx

/-- The functions outside the repository that the rule parser and the server call. -/
structure External where
  /-- `yttp::from_str` -/
  fromStr : String → Except String Value
  /-- `yttp::resolve_method` -/
  resolveMethod : String → Option String
  /-- `yttp::expand_headers` -/
  expandHeaders : Map → Map
  /-- `serde_json::from_slice` -/
  fromSlice : List UInt8 → Option Value
  /-- `HeaderName::try_from`: the stored name, when the text is a valid one -/
  headerName : String → Option String
  /-- `HeaderValue::try_from`: whether the text is a valid header value -/
  headerValue : String → Bool
  /-- the most headers that the HTTP library's header map holds -/
  maxHeaders : ℕ
  /-- the shortest decimal text of a float -/
  showF64 : Lib.F64 → String
  /-- the words that `StdRng::seed_from_u64` generates -/
  stdRng : UInt64 → ℕ → UInt32
  /-- `std::fs::read`: the bytes, or the text of the error -/
  readFile : String → Except String (List UInt8)

/-- Nothing parses, no file exists, and every header is valid. -/
instance : Inhabited External where
  default := {
    fromStr := .error
    resolveMethod := fun _ => none
    expandHeaders := id
    fromSlice := fun _ => none
    headerName := some
    headerValue := fun _ => true
    maxHeaders := 24576
    showF64 := fun _ => ""
    stdRng := fun _ _ => 0
    readFile := .error }

end Mockinx
