import Mathlib.Data.Rat.Init
import PiiEngine.Lib.Collections

open collections

/-- A decoded JSON document. A number that is not finite is `none`. -/
inductive JsonValue where
  | null
  | bool (value : Bool)
  | int (value : Int)
  | float (value : Option ℚ)
  | string (value : String)
  | list (items : List JsonValue)
  | dict (entries : List (String × JsonValue))

namespace JsonValue

/-- Whether an object has exactly the given keys. -/
def hasKeys (entries : List (String × JsonValue)) (keys : List String) : Bool :=
  sameElements (entries.map Prod.fst) keys

end JsonValue
