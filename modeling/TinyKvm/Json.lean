import TinyKvm.Api
import Mathlib.Data.Rat.Defs

/-!
# JSON values

The programs read their argument with the nlohmann JSON library, which is not
part of the repository. Its parser is a parameter of every model that uses one.
The values it produces, and the conversions the programs apply to them, are
here. A conversion that throws a type error is `none`.
-/

namespace TinyKvm

/-- A JSON value. -/
inductive Json where
  | null
  | bool (b : Bool)
  | number (q : ℚ)
  | string (s : Bytes)
  | array (elements : List Json)
  | object (members : List (Bytes × Json))

namespace Json

/-- `j.contains(key)` : false unless the value is an object. -/
def contains (key : String) : Json → Bool
  | object members => members.any fun m => m.1 = ascii key
  | _ => false

/-- `j[key]`, read after `contains`. -/
def get (key : String) : Json → Json
  | object members => ((members.find? fun m => m.1 = ascii key).map Prod.snd).getD null
  | _ => null

/-- A number as a `w`-bit integer : truncated, then reduced to its width. A floating point number
outside the type has no defined conversion in the source language. -/
def toWord (w : ℕ) (q : ℚ) : BitVec w :=
  BitVec.ofInt w (q.num.tdiv q.den)

/-- The conversion to an arithmetic type that is not one of the three the library stores numbers
in, such as `float` and `int`. It takes booleans as well. -/
def getNumber : Json → Option ℚ
  | number q => some q
  | bool b => some (if b then 1 else 0)
  | _ => none

/-- The conversion to `int`. -/
def getInt (j : Json) : Option ℤ :=
  j.getNumber.map fun q => (toWord 32 q).toInt

/-- The conversion to `size_t`, which is the unsigned type the library stores numbers in. It takes
numbers only. -/
def getSizeT : Json → Option (BitVec 64)
  | number q => some (toWord 64 q)
  | _ => none

/-- The conversion to `bool`, which takes booleans only. -/
def getBool : Json → Option Bool
  | bool b => some b
  | _ => none

/-- The conversion to `std::string`. -/
def getString : Json → Option Bytes
  | string s => some s
  | _ => none

/-- The conversion to a vector, element by element. -/
def getVector {α : Type} (convert : Json → Option α) : Json → Option (List α)
  | array elements => elements.mapM convert
  | _ => none

end Json

end TinyKvm
