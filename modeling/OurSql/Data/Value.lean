import Mathlib.Logic.Basic
import OurSql.Common

/-! Values, columns and schemas of SQL rows. A string is the list of its bytes,
an integer the 64 bits of `std::int64_t`. -/
namespace OurSql
namespace Data

/-- `Null` is the type of the value NULL only, never that of a column. -/
inductive DataType
  | int | varchar | null
  deriving DecidableEq, Repr

inductive Value
  | null | int (n : Int64) | varchar (text : List UInt8)
  deriving DecidableEq, Repr

def Value.type : Value → DataType
  | .null => .null
  | .int _ => .int
  | .varchar _ => .varchar

structure Column where
  name : String
  type : DataType := .int
  length : Option ℕ := none
  nullable : Bool := true
  deriving DecidableEq, Repr

abbrev Schema := List Column

abbrev Row := List Value

/-- A schema of INT and VARCHAR columns. -/
def Proper (schema : Schema) : Prop := ∀ c ∈ schema, c.type ≠ .null

/-- A check that fails is no success. -/
theorem ite_fail_eq_ok {α : Type} {p : Prop} [Decidable p] {code : ErrorCode} {message : String}
    {r : Result α} {a : α} : (if p then fail code message else r) = .ok a ↔ ¬ p ∧ r = .ok a := by
  by_cases h : p <;> simp [h,fail]

end Data
end OurSql
