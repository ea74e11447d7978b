import Mathlib.Logic.Function.Basic
import Mathlib.Data.Nat.Notation

/-! Identifiers, status codes and record identifiers shared by every layer.
Identifiers are natural numbers; the reserved values keep their source width. -/
namespace OurSql

abbrev PageId := ℕ
abbrev SlotId := ℕ
abbrev TxnId := ℕ
abbrev Lsn := ℕ

/-- `INVALID_PAGE_ID`, the largest 32-bit value. -/
def invalidPageId : PageId := 4294967295

def invalidTxnId : TxnId := 0

def invalidLsn : Lsn := 0

inductive ErrorCode
  | invalidArgument | notFound | notImplemented | alreadyExists | typeMismatch
  | outOfSpace | recordTooLarge | ioError | internalError
  deriving DecidableEq, Repr

/-- A failed `Status`: its code and its message. -/
structure Failure where
  code : ErrorCode
  message : String
  deriving DecidableEq, Repr

/-- `Result<T>`; a `Status` is a result without a value. -/
abbrev Result (α : Type) := Except Failure α

abbrev Status := Result Unit

instance : DecidableEq Status
  | .ok (), .ok () => .isTrue rfl
  | .ok (), .error _ => .isFalse (by simp)
  | .error _, .ok () => .isFalse (by simp)
  | .error e, .error f => decidable_of_iff (e = f) (by simp)

def fail {α : Type} (code : ErrorCode) (message : String) : Result α :=
  .error ⟨code,message⟩

structure RID where
  pageId : PageId
  slotId : SlotId
  deriving DecidableEq, Repr

end OurSql
