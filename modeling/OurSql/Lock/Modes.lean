import OurSql.Common

/-! Lock resources, the multigranularity and page modes, and the two decisions
the queues make about a pair of modes: whether they conflict and whether one
may be upgraded to the other. -/
namespace OurSql
namespace Lock

inductive LockResourceType
  | schema | table | page | indexKey
  deriving DecidableEq, Repr

inductive TableLockMode
  | IS | IX | S | SIX | X
  deriving DecidableEq, Repr

inductive LockMode
  | S | X
  deriving DecidableEq, Repr

/-- Only the fields of its own resource type identify a resource; the others
keep their defaults. -/
structure LockId where
  type : LockResourceType := .page
  tableId : ℕ := 0
  pageId : PageId := invalidPageId
  indexId : ℕ := 0
  encodedKey : String := ""
  deriving DecidableEq, Repr

def LockId.schema : LockId := { type := .schema }
def LockId.table (id : ℕ) : LockId := { type := .table, tableId := id }
def LockId.page (id : PageId) : LockId := { type := .page, pageId := id }
def LockId.indexKey (id : ℕ) (key : String) (table : ℕ) : LockId :=
  { type := .indexKey, tableId := table, indexId := id, encodedKey := key }

def isTableResource (type : LockResourceType) : Bool := type = .schema || type = .table

def tableModesConflict : TableLockMode → TableLockMode → Bool
  | .IS, r => r = .X
  | .IX, r => r = .S || r = .SIX || r = .X
  | .S, r => r = .IX || r = .SIX || r = .X
  | .SIX, r => r ≠ .IS
  | .X, _ => true

def lockModesConflict (left right : LockMode) : Bool := left = .X || right = .X

def canUpgradeTable (current requested : TableLockMode) : Bool :=
  if current = requested || current = .X then false
  else if requested = .X then true
  else if current = .IS && (requested = .IX || requested = .S || requested = .SIX) then true
  else if current = .IX && requested = .SIX then true
  else if current = .S && requested = .SIX then true
  else false

def canUpgradePage (current requested : LockMode) : Bool := current = .S && requested = .X

/-- The argument of the two `LockInternal` overloads: a table mode or a page/key mode. -/
inductive Mode
  | table (m : TableLockMode)
  | page (m : LockMode)
  deriving DecidableEq, Repr

/-- Modes of different kinds always conflict, as in `RequestConflicts`. -/
def Mode.conflict : Mode → Mode → Bool
  | .table a, .table b => tableModesConflict a b
  | .page a, .page b => lockModesConflict a b
  | _, _ => true

def Mode.isTable : Mode → Bool
  | .table _ => true
  | .page _ => false

theorem Mode.conflict_comm (a b : Mode) : a.conflict b = b.conflict a := by
  cases a with
  | table a => cases b with
    | table b => cases a <;> cases b <;> rfl
    | page b => rfl
  | page a => cases b with
    | table b => rfl
    | page b => cases a <;> cases b <;> rfl

/-- `b` covers `a` when whoever conflicts with `a` also conflicts with `b`. -/
def Mode.Covers (b a : Mode) : Prop := ∀ c : Mode, a.conflict c = true → b.conflict c = true

theorem Mode.Covers.refl (a : Mode) : a.Covers a := fun _ h => h

/-- An upgrade only ever goes to a mode that excludes more. -/
theorem Mode.covers_of_canUpgradeTable {a b : TableLockMode} (h : canUpgradeTable a b = true) :
    (Mode.table b).Covers (.table a) := by
  intro c hc
  cases c with
  | table c => revert h hc; cases a <;> cases b <;> cases c <;> decide
  | page c => rfl

theorem Mode.covers_of_canUpgradePage {a b : LockMode} (h : canUpgradePage a b = true) :
    (Mode.page b).Covers (.page a) := by
  intro c hc
  cases c with
  | table c => rfl
  | page c => revert h hc; cases a <;> cases b <;> cases c <;> decide

end Lock
end OurSql
