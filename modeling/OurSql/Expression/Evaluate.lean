import Mathlib
import OurSql.Data.Value

/-! Compiled expressions and their evaluation. The subquery runner is a parameter:
it may answer anything, fail, and change a state of its own. -/
namespace OurSql
namespace Expression

open Data

inductive CompileLiteralKind
  | int | string | bool | null
  deriving DecidableEq, Repr

structure CompileLiteral where
  kind : CompileLiteralKind
  integer : Int64 := 0
  text : List UInt8 := []
  deriving DecidableEq, Repr

inductive CompileSubqueryKind
  | scalar | existence | membership
  deriving DecidableEq, Repr

inductive CompileAggregateKind
  | count | sum | avg | max | min
  deriving DecidableEq, Repr

/-- `CompileExprPtr`: a null pointer or a node. -/
inductive CompileExpr (Query : Type)
  | nullptr
  | column (tableName name : String)
  | literal (l : CompileLiteral)
  | binary (op : String) (left right : CompileExpr Query)
  | unary (op : String) (operand : CompileExpr Query)
  | isNull (operand : CompileExpr Query) (negated : Bool)
  | between (operand lower upper : CompileExpr Query) (negated : Bool)
  | inList (operand : CompileExpr Query) (options : List (CompileExpr Query)) (negated : Bool)
  | subquery (kind : CompileSubqueryKind) (query : Option Query) (operand : CompileExpr Query)
    (negated : Bool)
  | aggregate (kind : CompileAggregateKind) (star : Bool) (argument : CompileExpr Query)

inductive Kind
  | null | int | string | bool
  deriving DecidableEq, Repr

/-- Every field is there whatever the kind: `LIKE` reads the text of an integer. -/
structure EvalValue where
  kind : Kind := .null
  integer : Int64 := 0
  text : List UInt8 := []
  boolean : Bool := false
  deriving DecidableEq, Repr

namespace EvalValue

def null : EvalValue := {}
def int (n : Int64) : EvalValue := {kind := .int,integer := n}
def string (text : List UInt8) : EvalValue := {kind := .string,text := text}
def bool (b : Bool) : EvalValue := {kind := .bool,boolean := b}

def fromValue : Value → EvalValue
  | .null => null
  | .int n => int n
  | .varchar text => string text

def isNull (v : EvalValue) : Bool := v.kind = .null

end EvalValue

structure ExecutionResult where
  columnNames : List String
  rows : List Row
  deriving DecidableEq, Repr

/-- A computation that may run subqueries: it passes their state on, also when it fails. -/
def Eval (σ α : Type) := σ → Result α × σ

namespace Eval

variable {σ α β : Type}

def lift (r : Result α) : Eval σ α := fun s => (r,s)

def ok (a : α) : Eval σ α := lift (.ok a)

def error (code : ErrorCode) (message : String) : Eval σ α := lift (fail code message)

def bind (x : Eval σ α) (f : α → Eval σ β) : Eval σ β := fun s =>
  match x s with
  | (.error e,s') => (.error e,s')
  | (.ok a,s') => f a s'

/-- The value, or the error, with the state it leaves. -/
def attempt (x : Eval σ α) (f : Result α → Eval σ β) : Eval σ β := fun s => f (x s).1 (x s).2

@[simp] theorem lift_ok (a : α) : (lift (.ok a) : Eval σ α) = ok a := rfl

@[simp] theorem bind_ok (a : α) (f : α → Eval σ β) : (ok a).bind f = f a := rfl

@[simp] theorem attempt_ok (a : α) (f : Result α → Eval σ β) : (ok a).attempt f = f (.ok a) := rfl

end Eval

/-- The text of the boolean literals. -/
def trueText : List UInt8 := [116,114,117,101]
def falseText : List UInt8 := [102,97,108,115,101]

def isTrueText (text : List UInt8) : Bool := text = trueText

def CompileLiteral.value (l : CompileLiteral) : EvalValue :=
  match l.kind with
  | .int => .int l.integer
  | .string => .string l.text
  | .bool => .bool (isTrueText l.text)
  | .null => .null

/-- One row of `LikeMatches`' table: `left` is the entry just written, `previous` the
rest of the row before, from the entry above `left` on. -/
def likeRow (byte : UInt8) (left : Bool) : List UInt8 → List Bool → List Bool
  | p::pattern, diagonal::above::previous =>
    let entry := if p = 37 then left || above else (p = 95 ∨ p = byte) && diagonal
    entry::likeRow byte entry pattern (above::previous)
  | _, _ => []

def likeStart (left : Bool) : List UInt8 → List Bool
  | [] => []
  | p::pattern => (left && p = 37)::likeStart (left && p = 37) pattern

def likeRows (pattern : List UInt8) : List UInt8 → List Bool → List Bool
  | [], previous => previous
  | byte::value, previous => likeRows pattern value (false::likeRow byte false pattern previous)

def likeMatches (value pattern : List UInt8) : Bool :=
  (likeRows pattern value (true::likeStart true pattern)).getD pattern.length false

/-- The three-way comparisons of the source. -/
def compareInt (lhs rhs : Int64) : ℤ := if lhs < rhs then -1 else if rhs < lhs then 1 else 0

def compareText (lhs rhs : List UInt8) : ℤ := if lhs < rhs then -1 else if rhs < lhs then 1 else 0

def compareBool (lhs rhs : Bool) : ℤ := if lhs = rhs then 0 else if lhs then 1 else -1

def compareEval (left right : EvalValue) : Result ℤ :=
  if left.kind ≠ right.kind ∨ left.isNull then
    fail .typeMismatch "表达式比较的操作数类型不一致"
  else match left.kind with
    | .int => .ok (compareInt left.integer right.integer)
    | .string => .ok (compareText left.text right.text)
    | .bool => .ok (compareBool left.boolean right.boolean)
    | .null => .ok 0

def addOverflows (lhs rhs : Int64) : Bool :=
  (0 < rhs ∧ Int64.maxValue - rhs < lhs) ∨ (rhs < 0 ∧ lhs < Int64.minValue - rhs)

def subOverflows (lhs rhs : Int64) : Bool :=
  (0 < rhs ∧ lhs < Int64.minValue + rhs) ∨ (rhs < 0 ∧ Int64.maxValue + rhs < lhs)

/-- The evaluator's check of a product of two factors other than zero. -/
def mulValid (lhs rhs : Int64) : Bool :=
  if (lhs = -1 ∧ rhs = Int64.minValue) ∨ (rhs = -1 ∧ lhs = Int64.minValue) then false
  else if 0 < lhs ∧ 0 < rhs then lhs ≤ Int64.maxValue / rhs
  else if 0 < lhs ∧ rhs < 0 then Int64.minValue / lhs ≤ rhs
  else if lhs < 0 ∧ 0 < rhs then Int64.minValue / rhs ≤ lhs
  else if lhs < 0 ∧ rhs < 0 then Int64.maxValue / rhs ≤ lhs
  else true

def divValid (lhs rhs : Int64) : Bool :=
  rhs ≠ 0 ∧ ¬ (lhs = Int64.minValue ∧ rhs = -1)

def isArithmetic (op : String) : Bool := op = "+" ∨ op = "-" ∨ op = "*" ∨ op = "/"

def arithmetic (op : String) (lhs rhs : Int64) : Result EvalValue :=
  if op = "+" then
    if addOverflows lhs rhs then fail .invalidArgument "整数运算溢出" else .ok (.int (lhs + rhs))
  else if op = "-" then
    if subOverflows lhs rhs then fail .invalidArgument "整数运算溢出" else .ok (.int (lhs - rhs))
  else if op = "*" then
    if lhs = 0 ∨ rhs = 0 then .ok (.int 0)
    else if mulValid lhs rhs then .ok (.int (lhs * rhs))
    else fail .invalidArgument "整数运算溢出"
  else if divValid lhs rhs then .ok (.int (lhs / rhs))
  else fail .invalidArgument (if rhs = 0 then "除数不能为零" else "整数运算溢出")

/-- Every other operator counts as `<=`. -/
def comparisonHolds (op : String) (compare : ℤ) : Bool :=
  if op = "=" then compare = 0
  else if op = "!=" ∨ op = "<>" then compare ≠ 0
  else if op = ">" then 0 < compare
  else if op = ">=" then 0 ≤ compare
  else if op = "<" then compare < 0
  else compare ≤ 0

/-- An operand that decides `and` or `or` whatever the other one is. -/
def shortCircuit (op : String) (v : EvalValue) : Option Bool :=
  if op = "and" ∧ v.kind = .bool ∧ v.boolean = false then some false
  else if op = "or" ∧ v.kind = .bool ∧ v.boolean = true then some true
  else none

/-- The binary operators once both operands have values. -/
def combine (op : String) (left right : EvalValue) : Result EvalValue :=
  if op = "and" ∨ op = "or" then
    match shortCircuit op right with
    | some b => .ok (.bool b)
    | none =>
      if left.isNull ∨ right.isNull then .ok .null
      else if left.kind ≠ .bool ∨ right.kind ≠ .bool then fail .typeMismatch "逻辑运算需要 BOOL"
      else .ok (.bool (if op = "and" then left.boolean && right.boolean
        else left.boolean || right.boolean))
  else if left.isNull ∨ right.isNull then .ok .null
  else if op = "like" ∨ op = "not like" then
    .ok (.bool (if op = "like" then likeMatches left.text right.text
      else !likeMatches left.text right.text))
  else if isArithmetic op then arithmetic op left.integer right.integer
  else match compareEval left right with
    | .error e => .error e
    | .ok compare => .ok (.bool (comparisonHolds op compare))

def evaluateUnary (op : String) (operand : EvalValue) : Result EvalValue :=
  if operand.isNull then .ok operand
  else if op = "not" ∧ operand.kind = .bool then .ok (.bool (!operand.boolean))
  else if op = "-" ∧ operand.kind = .int then
    if operand.integer = Int64.minValue then fail .invalidArgument "整数运算溢出"
    else .ok (.int (-operand.integer))
  else fail .typeMismatch "一元运算类型不匹配"

def betweenHolds (negated : Bool) (operand lower upper : EvalValue) : Result EvalValue :=
  if operand.isNull ∨ lower.isNull ∨ upper.isNull then .ok .null
  else match compareEval operand lower, compareEval operand upper with
    | .error e, _ => .error e
    | .ok _, .error e => .error e
    | .ok low, .ok high =>
      let result := decide (0 ≤ low ∧ high ≤ 0)
      .ok (.bool (if negated then !result else result))

/-- What one candidate of `IN` decides: an answer, or whether a NULL was seen. -/
def inStep (negated sawNull : Bool) (operand option : EvalValue) : Result (EvalValue ⊕ Bool) :=
  if option.isNull then .ok (.inr true)
  else match compareEval operand option with
    | .error e => .error e
    | .ok compare => if compare = 0 then .ok (.inl (.bool (!negated))) else .ok (.inr sawNull)

/-- Leave the loop with the answer, or go on. -/
def inNext {σ : Type} (decision : EvalValue ⊕ Bool) (next : Bool → Eval σ EvalValue) :
    Eval σ EvalValue :=
  match decision with
  | .inl answer => .ok answer
  | .inr sawNull => next sawNull

def inEnd (negated sawNull : Bool) : EvalValue := if sawNull then .null else .bool negated

/-- The loop of `IN (SELECT …)` over the rows of the subquery. -/
def inRows (negated : Bool) (operand : EvalValue) (sawNull : Bool) : List Row → Result EvalValue
  | [] => .ok (inEnd negated sawNull)
  | []::_ => fail .invalidArgument "子查询结果行缺少列"
  | (v::_)::rows =>
    match inStep negated sawNull operand (.fromValue v) with
    | .error e => .error e
    | .ok (.inl answer) => .ok answer
    | .ok (.inr sawNull) => inRows negated operand sawNull rows

variable {Query σ : Type}

/-- `COUNT` of an argument that `value` evaluates on a row of the group. -/
def countRows (value : Row → Eval σ EvalValue) (count : Int64) : List Row → Eval σ EvalValue
  | [] => .ok (.int count)
  | item::items => (value item).bind fun v =>
    countRows value (if v.isNull then count else count + 1) items

/-- The value accumulated by `SUM`, `AVG`, `MIN` and `MAX` after one more value. -/
def accumulate (kind : CompileAggregateKind) (accumulated v : EvalValue) : Result EvalValue :=
  if kind = .sum ∨ kind = .avg then
    if addOverflows accumulated.integer v.integer then fail .invalidArgument "聚合整数溢出"
    else .ok {accumulated with integer := accumulated.integer + v.integer}
  else match compareEval v accumulated with
    | .error e => .error e
    | .ok compare =>
      if (kind = .min ∧ compare < 0) ∨ (kind = .max ∧ 0 < compare) then .ok v
      else .ok accumulated

def aggregateEnd (kind : CompileAggregateKind) (count : Int64) : Option EvalValue → EvalValue
  | none => .null
  | some v => if kind = .avg then {v with integer := v.integer / count} else v

def aggregateRows (kind : CompileAggregateKind) (value : Row → Eval σ EvalValue)
    (found : Option EvalValue) (count : Int64) : List Row → Eval σ EvalValue
  | [] => .ok (aggregateEnd kind count found)
  | item::items => (value item).bind fun v =>
    if v.isNull then aggregateRows kind value found count items
    else match found with
      | none => aggregateRows kind value (some v) (count + 1) items
      | some accumulated => (Eval.lift (accumulate kind accumulated v)).bind fun next =>
        aggregateRows kind value (some next) (count + 1) items

/-- The answer of a subquery, as its node reads it; `operand` is evaluated for `IN` only. -/
def subqueryAnswer (kind : CompileSubqueryKind) (negated : Bool) (operand : Eval σ EvalValue)
    (result : ExecutionResult) : Eval σ EvalValue :=
  if kind = .existence then
    .ok (.bool (if negated then result.rows.isEmpty else !result.rows.isEmpty))
  else if result.columnNames.length ≠ 1 then .error .invalidArgument "子查询必须返回一列"
  else if kind = .scalar then
    match result.rows with
    | [] => .ok .null
    -- the first value of a row without values is undefined in the source
    | [row] => .ok (.fromValue (row.headD .null))
    | _ => .error .invalidArgument "标量子查询返回了多行"
  else operand.bind fun v =>
    if v.isNull then .ok .null else .lift (inRows negated v false result.rows)

def findColumnIndex (schema : Schema) (name : String) : Option ℕ :=
  schema.findIdx? (·.name = name)

def evaluateColumn (schema : Schema) (name : String) (row : Row) : Result EvalValue :=
  match findColumnIndex schema name with
  | none => fail .notFound ("Schema 未找到列: " ++ name)
  | some index =>
    match row[index]? with
    | none => fail .invalidArgument "表达式输入行列数不足"
    | some v => .ok (.fromValue v)

abbrev SubqueryRunner (Query σ : Type) := Query → Eval σ ExecutionResult

mutual

def evaluateExpression (schema : Schema) (runner : Option (SubqueryRunner Query σ)) :
    CompileExpr Query → Option (List Row) → Row → Eval σ EvalValue
  | .nullptr, _, _ => .error .invalidArgument "执行表达式为空"
  | .column _ name, _, row => .lift (evaluateColumn schema name row)
  | .literal l, _, _ => .ok l.value
  | .unary op operand, group, row =>
    (evaluateExpression schema runner operand group row).bind fun v => .lift (evaluateUnary op v)
  | .isNull operand negated, group, row =>
    (evaluateExpression schema runner operand group row).bind fun v =>
      .ok (.bool (if negated then !v.isNull else v.isNull))
  | .between operand lower upper negated, group, row =>
    -- all three are evaluated before the first error is looked at
    (evaluateExpression schema runner operand group row).attempt fun v =>
      (evaluateExpression schema runner lower group row).attempt fun l =>
        (evaluateExpression schema runner upper group row).attempt fun u =>
          match v, l, u with
          | .error e, _, _ => .lift (.error e)
          | .ok _, .error e, _ => .lift (.error e)
          | .ok _, .ok _, .error e => .lift (.error e)
          | .ok v, .ok l, .ok u => .lift (betweenHolds negated v l u)
  | .inList operand options negated, group, row =>
    (evaluateExpression schema runner operand group row).bind fun v =>
      if v.isNull then .ok .null
      else evaluateOptions schema runner options group row negated v false
  | .aggregate kind star argument, group, _ =>
    match group with
    | none => .error .invalidArgument "聚合表达式缺少分组上下文"
    | some rows =>
      if kind = .count then
        if star then .ok (.int (Int64.ofNat rows.length))
        else countRows (evaluateExpression schema runner argument none) 0 rows
      else aggregateRows kind (evaluateExpression schema runner argument none) none 0 rows
  | .subquery kind query operand negated, group, row =>
    match runner, query with
    | some run, some q => (run q).bind fun result =>
      subqueryAnswer kind negated (evaluateExpression schema runner operand group row) result
    | _, _ => .error .invalidArgument "子查询缺少执行上下文"
  | .binary op left right, group, row =>
    (evaluateExpression schema runner left group row).bind fun l =>
      match shortCircuit op l with
      | some b => .ok (.bool b)
      | none => (evaluateExpression schema runner right group row).bind fun r =>
        .lift (combine op l r)

/-- The loop of `IN` over its candidates. -/
def evaluateOptions (schema : Schema) (runner : Option (SubqueryRunner Query σ)) :
    List (CompileExpr Query) → Option (List Row) → Row → Bool → EvalValue → Bool →
      Eval σ EvalValue
  | [], _, _, negated, _, sawNull => .ok (inEnd negated sawNull)
  | option::options, group, row, negated, operand, sawNull =>
    (evaluateExpression schema runner option group row).bind fun v =>
      (Eval.lift (inStep negated sawNull operand v)).bind fun decision =>
        inNext decision fun sawNull =>
          evaluateOptions schema runner options group row negated operand sawNull

end

end Expression
end OurSql
