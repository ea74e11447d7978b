import OurSql.Expression.Evaluate

/-! `CheckCompileExpr`: the type the planner gives an expression before it runs. The
planning of a subquery is a parameter that answers with the output types. -/
namespace OurSql
namespace Expression

open Data

inductive CompileType
  | int | varchar | bool | null
  deriving DecidableEq, Repr

inductive PlanValueType
  | int | varchar | bool | null
  deriving DecidableEq, Repr

def compileTypeName : CompileType → String
  | .int => "INT"
  | .varchar => "VARCHAR"
  | .bool => "BOOL"
  | .null => "NULL"

def checkColumn (schema : Schema) (context name : String) : Result CompileType :=
  match schema.find? (·.name = name) with
  | none => fail .notFound (context ++ ": 列不存在: " ++ name)
  | some column => .ok (if column.type = .int then .int else .varchar)

def CompileLiteral.type (l : CompileLiteral) : CompileType :=
  match l.kind with
  | .int => .int
  | .string => .varchar
  | .null => .null
  | .bool => .bool

def checkUnary (context op : String) (operand : CompileType) : Result CompileType :=
  if operand = .null then .ok .null
  else if op = "not" then
    if operand ≠ .bool then
      fail .typeMismatch (context ++ ": NOT 需要 BOOL，实际 " ++ compileTypeName operand)
    else .ok .bool
  else if op = "-" then
    if operand ≠ .int then
      fail .typeMismatch (context ++ ": 一元负号需要 INT，实际 " ++ compileTypeName operand)
    else .ok .int
  else fail .invalidArgument (context ++ ": 未知一元运算符 " ++ op)

def checkBetween (context : String) (operand lower upper : CompileType) : Result CompileType :=
  if operand ≠ .null ∧ lower ≠ .null ∧ upper ≠ .null ∧ (operand ≠ lower ∨ operand ≠ upper) then
    fail .typeMismatch (context ++ ": BETWEEN 操作数类型不一致")
  else .ok .bool

/-- One candidate of `IN` against the operand. -/
def checkOption (context : String) (operand option : CompileType) : Status :=
  if option ≠ .null ∧ operand ≠ .null ∧ option ≠ operand then
    fail .typeMismatch (context ++ ": IN 操作数和候选值类型不一致")
  else .ok ()

/-- The type of the only column of a scalar or `IN` subquery. -/
def checkSubqueryType (context : String) (types : List PlanValueType) : Result CompileType :=
  match types with
  | [type] =>
    if type = .bool then fail .typeMismatch (context ++ ": 标量/IN 子查询不能返回 BOOL")
    else .ok (if type = .int then .int else if type = .null then .null else .varchar)
  | _ => fail .invalidArgument
    (context ++ ": 子查询必须返回恰好一列，实际 " ++ toString types.length)

def checkInSubquery (context : String) (operand result : CompileType) : Result CompileType :=
  if operand ≠ .null ∧ result ≠ .null ∧ operand ≠ result then
    fail .typeMismatch (context ++ ": IN 子查询两侧类型不一致")
  else .ok .bool

def checkAggregate (context : String) (kind : CompileAggregateKind) (argument : CompileType) :
    Result CompileType :=
  if kind = .count then .ok .int
  else if kind = .sum ∨ kind = .avg then
    if argument ≠ .int then fail .typeMismatch (context ++ ": SUM/AVG 只支持 INT") else .ok .int
  else if argument = .bool then fail .typeMismatch (context ++ ": MIN/MAX 不支持 BOOL")
  else .ok argument

def isComparison (op : String) : Bool :=
  op = ">" ∨ op = ">=" ∨ op = "<" ∨ op = "<=" ∨ op = "=" ∨ op = "!=" ∨ op = "<>"

def checkBinary (context op : String) (left right : CompileType) : Result CompileType :=
  if op = "and" ∨ op = "or" then
    if left = .null ∨ right = .null then .ok .null
    else if left ≠ .bool ∨ right ≠ .bool then
      fail .typeMismatch (context ++ ": " ++ op ++ " 需要 BOOL 操作数")
    else .ok .bool
  else if isArithmetic op then
    if left = .null ∨ right = .null then .ok .null
    else if left ≠ .int ∨ right ≠ .int then
      fail .typeMismatch (context ++ ": 算术运算需要 INT 操作数")
    else .ok .int
  else if op = "like" ∨ op = "not like" then
    if left = .null ∨ right = .null then .ok .null
    else if left ≠ .varchar ∨ right ≠ .varchar then
      fail .typeMismatch (context ++ ": LIKE 两侧必须是 VARCHAR")
    else .ok .bool
  else if isComparison op then
    if op = "=" ∧ (left = .null ∨ right = .null) then
      fail .invalidArgument (context ++ ": 不能使用 = NULL，请改用 IS NULL")
    else if left = .null ∨ right = .null then .ok .bool
    else if left ≠ right then fail .typeMismatch (context ++ ": 比较运算两侧类型不一致")
    else .ok .bool
  else fail .invalidArgument (context ++ ": 未知二元运算符 " ++ op)

variable {Query : Type}

/-- `Planner::Build` with the catalog at hand: the output types of the plan, if it is a
`SelectPlan`. -/
abbrev Build (Query : Type) := Query → Result (Option (List PlanValueType))

def checkSubquery (context : String) (build : Option (Build Query))
    (kind : CompileSubqueryKind) (query : Option Query) (operand : Result CompileType) :
    Result CompileType :=
  match query, build with
  | none, _ => fail .invalidArgument (context ++ ": 子查询缺少 SELECT 本体")
  | some _, none => fail .internalError (context ++ ": 子查询语义检查缺少只读 Catalog")
  | some q, some build => (build q).bind fun
    | none => fail .internalError (context ++ ": 子查询没有生成 SelectPlan")
    | some types =>
      if kind = .existence then .ok .bool
      else (checkSubqueryType context types).bind fun result =>
        if kind = .membership then operand.bind fun o => checkInSubquery context o result
        else .ok result

mutual

/-- `allow` is `allow_aggregates`. -/
def checkCompileExpr (schema : Schema) (context : String) (build : Option (Build Query)) :
    CompileExpr Query → Bool → Result CompileType
  | .nullptr, _ => fail .invalidArgument (context ++ ": 表达式为空")
  | .column _ name, _ => checkColumn schema context name
  | .literal l, _ => .ok l.type
  | .unary op operand, allow =>
    (checkCompileExpr schema context build operand allow).bind (checkUnary context op)
  | .isNull operand _, allow =>
    (checkCompileExpr schema context build operand allow).bind fun _ => .ok .bool
  | .between operand lower upper _, allow =>
    (checkCompileExpr schema context build operand allow).bind fun o =>
      (checkCompileExpr schema context build lower allow).bind fun l =>
        (checkCompileExpr schema context build upper allow).bind (checkBetween context o l)
  | .inList operand options _, allow =>
    if options.isEmpty then fail .invalidArgument (context ++ ": IN 列表不能为空")
    else (checkCompileExpr schema context build operand allow).bind fun o =>
      (checkOptions schema context build options allow o).bind fun _ => .ok .bool
  | .subquery kind query operand _, allow =>
    checkSubquery context build kind query (checkCompileExpr schema context build operand allow)
  | .aggregate kind star argument, allow =>
    if !allow then fail .invalidArgument (context ++ ": 聚合函数只能用于 SELECT 列表或 HAVING")
    else if star then
      if kind ≠ .count then fail .invalidArgument (context ++ ": 只有 COUNT 支持 '*'")
      else .ok .int
    else match argument with
      | .nullptr => fail .invalidArgument (context ++ ": 聚合函数缺少参数")
      | _ => (checkCompileExpr schema context build argument false).bind
        (checkAggregate context kind)
  | .binary op left right, allow =>
    (checkCompileExpr schema context build left allow).bind fun l =>
      (checkCompileExpr schema context build right allow).bind (checkBinary context op l)

def checkOptions (schema : Schema) (context : String) (build : Option (Build Query)) :
    List (CompileExpr Query) → Bool → CompileType → Status
  | [], _, _ => .ok ()
  | option::options, allow, operand =>
    (checkCompileExpr schema context build option allow).bind fun o =>
      (checkOption context operand o).bind fun _ =>
        checkOptions schema context build options allow operand

end

/-- The operands of `and` or `or` for which the checker answers NULL and the evaluator
may answer BOOL. -/
def nullLogic (op : String) (left right : Result CompileType) : Bool :=
  (op = "and" ∨ op = "or") ∧
    ((left = .ok .null ∧ right = .ok .bool) ∨ (left = .ok .bool ∧ right = .ok .null))

mutual

/-- No `and` or `or` that is checked mixes a NULL type with BOOL. -/
def unmixed (schema : Schema) (context : String) (build : Option (Build Query)) :
    CompileExpr Query → Bool → Bool
  | .binary op left right, allow =>
    unmixed schema context build left allow && unmixed schema context build right allow &&
      !nullLogic op (checkCompileExpr schema context build left allow)
        (checkCompileExpr schema context build right allow)
  | .unary _ operand, allow => unmixed schema context build operand allow
  | .isNull operand _, allow => unmixed schema context build operand allow
  | .between operand lower upper _, allow =>
    unmixed schema context build operand allow && unmixed schema context build lower allow &&
      unmixed schema context build upper allow
  | .inList operand options _, allow =>
    unmixed schema context build operand allow && unmixedOptions schema context build options allow
  | .subquery kind _ operand _, allow =>
    kind ≠ .membership || unmixed schema context build operand allow
  | .aggregate _ star argument, _ => star || unmixed schema context build argument false
  | .nullptr, _ => true
  | .column _ _, _ => true
  | .literal _, _ => true

def unmixedOptions (schema : Schema) (context : String) (build : Option (Build Query)) :
    List (CompileExpr Query) → Bool → Bool
  | [], _ => true
  | option::options, allow =>
    unmixed schema context build option allow && unmixedOptions schema context build options allow

end

end Expression
end OurSql
