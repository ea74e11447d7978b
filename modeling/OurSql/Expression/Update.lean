import OurSql.Expression.Evaluate

/-! `EvaluateUpdateExpression`: the expressions of UPDATE SET, evaluated on the row as it
was before the statement. -/
namespace OurSql
namespace Expression

open Data

def updateArithmetic (op : String) (lhs rhs : Int64) : Result Value :=
  let overflow : Result Value := fail .invalidArgument "UPDATE SET 整数运算溢出"
  if op = "+" then if addOverflows lhs rhs then overflow else .ok (.int (lhs + rhs))
  else if op = "-" then if subOverflows lhs rhs then overflow else .ok (.int (lhs - rhs))
  else if op = "*" then
    if lhs = 0 ∨ rhs = 0 then .ok (.int 0)
    else if mulValid lhs rhs then .ok (.int (lhs * rhs)) else overflow
  else if op = "/" then
    if divValid lhs rhs then .ok (.int (lhs / rhs))
    else if rhs = 0 then fail .invalidArgument "UPDATE SET 除数不能为零"
    else overflow
  else fail .invalidArgument ("UPDATE SET 不支持的二元运算符: " ++ op)

/-- A row has as many values as its schema has columns: the source reads it unchecked. -/
def evaluateUpdateExpression {Query : Type} (schema : Schema) (row : Row) :
    CompileExpr Query → Result Value
  | .nullptr => fail .invalidArgument "UPDATE SET 表达式为空"
  | .column _ name =>
    match findColumnIndex schema name with
    | none => fail .notFound ("Schema 未找到列: " ++ name)
    | some index => .ok (row.getD index .null)
  | .literal l =>
    match l.kind with
    | .int => .ok (.int l.integer)
    | .string => .ok (.varchar l.text)
    | _ => fail .typeMismatch "UPDATE SET 不能产生 BOOL 值"
  | .unary op operand =>
    match evaluateUpdateExpression schema row operand with
    | .error e => .error e
    | .ok (.int n) =>
      if op ≠ "-" then fail .invalidArgument ("UPDATE SET 不支持的一元运算符: " ++ op)
      else if n = Int64.minValue then fail .invalidArgument "UPDATE SET 整数运算溢出"
      else .ok (.int (-n))
    | .ok _ => fail .invalidArgument ("UPDATE SET 不支持的一元运算符: " ++ op)
  | .binary op left right =>
    match evaluateUpdateExpression schema row left with
    | .error e => .error e
    | .ok lhs =>
      match evaluateUpdateExpression schema row right with
      | .error e => .error e
      | .ok rhs =>
        match lhs, rhs with
        | .int lhs, .int rhs => updateArithmetic op lhs rhs
        | _, _ => fail .typeMismatch "UPDATE SET 算术运算需要 INT 操作数"
  | _ => fail .notImplemented "UPDATE SET 暂不支持 BETWEEN、IN 或聚合表达式"

end Expression
end OurSql
