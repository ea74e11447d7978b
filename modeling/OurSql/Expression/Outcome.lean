import OurSql.Expression.Fold

/-! Evaluation when the subqueries only read: an expression has one outcome on a row. -/
namespace OurSql
namespace Expression

open Data

variable {Query : Type}

/-- What an evaluation answers when its subqueries only read. -/
def outcome (schema : Schema) (runner : Option (SubqueryRunner Query Unit))
    (group : Option (List Row)) (row : Row) (e : CompileExpr Query) : Result EvalValue :=
  (evaluateExpression schema runner e group row ()).1

/-- A computation in two parts answers when both do. -/
theorem bind_answers {α β : Type} {x : Eval Unit α} {f : α → Eval Unit β} {b : β} :
    (x.bind f ()).1 = .ok b ↔ ∃ a, (x ()).1 = .ok a ∧ (f a ()).1 = .ok b := by
  rw [Eval.bind]
  cases h : x () with
  | mk r s =>
    cases r with
    | error e => simp
    | ok a => simp

variable {schema : Schema} {runner : Option (SubqueryRunner Query Unit)}
  {group : Option (List Row)} {row : Row}

theorem evaluate_pure (e : CompileExpr Query) :
    evaluateExpression schema runner e group row = .lift (outcome schema runner group row e) := rfl

theorem outcome_unary {op : String} (operand : CompileExpr Query) :
    outcome schema runner group row (.unary op operand) =
      (outcome schema runner group row operand).bind (evaluateUnary op) := by
  rw [outcome,evaluateExpression,evaluate_pure]
  cases outcome schema runner group row operand <;> rfl

theorem outcome_binary {op : String} (left right : CompileExpr Query) :
    outcome schema runner group row (.binary op left right) =
      (outcome schema runner group row left).bind fun l =>
        match shortCircuit op l with
        | some b => .ok (.bool b)
        | none => (outcome schema runner group row right).bind (combine op l) := by
  rw [outcome,evaluateExpression]
  simp only [evaluate_pure]
  cases outcome schema runner group row left with
  | error e => rfl
  | ok l =>
    simp only [Eval.bind,Eval.lift,Except.bind]
    cases shortCircuit op l with
    | some b => rfl
    | none => cases outcome schema runner group row right <;> rfl

/-- An operator that is none of the others compares. -/
theorem combine_comparison {op : String} (hlogic : ¬ (op = "and" ∨ op = "or"))
    (hlike : ¬ (op = "like" ∨ op = "not like")) (harith : ¬ isArithmetic op = true)
    (x y : EvalValue) : combine op x y =
      if x.isNull ∨ y.isNull then .ok .null
      else (compareEval x y).map fun c => .bool (comparisonHolds op c) := by
  rw [combine,if_neg hlogic,if_neg hlike,if_neg harith]
  cases compareEval x y <;> rfl

end Expression
end OurSql
