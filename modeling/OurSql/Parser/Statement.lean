import OurSql.Execution.Modify
import OurSql.Expression.Fold
import OurSql.Parser.Lexer

/-! The statements the parser builds, with the text of an expression and the simple
conditions that are read off one. -/
namespace OurSql
namespace Parser

open Data Expression
open Execution (Predicate)

structure Position where
  offset : ℕ := 0
  line : ℕ := 0
  column : ℕ := 0
  deriving DecidableEq, Repr

def tokenPosition (token : Token) : Position := ⟨token.startOffset,token.line,token.column⟩

inductive OrderDirection
  | asc | desc
  deriving DecidableEq, Repr

inductive JoinType
  | inner | left | right | full
  deriving DecidableEq, Repr

structure OrderKey where
  column : String
  direction : OrderDirection := .asc
  deriving DecidableEq, Repr

structure JoinCondition where
  leftTable : String
  leftColumn : String
  rightTable : String
  rightColumn : String
  deriving DecidableEq, Repr

structure JoinClause where
  type : JoinType
  tableName : String
  tableAlias : String
  condition : JoinCondition
  location : Position
  deriving DecidableEq, Repr

/-- A column with the constraints of its definition. -/
structure Column extends Data.Column where
  primaryKey : Bool := false
  unique : Bool := false
  defaultValue : Option Value := none
  deriving DecidableEq, Repr

structure SelectStatement where
  tableName : String
  tableAlias : String
  joins : List JoinClause
  projection : List (List UInt8)
  projectionExpressions : List (CompileExpr SelectStatement)
  projectionAliases : List String
  selectAll : Bool
  where_ : Option Predicate
  compileWhere : CompileExpr SelectStatement
  groupBy : List String
  having : CompileExpr SelectStatement
  orderBy : List OrderKey
  distinct : Bool
  limit : Option ℕ
  location : Position

abbrev Expr := CompileExpr SelectStatement

structure CreateTableStatement where
  tableName : String
  schema : List Column
  location : Position

structure InsertStatement where
  tableName : String
  columns : List String
  rows : List Row
  location : Position

structure DropTableStatement where
  tableName : String
  location : Position

structure CreateIndexStatement where
  indexName : String
  tableName : String
  columnName : String
  isUnique : Bool
  location : Position

structure DropIndexStatement where
  indexName : String
  location : Position

structure ExplainStatement where
  select : SelectStatement
  location : Position

structure DeleteStatement where
  tableName : String
  where_ : Option Predicate
  compileWhere : Expr
  location : Position

structure UpdateAssignment where
  column : String
  expression : Expr
  value : Option Value

structure UpdateStatement where
  tableName : String
  assignments : List UpdateAssignment
  where_ : Option Predicate
  compileWhere : Expr
  location : Position

inductive AlterTableAction
  | renameTable | renameColumn | addColumn
  deriving DecidableEq, Repr

structure AlterTableStatement where
  tableName : String
  action : AlterTableAction
  newName : String := ""
  columnName : String := ""
  column : Column := {name := ""}
  defaultValue : Option Value := none
  location : Position

inductive Statement
  | createTable (s : CreateTableStatement)
  | insert (s : InsertStatement)
  | select (s : SelectStatement)
  | delete (s : DeleteStatement)
  | dropTable (s : DropTableStatement)
  | createIndex (s : CreateIndexStatement)
  | dropIndex (s : DropIndexStatement)
  | explain (s : ExplainStatement)
  | update (s : UpdateStatement)
  | alterTable (s : AlterTableStatement)
  | begin (location : Position)
  | commit (location : Position)
  | rollback (location : Position)

/-! ### Texts -/

def bytes (s : String) : List UInt8 := s.toList.map fun c => UInt8.ofNat c.toNat

def aggregateNames : List (String × CompileAggregateKind) :=
  [("count",.count),("sum",.sum),("avg",.avg),("max",.max),("min",.min)]

def aggregateKindFromName (name : String) : Option CompileAggregateKind :=
  aggregateNames.lookup name

def aggregateName : CompileAggregateKind → String
  | .count => "count"
  | .sum => "sum"
  | .avg => "avg"
  | .max => "max"
  | .min => "min"

def literalText (l : CompileLiteral) : List UInt8 :=
  match l.kind with
  | .int => bytes (toString l.integer.toInt)
  | .string => 39::l.text ++ [39]
  | .null => bytes "NULL"
  | .bool => l.text

mutual

def compileExprText : Expr → List UInt8
  | .nullptr => bytes "<null>"
  | .column tableName name => bytes (if tableName = "" then name else tableName ++ "." ++ name)
  | .literal l => literalText l
  | .binary op left right =>
    bytes "(" ++ compileExprText left ++ bytes (" " ++ op ++ " ") ++ compileExprText right ++
      bytes ")"
  | .unary op operand => bytes ("(" ++ op ++ " ") ++ compileExprText operand ++ bytes ")"
  | .isNull operand negated =>
    bytes "(" ++ compileExprText operand ++
      bytes (if negated then " is not null)" else " is null)")
  | .between operand lower upper negated =>
    bytes "(" ++ compileExprText operand ++
      bytes (if negated then " not between " else " between ") ++ compileExprText lower ++
      bytes " and " ++ compileExprText upper ++ bytes ")"
  | .inList operand options negated =>
    bytes "(" ++ compileExprText operand ++ bytes (if negated then " not in (" else " in (") ++
      optionsText options ++ bytes "))"
  | .subquery .existence _ _ _ => bytes "(exists (select ...))"
  | .subquery .membership _ operand negated =>
    bytes "(" ++ compileExprText operand ++
      bytes (if negated then " not in (select ...))" else " in (select ...))")
  | .subquery .scalar _ _ _ => bytes "(select ...)"
  | .aggregate kind star argument =>
    bytes (aggregateName kind ++ "(") ++ (if star then bytes "*" else compileExprText argument) ++
      bytes ")"

def optionsText : List Expr → List UInt8
  | [] => []
  | [option] => compileExprText option
  | option::options => compileExprText option ++ bytes ", " ++ optionsText options

end

/-! ### Simple conditions -/

/-- A boolean has no value of the storage layer. -/
def extractLiteralValue : Expr → Option Value
  | .literal l =>
    match l.kind with
    | .int => some (.int l.integer)
    | .string => some (.varchar l.text)
    | _ => none
  | _ => none

/-- The name of a column without a table. -/
def bareColumn : Expr → Option String
  | .column "" name => some name
  | _ => none

/-- `ExtractPredicateFromCompileExpr`: a column is a constant, or is or is not NULL. -/
def extractPredicate : Expr → Option Predicate
  | .isNull operand negated =>
    (bareColumn operand).map fun name =>
      {kind := if negated then .isNotNull else .isNull,column := name,value := .null}
  | .binary "=" left right =>
    match bareColumn left, extractLiteralValue right with
    | some name, some value => some {column := name,value := value}
    | _, _ =>
      match bareColumn right, extractLiteralValue left with
      | some name, some value => some {column := name,value := value}
      | _, _ => none
  | _ => none

def extractJoinCondition : Expr → Option JoinCondition
  | .binary "=" (.column leftTable leftColumn) (.column rightTable rightColumn) =>
    some ⟨leftTable,leftColumn,rightTable,rightColumn⟩
  | _ => none

end Parser
end OurSql
