import OurSql.Lib.Parse
import OurSql.Parser.Statement

/-! The parser of expressions. Its functions call each other in a circle; the circle is cut
where a token has been consumed, at a `Grammar` that holds the functions called there. -/
namespace OurSql
namespace Parser

open Data Expression
open Parse (peek previous advance loop separated andThen)

abbrev Parsing (α : Type) := Parse.Parser Token Failure α

variable {α : Type}

def hasType (type : TokenType) (token : Token) : Bool := token.type = type

def linePosition (token : Token) : String := toString token.line ++ ":" ++ toString token.column

/-- `ParserImpl::Error`. -/
def syntaxError (expected : String) (actual : Token) : Failure :=
  let lexeme := if actual.lexeme = [] then "" else "('" ++ text actual.lexeme ++ "')"
  ⟨.invalidArgument,"语法错误：期望 " ++ expected ++ "，实际 " ++ tokenTypeName actual.type ++ lexeme ++
    "，位置 " ++ linePosition actual⟩

def abort (code : ErrorCode) (message : String) : Parsing α := Parse.fail ⟨code,message⟩

def matchType (type : TokenType) : Parsing Bool := Parse.accept (hasType type)

def ifMatch (type : TokenType) (yes no : Parsing α) : Parsing α :=
  Parse.ifAccept (hasType type) yes no

def expect (type : TokenType) (expected : String) : Parsing Token :=
  Parse.expect (hasType type) (syntaxError expected)

def expectIdentifier (expected : String) : Parsing String := do
  let token ← expect .identifier expected
  pure (text token.lexeme)

/-- `Error(expected, Peek())`. -/
def unexpected (expected : String) : Parsing α := do
  let token ← peek 0
  Parse.fail (syntaxError expected token)

def commaSeparated (item : Parsing α) (fuel : ℕ) : Parsing (List α) :=
  separated (hasType .comma) item fuel

/-! ### Numbers -/

def readDigits (digits : List UInt8) : Option ℕ :=
  if digits ≠ [] ∧ digits.all isDigit then
    some (digits.foldl (fun n b => 10 * n + (b.toNat - 48)) 0)
  else none

/-- `std::from_chars` of an `int64_t` that has read the whole text. -/
def fromCharsInt64 : List UInt8 → Option Int64
  | 45::digits => (readDigits digits).bind fun n =>
    if n ≤ 2 ^ 63 then some (Int64.ofInt (-n)) else none
  | digits => (readDigits digits).bind fun n =>
    if n < 2 ^ 63 then some (Int64.ofNat n) else none

/-- `std::from_chars` of a `size_t`, which takes no sign. -/
def fromCharsSize (digits : List UInt8) : Option ℕ :=
  (readDigits digits).bind fun n => if n < 2 ^ 64 then some n else none

/-- The integer of the token just consumed. -/
def parseInteger : Parsing Int64 := do
  let token ← previous
  match fromCharsInt64 token.lexeme with
  | some n => pure n
  | none => abort .invalidArgument ("整数超出范围，位置 " ++ linePosition token)

def parseLiteral : Parsing Value :=
  ifMatch .null (pure .null) <|
  ifMatch .string
    (do
      let token ← previous
      pure (.varchar token.lexeme)) <|
  ifMatch .integer
    (do
      let n ← parseInteger
      pure (.int n)) <|
  unexpected "整数、单引号字符串或 NULL"

/-! ### Expressions -/

/-- The functions that are called behind a consumed token: `ParseCompileExpr`,
`ParseCompileNot`, `ParseCompileUnary` and `ParseSelect(false)`, and fuel for loops. -/
structure Grammar where
  fuel : ℕ
  compileExpr : Parsing Expr
  compileNot : Parsing Expr
  compileUnary : Parsing Expr
  select : Parsing SelectStatement

variable (g : Grammar)

def makeLiteralExpr : Value → Expr
  | .null => .literal {kind := .null}
  | .int n => .literal {kind := .int,integer := n}
  | .varchar text => .literal {kind := .string,text := text}

def parseColumnRef (expected : String) : Parsing Expr := do
  let first ← expectIdentifier expected
  ifMatch .dot
    (do
      let column ← expectIdentifier "'.' 后的列名"
      pure (.column first column))
    (pure (.column "" first))

def isAggregateCall : Parsing Bool := do
  let token ← peek 0
  if token.type = .identifier then do
    let next ← peek 1
    pure (next.type = .leftParen && (aggregateKindFromName (text token.lexeme)).isSome)
  else pure false

def parseAggregateExpr : Parsing Expr := do
  let function ← expectIdentifier "聚合函数名"
  match aggregateKindFromName function with
  | none => do
    let token ← previous
    abort .invalidArgument ("未知聚合函数: " ++ function ++ "，位置 " ++ linePosition token)
  | some kind => do
    let _ ← expect .leftParen "聚合函数后的 '('"
    let star ← matchType .star
    let argument ← (if star then pure .nullptr else g.compileExpr)
    let _ ← expect .rightParen "聚合函数后的 ')'"
    pure (.aggregate kind star argument)

def parseSelectItem : Parsing Expr := do
  let aggregate ← isAggregateCall
  if aggregate then parseAggregateExpr g else g.compileExpr

def parseSubquery : Parsing SelectStatement := do
  let token ← peek 0
  if token.type ≠ .select then Parse.fail (syntaxError "SELECT" token) else g.select

def isComparisonType (type : TokenType) : Bool :=
  type ∈ [.equal,.notEqual,.greater,.greaterEqual,.less,.lessEqual]

def isAdditiveType (type : TokenType) : Bool := type ∈ [.plus,.minus]

def isMultiplicativeType (type : TokenType) : Bool := type ∈ [.star,.slash]

/-- A subquery and the parenthesis behind it. -/
def parseClosedSubquery (expected : String) : Parsing SelectStatement := do
  let query ← parseSubquery g
  let _ ← expect .rightParen expected
  pure query

def parseExists : Parsing Expr := do
  let _ ← expect .leftParen "EXISTS 后的 '('"
  let token ← peek 0
  if token.type ≠ .select then Parse.fail (syntaxError "SELECT after EXISTS (" token)
  else do
    let query ← parseClosedSubquery g "EXISTS 子查询后的 ')'"
    pure (.subquery .existence (some query) .nullptr false)

/-- Behind a left parenthesis: a scalar subquery or an expression. -/
def parseParenthesized : Parsing Expr := do
  let token ← peek 0
  if token.type = .select then do
    let query ← parseClosedSubquery g "标量子查询后的 ')'"
    pure (.subquery .scalar (some query) .nullptr false)
  else do
    let inner ← g.compileExpr
    let _ ← expect .rightParen "')'"
    pure inner

def parseName : Parsing Expr := do
  let aggregate ← isAggregateCall
  if aggregate then parseAggregateExpr g else parseColumnRef "表达式中的列名"

def parseCompilePrimary : Parsing Expr :=
  ifMatch .null (pure (makeLiteralExpr .null)) <|
  ifMatch .exists_ (parseExists g) <|
  ifMatch .true (pure (CompileExpr.makeBool true)) <|
  ifMatch .false (pure (CompileExpr.makeBool false)) <|
  ifMatch .string
    (do
      let token ← previous
      pure (makeLiteralExpr (.varchar token.lexeme))) <|
  ifMatch .integer
    (do
      let n ← parseInteger
      pure (makeLiteralExpr (.int n))) <| do
  let token ← peek 0
  if token.type = .identifier then parseName g
  else
    ifMatch .leftParen (parseParenthesized g)
      (unexpected "表达式（列名、常量、NULL、括号、EXISTS 或 NOT）")

def parseCompileUnary : Parsing Expr :=
  ifMatch .minus
    (do
      let operand ← g.compileUnary
      pure (.unary "-" operand))
    (parseCompilePrimary g)

/-- One layer of binary operators: they associate to the left. -/
def parseOperators (isType : TokenType → Bool) (expected : String) (operand : Parsing Expr) :
    Parsing Expr := do
  let left ← operand
  loop
    (fun left => do
      let token ← peek 0
      if isType token.type then do
        let operation ← expect token.type expected
        let right ← operand
        pure (some (.binary (text operation.lexeme) left right))
      else pure none)
    g.fuel left

def parseCompileMultiplicative : Parsing Expr :=
  parseOperators g isMultiplicativeType "乘除运算符" (parseCompileUnary g)

def parseCompileAdditive : Parsing Expr :=
  parseOperators g isAdditiveType "加减运算符" (parseCompileMultiplicative g)

/-- One comparison at most: they do not chain. -/
def parseComparisonOperator (left : Expr) : Parsing Expr := do
  let token ← peek 0
  if isComparisonType token.type then do
    let operation ← expect token.type "比较运算符"
    let right ← parseCompileAdditive g
    pure (.binary (text operation.lexeme) left right)
  else pure left

def parseIsNull (operand : Expr) : Parsing Expr := do
  let negated ← matchType .not
  let _ ← expect .null "IS 后的 NULL"
  pure (.isNull operand negated)

/-- A NOT counts here only before BETWEEN, IN or LIKE. -/
def parseNegation : Parsing Bool := do
  let token ← peek 0
  if token.type = .not then do
    let next ← peek 1
    if next.type = .between ∨ next.type = .in_ ∨ next.type = .like then do
      advance
      pure true
    else pure false
  else pure false

def parseBetween (negated : Bool) (operand : Expr) : Parsing Expr := do
  let lower ← parseCompileAdditive g
  let _ ← expect .and "BETWEEN 后的 AND"
  let upper ← parseCompileAdditive g
  pure (.between operand lower upper negated)

def parseIn (negated : Bool) (operand : Expr) : Parsing Expr := do
  let _ ← expect .leftParen "IN 后的 '('"
  let token ← peek 0
  if token.type = .select then do
    let query ← parseClosedSubquery g "IN 子查询后的 ')'"
    pure (.subquery .membership (some query) operand negated)
  else do
    let options ← commaSeparated g.compileExpr g.fuel
    let _ ← expect .rightParen "IN 列表后的 ')'"
    pure (.inList operand options negated)

def parseLike (negated : Bool) (left : Expr) : Parsing Expr := do
  let right ← parseCompileAdditive g
  pure (.binary (if negated then "not like" else "like") left right)

def parseCompileComparison : Parsing Expr := do
  let first ← parseCompileAdditive g
  let left ← parseComparisonOperator g first
  ifMatch .is (parseIsNull left) <| do
  let negated ← parseNegation
  ifMatch .between (parseBetween g negated left) <|
  ifMatch .in_ (parseIn g negated left) <|
  ifMatch .like (parseLike g negated left) (pure left)

def parseCompileNot : Parsing Expr :=
  ifMatch .not
    (do
      let operand ← g.compileNot
      pure (.unary "not" operand))
    (parseCompileComparison g)

/-- One layer of logical operators. -/
def parseLogical (type : TokenType) (op : String) (operand : Parsing Expr) : Parsing Expr := do
  let left ← operand
  loop
    (fun left =>
      ifMatch type
        (do
          let right ← operand
          pure (some (.binary op left right)))
        (pure none))
    g.fuel left

def parseCompileAnd : Parsing Expr := parseLogical g .and "and" (parseCompileNot g)

def parseCompileOr : Parsing Expr := parseLogical g .or "or" (parseCompileAnd g)

def parseCompileExpr : Parsing Expr := parseCompileOr g

end Parser
end OurSql
