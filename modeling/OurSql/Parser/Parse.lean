import OurSql.Parser.Expressions

/-! The parser of statements, and the circle of its functions closed by fuel. -/
namespace OurSql
namespace Parser

open Data Expression
open Execution (Predicate)
open Parse (peek previous advance loop separated andThen)

variable (g : Grammar)

structure ParsedWhere where
  expression : Expr := .nullptr
  predicate : Option Predicate := none

/-- The whole condition, folded, and the simple one if it is one. -/
def parseWhere : Parsing ParsedWhere := do
  let expression ← g.compileExpr
  let folded := foldCompileExpr expression
  pure ⟨folded,extractPredicate folded⟩

def optionalWhere : Parsing ParsedWhere := ifMatch .where_ (parseWhere g) (pure {})

/-- `AS` and a name; the empty name without it. -/
def parseAlias (expected : String) : Parsing String :=
  ifMatch .as (expectIdentifier expected) (pure "")

/-! ### SELECT -/

structure SelectItem where
  expression : Expr
  itemAlias : String

def parseAliasedItem : Parsing SelectItem := do
  let expression ← parseSelectItem g
  let itemAlias ← parseAlias "AS 后的列别名"
  pure ⟨expression,itemAlias⟩

/-- `none` is the star. -/
def parseSelectList : Parsing (Option (List SelectItem)) :=
  ifMatch .star (pure none)
    (do
      let items ← commaSeparated (parseAliasedItem g) g.fuel
      pure (some items))

def parseOuterJoin (type : JoinType) (expected : String) : Parsing (Option JoinType) := do
  let _ ← matchType .outer
  let _ ← expect .join expected
  pure (some type)

def parseJoinType : Parsing (Option JoinType) :=
  ifMatch .left (parseOuterJoin .left "JOIN after LEFT") <|
  ifMatch .right (parseOuterJoin .right "JOIN after RIGHT") <|
  ifMatch .full (parseOuterJoin .full "JOIN after FULL") <|
  ifMatch .inner
    (do
      let _ ← expect .join "JOIN after INNER"
      pure (some .inner)) <|
  ifMatch .join (pure (some .inner)) (pure none)

/-- What follows JOIN. -/
def parseJoinClause (type : JoinType) : Parsing JoinClause := do
  let tableName ← expectIdentifier "JOIN 后的表名"
  let tableAlias ← parseAlias "JOIN 表别名"
  let on ← expect .on "JOIN 后的 ON"
  let condition ← g.compileExpr
  match extractJoinCondition (foldCompileExpr condition) with
  | none =>
    abort .invalidArgument ("JOIN ON 目前只支持两列等值连接，位置 " ++ linePosition on)
  | some condition => pure ⟨type,tableName,tableAlias,condition,tokenPosition on⟩

def parseJoin (joins : List JoinClause) : Parsing (Option (List JoinClause)) :=
  andThen parseJoinType fun type => do
    let clause ← parseJoinClause g type
    pure (joins ++ [clause])

def parseGroupBy : Parsing (List String) :=
  ifMatch .group
    (do
      let _ ← expect .by_ "BY after GROUP"
      commaSeparated (expectIdentifier "GROUP BY 后的列名") g.fuel)
    (pure [])

def parseHaving : Parsing Expr :=
  ifMatch .having
    (do
      let expression ← g.compileExpr
      pure (foldCompileExpr expression))
    (pure .nullptr)

def parseOrderKey : Parsing OrderKey := do
  let column ← expectIdentifier "ORDER BY 后的列名"
  ifMatch .desc (pure ⟨column,.desc⟩) (ifMatch .asc (pure ⟨column,.asc⟩) (pure ⟨column,.asc⟩))

def parseOrderBy : Parsing (List OrderKey) :=
  ifMatch .order
    (do
      let _ ← expect .by_ "BY after ORDER"
      commaSeparated parseOrderKey g.fuel)
    (pure [])

def parseLimit : Parsing (Option ℕ) :=
  ifMatch .limit
    (do
      let token ← expect .integer "LIMIT 后的非负整数"
      if token.lexeme.head? = some 45 then
        abort .invalidArgument ("LIMIT 必须是非负整数，位置 " ++ linePosition token)
      else
        match fromCharsSize token.lexeme with
        | some limit => pure (some limit)
        | none => abort .invalidArgument ("LIMIT 数值超出范围，位置 " ++ linePosition token))
    (pure none)

def parseSemicolon : Parsing Unit := do
  let _ ← expect .semicolon "';'"
  pure ()

/-- `ParseSelect`. Its statement is always a `SelectStatement`. -/
def parseSelect (consumeSemicolon : Bool) : Parsing SelectStatement := do
  let select ← expect .select "SELECT"
  let distinct ← matchType .distinct
  let items ← parseSelectList g
  let _ ← expect .from_ "FROM"
  let tableName ← expectIdentifier "表名"
  let tableAlias ← parseAlias "AS 后的表别名"
  let joins ← loop (parseJoin g) g.fuel []
  let parsedWhere ← optionalWhere g
  let groupBy ← parseGroupBy g
  let having ← parseHaving g
  let orderBy ← parseOrderBy g
  let limit ← parseLimit
  let _ ← (if consumeSemicolon then parseSemicolon else pure ())
  pure
    {tableName := tableName
     tableAlias := tableAlias
     joins := joins
     projection := (items.getD []).map (compileExprText ·.expression)
     projectionExpressions := (items.getD []).map (·.expression)
     projectionAliases := (items.getD []).map (·.itemAlias)
     selectAll := items.isNone
     where_ := parsedWhere.predicate
     compileWhere := parsedWhere.expression
     groupBy := groupBy
     having := having
     orderBy := orderBy
     distinct := distinct
     limit := limit
     location := tokenPosition select}

/-! ### The other statements -/

/-- The length of a VARCHAR behind its parenthesis. -/
def parseLength : Parsing (Option ℕ) := do
  let token ← expect .integer "VARCHAR 的长度"
  match fromCharsSize token.lexeme with
  | none | some 0 => abort .invalidArgument ("VARCHAR 长度非法，位置 " ++ linePosition token)
  | some length => do
    let _ ← expect .rightParen "')'"
    pure (some length)

def parseColumnType : Parsing (DataType × Option ℕ) :=
  ifMatch .int (pure (.int,none)) <|
  ifMatch .varchar
    (do
      let length ← ifMatch .leftParen parseLength (pure none)
      pure (.varchar,length)) <|
  unexpected "INT 或 VARCHAR"

/-- The constraints of a column definition read so far. -/
structure Constraints where
  primaryKey : Bool := false
  unique : Bool := false
  notNull : Bool := false
  defaultValue : Option Value := none

def repeated {α : Type} (name constraint : String) : Parsing α :=
  abort .alreadyExists ("列 " ++ name ++ " 重复声明 " ++ constraint)

/-- NOT NULL after PRIMARY KEY is a repetition; PRIMARY KEY after NOT NULL is none. -/
def parseConstraint (name : String) (c : Constraints) : Parsing (Option Constraints) :=
  ifMatch .primary
    (if c.primaryKey then repeated name "PRIMARY KEY"
     else do
      let _ ← expect .key "PRIMARY 后的 KEY"
      pure (some {c with primaryKey := true,unique := true,notNull := true})) <|
  ifMatch .not
    (do
      let _ ← expect .null "NOT 后的 NULL"
      if c.notNull then repeated name "NOT NULL" else pure (some {c with notNull := true})) <|
  ifMatch .unique
    (if c.unique then repeated name "UNIQUE" else pure (some {c with unique := true})) <|
  ifMatch .default
    (if c.defaultValue.isSome then repeated name "DEFAULT"
     else do
      let value ← parseLiteral
      pure (some {c with defaultValue := some value})) <|
  pure none

def parseColumnDefinition : Parsing Column := do
  let name ← expectIdentifier "列名"
  let type ← parseColumnType
  let constraints ← loop (parseConstraint name) g.fuel {}
  pure
    {name := name
     type := type.1
     length := type.2
     nullable := !constraints.notNull
     primaryKey := constraints.primaryKey
     unique := constraints.unique || constraints.primaryKey
     defaultValue := constraints.defaultValue}

def parseCreateTable : Parsing Statement := do
  let create ← expect .create "CREATE"
  let _ ← expect .table "TABLE"
  let tableName ← expectIdentifier "表名"
  let _ ← expect .leftParen "'('"
  let columns ← commaSeparated (parseColumnDefinition g) g.fuel
  let _ ← expect .rightParen "')'"
  let _ ← parseSemicolon
  pure (.createTable ⟨tableName,columns,tokenPosition create⟩)

def parseCreateIndex : Parsing Statement := do
  let create ← expect .create "CREATE"
  let isUnique ← matchType .unique
  let _ ← expect .index "INDEX"
  let indexName ← expectIdentifier "索引名"
  let _ ← expect .on "ON"
  let tableName ← expectIdentifier "ON 后的表名"
  let _ ← expect .leftParen "'('"
  let columnName ← expectIdentifier "索引列名"
  let _ ← expect .rightParen "')'"
  let _ ← parseSemicolon
  pure (.createIndex ⟨indexName,tableName,columnName,isUnique,tokenPosition create⟩)

/-- Called with CREATE as the next token: the one or two tokens behind it decide. -/
def parseCreate : Parsing Statement := do
  let second ← peek 1
  if second.type = .table then parseCreateTable g
  else if second.type = .index then parseCreateIndex
  else if second.type = .unique then do
    let third ← peek 2
    if third.type = .index then parseCreateIndex
    else Parse.fail (syntaxError "TABLE 或 INDEX after CREATE" second)
  else Parse.fail (syntaxError "TABLE 或 INDEX after CREATE" second)

def parseInsertColumns : Parsing (List String) :=
  ifMatch .leftParen
    (do
      let columns ← commaSeparated (expectIdentifier "INSERT 目标列名") g.fuel
      let _ ← expect .rightParen "')'"
      pure columns)
    (pure [])

def parseRow : Parsing Row := do
  let _ ← expect .leftParen "VALUES 后的 '('"
  let row ← commaSeparated parseLiteral g.fuel
  let _ ← expect .rightParen "')'"
  pure row

def parseInsert : Parsing Statement := do
  let insert ← expect .insert "INSERT"
  let _ ← expect .into "INTO"
  let tableName ← expectIdentifier "表名"
  let columns ← parseInsertColumns g
  let _ ← expect .values "VALUES"
  let rows ← commaSeparated (parseRow g) g.fuel
  let _ ← parseSemicolon
  pure (.insert ⟨tableName,columns,rows,tokenPosition insert⟩)

def parseDelete : Parsing Statement := do
  let keyword ← expect .delete "DELETE"
  let _ ← expect .from_ "FROM"
  let tableName ← expectIdentifier "表名"
  let parsedWhere ← optionalWhere g
  let _ ← parseSemicolon
  pure (.delete
    ⟨tableName,parsedWhere.predicate,parsedWhere.expression,tokenPosition keyword⟩)

def parseAssignment : Parsing UpdateAssignment := do
  let column ← expectIdentifier "SET 后的列名"
  let _ ← expect .equal "'='"
  let expression ← g.compileExpr
  let folded := foldCompileExpr expression
  pure ⟨column,folded,extractLiteralValue folded⟩

def parseUpdate : Parsing Statement := do
  let update ← expect .update "UPDATE"
  let tableName ← expectIdentifier "UPDATE 后的表名"
  let _ ← expect .set "SET"
  let assignments ← commaSeparated (parseAssignment g) g.fuel
  let parsedWhere ← optionalWhere g
  let _ ← parseSemicolon
  pure (.update
    ⟨tableName,assignments,parsedWhere.predicate,parsedWhere.expression,tokenPosition update⟩)

/-- Behind RENAME. -/
def parseRename (tableName : String) (location : Position) : Parsing AlterTableStatement :=
  ifMatch .to
    (do
      let newName ← expectIdentifier "RENAME TO 后的新表名"
      pure
        {tableName := tableName
         action := .renameTable
         newName := newName
         location := location})
    (do
      let _ ← expect .column "RENAME 后的 TO 或 COLUMN"
      let oldName ← expectIdentifier "RENAME COLUMN 后的旧列名"
      let _ ← expect .to "旧列名后的 TO"
      let newName ← expectIdentifier "TO 后的新列名"
      pure
        {tableName := tableName
         action := .renameColumn
         newName := newName
         columnName := oldName
         location := location})

def parseAddColumn (tableName : String) (location : Position) : Parsing AlterTableStatement := do
  let _ ← expect .add "RENAME 或 ADD after ALTER TABLE name"
  let _ ← expect .column "ADD 后的 COLUMN"
  let definition ← parseColumnDefinition g
  pure
    {tableName := tableName
     action := .addColumn
     columnName := definition.name
     column := definition
     defaultValue := definition.defaultValue
     location := location}

def parseAlter : Parsing Statement := do
  let alter ← expect .alter "ALTER"
  let _ ← expect .table "TABLE"
  let tableName ← expectIdentifier "ALTER TABLE 后的表名"
  let statement ←
    ifMatch .rename (parseRename tableName (tokenPosition alter))
      (parseAddColumn g tableName (tokenPosition alter))
  let _ ← parseSemicolon
  pure (.alterTable statement)

def transactionStatement (keyword : Token) : Parsing Statement :=
  match keyword.type with
  | .begin => pure (.begin (tokenPosition keyword))
  | .commit => pure (.commit (tokenPosition keyword))
  | .rollback => pure (.rollback (tokenPosition keyword))
  | _ => Parse.fail (syntaxError "BEGIN, COMMIT or ROLLBACK" keyword)

def parseTransaction : Parsing Statement := do
  let keyword ← peek 0
  advance
  let _ ← parseSemicolon
  transactionStatement keyword

def parseDrop : Parsing Statement := do
  let drop ← expect .drop "DROP"
  ifMatch .table
    (do
      let tableName ← expectIdentifier "DROP TABLE 后的表名"
      let _ ← parseSemicolon
      pure (.dropTable ⟨tableName,tokenPosition drop⟩)) <|
  ifMatch .index
    (do
      let indexName ← expectIdentifier "DROP INDEX 后的索引名"
      let _ ← parseSemicolon
      pure (.dropIndex ⟨indexName,tokenPosition drop⟩)) <|
  unexpected "TABLE 或 INDEX after DROP"

def parseExplain : Parsing Statement := do
  let explain ← expect .explain "EXPLAIN"
  let token ← peek 0
  if token.type ≠ .select then Parse.fail (syntaxError "SELECT after EXPLAIN" token)
  else do
    let select ← parseSelect g true
    pure (.explain ⟨select,tokenPosition explain⟩)

def parseSelectStatement : Parsing Statement := do
  let select ← parseSelect g true
  pure (.select select)

/-- The first token chooses the statement. -/
def statementParser (type : TokenType) : Option (Parsing Statement) :=
  match type with
  | .create => some (parseCreate g)
  | .insert => some (parseInsert g)
  | .select => some (parseSelectStatement g)
  | .explain => some (parseExplain g)
  | .delete => some (parseDelete g)
  | .drop => some parseDrop
  | .alter => some (parseAlter g)
  | .begin | .commit | .rollback => some parseTransaction
  | .update => some (parseUpdate g)
  | _ => none

def parseStatement : Parsing Statement := do
  let token ← peek 0
  match statementParser g token.type with
  | some statement => statement
  | none =>
    Parse.fail (syntaxError "CREATE、INSERT、SELECT、EXPLAIN、DELETE、DROP 或 UPDATE" token)

/-- One round of `ParserImpl::Parse`: it stops at the EOF token. -/
def parseNext (statements : List Statement) : Parsing (Option (List Statement)) := do
  let token ← peek 0
  if token.type = .endOfFile then pure none
  else do
    let statement ← parseStatement g
    pure (some (statements ++ [statement]))

def parseStatements : Parsing (List Statement) := do
  let statements ← loop (parseNext g) g.fuel []
  if statements.isEmpty then unexpected "statement" else pure statements

/-- A unit of fuel for each consumed token is enough. -/
def grammar : ℕ → Grammar
  | 0 => ⟨0,Parse.unfinished,Parse.unfinished,Parse.unfinished,Parse.unfinished⟩
  | fuel+1 =>
    let g := grammar fuel
    ⟨fuel + 1,parseCompileExpr g,parseCompileNot g,parseCompileUnary g,parseSelect g false⟩

/-- `Parser::Parse`: a lexical error ends it before the first statement. -/
def parse (fuel : ℕ) (sql : List UInt8) : Parse.Outcome Failure (List Statement) :=
  match tokenize fuel sql with
  | none => .unfinished
  | some (.error e) => .failed e
  | some (.ok tokens) => parseStatements (grammar fuel) tokens 0

end Parser
end OurSql
