import OurSql.Parser.Parse

/-! The parser is total: it ends on every text, it reads no token outside the list, it never
leaves the EOF token, and a parse that succeeds ends at it. -/
namespace OurSql
namespace Parser

open Parse (Reads Eats Offers Ended peek loop reads_pure reads_fail reads_peek reads_previous
  eats_fail offers_none)

def IsEnd (token : Token) : Prop := token.type = .endOfFile

/-- What the lexer makes: the last token, and no other, is EOF. -/
abbrev Closed (tokens : List Token) : Prop := Ended IsEnd tokens

/-- The functions of the grammar consume a token and end with at most `r` tokens left. -/
structure Good (tokens : List Token) (r : ℕ) (g : Grammar) : Prop where
  fuel : r ≤ g.fuel
  compileExpr : Eats tokens 1 r g.compileExpr
  compileNot : Eats tokens 1 r g.compileNot
  compileUnary : Eats tokens 1 r g.compileUnary
  select : Eats tokens 1 r g.select

variable {α β : Type} {tokens : List Token} {m r : ℕ} {g : Grammar} {type : TokenType}

theorem hasType_not_isEnd (h : type ≠ .endOfFile) (t : Token) (ht : hasType type t) :
    ¬ IsEnd t := by
  have : t.type = type := by simpa [hasType] using ht
  rw [IsEnd,this]
  exact h

theorem moves_unexpected (R : α → ℕ → ℕ → Prop) (expected : String) :
    Parse.Moves tokens m r R (unexpected expected) :=
  Parse.Moves.bind reads_peek fun _ _ _ _ _ _ _ => trivial

theorem eats_unexpected (expected : String) :
    Eats tokens m r (unexpected expected : Parsing α) := moves_unexpected _ expected

theorem reads_abort (code : ErrorCode) (message : String) :
    Reads tokens m r (abort code message : Parsing α) := reads_fail _

theorem reads_parseInteger : Reads tokens 1 r parseInteger := by
  refine reads_previous.bind fun token => ?_
  cases fromCharsInt64 token.lexeme with
  | none => exact reads_abort _ _
  | some n => exact reads_pure n

theorem eats_parseSubquery (hg : Good tokens r g) : Eats tokens 1 r (parseSubquery g) :=
  reads_peek.bind_eats fun _ => .ite (eats_fail _) hg.select

section

variable (he : Closed tokens)

include he

theorem reads_matchType (h : type ≠ .endOfFile) :
    Reads tokens m r (matchType type) :=
  Parse.accept_reads he (hasType_not_isEnd h)

theorem eats_expect (h : type ≠ .endOfFile) (expected : String) :
    Eats tokens m r (expect type expected) :=
  Parse.eats_expect he (hasType_not_isEnd h) _

theorem reads_expect (h : type ≠ .endOfFile) (expected : String) :
    Reads tokens m r (expect type expected) :=
  (eats_expect he h expected).reads

theorem reads_ifMatch (h : type ≠ .endOfFile) {yes no : Parsing α} (hyes : Reads tokens 1 r yes)
    (hno : Reads tokens m r no) :
    Reads tokens m r (ifMatch type yes no) :=
  .ifAccept he (hasType_not_isEnd h) hyes hno

theorem eats_ifMatch (h : type ≠ .endOfFile) {yes no : Parsing α} (hyes : Reads tokens 1 r yes)
    (hno : Eats tokens m (r+1) no) :
    Eats tokens m (r+1) (ifMatch type yes no) :=
  .ifAccept he (hasType_not_isEnd h) hyes hno

theorem offers_ifMatch (h : type ≠ .endOfFile) {yes no : Parsing (Option α)}
    (hyes : Reads tokens 1 r yes)
    (hno : Offers tokens m r no) :
    Offers tokens m r (ifMatch type yes no) :=
  .ifAccept he (hasType_not_isEnd h) hyes hno

theorem eats_expectIdentifier (expected : String) :
    Eats tokens m r (expectIdentifier expected) :=
  (eats_expect he (by decide) expected).map _

theorem reads_expectIdentifier (expected : String) :
    Reads tokens m r (expectIdentifier expected) := (eats_expectIdentifier he expected).reads

/-! ### Expressions -/

theorem eats_parseLiteral_succ : Eats tokens m (r+1) parseLiteral := by
  refine eats_ifMatch he (by decide) (reads_pure _) ?_
  refine eats_ifMatch he (by decide) (reads_previous.bind fun token => reads_pure _) ?_
  refine eats_ifMatch he (by decide) (reads_parseInteger.bind fun n => reads_pure _) ?_
  exact eats_unexpected _

theorem eats_parseLiteral : Eats tokens m r parseLiteral :=
  (eats_parseLiteral_succ he).mono le_rfl (Nat.le_succ r)

theorem eats_parseColumnRef (expected : String) :
    Eats tokens m (r+1) (parseColumnRef expected) := by
  refine (eats_expectIdentifier he expected).bind fun first => ?_
  refine reads_ifMatch he (by decide) ?_ (reads_pure _)
  exact (reads_expectIdentifier he _).bind fun column => reads_pure _

theorem reads_isAggregateCall : Reads tokens m r isAggregateCall := by
  refine Parse.Moves.peek_ite ?_ (fun _ => reads_pure _) he fun t ht => by simp [IsEnd,ht]
  intro token i _ hlt _ _ _
  refine (Parse.ensures_peek hlt).bind fun next j hj => ?_
  obtain rfl : j = i := hj.2
  exact ⟨Nat.le_refl j,Nat.lt_of_succ_lt hlt⟩

theorem reads_parseIsNull (operand : Expr) : Reads tokens 1 r (parseIsNull operand) := by
  refine (reads_matchType he (by decide)).bind fun negated => ?_
  exact (reads_expect he (by decide) _).bind fun null => reads_pure _

theorem reads_parseNegation : Reads tokens m r parseNegation := by
  refine Parse.Moves.peek_ite ?_ (fun _ => reads_pure _) he fun t ht => by simp [IsEnd,ht]
  intro token i _ hlt _ _ _
  refine (Parse.ensures_peek hlt).bind fun next j hj => ?_
  obtain rfl : j = i := hj.2
  by_cases h : next.type = .between ∨ next.type = .in_ ∨ next.type = .like
  · simp only [if_pos h]
    refine (Parse.ensures_advance hlt).bind fun _ k hk => ?_
    exact hk ▸ ⟨Nat.le_succ j,hlt⟩
  · simp only [if_neg h]
    exact ⟨Nat.le_refl j,Nat.lt_of_succ_lt hlt⟩

theorem eats_commaSeparated {item : Parsing α} {k : ℕ} (hk : r ≤ k) (h : Eats tokens 1 r item) :
    Eats tokens 1 r (commaSeparated item k) :=
  Parse.eats_separated he (hasType_not_isEnd (by decide)) hk h

variable (hg : Good tokens r g)

include hg

theorem eats_parseAggregateExpr : Eats tokens m (r+1) (parseAggregateExpr g) := by
  refine (eats_expectIdentifier he _).bind fun function => ?_
  cases aggregateKindFromName function with
  | none => exact reads_previous.bind fun token => reads_abort _ _
  | some kind =>
    refine (reads_expect he (by decide) _).bind fun left => ?_
    refine (reads_matchType he (by decide)).bind fun star => ?_
    refine Reads.bind (.ite (reads_pure _) hg.compileExpr.reads) fun argument => ?_
    exact (reads_expect he (by decide) _).bind fun right => reads_pure _

theorem reads_parseClosedSubquery (expected : String) :
    Reads tokens 1 r (parseClosedSubquery g expected) := by
  refine (eats_parseSubquery hg).reads.bind fun query => ?_
  exact (reads_expect he (by decide) expected).bind fun right => reads_pure query

theorem reads_parseExists : Reads tokens 1 r (parseExists g) := by
  refine (reads_expect he (by decide) _).bind fun left => reads_peek.bind fun token => ?_
  refine .ite (reads_fail _) ?_
  exact (reads_parseClosedSubquery he hg _).bind fun query => reads_pure _

theorem reads_parseParenthesized : Reads tokens 1 r (parseParenthesized g) := by
  refine reads_peek.bind fun token => .ite ?_ ?_
  · exact (reads_parseClosedSubquery he hg _).bind fun query => reads_pure _
  · refine hg.compileExpr.reads.bind fun inner => ?_
    exact (reads_expect he (by decide) _).bind fun right => reads_pure inner

theorem eats_parseName : Eats tokens m (r+1) (parseName g) :=
  (reads_isAggregateCall he).bind_eats fun _ =>
    .ite (eats_parseAggregateExpr he hg) (eats_parseColumnRef he _)

theorem eats_parseCompilePrimary : Eats tokens m (r+1) (parseCompilePrimary g) := by
  refine eats_ifMatch he (by decide) (reads_pure _) ?_
  refine eats_ifMatch he (by decide) (reads_parseExists he hg) ?_
  refine eats_ifMatch he (by decide) (reads_pure _) ?_
  refine eats_ifMatch he (by decide) (reads_pure _) ?_
  refine eats_ifMatch he (by decide) (reads_previous.bind fun token => reads_pure _) ?_
  refine eats_ifMatch he (by decide) (reads_parseInteger.bind fun n => reads_pure _) ?_
  refine reads_peek.bind_eats fun token => .ite (eats_parseName he hg) ?_
  exact eats_ifMatch he (by decide) (reads_parseParenthesized he hg) (eats_unexpected _)

theorem eats_parseCompileUnary : Eats tokens m (r+1) (parseCompileUnary g) :=
  eats_ifMatch he (by decide) (hg.compileUnary.reads.bind fun _ => reads_pure _)
    (eats_parseCompilePrimary he hg)

/-- Layers of operators are as good as their operands. -/
theorem eats_parseOperators {isType : TokenType → Bool} (expected : String)
    {operand : Parsing Expr} (hop : ∀ m, Eats tokens m (r+1) operand)
    (hend : ¬ isType .endOfFile) : Eats tokens m (r+1) (parseOperators g isType expected operand) := by
  refine (hop m).bind fun left => Parse.loop_reads (fun left => ?_) hg.fuel left
  refine reads_peek.bind_offers fun token => ?_
  split
  next h =>
    have hne : token.type ≠ .endOfFile := fun heq => hend (heq ▸ h)
    refine ((eats_expect he hne expected).bind_reads fun operation => ?_).offers
    exact ((hop 1).reads.mono le_rfl (Nat.le_succ r)).bind fun right => reads_pure _
  next => exact offers_none

theorem eats_parseCompileMultiplicative : Eats tokens m (r+1) (parseCompileMultiplicative g) :=
  eats_parseOperators he hg _ (fun _ => eats_parseCompileUnary he hg) (by decide)

theorem eats_parseCompileAdditive : Eats tokens m (r+1) (parseCompileAdditive g) :=
  eats_parseOperators he hg _ (fun _ => eats_parseCompileMultiplicative he hg) (by decide)

theorem reads_parseCompileAdditive : Reads tokens 1 r (parseCompileAdditive g) :=
  (eats_parseCompileAdditive he hg).reads.mono le_rfl (Nat.le_succ r)

theorem reads_parseComparisonOperator (left : Expr) :
    Reads tokens 1 r (parseComparisonOperator g left) := by
  refine reads_peek.bind fun token => ?_
  split
  next h =>
    have hne : token.type ≠ .endOfFile := fun heq => by simp [heq,isComparisonType] at h
    refine (reads_expect he hne _).bind fun operation => ?_
    exact (reads_parseCompileAdditive he hg).bind fun right => reads_pure _
  next => exact reads_pure left

theorem reads_parseBetween (negated : Bool) (operand : Expr) :
    Reads tokens 1 r (parseBetween g negated operand) := by
  refine (reads_parseCompileAdditive he hg).bind fun lower => ?_
  refine (reads_expect he (by decide) _).bind fun andToken => ?_
  exact (reads_parseCompileAdditive he hg).bind fun upper => reads_pure _

theorem reads_parseIn (negated : Bool) (operand : Expr) :
    Reads tokens 1 r (parseIn g negated operand) := by
  refine (reads_expect he (by decide) _).bind fun left => reads_peek.bind fun token => .ite ?_ ?_
  · exact (reads_parseClosedSubquery he hg _).bind fun query => reads_pure _
  · refine (eats_commaSeparated he hg.fuel hg.compileExpr).reads.bind fun options => ?_
    exact (reads_expect he (by decide) _).bind fun right => reads_pure _

theorem eats_parseCompileComparison : Eats tokens m (r+1) (parseCompileComparison g) := by
  refine (eats_parseCompileAdditive he hg).bind fun first => ?_
  refine (reads_parseComparisonOperator he hg first).bind fun left => ?_
  refine reads_ifMatch he (by decide) (reads_parseIsNull he left) ?_
  refine (reads_parseNegation he).bind fun negated => ?_
  refine reads_ifMatch he (by decide) (reads_parseBetween he hg negated left) ?_
  refine reads_ifMatch he (by decide) (reads_parseIn he hg negated left) ?_
  refine reads_ifMatch he (by decide) ?_ (reads_pure left)
  exact (reads_parseCompileAdditive he hg).bind fun right => reads_pure _

theorem eats_parseCompileNot : Eats tokens m (r+1) (parseCompileNot g) :=
  eats_ifMatch he (by decide) (hg.compileNot.reads.bind fun _ => reads_pure _)
    (eats_parseCompileComparison he hg)

theorem eats_parseLogical (h : type ≠ .endOfFile) (op : String) {operand : Parsing Expr}
    (hop : ∀ m, Eats tokens m (r+1) operand) :
    Eats tokens m (r+1) (parseLogical g type op operand) := by
  refine (hop m).bind fun left => Parse.loop_reads (fun left => ?_) hg.fuel left
  have hright : Reads tokens 1 r operand := (hop 1).reads.mono le_rfl (Nat.le_succ r)
  exact offers_ifMatch he h (hright.bind fun right => reads_pure _) offers_none

theorem eats_parseCompileAnd : Eats tokens m (r+1) (parseCompileAnd g) :=
  eats_parseLogical he hg (by decide) _ fun _ => eats_parseCompileNot he hg

theorem eats_parseCompileExpr : Eats tokens m (r+1) (parseCompileExpr g) :=
  eats_parseLogical he hg (by decide) _ fun _ => eats_parseCompileAnd he hg

/-! ### SELECT -/

omit hg in
theorem reads_parseAlias (expected : String) : Reads tokens m r (parseAlias expected) :=
  reads_ifMatch he (by decide) (reads_expectIdentifier he expected) (reads_pure _)

omit he in
theorem reads_parseWhere : Reads tokens 1 r (parseWhere g) :=
  hg.compileExpr.reads.bind fun _ => reads_pure _

theorem reads_optionalWhere : Reads tokens 1 r (optionalWhere g) :=
  reads_ifMatch he (by decide) (reads_parseWhere hg) (reads_pure _)

theorem eats_parseSelectItem : Eats tokens 1 r (parseSelectItem g) := by
  refine (reads_isAggregateCall he).bind_eats fun aggregate => .ite ?_ hg.compileExpr
  exact (eats_parseAggregateExpr he hg).mono le_rfl (Nat.le_succ r)

theorem eats_parseAliasedItem : Eats tokens 1 r (parseAliasedItem g) := by
  refine (eats_parseSelectItem he hg).bind_reads fun expression => ?_
  exact (reads_parseAlias he _).bind fun itemAlias => reads_pure _

theorem reads_parseSelectList : Reads tokens 1 r (parseSelectList g) := by
  refine reads_ifMatch he (by decide) (reads_pure _) ?_
  exact (eats_commaSeparated he hg.fuel (eats_parseAliasedItem he hg)).reads.bind
    fun items => reads_pure _

omit hg in
theorem reads_parseOuterJoin (joinType : JoinType) (expected : String) :
    Reads tokens 1 r (parseOuterJoin joinType expected) := by
  refine (reads_matchType he (by decide)).bind fun outer => ?_
  exact (reads_expect he (by decide) _).bind fun join => reads_pure _

omit hg in
theorem offers_parseJoinType : Offers tokens 1 r parseJoinType := by
  refine offers_ifMatch he (by decide) (reads_parseOuterJoin he _ _) ?_
  refine offers_ifMatch he (by decide) (reads_parseOuterJoin he _ _) ?_
  refine offers_ifMatch he (by decide) (reads_parseOuterJoin he _ _) ?_
  refine offers_ifMatch he (by decide) ?_ ?_
  · exact (reads_expect he (by decide) _).bind fun join => reads_pure _
  · exact offers_ifMatch he (by decide) (reads_pure _) offers_none

theorem reads_parseJoinClause (joinType : JoinType) :
    Reads tokens 1 r (parseJoinClause g joinType) := by
  refine (reads_expectIdentifier he _).bind fun tableName => ?_
  refine (reads_parseAlias he _).bind fun tableAlias => ?_
  refine (reads_expect he (by decide) _).bind fun on => ?_
  refine hg.compileExpr.reads.bind fun condition => ?_
  cases extractJoinCondition (Expression.foldCompileExpr condition) with
  | none => exact reads_abort _ _
  | some joined => exact reads_pure _

theorem offers_parseJoin (joins : List JoinClause) : Offers tokens 1 r (parseJoin g joins) :=
  (offers_parseJoinType he).andThen fun joinType =>
    (reads_parseJoinClause he hg joinType).bind fun _ => reads_pure _

theorem reads_parseGroupBy : Reads tokens 1 r (parseGroupBy g) := by
  refine reads_ifMatch he (by decide) ?_ (reads_pure _)
  refine (reads_expect he (by decide) _).bind fun by_ => ?_
  exact (eats_commaSeparated he hg.fuel (eats_expectIdentifier he _)).reads

theorem reads_parseHaving : Reads tokens 1 r (parseHaving g) :=
  reads_ifMatch he (by decide) (hg.compileExpr.reads.bind fun _ => reads_pure _) (reads_pure _)

omit hg in
theorem eats_parseOrderKey : Eats tokens m r parseOrderKey := by
  refine (eats_expectIdentifier he _).bind_reads fun column => ?_
  refine reads_ifMatch he (by decide) (reads_pure _) ?_
  exact reads_ifMatch he (by decide) (reads_pure _) (reads_pure _)

theorem reads_parseOrderBy : Reads tokens 1 r (parseOrderBy g) := by
  refine reads_ifMatch he (by decide) ?_ (reads_pure _)
  refine (reads_expect he (by decide) _).bind fun by_ => ?_
  exact (eats_commaSeparated he hg.fuel (eats_parseOrderKey he)).reads

omit hg in
theorem reads_parseLimit : Reads tokens 1 r parseLimit := by
  refine reads_ifMatch he (by decide) ?_ (reads_pure _)
  refine (reads_expect he (by decide) _).bind fun token => .ite (reads_abort _ _) ?_
  cases fromCharsSize token.lexeme with
  | none => exact reads_abort _ _
  | some limit => exact reads_pure _

omit hg in
theorem reads_parseSemicolon : Reads tokens 1 r parseSemicolon :=
  (reads_expect he (by decide) _).bind fun _ => reads_pure _

theorem eats_parseSelect (consumeSemicolon : Bool) :
    Eats tokens m (r+1) (parseSelect g consumeSemicolon) := by
  refine (eats_expect he (by decide) _).bind fun select => ?_
  refine (reads_matchType he (by decide)).bind fun distinct => ?_
  refine (reads_parseSelectList he hg).bind fun items => ?_
  refine (reads_expect he (by decide) _).bind fun from_ => ?_
  refine (reads_expectIdentifier he _).bind fun tableName => ?_
  refine (reads_parseAlias he _).bind fun tableAlias => ?_
  refine (Parse.loop_reads (offers_parseJoin he hg) hg.fuel []).bind fun joins => ?_
  refine (reads_optionalWhere he hg).bind fun parsedWhere => ?_
  refine (reads_parseGroupBy he hg).bind fun groupBy => ?_
  refine (reads_parseHaving he hg).bind fun having_ => ?_
  refine (reads_parseOrderBy he hg).bind fun orderBy => ?_
  refine (reads_parseLimit he).bind fun limit => ?_
  exact Reads.bind (.ite (reads_parseSemicolon he) (reads_pure _)) fun _ => reads_pure _

/-! ### The other statements -/

omit hg in
theorem reads_parseLength : Reads tokens 1 r parseLength := by
  refine (reads_expect he (by decide) _).bind fun token => ?_
  rcases fromCharsSize token.lexeme with - | (- | length)
  · exact reads_abort _ _
  · exact reads_abort _ _
  · exact (reads_expect he (by decide) _).bind fun right => reads_pure _

omit hg in
theorem reads_parseColumnType : Reads tokens 1 r parseColumnType := by
  refine reads_ifMatch he (by decide) (reads_pure _) ?_
  refine reads_ifMatch he (by decide) ?_ (eats_unexpected _).reads
  refine Reads.bind ?_ fun length => reads_pure _
  exact reads_ifMatch he (by decide) (reads_parseLength he) (reads_pure _)

omit hg in
theorem offers_parseConstraint (name : String) (c : Constraints) :
    Offers tokens 1 r (parseConstraint name c) := by
  refine offers_ifMatch he (by decide) (.ite (reads_abort _ _) ?_) ?_
  · exact (reads_expect he (by decide) _).bind fun key => reads_pure _
  refine offers_ifMatch he (by decide) ?_ ?_
  · refine (reads_expect he (by decide) _).bind fun null => ?_
    exact .ite (reads_abort _ _) (reads_pure _)
  refine offers_ifMatch he (by decide) (.ite (reads_abort _ _) (reads_pure _)) ?_
  refine offers_ifMatch he (by decide) (.ite (reads_abort _ _) ?_) offers_none
  exact (eats_parseLiteral he).reads.bind fun value => reads_pure _

theorem eats_parseColumnDefinition : Eats tokens 1 r (parseColumnDefinition g) := by
  refine (eats_expectIdentifier he _).bind_reads fun name => ?_
  refine (reads_parseColumnType he).bind fun columnType => ?_
  refine (Parse.loop_reads (offers_parseConstraint he name) hg.fuel {}).bind fun constraints => ?_
  exact reads_pure _

theorem eats_parseCreateTable : Eats tokens m (r+1) (parseCreateTable g) := by
  refine (eats_expect he (by decide) _).bind fun create => ?_
  refine (reads_expect he (by decide) _).bind fun table => ?_
  refine (reads_expectIdentifier he _).bind fun tableName => ?_
  refine (reads_expect he (by decide) _).bind fun left => ?_
  have hcolumns := eats_commaSeparated he hg.fuel (eats_parseColumnDefinition he hg)
  refine hcolumns.reads.bind fun columns => ?_
  refine (reads_expect he (by decide) _).bind fun right => ?_
  exact (reads_parseSemicolon he).bind fun _ => reads_pure _

omit hg in
theorem eats_parseCreateIndex : Eats tokens m r parseCreateIndex := by
  refine (eats_expect he (by decide) _).bind_reads fun create => ?_
  refine (reads_matchType he (by decide)).bind fun isUnique => ?_
  refine (reads_expect he (by decide) _).bind fun index => ?_
  refine (reads_expectIdentifier he _).bind fun indexName => ?_
  refine (reads_expect he (by decide) _).bind fun on => ?_
  refine (reads_expectIdentifier he _).bind fun tableName => ?_
  refine (reads_expect he (by decide) _).bind fun left => ?_
  refine (reads_expectIdentifier he _).bind fun columnName => ?_
  refine (reads_expect he (by decide) _).bind fun right => ?_
  exact (reads_parseSemicolon he).bind fun _ => reads_pure _

theorem reads_parseInsertColumns : Reads tokens 1 r (parseInsertColumns g) := by
  refine reads_ifMatch he (by decide) ?_ (reads_pure _)
  refine (eats_commaSeparated he hg.fuel (eats_expectIdentifier he _)).reads.bind fun columns => ?_
  exact (reads_expect he (by decide) _).bind fun right => reads_pure _

theorem eats_parseRow : Eats tokens 1 r (parseRow g) := by
  refine (eats_expect he (by decide) _).bind_reads fun left => ?_
  refine (eats_commaSeparated he hg.fuel (eats_parseLiteral he)).reads.bind fun row => ?_
  exact (reads_expect he (by decide) _).bind fun right => reads_pure _

theorem eats_parseInsert : Eats tokens m (r+1) (parseInsert g) := by
  refine (eats_expect he (by decide) _).bind fun insert => ?_
  refine (reads_expect he (by decide) _).bind fun into => ?_
  refine (reads_expectIdentifier he _).bind fun tableName => ?_
  refine (reads_parseInsertColumns he hg).bind fun columns => ?_
  refine (reads_expect he (by decide) _).bind fun values => ?_
  refine (eats_commaSeparated he hg.fuel (eats_parseRow he hg)).reads.bind fun rows => ?_
  exact (reads_parseSemicolon he).bind fun _ => reads_pure _

theorem eats_parseDelete : Eats tokens m (r+1) (parseDelete g) := by
  refine (eats_expect he (by decide) _).bind fun keyword => ?_
  refine (reads_expect he (by decide) _).bind fun from_ => ?_
  refine (reads_expectIdentifier he _).bind fun tableName => ?_
  refine (reads_optionalWhere he hg).bind fun parsedWhere => ?_
  exact (reads_parseSemicolon he).bind fun _ => reads_pure _

theorem eats_parseAssignment : Eats tokens 1 r (parseAssignment g) := by
  refine (eats_expectIdentifier he _).bind_reads fun column => ?_
  refine (reads_expect he (by decide) _).bind fun equal => ?_
  exact hg.compileExpr.reads.bind fun expression => reads_pure _

theorem eats_parseUpdate : Eats tokens m (r+1) (parseUpdate g) := by
  refine (eats_expect he (by decide) _).bind fun update => ?_
  refine (reads_expectIdentifier he _).bind fun tableName => ?_
  refine (reads_expect he (by decide) _).bind fun set => ?_
  have hassignments := eats_commaSeparated he hg.fuel (eats_parseAssignment he hg)
  refine hassignments.reads.bind fun assignments => ?_
  refine (reads_optionalWhere he hg).bind fun parsedWhere => ?_
  exact (reads_parseSemicolon he).bind fun _ => reads_pure _

omit hg in
theorem reads_parseRename (tableName : String) (location : Position) :
    Reads tokens 1 r (parseRename tableName location) := by
  refine reads_ifMatch he (by decide) ?_ ?_
  · exact (reads_expectIdentifier he _).bind fun newName => reads_pure _
  · refine (reads_expect he (by decide) _).bind fun column => ?_
    refine (reads_expectIdentifier he _).bind fun oldName => ?_
    refine (reads_expect he (by decide) _).bind fun toToken => ?_
    exact (reads_expectIdentifier he _).bind fun newName => reads_pure _

theorem reads_parseAddColumn (tableName : String) (location : Position) :
    Reads tokens 1 r (parseAddColumn g tableName location) := by
  refine (reads_expect he (by decide) _).bind fun add => ?_
  refine (reads_expect he (by decide) _).bind fun column => ?_
  exact (eats_parseColumnDefinition he hg).reads.bind fun definition => reads_pure _

theorem eats_parseAlter : Eats tokens m (r+1) (parseAlter g) := by
  refine (eats_expect he (by decide) _).bind fun alter => ?_
  refine (reads_expect he (by decide) _).bind fun table => ?_
  refine (reads_expectIdentifier he _).bind fun tableName => ?_
  refine Reads.bind ?_ fun statement => ?_
  · exact reads_ifMatch he (by decide) (reads_parseRename he tableName _)
      (reads_parseAddColumn he hg tableName _)
  exact (reads_parseSemicolon he).bind fun _ => reads_pure _

omit hg in
theorem eats_parseDrop : Eats tokens m (r+1) parseDrop := by
  refine (eats_expect he (by decide) _).bind fun drop => ?_
  refine reads_ifMatch he (by decide) ?_ (reads_ifMatch he (by decide) ?_ ?_)
  · refine (reads_expectIdentifier he _).bind fun tableName => ?_
    exact (reads_parseSemicolon he).bind fun _ => reads_pure _
  · refine (reads_expectIdentifier he _).bind fun indexName => ?_
    exact (reads_parseSemicolon he).bind fun _ => reads_pure _
  · exact (eats_unexpected _).reads

theorem eats_parseExplain : Eats tokens m (r+1) (parseExplain g) := by
  refine (eats_expect he (by decide) _).bind fun explain => ?_
  refine reads_peek.bind fun token => .ite (reads_fail _) ?_
  refine Reads.bind ?_ fun select => reads_pure _
  exact (eats_parseSelect he hg true).reads.mono le_rfl (Nat.le_succ r)

theorem eats_parseSelectStatement : Eats tokens m (r+1) (parseSelectStatement g) :=
  (eats_parseSelect he hg true).map _

/-- The parser of a statement whose first token is no EOF. -/
def Starts (tokens : List Token) (r : ℕ) (p : Parsing Statement) : Prop :=
  ∀ i, i + 1 < tokens.length → tokens.length ≤ i + r →
    (p tokens i).Ensures fun _ j => i < j ∧ j < tokens.length

omit he hg in
theorem starts_of_eats {p : Parsing Statement} (h : Eats tokens 0 r p) : Starts tokens r p :=
  fun i hlt hle => h i (Nat.zero_le i) (Nat.lt_of_succ_lt hlt) hle

omit he hg in
theorem reads_transactionStatement (keyword : Token) :
    Reads tokens m r (transactionStatement keyword) := by
  unfold transactionStatement
  split
  · exact reads_pure _
  · exact reads_pure _
  · exact reads_pure _
  · exact reads_fail _

omit hg in
theorem starts_parseTransaction : Starts tokens r parseTransaction := by
  intro i hlt hle
  have hi : i < tokens.length := Nat.lt_of_succ_lt hlt
  refine (Parse.ensures_peek hi).bind fun keyword j hj => ?_
  obtain rfl : j = i := hj.2
  refine (Parse.ensures_advance hlt).bind fun _ k hk => ?_
  obtain rfl : k = j + 1 := hk
  have hrest : Reads tokens 1 r (parseSemicolon >>= fun _ => transactionStatement keyword) :=
    (reads_parseSemicolon he).bind fun _ => reads_transactionStatement keyword
  exact hrest (j+1) (Nat.le_add_left 1 j) hlt (by omega)

/-- The look-ahead of CREATE: its second token is there because CREATE is no EOF, its third
one because UNIQUE is none either. -/
theorem starts_parseCreate : Starts tokens (r+1) (parseCreate g) := by
  intro i hlt hle
  have htable := starts_of_eats (eats_parseCreateTable he hg) i hlt hle
  have hindex : (parseCreateIndex tokens i).Ensures fun _ j => i < j ∧ j < tokens.length :=
    starts_of_eats (eats_parseCreateIndex he) i hlt hle
  refine (Parse.ensures_peek hlt).bind fun second j hj => ?_
  obtain ⟨hsecond,rfl⟩ := hj
  by_cases h1 : second.type = .table
  · simpa only [if_pos h1] using htable
  by_cases h2 : second.type = .index
  · simpa only [if_neg h1,if_pos h2] using hindex
  by_cases h3 : second.type = .unique
  · simp only [if_neg h1,if_neg h2,if_pos h3]
    have hthird : j + 2 < tokens.length := he.next_lt hsecond (by simp [IsEnd,h3])
    refine (Parse.ensures_peek hthird).bind fun third k hk => ?_
    obtain rfl : k = j := hk.2
    by_cases h4 : third.type = .index
    · simpa only [if_pos h4] using hindex
    · simp only [if_neg h4]
      trivial
  · simp only [if_neg h1,if_neg h2,if_neg h3]
    trivial

theorem starts_of_statementParser {p : Parsing Statement} (h : statementParser g type = some p) :
    type ≠ .endOfFile ∧ Starts tokens (r+1) p := by
  unfold statementParser at h
  split at h <;> cases h <;> refine ⟨by simp,?_⟩
  · exact starts_parseCreate he hg
  · exact starts_of_eats (eats_parseInsert he hg)
  · exact starts_of_eats (eats_parseSelectStatement he hg)
  · exact starts_of_eats (eats_parseExplain he hg)
  · exact starts_of_eats (eats_parseDelete he hg)
  · exact starts_of_eats (eats_parseDrop he)
  · exact starts_of_eats (eats_parseAlter he hg)
  · exact starts_parseTransaction he
  · exact starts_parseTransaction he
  · exact starts_parseTransaction he
  · exact starts_of_eats (eats_parseUpdate he hg)

theorem eats_parseStatement : Eats tokens 0 (r+1) (parseStatement g) := by
  refine Parse.Moves.peek_bind fun token i _ hlt hle ht => ?_
  cases hp : statementParser g token.type with
  | none => trivial
  | some p =>
    obtain ⟨hne,hstarts⟩ := starts_of_statementParser he hg hp
    exact hstarts i (he.next_lt ht hne) hle

/-- The loop over the statements stops at the EOF token only. -/
theorem moves_parseNext (statements : List Statement) :
    Parse.Moves tokens 0 (r+1)
      (fun o i j => i ≤ j ∧ (o.isSome → i < j) ∧ (o = none → j + 1 = tokens.length))
      (parseNext g statements) := by
  refine Parse.Moves.peek_bind fun token i hi hlt hle ht => ?_
  by_cases hend : token.type = .endOfFile
  · simp only [if_pos hend]
    exact ⟨⟨Nat.le_refl i,by simp,fun _ => (he.iff_last ht).mp hend⟩,hlt⟩
  · simp only [if_neg hend]
    refine (eats_parseStatement he hg i hi hlt hle).bind fun statement k hk => ?_
    exact ⟨⟨Nat.le_of_lt hk.1,fun _ => hk.1,by simp⟩,hk.2⟩

theorem ensures_parseStatements (hr : tokens.length ≤ r) :
    (parseStatements g tokens 0).Ensures fun statements j =>
      statements ≠ [] ∧ j + 1 = tokens.length := by
  have hround := fun statements =>
    (moves_parseNext he hg statements).mono le_rfl (Nat.le_succ r) fun _ _ _ => id
  have hloop := Parse.loop_moves hround hg.fuel []
  refine (hloop 0 le_rfl he.pos (by omega)).bind fun statements j hj => ?_
  by_cases hempty : statements.isEmpty
  · simp only [if_pos hempty]
    refine (Parse.ensures_peek hj.2).bind fun token k hk => ?_
    trivial
  · simp only [if_neg hempty]
    exact ⟨by simpa using hempty,hj.1.2⟩

end

theorem good_grammar (he : Closed tokens) : ∀ fuel, Good tokens fuel (grammar fuel)
  | 0 => by
    have hnone : ∀ {α : Type}, Eats tokens 1 0 (Parse.unfinished : Parsing α) := by
      intro α i _ hlt hle
      omega
    exact ⟨le_rfl,hnone,hnone,hnone,hnone⟩
  | fuel+1 =>
    have hg := good_grammar he fuel
    ⟨le_rfl,eats_parseCompileExpr he hg,eats_parseCompileNot he hg,eats_parseCompileUnary he hg,
      eats_parseSelect he hg false⟩

theorem closed_append {eof : Token} (heof : eof.type = .endOfFile)
    (h : ∀ t ∈ tokens, t.type ≠ .endOfFile) : Closed (tokens ++ [eof]) := by
  refine ⟨by simp,fun {i t} ht => ?_⟩
  rcases Nat.lt_trichotomy i tokens.length with hi | rfl | hi
  · rw [List.getElem?_append_left hi] at ht
    have hne := h t (List.mem_of_getElem? ht)
    simp only [IsEnd,hne,List.length_append,List.length_singleton,false_iff]
    omega
  · obtain rfl : eof = t := by simpa using ht
    simp [IsEnd,heof]
  · rw [List.getElem?_eq_none (by simp; omega)] at ht
    cases ht

/-- Every text is parsed: fuel of one unit for each byte and one more lasts, no token is read
outside the tokens of the lexer, and a parse that succeeds ends at their EOF token. -/
theorem parse_total (sql : List UInt8) (extra : ℕ) :
    (∃ e, parse (sql.length + 1 + extra) sql = .failed e) ∨
      ∃ tokens eof statements,
        tokenize (sql.length + 1 + extra) sql = some (.ok (tokens ++ [eof])) ∧
        eof.type = .endOfFile ∧ (∀ t ∈ tokens, t.type ≠ .endOfFile) ∧ statements ≠ [] ∧
        parse (sql.length + 1 + extra) sql = .ok statements tokens.length := by
  have hfuel : sql.length < sql.length + 1 + extra := by omega
  rcases tokenizeFrom_total hfuel {} with ⟨e,he⟩ | ⟨tokens,eof,htokens,hcount,heof,hall⟩
  · exact .inl ⟨e,by simp [parse,tokenize,he]⟩
  have hclosed := closed_append heof hall
  have hens := ensures_parseStatements hclosed (good_grammar hclosed (sql.length + 1 + extra))
    (by simp; omega)
  have hparse : parse (sql.length + 1 + extra) sql =
      parseStatements (grammar (sql.length + 1 + extra)) (tokens ++ [eof]) 0 := by
    simp [parse,tokenize,htokens]
  rw [hparse]
  rcases ho : parseStatements (grammar (sql.length + 1 + extra)) (tokens ++ [eof]) 0 with
    ⟨statements,j⟩ | e | - | -
  · rw [ho] at hens
    obtain ⟨hne,hj⟩ := hens
    have hend : j = tokens.length := by simpa using hj
    exact .inr ⟨tokens,eof,statements,htokens,heof,hall,hne,by rw [hend]⟩
  · exact .inl ⟨e,rfl⟩
  · rw [ho] at hens
    exact hens.elim
  · rw [ho] at hens
    exact hens.elim

end Parser
end OurSql
