import OurSql.Parser.Productions

/-! The expressions of a statement. Each is, folded or not, one that a part of the tokens stands
for by the productions of the grammar. -/
namespace OurSql
namespace Parser

open Expression
open Parse (Yields Answers Listed yields_pure yields_fail answers_pure answers_fail)

def SelectStatement.trees (s : SelectStatement) : List Expr :=
  s.projectionExpressions ++ [s.compileWhere,s.having]

/-- The expressions that a statement keeps, null pointers included. -/
def Statement.trees : Statement → List Expr
  | .select s => s.trees
  | .explain s => s.select.trees
  | .delete s => [s.compileWhere]
  | .update s => s.assignments.map (·.expression) ++ [s.compileWhere]
  | _ => []

/-- The tree is absent or, folded or not, one that some of the tokens stand for. -/
def Stands (K : List Token → Expr → Prop) (tokens : List Token) (e : Expr) : Prop :=
  e = .nullptr ∨ ∃ used e', used ⊆ tokens ∧ K used e' ∧ (e = e' ∨ e = foldCompileExpr e')

/-! ### A subquery begins with SELECT -/

/-- The parser moves forward. -/
abbrev Passes {α : Type} (p : Parsing α) : Prop := Yields (fun _ _ => True) p

section

variable {α β : Type} {p : Parsing α}

theorem Yields.passes {K : List Token → α → Prop} (h : Yields K p) : Passes p :=
  h.mono fun _ _ _ => trivial

theorem Passes.bind {f : α → Parsing β} (h : Passes p) (hf : ∀ a, Passes (f a)) :
    Passes (p >>= f) :=
  Yields.bind h fun _ a _ => hf a

theorem Passes.ifMatch {type : TokenType} {yes no : Parsing α} (hyes : Passes yes)
    (hno : Passes no) : Passes (ifMatch type yes no) :=
  Yields.ifAccept (fun _ _ => hyes) hno

theorem passes_pure (a : α) : Passes (pure a : Parsing α) := yields_pure trivial

theorem passes_expect (type : TokenType) (expected : String) : Passes (expect type expected) :=
  Yields.passes (yields_expect type expected)

theorem passes_expectIdentifier (expected : String) : Passes (expectIdentifier expected) :=
  Yields.passes (yields_expectIdentifier expected)

theorem passes_commaSeparated (h : Passes p) (k : ℕ) : Passes (commaSeparated p k) :=
  Yields.passes (Parse.yields_separated h k)

theorem passes_loop {σ : Type} {body : σ → Parsing (Option σ)} (h : ∀ s, Passes (body s)) (k : ℕ)
    (s : σ) : Passes (Parse.loop body k s) :=
  @Parse.yields_loop Token Failure σ (fun _ _ => True) body (fun _ s _ => h s) k [] s trivial

theorem passes_parseAlias (expected : String) : Passes (parseAlias expected) :=
  (passes_expectIdentifier expected).ifMatch (passes_pure _)

theorem passes_parseOuterJoin (type : JoinType) (expected : String) :
    Passes (parseOuterJoin type expected) := by
  refine Passes.bind (Yields.passes (yields_matchType _)) fun _ => ?_
  exact (passes_expect _ _).bind fun _ => passes_pure _

theorem passes_parseJoinType : Passes parseJoinType := by
  refine Passes.ifMatch (passes_parseOuterJoin _ _) ?_
  refine Passes.ifMatch (passes_parseOuterJoin _ _) ?_
  refine Passes.ifMatch (passes_parseOuterJoin _ _) ?_
  refine Passes.ifMatch ((passes_expect _ _).bind fun _ => passes_pure _) ?_
  exact Passes.ifMatch (passes_pure _) (passes_pure _)

theorem passes_parseOrderKey : Passes parseOrderKey := by
  refine (passes_expectIdentifier _).bind fun _ => ?_
  exact Passes.ifMatch (passes_pure _) (Passes.ifMatch (passes_pure _) (passes_pure _))

theorem passes_parseLimit : Passes parseLimit := by
  refine Passes.ifMatch ((passes_expect _ _).bind fun token => ?_) (passes_pure _)
  refine Yields.ite (fun _ => yields_fail _) fun _ => ?_
  cases fromCharsSize token.lexeme with
  | none => exact yields_fail _
  | some limit => exact passes_pure _

theorem passes_parseSemicolon : Passes parseSemicolon :=
  (passes_expect _ _).bind fun _ => passes_pure _

end

section

variable {K : List Token → Expr → Prop} {g : Grammar} (hg : Sound K g)

include hg

theorem passes_parseJoinClause (type : JoinType) : Passes (parseJoinClause g type) := by
  refine (passes_expectIdentifier _).bind fun _ => (passes_parseAlias _).bind fun _ => ?_
  refine (passes_expect _ _).bind fun _ => (Yields.passes hg.compileExpr).bind fun condition => ?_
  cases extractJoinCondition (foldCompileExpr condition) with
  | none => exact yields_fail _
  | some joined => exact passes_pure _

theorem passes_parseJoin (joins : List JoinClause) : Passes (parseJoin g joins) := by
  refine Yields.andThen passes_parseJoinType (fun _ _ => trivial) fun _ type _ => ?_
  exact (passes_parseJoinClause hg type).bind fun _ => passes_pure _

omit hg in
theorem passes_parseGroupBy : Passes (parseGroupBy g) := by
  refine Passes.ifMatch ((passes_expect _ _).bind fun _ => ?_) (passes_pure _)
  exact passes_commaSeparated (passes_expectIdentifier _) _

omit hg in
theorem passes_parseOrderBy : Passes (parseOrderBy g) := by
  refine Passes.ifMatch ((passes_expect _ _).bind fun _ => ?_) (passes_pure _)
  exact passes_commaSeparated passes_parseOrderKey _

theorem passes_optionalWhere : Passes (optionalWhere g) :=
  Passes.ifMatch ((Yields.passes hg.compileExpr).bind fun _ => passes_pure _) (passes_pure _)

theorem passes_parseHaving : Passes (parseHaving g) :=
  Passes.ifMatch ((Yields.passes hg.compileExpr).bind fun _ => passes_pure _) (passes_pure _)

variable (hK : Productions K)

include hK

theorem yields_parseSelectItem : Yields K (parseSelectItem g) := by
  refine yields_isAggregateCall.bind fun used aggregate hused => ?_
  obtain rfl := hused
  exact .ite (fun _ => yields_parseAggregateExpr hK hg) fun _ => hg.compileExpr

theorem passes_parseSelectList : Passes (parseSelectList g) := by
  refine Passes.ifMatch (passes_pure _) (Passes.bind (passes_commaSeparated ?_ _) fun _ => ?_)
  · refine (Yields.passes (yields_parseSelectItem hg hK)).bind fun _ => ?_
    exact (passes_parseAlias _).bind fun _ => passes_pure _
  · exact passes_pure _

theorem yields_parseSelect (consumeSemicolon : Bool) :
    Yields (fun used _ => ∃ t ∈ used, hasType .select t) (parseSelect g consumeSemicolon) := by
  refine (yields_expect _ _).bind fun used select hselect => ?_
  obtain ⟨rfl,hselect⟩ := hselect
  refine Yields.mono ?_ fun later _ (_ : True) => ⟨select,by simp,hselect⟩
  refine Passes.bind (Yields.passes (yields_matchType _)) fun _ => ?_
  refine (passes_parseSelectList hg hK).bind fun _ => (passes_expect _ _).bind fun _ => ?_
  refine (passes_expectIdentifier _).bind fun _ => (passes_parseAlias _).bind fun _ => ?_
  refine (passes_loop (passes_parseJoin hg) _ _).bind fun _ => ?_
  refine (passes_optionalWhere hg).bind fun _ => passes_parseGroupBy.bind fun _ => ?_
  refine (passes_parseHaving hg).bind fun _ => passes_parseOrderBy.bind fun _ => ?_
  refine passes_parseLimit.bind fun _ => Passes.bind ?_ fun _ => passes_pure _
  exact Yields.ite (fun _ => passes_parseSemicolon) fun _ => passes_pure _

end

theorem sound_grammar {K : List Token → Expr → Prop} (hK : Productions K) :
    ∀ fuel, Sound K (grammar fuel)
  | 0 => ⟨Parse.yields_unfinished,Parse.yields_unfinished,Parse.yields_unfinished,
      Parse.yields_unfinished⟩
  | fuel+1 =>
    have hg := sound_grammar hK fuel
    ⟨yields_parseCompileExpr hK hg,yields_parseCompileNot hK hg,yields_parseCompileUnary hK hg,
      yields_parseSelect hg hK false⟩

/-! ### The expressions of a statement -/

section

variable {K : List Token → Expr → Prop} {g : Grammar} {tokens : List Token}

theorem stands_nullptr : Stands K tokens .nullptr := .inl rfl

theorem Yields.stands {p : Parsing Expr} (h : Yields K p) : Answers tokens (Stands K tokens) p :=
  (Parse.Yields.answers h).mono fun e he => by
    obtain ⟨used,hused,hk⟩ := he
    exact .inr ⟨used,e,hused,hk,.inl rfl⟩

/-- A condition is folded before it is kept. -/
theorem Yields.stands_fold {p : Parsing Expr} {α : Type} {P : α → Prop} {f : Expr → α}
    (h : Yields K p) (hf : ∀ e, Stands K tokens (foldCompileExpr e) → P (f e)) :
    Answers tokens P (p >>= fun e => pure (f e)) := by
  refine (Parse.Yields.answers h).bind fun e he => answers_pure (hf e ?_)
  obtain ⟨used,hused,hk⟩ := he
  exact .inr ⟨used,e,hused,hk,.inr rfl⟩

variable (hK : Productions K) (hg : Sound K g)

include hg

theorem answers_optionalWhere :
    Answers tokens (fun w => Stands K tokens w.expression) (optionalWhere g) :=
  Answers.ifAccept (Yields.stands_fold hg.compileExpr fun _ h => h) (answers_pure stands_nullptr)

theorem answers_parseHaving : Answers tokens (Stands K tokens) (parseHaving g) :=
  Answers.ifAccept (Yields.stands_fold hg.compileExpr fun _ h => h) (answers_pure stands_nullptr)

theorem answers_parseAssignment :
    Answers tokens (fun a => Stands K tokens a.expression) (parseAssignment g) :=
  Answers.skip fun _ => Answers.skip fun _ => Yields.stands_fold hg.compileExpr fun _ h => h

include hK

theorem answers_parseSelectList : Answers tokens
    (fun items => ∀ item ∈ items.getD [], Stands K tokens item.expression) (parseSelectList g) := by
  refine Answers.ifAccept (answers_pure (by simp)) ?_
  have hitem : Answers tokens (fun item => Stands K tokens item.expression)
      (parseAliasedItem g) :=
    (Yields.stands (yields_parseSelectItem hg hK)).bind fun _ h =>
      Answers.skip fun _ => answers_pure h
  exact (Parse.answers_separated hitem _).bind fun _ h => answers_pure h

theorem answers_parseSelect (consumeSemicolon : Bool) :
    Answers tokens (fun s => ∀ e ∈ s.trees, Stands K tokens e) (parseSelect g consumeSemicolon) := by
  refine Answers.skip fun _ => Answers.skip fun _ => ?_
  refine (answers_parseSelectList hK hg).bind fun items hitems => ?_
  refine Answers.skip fun _ => Answers.skip fun _ => Answers.skip fun _ => Answers.skip fun _ => ?_
  refine (answers_optionalWhere hg).bind fun parsedWhere hwhere => Answers.skip fun _ => ?_
  refine (answers_parseHaving hg).bind fun having_ hhaving => ?_
  refine Answers.skip fun _ => Answers.skip fun _ => Answers.skip fun _ => answers_pure ?_
  simpa [SelectStatement.trees,or_imp,forall_and] using ⟨hitems,hwhere,hhaving⟩

omit hK in
theorem answers_parseDelete :
    Answers tokens (fun s => ∀ e ∈ s.trees, Stands K tokens e) (parseDelete g) := by
  refine Answers.skip fun _ => Answers.skip fun _ => Answers.skip fun _ => ?_
  refine (answers_optionalWhere hg).bind fun parsedWhere hwhere => Answers.skip fun _ => ?_
  exact answers_pure (by simpa [Statement.trees] using hwhere)

omit hK in
theorem answers_parseUpdate :
    Answers tokens (fun s => ∀ e ∈ s.trees, Stands K tokens e) (parseUpdate g) := by
  refine Answers.skip fun _ => Answers.skip fun _ => Answers.skip fun _ => ?_
  refine (Parse.answers_separated (answers_parseAssignment hg) _).bind fun assignments hall => ?_
  refine (answers_optionalWhere hg).bind fun parsedWhere hwhere => Answers.skip fun _ => ?_
  exact answers_pure (by simpa [Statement.trees,or_imp,forall_and] using ⟨hall,hwhere⟩)

theorem answers_parseExplain :
    Answers tokens (fun s => ∀ e ∈ s.trees, Stands K tokens e) (parseExplain g) := by
  refine Answers.skip fun _ => Answers.skip fun _ => Answers.ite (answers_fail _) ?_
  exact (answers_parseSelect hK hg true).bind fun s hs => answers_pure hs

theorem answers_parseSelectStatement :
    Answers tokens (fun s => ∀ e ∈ s.trees, Stands K tokens e) (parseSelectStatement g) :=
  (answers_parseSelect hK hg true).bind fun _ hs => answers_pure hs

end

/-! ### Statements that keep no expression -/

abbrev Treeless (tokens : List Token) (p : Parsing Statement) : Prop :=
  Answers tokens (fun s => s.trees = []) p

variable (tokens : List Token) (g : Grammar)

theorem treeless_parseCreateIndex : Treeless tokens parseCreateIndex :=
  Answers.skip fun _ => Answers.skip fun _ => Answers.skip fun _ => Answers.skip fun _ =>
    Answers.skip fun _ => Answers.skip fun _ => Answers.skip fun _ => Answers.skip fun _ =>
    Answers.skip fun _ => Answers.skip fun _ => answers_pure rfl

theorem treeless_parseCreate : Treeless tokens (parseCreate g) := by
  have htable : Treeless tokens (parseCreateTable g) :=
    Answers.skip fun _ => Answers.skip fun _ => Answers.skip fun _ => Answers.skip fun _ =>
      Answers.skip fun _ => Answers.skip fun _ => Answers.skip fun _ => answers_pure rfl
  have hindex := treeless_parseCreateIndex tokens
  refine Answers.skip fun second => htable.ite (hindex.ite (Answers.ite ?_ (answers_fail _)))
  exact Answers.skip fun third => hindex.ite (answers_fail _)

theorem treeless_parseInsert : Treeless tokens (parseInsert g) :=
  Answers.skip fun _ => Answers.skip fun _ => Answers.skip fun _ => Answers.skip fun _ =>
    Answers.skip fun _ => Answers.skip fun _ => Answers.skip fun _ => answers_pure rfl

theorem treeless_parseDrop : Treeless tokens parseDrop := by
  refine Answers.skip fun _ => Answers.ifAccept ?_ (Answers.ifAccept ?_ ?_)
  · exact Answers.skip fun _ => Answers.skip fun _ => answers_pure rfl
  · exact Answers.skip fun _ => Answers.skip fun _ => answers_pure rfl
  · exact Answers.skip fun _ => answers_fail _

theorem treeless_parseAlter : Treeless tokens (parseAlter g) :=
  Answers.skip fun _ => Answers.skip fun _ => Answers.skip fun _ => Answers.skip fun _ =>
    Answers.skip fun _ => answers_pure rfl

theorem treeless_parseTransaction : Treeless tokens parseTransaction := by
  refine Answers.skip fun keyword => Answers.skip fun _ => Answers.skip fun _ => ?_
  unfold transactionStatement
  split
  · exact answers_pure rfl
  · exact answers_pure rfl
  · exact answers_pure rfl
  · exact answers_fail _

variable {tokens g} {K : List Token → Expr → Prop}

theorem Treeless.stands {p : Parsing Statement} (h : Treeless tokens p) :
    Answers tokens (fun s => ∀ e ∈ s.trees, Stands K tokens e) p :=
  Parse.Answers.mono h fun s hs => by simp [hs]

theorem answers_of_statementParser (hK : Productions K) (hg : Sound K g) {type : TokenType}
    {p : Parsing Statement} (h : statementParser g type = some p) :
    Answers tokens (fun s => ∀ e ∈ s.trees, Stands K tokens e) p := by
  unfold statementParser at h
  split at h <;> cases h
  · exact Treeless.stands (treeless_parseCreate tokens g)
  · exact Treeless.stands (treeless_parseInsert tokens g)
  · exact answers_parseSelectStatement hK hg
  · exact answers_parseExplain hK hg
  · exact answers_parseDelete hg
  · exact Treeless.stands (treeless_parseDrop tokens)
  · exact Treeless.stands (treeless_parseAlter tokens g)
  · exact Treeless.stands (treeless_parseTransaction tokens)
  · exact Treeless.stands (treeless_parseTransaction tokens)
  · exact Treeless.stands (treeless_parseTransaction tokens)
  · exact answers_parseUpdate hg

/-- Every expression of every statement is one that some of the tokens stand for. -/
theorem answers_parseStatements (hK : Productions K) (hg : Sound K g) :
    Answers tokens (fun ss => ∀ s ∈ ss, ∀ e ∈ s.trees, Stands K tokens e) (parseStatements g) := by
  have hstatement : Answers tokens (fun s => ∀ e ∈ s.trees, Stands K tokens e)
      (parseStatement g) := by
    refine Answers.skip fun token => ?_
    rcases hp : statementParser g token.type with - | p
    · exact answers_fail _
    · exact answers_of_statementParser hK hg hp
  refine (Parse.answers_loop (fun ss hss => Answers.skip fun token => ?_) _ (by simp)).bind
    fun ss hss => Answers.ite (Answers.skip fun _ => answers_fail _) (answers_pure hss)
  refine Answers.ite (answers_pure hss) (hstatement.bind fun s hs => answers_pure ?_)
  simpa [or_imp,forall_and] using ⟨hss,hs⟩

end Parser
end OurSql
