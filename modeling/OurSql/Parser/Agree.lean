import OurSql.Lib.Similar
import OurSql.Parser.Printable

/-! The parser of expressions on two lists of tokens with the same lexemes: what it reads without a
SELECT is the same tree, wherever the tokens stand in the text. -/
namespace OurSql
namespace Parser

open Expression
open Parse (Agrees Similar Yields agrees_pure agrees_fail)

/-- Tokens with the same lexemes, and no SELECT between two positions of the first list. -/
structure Alike (ts ts' : List Token) (m n : ℕ) : Prop where
  lexemes : ts.map lexemeOf = ts'.map lexemeOf
  select : ∀ {k : ℕ} {t : Token}, m ≤ k → k < n → ts[k]? = some t → t.type ≠ .select

abbrev Same (t t' : Token) : Prop := lexemeOf t = lexemeOf t'

theorem Same.type {t t' : Token} (h : Same t t') : t.type = t'.type := congrArg Prod.fst h

theorem Same.lexeme {t t' : Token} (h : Same t t') : t.lexeme = t'.lexeme := congrArg Prod.snd h

theorem same_refl (t : Token) : Same t t := rfl

theorem hasType_same {type : TokenType} (t t' : Token) (h : Same t t') :
    hasType type t = hasType type t' := by
  simp [hasType,h.type]

variable {ts ts' : List Token} {m n : ℕ} {α : Type}

theorem agrees_abort (code : ErrorCode) (message : String) {p' : Parsing α} :
    Agrees ts ts' m n (abort code message) p' := agrees_fail _

/-- What reads a SELECT does not succeed between the positions. -/
theorem agrees_of_select (h : Alike ts ts' m n) {p p' : Parsing α}
    (hp : Yields (fun used _ => ∃ t ∈ used, hasType .select t) p) : Agrees ts ts' m n p p' := by
  intro i a j hok
  obtain ⟨used,hdrop,rfl,s,hs,hselect⟩ := hp ts i a j hok
  refine ⟨Nat.le_add_right _ _,fun hm hn => ?_⟩
  obtain ⟨k,hk,rfl⟩ := List.mem_iff_getElem.mp hs
  have hget : ts[i + k]? = some used[k] := by
    rw [← List.getElem?_drop,hdrop,List.getElem?_append_left hk,List.getElem?_eq_getElem hk]
  exact absurd (type_of_hasType hselect) (h.select (by omega) (by omega) hget)

section

variable (h : Alike ts ts' m n)

include h

theorem Alike.similar : Similar Same ts ts' := Parse.similar_of_map h.lexemes

theorem agrees_peek {k : ℕ} {f f' : Token → Parsing α}
    (hf : ∀ t t', Same t t' → Agrees ts ts' m n (f t) (f' t')) :
    Agrees ts ts' m n (Parse.peek k >>= f) (Parse.peek k >>= f') :=
  Agrees.peek_bind h.similar same_refl hf

theorem agrees_expect {type : TokenType} {s : String} {f f' : Token → Parsing α}
    (hf : ∀ t t', Same t t' → Agrees ts ts' m n (f t) (f' t')) :
    Agrees ts ts' m n (expect type s >>= f) (expect type s >>= f') :=
  Agrees.expect_bind h.similar same_refl hasType_same hf

theorem agrees_ifMatch {type : TokenType} {yes yes' no no' : Parsing α}
    (hyes : Agrees ts ts' m n yes yes') (hno : Agrees ts ts' m n no no') :
    Agrees ts ts' m n (ifMatch type yes no) (ifMatch type yes' no') :=
  Agrees.ifAccept h.similar hasType_same hyes hno

theorem agrees_ifMatch_previous {type : TokenType} {f f' : Token → Parsing α} {no no' : Parsing α}
    (hf : ∀ t t', Same t t' → Agrees ts ts' m n (f t) (f' t')) (hno : Agrees ts ts' m n no no') :
    Agrees ts ts' m n (ifMatch type (Parse.previous >>= f) no)
      (ifMatch type (Parse.previous >>= f') no') :=
  Agrees.ifAccept_previous h.similar same_refl hasType_same hf hno

theorem agrees_matchType (type : TokenType) :
    Agrees ts ts' m n (matchType type) (matchType type) :=
  Parse.agrees_accept h.similar hasType_same

omit h in
theorem agrees_unexpected (expected : String) {p' : Parsing α} :
    Agrees ts ts' m n (unexpected expected) p' := by
  intro i a j hok
  obtain ⟨t,k,-,hfail⟩ := Parse.bind_ok hok
  cases hfail

theorem agrees_expectIdentifier (s : String) :
    Agrees ts ts' m n (expectIdentifier s) (expectIdentifier s) :=
  agrees_expect h fun t t' hs => by
    rw [hs.lexeme]
    exact agrees_pure _

theorem agrees_parseColumnRef (s : String) :
    Agrees ts ts' m n (parseColumnRef s) (parseColumnRef s) := by
  refine (agrees_expectIdentifier h s).bind fun first => agrees_ifMatch h ?_ (agrees_pure _)
  exact (agrees_expectIdentifier h _).bind fun column => agrees_pure _

theorem agrees_isAggregateCall : Agrees ts ts' m n isAggregateCall isAggregateCall := by
  refine agrees_peek h fun t t' hs => ?_
  rw [hs.type]
  refine Agrees.ite (agrees_peek h fun u u' hu => ?_) (agrees_pure _)
  rw [hu.type,hs.lexeme]
  exact agrees_pure _

end

/-- The functions of the grammar agree, and a subquery begins with SELECT. -/
structure Agreeing (ts ts' : List Token) (m n : ℕ) (g : Grammar) : Prop where
  sound : Sound (fun _ _ => True) g
  compileExpr : Agrees ts ts' m n g.compileExpr g.compileExpr
  compileNot : Agrees ts ts' m n g.compileNot g.compileNot
  compileUnary : Agrees ts ts' m n g.compileUnary g.compileUnary

section

variable {g : Grammar} (h : Alike ts ts' m n) (hg : Agreeing ts ts' m n g)

include h hg

theorem agrees_parseAggregateExpr :
    Agrees ts ts' m n (parseAggregateExpr g) (parseAggregateExpr g) := by
  refine (agrees_expectIdentifier h _).bind fun function => ?_
  cases aggregateKindFromName function with
  | none =>
    intro i a j hok
    obtain ⟨t,k,-,hfail⟩ := Parse.bind_ok hok
    cases hfail
  | some kind =>
    refine agrees_expect h fun _ _ _ => (agrees_matchType h _).bind fun star => ?_
    refine Agrees.bind (Agrees.ite (agrees_pure _) hg.compileExpr) fun argument => ?_
    exact agrees_expect h fun _ _ _ => agrees_pure _

theorem agrees_parseClosedSubquery (s : String) :
    Agrees ts ts' m n (parseClosedSubquery g s) (parseClosedSubquery g s) :=
  agrees_of_select h (yields_parseClosedSubquery hg.sound s)

theorem agrees_parseExists : Agrees ts ts' m n (parseExists g) (parseExists g) := by
  refine agrees_expect h fun _ _ _ => agrees_peek h fun t t' hs => ?_
  rw [hs.type]
  refine Agrees.ite (agrees_fail _) ?_
  exact (agrees_parseClosedSubquery h hg _).bind fun query => agrees_pure _

theorem agrees_parseParenthesized :
    Agrees ts ts' m n (parseParenthesized g) (parseParenthesized g) := by
  refine agrees_peek h fun t t' hs => ?_
  rw [hs.type]
  refine Agrees.ite ((agrees_parseClosedSubquery h hg _).bind fun query => agrees_pure _) ?_
  exact hg.compileExpr.bind fun inner => agrees_expect h fun _ _ _ => agrees_pure _

theorem agrees_parseName : Agrees ts ts' m n (parseName g) (parseName g) :=
  (agrees_isAggregateCall h).bind fun _ =>
    (agrees_parseAggregateExpr h hg).ite (agrees_parseColumnRef h _)

theorem agrees_parseCompilePrimary :
    Agrees ts ts' m n (parseCompilePrimary g) (parseCompilePrimary g) := by
  refine agrees_ifMatch h (agrees_pure _) (agrees_ifMatch h (agrees_parseExists h hg) ?_)
  refine agrees_ifMatch h (agrees_pure _) (agrees_ifMatch h (agrees_pure _) ?_)
  refine agrees_ifMatch_previous h (fun t t' hs => ?_) ?_
  · rw [hs.lexeme]
    exact agrees_pure _
  unfold parseInteger
  rw [Parse.bind_assoc]
  refine agrees_ifMatch_previous h (fun t t' hs => ?_) (agrees_peek h fun t t' hs => ?_)
  · rw [← hs.lexeme]
    cases fromCharsInt64 t.lexeme with
    | none =>
      intro i a j hok
      cases hok
    | some number => exact agrees_pure _
  · rw [hs.type]
    refine (agrees_parseName h hg).ite ?_
    exact agrees_ifMatch h (agrees_parseParenthesized h hg) (agrees_unexpected _)

theorem agrees_parseCompileUnary :
    Agrees ts ts' m n (parseCompileUnary g) (parseCompileUnary g) :=
  agrees_ifMatch h (hg.compileUnary.bind fun _ => agrees_pure _) (agrees_parseCompilePrimary h hg)

omit hg in
theorem agrees_parseOperators {isType : TokenType → Bool} {s : String} {operand : Parsing Expr}
    (hop : Agrees ts ts' m n operand operand) :
    Agrees ts ts' m n (parseOperators g isType s operand) (parseOperators g isType s operand) := by
  refine hop.bind fun left => Parse.agrees_loop (fun left => ?_) _ _
  refine agrees_peek h fun t t' hs => ?_
  rw [hs.type]
  refine Agrees.ite (agrees_expect h fun o o' ho => hop.bind fun right => ?_) (agrees_pure _)
  rw [ho.lexeme]
  exact agrees_pure _

theorem agrees_parseCompileAdditive :
    Agrees ts ts' m n (parseCompileAdditive g) (parseCompileAdditive g) :=
  agrees_parseOperators h (agrees_parseOperators h (agrees_parseCompileUnary h hg))

theorem agrees_parseComparisonOperator (left : Expr) :
    Agrees ts ts' m n (parseComparisonOperator g left) (parseComparisonOperator g left) := by
  refine agrees_peek h fun t t' hs => ?_
  rw [hs.type]
  refine Agrees.ite (agrees_expect h fun o o' ho => ?_) (agrees_pure _)
  rw [ho.lexeme]
  exact (agrees_parseCompileAdditive h hg).bind fun right => agrees_pure _

omit hg in
theorem agrees_parseNegation : Agrees ts ts' m n parseNegation parseNegation := by
  refine agrees_peek h fun t t' hs => ?_
  rw [hs.type]
  refine Agrees.ite (agrees_peek h fun u u' hu => ?_) (agrees_pure _)
  rw [hu.type]
  refine Agrees.ite ?_ (agrees_pure _)
  exact (Parse.agrees_advance h.similar).bind fun _ => agrees_pure _

theorem agrees_parseIn (negated : Bool) (operand : Expr) :
    Agrees ts ts' m n (parseIn g negated operand) (parseIn g negated operand) := by
  refine agrees_expect h fun _ _ _ => agrees_peek h fun t t' hs => ?_
  rw [hs.type]
  refine Agrees.ite ((agrees_parseClosedSubquery h hg _).bind fun _ => agrees_pure _) ?_
  refine (Parse.agrees_separated h.similar hasType_same hg.compileExpr _).bind fun options => ?_
  exact agrees_expect h fun _ _ _ => agrees_pure _

theorem agrees_parseCompileComparison :
    Agrees ts ts' m n (parseCompileComparison g) (parseCompileComparison g) := by
  have hadditive := agrees_parseCompileAdditive h hg
  refine hadditive.bind fun first => ?_
  refine (agrees_parseComparisonOperator h hg first).bind fun left => ?_
  refine agrees_ifMatch h ?_ ((agrees_parseNegation h).bind fun negated => ?_)
  · exact (agrees_matchType h _).bind fun _ => agrees_expect h fun _ _ _ => agrees_pure _
  refine agrees_ifMatch h ?_ (agrees_ifMatch h (agrees_parseIn h hg _ _) ?_)
  · exact hadditive.bind fun lower => agrees_expect h fun _ _ _ =>
      hadditive.bind fun upper => agrees_pure _
  · exact agrees_ifMatch h (hadditive.bind fun right => agrees_pure _) (agrees_pure _)

theorem agrees_parseCompileNot : Agrees ts ts' m n (parseCompileNot g) (parseCompileNot g) :=
  agrees_ifMatch h (hg.compileNot.bind fun _ => agrees_pure _) (agrees_parseCompileComparison h hg)

omit hg in
theorem agrees_parseLogical {type : TokenType} {op : String} {operand : Parsing Expr}
    (hop : Agrees ts ts' m n operand operand) :
    Agrees ts ts' m n (parseLogical g type op operand) (parseLogical g type op operand) :=
  hop.bind fun _ => Parse.agrees_loop (fun _ =>
    agrees_ifMatch h (hop.bind fun _ => agrees_pure _) (agrees_pure _)) _ _

theorem agrees_parseCompileExpr : Agrees ts ts' m n (parseCompileExpr g) (parseCompileExpr g) :=
  agrees_parseLogical h (agrees_parseLogical h (agrees_parseCompileNot h hg))

end

theorem productions_true : Productions fun _ _ => True := by
  constructor <;> intros <;> trivial

theorem agreeing_grammar (h : Alike ts ts' m n) : ∀ fuel, Agreeing ts ts' m n (grammar fuel)
  | 0 => ⟨sound_grammar productions_true 0,Parse.agrees_unfinished,Parse.agrees_unfinished,
      Parse.agrees_unfinished⟩
  | fuel+1 =>
    have hg := agreeing_grammar h fuel
    ⟨sound_grammar productions_true (fuel+1),agrees_parseCompileExpr h hg,
      agrees_parseCompileNot h hg,agrees_parseCompileUnary h hg⟩

end Parser
end OurSql
