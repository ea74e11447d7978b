import OurSql.Lib.Yield
import OurSql.Parser.Parse

/-! The productions of the grammar of expressions. What every production keeps holds between the
tokens the parser of expressions consumes and the tree it builds. -/
namespace OurSql
namespace Parser

open Expression
open Parse (Yields Listed yields_pure yields_fail)

/-- A NOT, or nothing. -/
def Negates (words : List Token) (negated : Bool) : Prop :=
  if negated then ∃ t, hasType .not t ∧ words = [t] else words = []

/-- A word that is kept in the tree as a name of its own. -/
def wordOperators : List (TokenType × String) := [(.and,"and"),(.or,"or")]

def isOperatorType (type : TokenType) : Bool :=
  isComparisonType type || isAdditiveType type || isMultiplicativeType type

/-- A relation between token sequences and trees that every production keeps. -/
structure Productions (K : List Token → Expr → Prop) : Prop where
  null {t : Token} (h : hasType .null t) : K [t] (makeLiteralExpr .null)
  bool {t : Token} {b : Bool} (h : hasType (if b then .true else .false) t) :
    K [t] (CompileExpr.makeBool b)
  string {t : Token} (h : hasType .string t) : K [t] (makeLiteralExpr (.varchar t.lexeme))
  integer {t : Token} {n : Int64} (h : hasType .integer t) (hn : fromCharsInt64 t.lexeme = some n) :
    K [t] (makeLiteralExpr (.int n))
  column {t : Token} (h : hasType .identifier t) : K [t] (.column "" (text t.lexeme))
  qualified {t dot c : Token} (ht : hasType .identifier t) (hdot : hasType .dot dot)
    (hc : hasType .identifier c) : K [t,dot,c] (.column (text t.lexeme) (text c.lexeme))
  star {f left t right : Token} {kind : CompileAggregateKind} (hf : hasType .identifier f)
    (hkind : aggregateKindFromName (text f.lexeme) = some kind) (hleft : hasType .leftParen left)
    (ht : hasType .star t) (hright : hasType .rightParen right) :
    K [f,left,t,right] (.aggregate kind true .nullptr)
  aggregate {f left right : Token} {kind : CompileAggregateKind} {used : List Token}
    {argument : Expr} (hf : hasType .identifier f)
    (hkind : aggregateKindFromName (text f.lexeme) = some kind) (hleft : hasType .leftParen left)
    (h : K used argument) (hright : hasType .rightParen right) :
    K (f::left::(used ++ [right])) (.aggregate kind false argument)
  paren {left right : Token} {used : List Token} {e : Expr} (hleft : hasType .leftParen left)
    (h : K used e) (hright : hasType .rightParen right) : K (left::(used ++ [right])) e
  minus {t : Token} {used : List Token} {operand : Expr} (ht : hasType .minus t)
    (h : K used operand) : K (t::used) (.unary "-" operand)
  not {t : Token} {used : List Token} {operand : Expr} (ht : hasType .not t)
    (h : K used operand) : K (t::used) (.unary "not" operand)
  operator {t : Token} {used later : List Token} {left right : Expr} (h : K used left)
    (ht : isOperatorType t.type) (hright : K later right) :
    K (used ++ t::later) (.binary (text t.lexeme) left right)
  logical {t : Token} {type : TokenType} {op : String} {used later : List Token}
    {left right : Expr} (h : K used left) (hop : (type,op) ∈ wordOperators) (ht : hasType type t)
    (hright : K later right) : K (used ++ t::later) (.binary op left right)
  isNull {t n : Token} {used words : List Token} {operand : Expr} {negated : Bool}
    (h : K used operand) (ht : hasType .is t) (hwords : Negates words negated)
    (hn : hasType .null n) : K (used ++ t::(words ++ [n])) (.isNull operand negated)
  between {t a : Token} {used words low high : List Token} {operand lower upper : Expr}
    {negated : Bool} (h : K used operand) (hwords : Negates words negated)
    (ht : hasType .between t) (hlow : K low lower) (ha : hasType .and a) (hhigh : K high upper) :
    K (used ++ (words ++ t::(low ++ a::high))) (.between operand lower upper negated)
  inList {t left right : Token} {used words later : List Token} {operand : Expr}
    {options : List Expr} {negated : Bool} (h : K used operand) (hwords : Negates words negated)
    (ht : hasType .in_ t) (hleft : hasType .leftParen left)
    (hoptions : Listed (hasType .comma) K later options) (hright : hasType .rightParen right) :
    K (used ++ (words ++ t::left::(later ++ [right]))) (.inList operand options negated)
  like {t : Token} {used words later : List Token} {left right : Expr} {negated : Bool}
    (h : K used left) (hwords : Negates words negated) (ht : hasType .like t)
    (hright : K later right) :
    K (used ++ (words ++ t::later)) (.binary (if negated then "not like" else "like") left right)
  existence {used : List Token} {query : SelectStatement} (h : ∃ t ∈ used, hasType .select t) :
    K used (.subquery .existence (some query) .nullptr false)
  scalar {used : List Token} {query : SelectStatement} (h : ∃ t ∈ used, hasType .select t) :
    K used (.subquery .scalar (some query) .nullptr false)
  membership {used later : List Token} {operand : Expr} {query : SelectStatement} {negated : Bool}
    (h : K used operand) (hlater : ∃ t ∈ later, hasType .select t) :
    K (used ++ later) (.subquery .membership (some query) operand negated)

/-- The functions of the grammar keep the relation, and a subquery begins with SELECT. -/
structure Sound (K : List Token → Expr → Prop) (g : Grammar) : Prop where
  compileExpr : Yields K g.compileExpr
  compileNot : Yields K g.compileNot
  compileUnary : Yields K g.compileUnary
  select : Yields (fun used _ => ∃ t ∈ used, hasType .select t) g.select

theorem type_of_hasType {type : TokenType} {t : Token} (h : hasType type t) : t.type = type := by
  simpa [hasType] using h

theorem yields_expect (type : TokenType) (expected : String) :
    Yields (fun used t => used = [t] ∧ hasType type t) (expect type expected) :=
  Parse.yields_expect _ fun _ ht => ⟨rfl,ht⟩

theorem yields_expectIdentifier (expected : String) :
    Yields (fun used name => ∃ t, used = [t] ∧ hasType .identifier t ∧ name = text t.lexeme)
      (expectIdentifier expected) := by
  refine (yields_expect .identifier expected).bind fun used t ht => ?_
  exact yields_pure ⟨t,by simpa using ht.1,ht.2,rfl⟩

theorem yields_matchType (type : TokenType) :
    Yields (fun used b => if b then ∃ t, hasType type t ∧ used = [t] else used = [])
      (matchType type) :=
  Parse.yields_accept

theorem yields_isAggregateCall : Yields (fun used _ => used = []) isAggregateCall := by
  refine Yields.peek_bind fun token => .ite (fun _ => ?_) fun _ => yields_pure rfl
  exact Yields.peek_bind fun next => yields_pure rfl

theorem yields_unexpected {α : Type} {K : List Token → α → Prop} (expected : String) :
    Yields K (unexpected expected) :=
  Yields.peek_bind fun _ => yields_fail _

variable {K : List Token → Expr → Prop} {g : Grammar}

theorem yields_parseSubquery (hg : Sound K g) :
    Yields (fun used _ => ∃ t ∈ used, hasType .select t) (parseSubquery g) :=
  Yields.peek_bind fun _ => .ite (fun _ => yields_fail _) fun _ => hg.select

theorem yields_parseClosedSubquery (hg : Sound K g) (expected : String) :
    Yields (fun used _ => ∃ t ∈ used, hasType .select t) (parseClosedSubquery g expected) := by
  refine (yields_parseSubquery hg).bind fun used query hquery => ?_
  refine (yields_expect _ _).bind fun later t _ => yields_pure ?_
  obtain ⟨s,hs,hselect⟩ := hquery
  exact ⟨s,by simp [hs],hselect⟩

section

variable (hK : Productions K)

include hK

theorem yields_parseColumnRef (expected : String) : Yields K (parseColumnRef expected) := by
  refine (yields_expectIdentifier expected).bind fun used name hname => ?_
  obtain ⟨t,rfl,ht,rfl⟩ := hname
  refine Yields.ifAccept (fun dot hdot => ?_) (yields_pure (hK.column ht))
  refine (yields_expectIdentifier _).bind fun later name hname => yields_pure ?_
  obtain ⟨c,rfl,hc,rfl⟩ := hname
  exact hK.qualified ht hdot hc

variable (hg : Sound K g)

include hg

theorem yields_parseAggregateExpr : Yields K (parseAggregateExpr g) := by
  refine (yields_expectIdentifier _).bind fun used name hname => ?_
  obtain ⟨f,rfl,hf,rfl⟩ := hname
  rcases hkind : aggregateKindFromName (text f.lexeme) with - | kind
  · exact Parse.yields_bind_fail _ _
  refine (yields_expect _ _).bind fun used left hleft => ?_
  refine (yields_matchType _).bind fun words star hstar => ?_
  have hargument : Yields (fun used e => if star then used = [] ∧ e = .nullptr else K used e)
      (if star then pure .nullptr else g.compileExpr) := by
    cases star with
    | true => exact yields_pure ⟨rfl,rfl⟩
    | false => exact hg.compileExpr
  refine hargument.bind fun inner argument hinner => ?_
  refine (yields_expect _ _).bind fun last right hright => yields_pure ?_
  obtain ⟨rfl,hleft⟩ := hleft
  obtain ⟨rfl,hright⟩ := hright
  cases star with
  | true =>
    obtain ⟨t,ht,rfl⟩ : ∃ t, hasType .star t ∧ words = [t] := by simpa using hstar
    obtain ⟨rfl,rfl⟩ : inner = [] ∧ argument = .nullptr := by simpa using hinner
    exact hK.star hf hkind hleft ht hright
  | false =>
    obtain rfl : words = [] := by simpa using hstar
    simpa using hK.aggregate hf hkind hleft (by simpa using hinner) hright

theorem yields_parseExists {e : Token} : Yields (fun used a => K (e::used) a) (parseExists g) := by
  refine (yields_expect _ _).bind fun used left _ => ?_
  refine Yields.peek_bind fun _ => .ite (fun _ => yields_fail _) fun _ => ?_
  refine (yields_parseClosedSubquery hg _).bind fun later query hquery => yields_pure ?_
  obtain ⟨s,hs,hselect⟩ := hquery
  exact hK.existence ⟨s,by simp [hs],hselect⟩

theorem yields_parseParenthesized {left : Token} (hleft : hasType .leftParen left) :
    Yields (fun used a => K (left::used) a) (parseParenthesized g) := by
  refine Yields.peek_bind fun _ => .ite (fun _ => ?_) fun _ => ?_
  · refine (yields_parseClosedSubquery hg _).bind fun used query hquery => yields_pure ?_
    obtain ⟨s,hs,hselect⟩ := hquery
    exact hK.scalar ⟨s,by simp [hs],hselect⟩
  · refine hg.compileExpr.bind fun used inner hinner => ?_
    refine (yields_expect _ _).bind fun later right hright => yields_pure ?_
    obtain ⟨rfl,hright⟩ := hright
    simpa using hK.paren hleft hinner hright

theorem yields_parseName : Yields K (parseName g) := by
  refine yields_isAggregateCall.bind fun used aggregate hused => ?_
  obtain rfl := hused
  exact .ite (fun _ => yields_parseAggregateExpr hK hg) fun _ => yields_parseColumnRef hK _

omit hg in
theorem yields_integer {no : Parsing Expr} (hno : Yields K no) :
    Yields K (ifMatch .integer
      (do
        let n ← parseInteger
        pure (makeLiteralExpr (.int n))) no) := by
  unfold parseInteger
  rw [Parse.bind_assoc]
  refine Yields.ifAccept_previous (fun t ht => ?_) hno
  rcases hn : fromCharsInt64 t.lexeme with - | n
  · intro ts i a j h
    cases h
  · exact yields_pure (hK.integer ht hn)

theorem yields_parseCompilePrimary : Yields K (parseCompilePrimary g) := by
  refine Yields.ifAccept (fun t ht => yields_pure (hK.null ht)) ?_
  refine Yields.ifAccept (fun t ht => yields_parseExists hK hg) ?_
  refine Yields.ifAccept (fun t ht => yields_pure (hK.bool (by simpa using ht))) ?_
  refine Yields.ifAccept (fun t ht => yields_pure (hK.bool (by simpa using ht))) ?_
  refine Yields.ifAccept_previous (fun t ht => yields_pure (hK.string ht)) ?_
  refine yields_integer hK (Yields.peek_bind fun t => .ite (fun _ => yields_parseName hK hg) ?_)
  exact fun _ => Yields.ifAccept (fun left hleft => yields_parseParenthesized hK hg hleft)
    (yields_unexpected _)

theorem yields_parseCompileUnary : Yields K (parseCompileUnary g) := by
  refine Yields.ifAccept (fun t ht => ?_) (yields_parseCompilePrimary hK hg)
  exact hg.compileUnary.bind fun used operand hoperand =>
    yields_pure (by simpa using hK.minus ht hoperand)

omit hg in
theorem yields_parseOperators {isType : TokenType → Bool} {operand : Parsing Expr}
    (hop : Yields K operand) (htype : ∀ type, isType type → isOperatorType type)
    (expected : String) : Yields K (parseOperators g isType expected operand) := by
  refine hop.bind fun used left hleft => Parse.yields_loop (fun used left hleft => ?_) _ hleft
  refine Yields.peek_bind fun token => .ite (fun hpeek => ?_) fun _ => yields_pure (by simpa)
  refine (yields_expect _ _).bind fun words t ht => ?_
  refine hop.bind fun later right hright => yields_pure ?_
  obtain ⟨rfl,ht⟩ := ht
  have hop : isOperatorType t.type := by
    rw [type_of_hasType ht]
    exact htype _ hpeek
  simpa using hK.operator hleft hop hright

theorem yields_parseCompileMultiplicative : Yields K (parseCompileMultiplicative g) :=
  yields_parseOperators hK (yields_parseCompileUnary hK hg)
    (fun type h => by simp [isOperatorType,h]) _

theorem yields_parseCompileAdditive : Yields K (parseCompileAdditive g) :=
  yields_parseOperators hK (yields_parseCompileMultiplicative hK hg)
    (fun type h => by simp [isOperatorType,h]) _

theorem yields_parseComparisonOperator {used : List Token} {left : Expr} (h : K used left) :
    Yields (fun later e => K (used ++ later) e) (parseComparisonOperator g left) := by
  refine Yields.peek_bind fun token => .ite (fun hpeek => ?_) fun _ => yields_pure (by simpa)
  refine (yields_expect _ _).bind fun words t ht => ?_
  refine (yields_parseCompileAdditive hK hg).bind fun later right hright => yields_pure ?_
  obtain ⟨rfl,ht⟩ := ht
  have hop : isOperatorType t.type := by
    simp [type_of_hasType ht,isOperatorType,hpeek]
  simpa using hK.operator h hop hright

omit hg in
theorem yields_parseIsNull {used : List Token} {operand : Expr} {t : Token} (h : K used operand)
    (ht : hasType .is t) :
    Yields (fun later e => K (used ++ t::later) e) (parseIsNull operand) := by
  refine (yields_matchType _).bind fun words negated hwords => ?_
  refine (yields_expect _ _).bind fun later n hn => yields_pure ?_
  obtain ⟨rfl,hn⟩ := hn
  simpa using hK.isNull h ht hwords hn

omit hK hg in
/-- A NOT is consumed only in front of BETWEEN, IN or LIKE. -/
theorem parseNegation_ok {ts : List Token} {i j : ℕ} {negated : Bool}
    (h : parseNegation ts i = .ok negated j) :
    (negated = false ∧ j = i) ∨ (negated = true ∧ j = i + 1 ∧
      (∃ t, ts[i]? = some t ∧ hasType .not t) ∧
      ∃ t, ts[i + 1]? = some t ∧ (hasType .between t ∨ hasType .in_ t ∨ hasType .like t)) := by
  obtain ⟨t,k,ht,hrest⟩ := Parse.bind_ok h
  obtain ⟨htoken,rfl⟩ := Parse.peek_ok ht
  by_cases hnot : t.type = .not
  · rw [if_pos hnot] at hrest
    obtain ⟨next,k',hnext,hlast⟩ := Parse.bind_ok hrest
    obtain ⟨hbehind,rfl⟩ := Parse.peek_ok hnext
    by_cases hword : next.type = .between ∨ next.type = .in_ ∨ next.type = .like
    · rw [if_pos hword] at hlast
      obtain ⟨_,k'',hadvance,hpure⟩ := Parse.bind_ok hlast
      obtain ⟨-,rfl⟩ := Parse.advance_ok hadvance
      obtain ⟨rfl,rfl⟩ := Parse.pure_ok hpure
      exact .inr ⟨rfl,rfl,⟨t,htoken,by simp [hasType,hnot]⟩,next,hbehind,
        by simpa [hasType] using hword⟩
    · rw [if_neg hword] at hlast
      obtain ⟨rfl,rfl⟩ := Parse.pure_ok hlast
      exact .inl ⟨rfl,rfl⟩
  · rw [if_neg hnot] at hrest
    obtain ⟨rfl,rfl⟩ := Parse.pure_ok hrest
    exact .inl ⟨rfl,rfl⟩

theorem yields_parseBetween {used words : List Token} {operand : Expr} {negated : Bool} {t : Token}
    (h : K used operand) (hwords : Negates words negated) (ht : hasType .between t) :
    Yields (fun later e => K (used ++ (words ++ t::later)) e) (parseBetween g negated operand) := by
  refine (yields_parseCompileAdditive hK hg).bind fun low lower hlow => ?_
  refine (yields_expect _ _).bind fun later a ha => ?_
  refine (yields_parseCompileAdditive hK hg).bind fun high upper hhigh => yields_pure ?_
  obtain ⟨rfl,ha⟩ := ha
  simpa using hK.between h hwords ht hlow ha hhigh

theorem yields_parseIn {used words : List Token} {operand : Expr} {negated : Bool} {t : Token}
    (h : K used operand) (hwords : Negates words negated) (ht : hasType .in_ t) :
    Yields (fun later e => K (used ++ (words ++ t::later)) e) (parseIn g negated operand) := by
  refine (yields_expect _ _).bind fun later left hleft => ?_
  obtain ⟨rfl,hleft⟩ := hleft
  refine Yields.peek_bind fun _ => .ite (fun _ => ?_) fun _ => ?_
  · refine (yields_parseClosedSubquery hg _).bind fun later query hquery => yields_pure ?_
    obtain ⟨s,hs,hselect⟩ := hquery
    exact hK.membership h ⟨s,by simp [hs],hselect⟩
  · refine (Parse.yields_separated hg.compileExpr _).bind fun later options hoptions => ?_
    refine (yields_expect _ _).bind fun last right hright => yields_pure ?_
    obtain ⟨rfl,hright⟩ := hright
    simpa using hK.inList h hwords ht hleft hoptions hright

theorem yields_parseLike {used words : List Token} {left : Expr} {negated : Bool} {t : Token}
    (h : K used left) (hwords : Negates words negated) (ht : hasType .like t) :
    Yields (fun later e => K (used ++ (words ++ t::later)) e) (parseLike g negated left) :=
  (yields_parseCompileAdditive hK hg).bind fun later right hright =>
    yields_pure (by simpa using hK.like h hwords ht hright)

/-- What may follow the left operand of BETWEEN, IN or LIKE. -/
theorem yields_parseNegated {used : List Token} {left : Expr} (h : K used left) :
    Yields (fun later e => K (used ++ later) e)
      (do
        let negated ← parseNegation
        ifMatch .between (parseBetween g negated left) <|
          ifMatch .in_ (parseIn g negated left) <|
          ifMatch .like (parseLike g negated left) (pure left)) := by
  intro ts i a j hp
  obtain ⟨negated,k,hnegation,hrest⟩ := Parse.bind_ok hp
  rcases parseNegation_ok hnegation with ⟨rfl,rfl⟩ | ⟨rfl,rfl,⟨n,hn,hnot⟩,w,hw,hword⟩
  · have hplain : Negates [] false := rfl
    refine Yields.ifAccept (fun t ht => ?_) ?_ ts k a j hrest
    · exact yields_parseBetween hK hg h hplain ht
    refine Yields.ifAccept (fun t ht => yields_parseIn hK hg h hplain ht) ?_
    exact Yields.ifAccept (fun t ht => yields_parseLike hK hg h hplain ht)
      (yields_pure (by simpa using h))
  · have hnegates : Negates [n] true := ⟨n,hnot,rfl⟩
    have hbehind : ∀ {t : Token} {p : Parsing Expr}, ts[i + 1]? = some t →
        Yields (fun later e => K (used ++ ([n] ++ t::later)) e) p → p ts (i + 1 + 1) = .ok a j →
        ∃ later, ts.drop i = later ++ ts.drop j ∧ j = i + later.length ∧ K (used ++ later) a := by
      intro t p ht hyields hp
      obtain ⟨later,hdrop,rfl,hk⟩ := hyields ts _ a j hp
      refine ⟨n::t::later,?_,by simp; omega,hk⟩
      rw [Parse.drop_of_getElem? hn,Parse.drop_of_getElem? ht,hdrop]
      rfl
    -- the word behind the NOT is there, so one of the three branches is taken
    rcases Parse.ifAccept_ok hrest with ⟨t,ht,hq,-,hbetween⟩ | ⟨⟨t,ht,hno⟩,hrest⟩
    · exact hbehind ht (yields_parseBetween hK hg h hnegates hq) hbetween
    rcases Parse.ifAccept_ok hrest with ⟨t,ht,hq,-,hin⟩ | ⟨⟨t,ht,hno'⟩,hrest⟩
    · exact hbehind ht (yields_parseIn hK hg h hnegates hq) hin
    rcases Parse.ifAccept_ok hrest with ⟨t,ht,hq,-,hlike⟩ | ⟨⟨t,ht,hno''⟩,-⟩
    · exact hbehind ht (yields_parseLike hK hg h hnegates hq) hlike
    · obtain rfl : t = w := Option.some.inj (ht.symm.trans hw)
      simp_all

theorem yields_parseCompileComparison : Yields K (parseCompileComparison g) := by
  refine (yields_parseCompileAdditive hK hg).bind fun used first hfirst => ?_
  refine (yields_parseComparisonOperator hK hg hfirst).bind fun later left hleft => ?_
  refine Yields.ifAccept (fun t ht => ?_) ?_
  · exact (yields_parseIsNull hK hleft ht).mono fun _ _ h => by simpa using h
  · exact (yields_parseNegated hK hg hleft).mono fun _ _ h => by simpa using h

theorem yields_parseCompileNot : Yields K (parseCompileNot g) := by
  refine Yields.ifAccept (fun t ht => ?_) (yields_parseCompileComparison hK hg)
  exact hg.compileNot.bind fun used operand hoperand =>
    yields_pure (by simpa using hK.not ht hoperand)

omit hg in
theorem yields_parseLogical {type : TokenType} {op : String} {operand : Parsing Expr}
    (hop : Yields K operand) (hword : (type,op) ∈ wordOperators) :
    Yields K (parseLogical g type op operand) := by
  refine hop.bind fun used left hleft => Parse.yields_loop (fun used left hleft => ?_) _ hleft
  refine Yields.ifAccept (fun t ht => ?_) (yields_pure (by simpa))
  exact hop.bind fun later right hright =>
    yields_pure (by simpa using hK.logical hleft hword ht hright)

theorem yields_parseCompileAnd : Yields K (parseCompileAnd g) :=
  yields_parseLogical hK (yields_parseCompileNot hK hg) (by decide)

theorem yields_parseCompileExpr : Yields K (parseCompileExpr g) :=
  yields_parseLogical hK (yields_parseCompileAnd hK hg) (by decide)

end

end Parser
end OurSql
