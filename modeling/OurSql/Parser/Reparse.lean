import OurSql.Parser.Printed

/-! The parser on the lexemes of a printed expression. Every operand is printed as an atom or in
parentheses, so each layer of the parser hands it on to the layer that takes the operator. -/
namespace OurSql
namespace Parser

open Expression
open Parse (bind_at peek_at peek_next advance_at previous_at accept_at ifAccept_at loop_none
  loop_some)

/-- The lexemes stand at the position. -/
def At (ts : List Token) (i : ℕ) (ls : List Lexeme) : Prop := ls <+: (ts.map lexemeOf).drop i

/-- The token at the position is of one of the types. -/
def NextIs (ts : List Token) (i : ℕ) (p : TokenType → Bool) : Prop :=
  ∃ t, ts[i]? = some t ∧ p t.type

variable {ts : List Token} {i j k : ℕ} {l : Lexeme} {ls ls' : List Lexeme} {p p' : TokenType → Bool}

theorem at_nil : At ts i [] := List.nil_prefix

theorem at_append : At ts i (ls ++ ls') ↔ At ts i ls ∧ At ts (i + ls.length) ls' := by
  unfold At
  rw [← List.drop_drop]
  constructor
  · rintro ⟨rest,hrest⟩
    rw [List.append_assoc] at hrest
    rw [← hrest]
    exact ⟨List.prefix_append _ _,by simp⟩
  · rintro ⟨⟨rest,hrest⟩,later,hlater⟩
    rw [← hrest,List.drop_left] at hlater
    rw [← hrest,← hlater,← List.append_assoc]
    exact List.prefix_append _ _

theorem at_singleton : At ts i [l] ↔ ∃ t, ts[i]? = some t ∧ lexemeOf t = l := by
  unfold At
  constructor
  · rintro ⟨rest,hrest⟩
    have hhead : ((ts.map lexemeOf).drop i).head? = some l := by rw [← hrest]; rfl
    rw [List.head?_drop,List.getElem?_map] at hhead
    simpa using hhead
  · rintro ⟨t,ht,rfl⟩
    rw [List.map_drop.symm,Parse.drop_of_getElem? ht]
    exact ⟨_,rfl⟩

theorem at_cons : At ts i (l::ls) ↔
    (∃ t, ts[i]? = some t ∧ t.type = l.1 ∧ t.lexeme = l.2) ∧ At ts (i+1) ls := by
  rw [← List.singleton_append,at_append,at_singleton]
  simp [lexemeOf,Prod.ext_iff]

theorem NextIs.mono (h : NextIs ts i p) (hp : ∀ type, p type → p' type) : NextIs ts i p' := by
  obtain ⟨t,ht,hq⟩ := h
  exact ⟨t,ht,hp t.type hq⟩

theorem NextIs.lt (h : NextIs ts i p) : i < ts.length := by
  obtain ⟨t,ht,-⟩ := h
  exact (List.getElem?_eq_some_iff.mp ht).1

/-! ### What may follow an expression of each layer -/

def endsOperand (type : TokenType) : Bool := type ∉ [.dot,.leftParen]

def endsUnary (type : TokenType) : Bool := endsOperand type && !isMultiplicativeType type

def endsMultiplicative (type : TokenType) : Bool := endsUnary type && !isAdditiveType type

def endsAdditive (type : TokenType) : Bool :=
  endsMultiplicative type && !isComparisonType type

def endsComparison (type : TokenType) : Bool :=
  endsAdditive type && type ∉ [.is,.not,.between,.in_,.like]

def endsLogical (type : TokenType) : Bool := endsComparison type && type ∉ [.and,.or]

variable {g : Grammar} {e left right : Expr}

theorem ifMatch_yes {α : Type} {type : TokenType} {yes no : Parsing α} {t : Token}
    (ht : ts[i]? = some t) (h : t.type = type) (hlt : i + 1 < ts.length) :
    ifMatch type yes no ts i = yes ts (i+1) := by
  rw [ifMatch,ifAccept_at ht fun _ => hlt,if_pos (by simpa [hasType] using h)]

theorem ifMatch_no {α : Type} {type : TokenType} {yes no : Parsing α} {t : Token}
    (ht : ts[i]? = some t) (h : t.type ≠ type) : ifMatch type yes no ts i = no ts i := by
  have hno : ¬hasType type t := by simpa [hasType] using h
  rw [ifMatch,ifAccept_at ht fun hq => absurd hq hno,if_neg hno]

/-! ### Layers that take no operator -/

theorem parseOperators_stop {isType : TokenType → Bool} {operand : Parsing Expr} {s : String}
    (h : operand ts i = .ok e j) (hnext : NextIs ts j fun type => !isType type)
    (hg : 0 < g.fuel) : parseOperators g isType s operand ts i = .ok e j := by
  obtain ⟨t,ht,htype⟩ := hnext
  obtain ⟨n,hn⟩ := Nat.exists_eq_succ_of_ne_zero hg.ne'
  rw [parseOperators,bind_at h,hn]
  refine loop_none ?_
  rw [bind_at (peek_next ht),if_neg (by simpa using htype)]
  rfl

theorem parseLogical_stop {type : TokenType} {op : String} {operand : Parsing Expr}
    (h : operand ts i = .ok e j) (hnext : NextIs ts j (· ≠ type)) (hg : 0 < g.fuel) :
    parseLogical g type op operand ts i = .ok e j := by
  obtain ⟨t,ht,htype⟩ := hnext
  obtain ⟨n,hn⟩ := Nat.exists_eq_succ_of_ne_zero hg.ne'
  rw [parseLogical,bind_at h,hn]
  refine loop_none ?_
  rw [ifMatch_no ht (by simpa using htype)]
  rfl

theorem parseCompileUnary_pass (h : parseCompilePrimary g ts i = .ok e j)
    (hfirst : NextIs ts i (· ≠ .minus)) : parseCompileUnary g ts i = .ok e j := by
  obtain ⟨t,ht,htype⟩ := hfirst
  rw [parseCompileUnary,ifMatch_no ht (by simpa using htype),h]

theorem parseCompileMultiplicative_pass (h : parseCompileUnary g ts i = .ok e j)
    (hnext : NextIs ts j endsUnary) (hg : 0 < g.fuel) :
    parseCompileMultiplicative g ts i = .ok e j :=
  parseOperators_stop h (hnext.mono fun type h => by simp_all [endsUnary]) hg

theorem parseCompileAdditive_pass (h : parseCompileMultiplicative g ts i = .ok e j)
    (hnext : NextIs ts j endsMultiplicative) (hg : 0 < g.fuel) :
    parseCompileAdditive g ts i = .ok e j :=
  parseOperators_stop h (hnext.mono fun type h => by simp_all [endsMultiplicative]) hg

/-- What follows the left operand of a comparison. -/
def parsePredicate (g : Grammar) (left : Expr) : Parsing Expr :=
  ifMatch .is (parseIsNull left) <| do
  let negated ← parseNegation
  ifMatch .between (parseBetween g negated left) <|
  ifMatch .in_ (parseIn g negated left) <|
  ifMatch .like (parseLike g negated left) (pure left)

theorem parseCompileComparison_eq (h : parseCompileAdditive g ts i = .ok e j) :
    parseCompileComparison g ts i =
      (parseComparisonOperator g e >>= fun left => parsePredicate g left) ts j :=
  bind_at h

theorem parseNegation_stop (hnext : NextIs ts i (· ≠ .not)) :
    parseNegation ts i = .ok false i := by
  obtain ⟨t,ht,htype⟩ := hnext
  rw [parseNegation,bind_at (peek_next ht),if_neg (by simpa using htype)]
  rfl

theorem parsePredicate_stop (hnext : NextIs ts i (· ∉ [.is,.not,.between,.in_,.like])) :
    parsePredicate g e ts i = .ok e i := by
  have hnegation := parseNegation_stop (hnext.mono fun type h => by simp_all)
  obtain ⟨t,ht,htype⟩ := hnext
  simp only [List.mem_cons,List.not_mem_nil,or_false,not_or,decide_eq_true_eq] at htype
  obtain ⟨h1,-,h3,h4,h5⟩ := htype
  rw [parsePredicate,ifMatch_no ht h1,bind_at hnegation,ifMatch_no ht h3,ifMatch_no ht h4,
    ifMatch_no ht h5]
  rfl

theorem parseComparisonOperator_stop (hnext : NextIs ts i fun type => !isComparisonType type) :
    parseComparisonOperator g e ts i = .ok e i := by
  obtain ⟨t,ht,htype⟩ := hnext
  rw [parseComparisonOperator,bind_at (peek_next ht),if_neg (by simpa using htype)]
  rfl

/-- No comparison operator follows. -/
theorem parseCompileComparison_predicate (h : parseCompileAdditive g ts i = .ok e j)
    (hnext : NextIs ts j fun type => !isComparisonType type) :
    parseCompileComparison g ts i = parsePredicate g e ts j := by
  rw [parseCompileComparison_eq h,bind_at (parseComparisonOperator_stop hnext)]

theorem parseCompileComparison_pass (h : parseCompileAdditive g ts i = .ok e j)
    (hnext : NextIs ts j endsComparison) : parseCompileComparison g ts i = .ok e j := by
  rw [parseCompileComparison_predicate h (hnext.mono fun type h => by
    simp_all [endsComparison,endsAdditive])]
  exact parsePredicate_stop (hnext.mono fun type h => by simp_all [endsComparison])

theorem parseCompileNot_pass (h : parseCompileComparison g ts i = .ok e j)
    (hfirst : NextIs ts i (· ≠ .not)) : parseCompileNot g ts i = .ok e j := by
  obtain ⟨t,ht,htype⟩ := hfirst
  rw [parseCompileNot,ifMatch_no ht (by simpa using htype),h]

theorem parseCompileExpr_pass (h : parseCompileNot g ts i = .ok e j)
    (hnext : NextIs ts j (· ∉ [.and,.or])) (hg : 0 < g.fuel) :
    parseCompileExpr g ts i = .ok e j := by
  refine parseLogical_stop (parseLogical_stop h (hnext.mono fun type h => ?_) hg)
    (hnext.mono fun type h => ?_) hg <;> simp_all

/-! ### Layers that take an operator -/

@[simp] theorem grammar_fuel (fuel : ℕ) : (grammar fuel).fuel = fuel := by
  cases fuel <;> rfl

theorem expect_yes {type : TokenType} {s : String} {t : Token} (ht : ts[i]? = some t)
    (h : t.type = type) (hlt : i + 1 < ts.length) : expect type s ts i = .ok t (i+1) :=
  Parse.expect_at ht (by simpa [hasType] using h) hlt

theorem parseOperators_take {isType : TokenType → Bool} {operand : Parsing Expr} {s : String}
    {o : Token} (h : operand ts i = .ok left j) (ho : ts[j]? = some o) (htype : isType o.type)
    (hlt : j + 1 < ts.length) (hright : operand ts (j+1) = .ok right k)
    (hnext : NextIs ts k fun type => !isType type) (hg : 2 ≤ g.fuel) :
    parseOperators g isType s operand ts i = .ok (.binary (text o.lexeme) left right) k := by
  obtain ⟨t,ht,hstop⟩ := hnext
  obtain ⟨n,hn⟩ := Nat.exists_eq_add_of_le' hg
  rw [parseOperators,bind_at h,hn]
  have htake : (do
      let token ← Parse.peek 0
      if isType token.type then do
        let operation ← expect token.type s
        let right ← operand
        pure (some (.binary (text operation.lexeme) left right))
      else pure none : Parsing (Option Expr)) ts j =
      .ok (some (.binary (text o.lexeme) left right)) k := by
    rw [bind_at (peek_next ho),if_pos htype,bind_at (expect_yes ho rfl hlt),bind_at hright]
    rfl
  rw [loop_some htake]
  refine loop_none ?_
  rw [bind_at (peek_next ht),if_neg (by simpa using hstop)]
  rfl

theorem parseLogical_take {type : TokenType} {op : String} {operand : Parsing Expr} {o : Token}
    (h : operand ts i = .ok left j) (ho : ts[j]? = some o) (htype : o.type = type)
    (hlt : j + 1 < ts.length) (hright : operand ts (j+1) = .ok right k)
    (hnext : NextIs ts k (· ≠ type)) (hg : 2 ≤ g.fuel) :
    parseLogical g type op operand ts i = .ok (.binary op left right) k := by
  obtain ⟨t,ht,hstop⟩ := hnext
  obtain ⟨n,hn⟩ := Nat.exists_eq_add_of_le' hg
  rw [parseLogical,bind_at h,hn]
  have htake : (ifMatch type (do
      let right ← operand
      pure (some (.binary op left right))) (pure none) : Parsing (Option Expr)) ts j =
      .ok (some (.binary op left right)) k := by
    rw [ifMatch_yes ho htype hlt,bind_at hright]
    rfl
  rw [loop_some htake]
  refine loop_none ?_
  rw [ifMatch_no ht (by simpa using hstop)]
  rfl

/-! ### Operands -/

/-- The lexemes of an operand: it is read by the innermost layer, whatever the operator. -/
structure Readable (ls : List Lexeme) (e : Expr) : Prop where
  first : ∃ l ∈ ls.head?, l.1 ∉ [.minus,.not,.select,.star]
  primary : ∀ {ts : List Token} {i fuel : ℕ}, At ts i ls → NextIs ts (i + ls.length) endsOperand →
    ls.length ≤ fuel → parseCompilePrimary (grammar fuel) ts i = .ok e (i + ls.length)

theorem nextIs_first (h : ∃ l ∈ ls.head?, p l.1) (hat : At ts i ls) : NextIs ts i p := by
  obtain ⟨l,hl,hp⟩ := h
  rcases ls with - | ⟨l',ls⟩
  · simp at hl
  · obtain rfl : l' = l := by simpa using hl
    obtain ⟨⟨t,ht,htype,-⟩,-⟩ := at_cons.mp hat
    exact ⟨t,ht,by rwa [htype]⟩

namespace Readable

variable {fuel : ℕ} (h : Readable ls e) (hat : At ts i ls)

include h

theorem length_pos : 0 < ls.length := by
  obtain ⟨l,hl,-⟩ := h.first
  exact List.length_pos_iff.mpr fun hnil => by simp [hnil] at hl

include hat

theorem start : NextIs ts i (· ∉ [.minus,.not,.select,.star]) :=
  nextIs_first (p := (· ∉ [.minus,.not,.select,.star])) (by simpa using h.first) hat

theorem unary (hnext : NextIs ts (i + ls.length) endsOperand) (hf : ls.length ≤ fuel) :
    parseCompileUnary (grammar fuel) ts i = .ok e (i + ls.length) :=
  parseCompileUnary_pass (h.primary hat hnext hf) ((h.start hat).mono fun type h => by simp_all)

theorem multiplicative (hnext : NextIs ts (i + ls.length) endsUnary) (hf : ls.length ≤ fuel) :
    parseCompileMultiplicative (grammar fuel) ts i = .ok e (i + ls.length) :=
  parseCompileMultiplicative_pass (h.unary hat (hnext.mono fun type h => by simp_all [endsUnary]) hf)
    hnext (by simpa using Nat.lt_of_lt_of_le h.length_pos hf)

theorem additive (hnext : NextIs ts (i + ls.length) endsMultiplicative) (hf : ls.length ≤ fuel) :
    parseCompileAdditive (grammar fuel) ts i = .ok e (i + ls.length) :=
  parseCompileAdditive_pass
    (h.multiplicative hat (hnext.mono fun type h => by simp_all [endsMultiplicative]) hf)
    hnext (by simpa using Nat.lt_of_lt_of_le h.length_pos hf)

theorem not (hnext : NextIs ts (i + ls.length) endsComparison) (hf : ls.length ≤ fuel) :
    parseCompileNot (grammar fuel) ts i = .ok e (i + ls.length) :=
  parseCompileNot_pass (parseCompileComparison_pass (h.additive hat
    (hnext.mono fun type h => by simp_all [endsComparison,endsAdditive]) hf) hnext)
    ((h.start hat).mono fun type h => by simp_all)

theorem expr (hnext : NextIs ts (i + ls.length) endsLogical) (hf : ls.length ≤ fuel) :
    parseCompileExpr (grammar fuel) ts i = .ok e (i + ls.length) :=
  parseCompileExpr_pass (h.not hat (hnext.mono fun type h => by simp_all [endsLogical]) hf)
    (hnext.mono fun type h => by simp_all [endsLogical])
    (by simpa using Nat.lt_of_lt_of_le h.length_pos hf)

end Readable

/-! ### In parentheses -/

def openLexeme : Lexeme := (.leftParen,[40])

def closeLexeme : Lexeme := (.rightParen,[41])

/-- The lexemes between two parentheses. -/
structure Inner (ls : List Lexeme) (e : Expr) : Prop where
  first : ∃ l ∈ ls.head?, l.1 ≠ .select
  expr : ∀ {ts : List Token} {i fuel : ℕ}, At ts i ls → NextIs ts (i + ls.length) (· = .rightParen) →
    ls.length < fuel → parseCompileExpr (grammar fuel) ts i = .ok e (i + ls.length)

theorem Inner.enclosed (h : Inner ls e) : Readable (openLexeme::(ls ++ [closeLexeme])) e where
  first := ⟨openLexeme,rfl,by decide⟩
  primary := by
    intro ts i fuel hat hnext hf
    simp only [List.length_cons,List.length_append,List.length_nil] at hnext hf
    obtain ⟨⟨t,ht,htype,-⟩,hrest⟩ := at_cons.mp hat
    obtain ⟨hls,hclose⟩ := at_append.mp hrest
    obtain ⟨⟨r,hr,hrtype,-⟩,-⟩ := at_cons.mp hclose
    change t.type = .leftParen at htype
    change r.type = .rightParen at hrtype
    have hlt := hnext.lt
    obtain ⟨first,hfirst,hselect⟩ := nextIs_first (p := (· ≠ .select)) (by simpa using h.first) hls
    obtain ⟨n,rfl⟩ : ∃ n, fuel = n + 1 := ⟨fuel - 1,by omega⟩
    have hinner := h.expr hls ⟨r,hr,by simp [hrtype]⟩ (by omega : ls.length < n)
    have hne : ∀ type, type ≠ .leftParen → t.type ≠ type := by
      rintro type hne rfl
      exact hne htype
    rw [parseCompilePrimary,ifMatch_no ht (hne _ (by decide)),ifMatch_no ht (hne _ (by decide)),
      ifMatch_no ht (hne _ (by decide)),ifMatch_no ht (hne _ (by decide)),
      ifMatch_no ht (hne _ (by decide)),ifMatch_no ht (hne _ (by decide)),bind_at (peek_next ht),
      if_neg (hne _ (by decide)),ifMatch_yes ht htype (by omega),parseParenthesized,
      bind_at (peek_next hfirst),if_neg (by simpa using hselect)]
    have hcompile : (grammar (n+1)).compileExpr ts (i+1) = .ok e (i + 1 + ls.length) := hinner
    have hindex : i + (openLexeme::(ls ++ [closeLexeme])).length = i + 1 + ls.length + 1 := by
      simp only [List.length_cons,List.length_append,List.length_nil]
      omega
    rw [bind_at hcompile,bind_at (expect_yes hr hrtype (by omega)),hindex]
    rfl

theorem NextIs.close (h : NextIs ts i (· = .rightParen)) (hp : p .rightParen) : NextIs ts i p :=
  h.mono fun type h => by
    obtain rfl : type = .rightParen := by simpa using h
    exact hp

theorem expr_of_comparison {fuel : ℕ} (h : parseCompileComparison (grammar fuel) ts i = .ok e j)
    (hfirst : NextIs ts i (· ≠ .not)) (hnext : NextIs ts j (· = .rightParen)) (hf : 0 < fuel) :
    parseCompileExpr (grammar fuel) ts i = .ok e j :=
  parseCompileExpr_pass (parseCompileNot_pass h hfirst) (hnext.close (by decide))
    (by simpa using hf)

theorem expr_of_additive {fuel : ℕ} (h : parseCompileAdditive (grammar fuel) ts i = .ok e j)
    (hfirst : NextIs ts i (· ≠ .not)) (hnext : NextIs ts j (· = .rightParen)) (hf : 0 < fuel) :
    parseCompileExpr (grammar fuel) ts i = .ok e j :=
  expr_of_comparison (parseCompileComparison_pass h (hnext.close (by decide))) hfirst hnext hf

/-- What an operator of each layer may follow. -/
theorem ends_of_operator (type : TokenType) :
    (isMultiplicativeType type → endsOperand type ∧ !isAdditiveType type) ∧
      (isAdditiveType type → endsUnary type) ∧ (isComparisonType type → endsMultiplicative type) := by
  cases type <;> decide

theorem Readable.first_append (h : Readable ls e) (later : List Lexeme) :
    ∃ l ∈ (ls ++ later).head?, l.1 ≠ .select := by
  obtain ⟨l,hl,hp⟩ := h.first
  rcases ls with - | ⟨l',ls⟩
  · simp at hl
  · exact ⟨l,hl,by simp_all⟩

/-- An operator between two operands. -/
theorem Inner.operator {o : Lexeme} (ho : isOperatorType o.1) (h : Readable ls left)
    (hright : Readable ls' right) : Inner (ls ++ o::ls') (.binary (text o.2) left right) where
  first := h.first_append _
  expr := by
    intro ts i fuel hat hnext hf
    simp only [List.length_append,List.length_cons] at hnext hf ⊢
    obtain ⟨hls,hrest⟩ := at_append.mp hat
    obtain ⟨⟨t,ht,htype,htext⟩,hls'⟩ := at_cons.mp hrest
    have hindex : i + (ls.length + (ls'.length + 1)) = i + ls.length + 1 + ls'.length := by omega
    rw [hindex] at hnext ⊢
    rw [← htext]
    rw [← htype] at ho
    have hlt : i + ls.length + 1 < ts.length := by
      have := hnext.lt
      omega
    have hfirst : NextIs ts i (· ≠ .not) := (h.start hls).mono fun type h => by simp_all
    have hpos := h.length_pos
    obtain ⟨hmul,hadd,hcmp⟩ := ends_of_operator t.type
    simp only [isOperatorType,Bool.or_eq_true] at ho
    rcases ho with (hop | hop) | hop
    · have hleft := h.additive hls ⟨t,ht,hcmp hop⟩ (by omega : ls.length ≤ fuel)
      have hr := hright.additive hls' (hnext.close (by decide)) (by omega : ls'.length ≤ fuel)
      have htake : parseComparisonOperator (grammar fuel) left ts (i + ls.length) =
          .ok (.binary (text t.lexeme) left right) (i + ls.length + 1 + ls'.length) := by
        rw [parseComparisonOperator,bind_at (peek_next ht),if_pos hop,
          bind_at (expect_yes ht rfl hlt),bind_at hr]
        rfl
      refine expr_of_comparison ?_ hfirst hnext (by omega)
      rw [parseCompileComparison_eq hleft,bind_at htake]
      exact parsePredicate_stop (hnext.close (by decide))
    · have htake : parseCompileAdditive (grammar fuel) ts i =
          .ok (.binary (text t.lexeme) left right) (i + ls.length + 1 + ls'.length) :=
        parseOperators_take (h.multiplicative hls ⟨t,ht,hadd hop⟩ (by omega)) ht hop hlt
          (hright.multiplicative hls' (hnext.close (by decide)) (by omega)) (hnext.close (by decide))
          (by simp; omega)
      exact expr_of_additive htake hfirst hnext (by omega)
    · have htake : parseCompileMultiplicative (grammar fuel) ts i =
          .ok (.binary (text t.lexeme) left right) (i + ls.length + 1 + ls'.length) :=
        parseOperators_take (h.unary hls ⟨t,ht,(hmul hop).1⟩ (by omega)) ht hop hlt
          (hright.unary hls' (hnext.close (by decide)) (by omega)) (hnext.close (by decide))
          (by simp; omega)
      exact expr_of_additive
        (parseCompileAdditive_pass htake (hnext.close (by decide)) (by simp; omega)) hfirst hnext
        (by omega)

theorem Inner.logical {o : Lexeme} {op : String} (ho : (o.1,op) ∈ wordOperators)
    (h : Readable ls left) (hright : Readable ls' right) :
    Inner (ls ++ o::ls') (.binary op left right) where
  first := h.first_append _
  expr := by
    intro ts i fuel hat hnext hf
    simp only [List.length_append,List.length_cons] at hnext hf ⊢
    obtain ⟨hls,hrest⟩ := at_append.mp hat
    obtain ⟨⟨t,ht,htype,-⟩,hls'⟩ := at_cons.mp hrest
    have hindex : i + (ls.length + (ls'.length + 1)) = i + ls.length + 1 + ls'.length := by omega
    rw [hindex] at hnext ⊢
    have hlt : i + ls.length + 1 < ts.length := by
      have := hnext.lt
      omega
    have hpos := h.length_pos
    have hword : (o.1 = .and ∧ op = "and") ∨ (o.1 = .or ∧ op = "or") := by
      simpa [wordOperators] using ho
    have hends : NextIs ts (i + ls.length) endsComparison := by
      refine ⟨t,ht,?_⟩
      rcases hword with ⟨hand,-⟩ | ⟨hor,-⟩
      · rw [htype,hand]
        decide
      · rw [htype,hor]
        decide
    have hl := h.not hls hends (by omega : ls.length ≤ fuel)
    have hr := hright.not hls' (hnext.close (by decide)) (by omega : ls'.length ≤ fuel)
    have hfuel : 2 ≤ (grammar fuel).fuel := by simp; omega
    rcases hword with ⟨hand,rfl⟩ | ⟨hor,rfl⟩
    · exact parseLogical_stop (parseLogical_take hl ht (htype.trans hand) hlt hr
        (hnext.close (by decide)) hfuel) (hnext.close (by decide)) (by simp; omega)
    · refine parseLogical_take (parseLogical_stop hl ⟨t,ht,by simp [htype,hor]⟩ (by simp; omega)) ht
        (htype.trans hor) hlt (parseLogical_stop hr (hnext.close (by decide)) (by simp; omega))
        (hnext.close (by decide)) hfuel

theorem Inner.minus {o : Lexeme} (ho : o.1 = .minus) (h : Readable ls e) :
    Inner (o::ls) (.unary "-" e) where
  first := ⟨o,rfl,by simp [ho]⟩
  expr := by
    intro ts i fuel hat hnext hf
    simp only [List.length_cons] at hnext hf ⊢
    obtain ⟨⟨t,ht,htype,-⟩,hls⟩ := at_cons.mp hat
    rw [← Nat.add_assoc,Nat.add_right_comm] at hnext ⊢
    have hlt := hnext.lt
    obtain ⟨n,rfl⟩ : ∃ n, fuel = n + 1 := ⟨fuel - 1,by omega⟩
    have hoperand : (grammar (n+1)).compileUnary ts (i+1) = .ok e (i + 1 + ls.length) :=
      h.unary hls (hnext.close (by decide)) (by omega)
    have hunary : parseCompileUnary (grammar (n+1)) ts i =
        .ok (.unary "-" e) (i + 1 + ls.length) := by
      rw [parseCompileUnary,ifMatch_yes ht (htype.trans ho) (by omega),bind_at hoperand]
      rfl
    have hpos : 0 < (grammar (n+1)).fuel := by simp
    refine expr_of_additive (parseCompileAdditive_pass (parseCompileMultiplicative_pass hunary
      (hnext.close (by decide)) hpos) (hnext.close (by decide)) hpos) ?_ hnext (Nat.succ_pos n)
    exact ⟨t,ht,by simp [htype,ho]⟩

theorem Inner.not {o : Lexeme} (ho : o.1 = .not) (h : Readable ls e) :
    Inner (o::ls) (.unary "not" e) where
  first := ⟨o,rfl,by simp [ho]⟩
  expr := by
    intro ts i fuel hat hnext hf
    simp only [List.length_cons] at hnext hf ⊢
    obtain ⟨⟨t,ht,htype,-⟩,hls⟩ := at_cons.mp hat
    rw [← Nat.add_assoc,Nat.add_right_comm] at hnext ⊢
    have hlt := hnext.lt
    obtain ⟨n,rfl⟩ : ∃ n, fuel = n + 1 := ⟨fuel - 1,by omega⟩
    have hoperand : (grammar (n+1)).compileNot ts (i+1) = .ok e (i + 1 + ls.length) :=
      h.not hls (hnext.close (by decide)) (by omega)
    refine parseCompileExpr_pass ?_ (hnext.close (by decide)) (by simp)
    rw [parseCompileNot,ifMatch_yes ht (htype.trans ho) (by omega),bind_at hoperand]
    rfl

/-! ### Predicates -/

def notLexemes (negated : Bool) : List Lexeme := if negated then [(.not,bytes "not")] else []

theorem notLexemes_length (negated : Bool) : (notLexemes negated).length ≤ 1 := by
  cases negated <;> simp [notLexemes]

/-- A NOT in front of BETWEEN, IN or LIKE negates it. -/
theorem parseNegation_at {negated : Bool} {t : Token} (hat : At ts i (notLexemes negated))
    (ht : ts[i + (notLexemes negated).length]? = some t)
    (htype : t.type = .between ∨ t.type = .in_ ∨ t.type = .like) :
    parseNegation ts i = .ok negated (i + (notLexemes negated).length) := by
  cases negated with
  | false => exact parseNegation_stop ⟨t,ht,by rcases htype with h | h | h <;> simp [h]⟩
  | true =>
    obtain ⟨⟨n,hn,hnot,-⟩,-⟩ := at_cons.mp hat
    change ts[i + 1]? = some t at ht
    have hlt := (List.getElem?_eq_some_iff.mp ht).1
    rw [parseNegation,bind_at (peek_next hn),if_pos hnot,bind_at (peek_at ht),if_pos htype,
      bind_at (advance_at hlt)]
    rfl

/-- No IS follows, so the NOT is looked for. -/
theorem parsePredicate_word {negated : Bool} {t : Token} (hat : At ts i (notLexemes negated))
    (ht : ts[i + (notLexemes negated).length]? = some t)
    (htype : t.type = .between ∨ t.type = .in_ ∨ t.type = .like) :
    parsePredicate g left ts i =
      (ifMatch .between (parseBetween g negated left) <|
        ifMatch .in_ (parseIn g negated left) <|
        ifMatch .like (parseLike g negated left) (pure left)) ts
        (i + (notLexemes negated).length) := by
  have his : NextIs ts i (· ≠ .is) := by
    cases negated with
    | false => exact ⟨t,ht,by rcases htype with h | h | h <;> simp [h]⟩
    | true =>
      obtain ⟨⟨n,hn,hnot,-⟩,-⟩ := at_cons.mp hat
      exact ⟨n,hn,by simp [hnot]⟩
  obtain ⟨n,hn,hne⟩ := his
  rw [parsePredicate,ifMatch_no hn (by simpa using hne),bind_at (parseNegation_at hat ht htype)]

theorem nextIs_notLexemes {negated : Bool} {t : Token} (hat : At ts i (notLexemes negated))
    (ht : ts[i + (notLexemes negated).length]? = some t) (hp : p t.type) (hnot : p .not) :
    NextIs ts i p := by
  cases negated with
  | false => exact ⟨t,ht,hp⟩
  | true =>
    obtain ⟨⟨n,hn,htype,-⟩,-⟩ := at_cons.mp hat
    exact ⟨n,hn,by rwa [htype]⟩

theorem Inner.isNull {o n : Lexeme} (ho : o.1 = .is) (hn : n.1 = .null) (h : Readable ls e)
    (negated : Bool) : Inner (ls ++ o::(notLexemes negated ++ [n])) (.isNull e negated) where
  first := h.first_append _
  expr := by
    intro ts i fuel hat hnext hf
    simp only [List.length_append,List.length_cons,List.length_nil] at hnext hf ⊢
    obtain ⟨hls,hrest⟩ := at_append.mp hat
    obtain ⟨⟨t,ht,htype,-⟩,hwords⟩ := at_cons.mp hrest
    obtain ⟨hnot,hnull⟩ := at_append.mp hwords
    obtain ⟨⟨t',ht',htype',-⟩,-⟩ := at_cons.mp hnull
    rw [ho] at htype
    rw [hn] at htype'
    have hlt := hnext.lt
    have hfirst : NextIs ts i (· ≠ .not) := (h.start hls).mono fun type h => by simp_all
    refine expr_of_comparison ?_ hfirst hnext (by omega)
    have hleft := h.additive hls ⟨t,ht,by rw [htype]; decide⟩ (by omega : ls.length ≤ fuel)
    have hmatch : matchType .not ts (i + ls.length + 1) =
        .ok negated (i + ls.length + 1 + (notLexemes negated).length) := by
      cases negated with
      | false =>
        change ts[i + ls.length + 1]? = some t' at ht'
        rw [matchType,accept_at ht' fun _ => by omega]
        simp [hasType,htype',notLexemes]
      | true =>
        obtain ⟨⟨w,hw,hwtype,-⟩,-⟩ := at_cons.mp hnot
        rw [matchType,accept_at hw fun _ => by omega]
        simp [hasType,hwtype,notLexemes]
    rw [parseCompileComparison_predicate hleft ⟨t,ht,by rw [htype]; decide⟩,parsePredicate,
      ifMatch_yes ht htype (by omega),parseIsNull,bind_at hmatch,
      bind_at (expect_yes ht' htype' (by omega))]
    have hindex : i + ls.length + 1 + (notLexemes negated).length + 1 =
        i + (ls.length + ((notLexemes negated).length + (0 + 1) + 1)) := by omega
    rw [hindex]
    rfl

/-- Behind the left operand the word of the predicate decides. -/
theorem predicate_at {fuel : ℕ} {negated : Bool} {w : Lexeme} {later : List Lexeme}
    (h : Readable ls left) (hat : At ts i (ls ++ (notLexemes negated ++ w::later)))
    (hw : w.1 = .between ∨ w.1 = .in_ ∨ w.1 = .like) (hf : ls.length ≤ fuel) :
    ∃ t, ts[i + ls.length + (notLexemes negated).length]? = some t ∧ t.type = w.1 ∧
      At ts (i + ls.length + (notLexemes negated).length + 1) later ∧
      parseCompileComparison (grammar fuel) ts i =
        (ifMatch .between (parseBetween (grammar fuel) negated left) <|
          ifMatch .in_ (parseIn (grammar fuel) negated left) <|
          ifMatch .like (parseLike (grammar fuel) negated left) (pure left)) ts
          (i + ls.length + (notLexemes negated).length) := by
  obtain ⟨hls,hrest⟩ := at_append.mp hat
  obtain ⟨hnot,hword⟩ := at_append.mp hrest
  obtain ⟨⟨t,ht,htype,-⟩,hlater⟩ := at_cons.mp hword
  have hnext : ∀ {p : TokenType → Bool}, p .not → p .between → p .in_ → p .like →
      NextIs ts (i + ls.length) p := by
    intro p h0 h1 h2 h3
    refine nextIs_notLexemes hnot ht ?_ h0
    rcases hw with hw | hw | hw <;> rwa [htype,hw]
  refine ⟨t,ht,htype,hlater,?_⟩
  rw [parseCompileComparison_predicate
    (h.additive hls (hnext (by decide) (by decide) (by decide) (by decide)) hf)
    (hnext (by decide) (by decide) (by decide) (by decide))]
  exact parsePredicate_word hnot ht (by rwa [htype])

theorem Inner.between {b a : Lexeme} {low high : List Lexeme} {lower upper : Expr}
    (hb : b.1 = .between) (ha : a.1 = .and) (h : Readable ls left) (hlow : Readable low lower)
    (hhigh : Readable high upper) (negated : Bool) :
    Inner (ls ++ (notLexemes negated ++ b::(low ++ a::high)))
      (.between left lower upper negated) where
  first := h.first_append _
  expr := by
    intro ts i fuel hat hnext hf
    simp only [List.length_append,List.length_cons] at hnext hf ⊢
    obtain ⟨t,ht,htype,hlater,hcomparison⟩ :=
      predicate_at h hat (.inl hb) (by omega : ls.length ≤ fuel)
    obtain ⟨hls,-⟩ := at_append.mp hat
    obtain ⟨hlows,hrest⟩ := at_append.mp hlater
    obtain ⟨⟨t',ht',htype',-⟩,hhighs⟩ := at_cons.mp hrest
    rw [hb] at htype
    rw [ha] at htype'
    generalize hstart : i + ls.length + (notLexemes negated).length + 1 = start at *
    have hindex : i + (ls.length + ((notLexemes negated).length +
        (low.length + (high.length + 1) + 1))) = start + low.length + 1 + high.length := by omega
    rw [hindex] at hnext ⊢
    have hlt := hnext.lt
    have hfirst : NextIs ts i (· ≠ .not) := (h.start hls).mono fun type h => by simp_all
    refine expr_of_comparison ?_ hfirst hnext (by omega)
    have hl := hlow.additive hlows ⟨t',ht',by rw [htype']; decide⟩ (by omega : low.length ≤ fuel)
    have hu := hhigh.additive hhighs (hnext.close (by decide)) (by omega : high.length ≤ fuel)
    rw [hcomparison,ifMatch_yes ht htype (by omega),hstart,parseBetween,bind_at hl,
      bind_at (expect_yes ht' htype' (by omega)),bind_at hu]
    rfl

theorem Inner.like {w : Lexeme} (hw : w.1 = .like) (h : Readable ls left)
    (hright : Readable ls' right) (negated : Bool) :
    Inner (ls ++ (notLexemes negated ++ w::ls'))
      (.binary (if negated then "not like" else "like") left right) where
  first := h.first_append _
  expr := by
    intro ts i fuel hat hnext hf
    simp only [List.length_append,List.length_cons] at hnext hf ⊢
    obtain ⟨t,ht,htype,hlater,hcomparison⟩ :=
      predicate_at h hat (.inr (.inr hw)) (by omega : ls.length ≤ fuel)
    obtain ⟨hls,-⟩ := at_append.mp hat
    rw [hw] at htype
    generalize hstart : i + ls.length + (notLexemes negated).length + 1 = start at *
    have hindex : i + (ls.length + ((notLexemes negated).length + (ls'.length + 1))) =
        start + ls'.length := by omega
    rw [hindex] at hnext ⊢
    have hlt := hnext.lt
    have hpos := hright.length_pos
    have hfirst : NextIs ts i (· ≠ .not) := (h.start hls).mono fun type h => by simp_all
    refine expr_of_comparison ?_ hfirst hnext (by omega)
    have hr := hright.additive hlater (hnext.close (by decide)) (by omega : ls'.length ≤ fuel)
    rw [hcomparison,ifMatch_no ht (by simp [htype]),ifMatch_no ht (by simp [htype]),
      ifMatch_yes ht htype (by omega),hstart,parseLike,bind_at hr]
    rfl

def commaLexeme : Lexeme := (.comma,[44])

/-- Options and the commas between them. -/
abbrev Options : List Lexeme → List Expr → Prop := Parse.Listed (· = commaLexeme) Readable

theorem Options.first {options : List Expr} (h : Options ls options) :
    ∃ l ∈ ls.head?, l.1 ∉ [.minus,.not,.select,.star] := by
  cases h with
  | one h => exact h.first
  | @cons used later _ _ _ h =>
    obtain ⟨l,hl,hp⟩ := h.first
    rcases used with - | ⟨l',used⟩
    · simp at hl
    · exact ⟨l,hl,hp⟩

theorem options_at {options : List Expr} (h : Options ls options) {fuel n : ℕ} (hat : At ts i ls)
    (hnext : NextIs ts (i + ls.length) (· = .rightParen)) (hf : ls.length ≤ fuel)
    (hn : ls.length ≤ n) :
    commaSeparated (parseCompileExpr (grammar fuel)) n ts i = .ok options (i + ls.length) := by
  induction h generalizing i n with
  | one h =>
    have hpos := h.length_pos
    obtain ⟨n,rfl⟩ : ∃ k, n = k + 1 := ⟨n - 1,by omega⟩
    have hitem := h.expr hat (hnext.close (by decide)) hf
    obtain ⟨t,ht,htype⟩ := hnext
    have hclose : t.type = .rightParen := by simpa using htype
    rw [commaSeparated,Parse.separated,bind_at hitem,ifAccept_at ht (by simp [hasType,hclose])]
    simp [hasType,hclose]
    rfl
  | @cons used later comma option options h hcomma hlater ih =>
    obtain rfl : comma = commaLexeme := by simpa using hcomma
    simp only [List.length_append,List.length_cons] at hnext hf hn ⊢
    obtain ⟨hused,hrest⟩ := at_append.mp hat
    obtain ⟨⟨t,ht,htype,-⟩,hlast⟩ := at_cons.mp hrest
    have hindex : i + (used.length + (later.length + 1)) = i + used.length + 1 + later.length := by
      omega
    rw [hindex] at hnext ⊢
    have hlt := hnext.lt
    obtain ⟨n,rfl⟩ : ∃ k, n = k + 1 := ⟨n - 1,by omega⟩
    have hitem := h.expr hused ⟨t,ht,by rw [htype]; decide⟩ (by omega : used.length ≤ fuel)
    have hothers : Parse.separated (hasType .comma) (parseCompileExpr (grammar fuel)) n ts
        (i + used.length + 1) = .ok options (i + used.length + 1 + later.length) :=
      ih hlast hnext (by omega) (by omega : later.length ≤ n)
    have htaken : hasType .comma t := by simp [hasType,htype,commaLexeme]
    rw [commaSeparated,Parse.separated,bind_at hitem,ifAccept_at ht fun _ => by omega,
      if_pos htaken,bind_at hothers]
    rfl

theorem Inner.inList {w : Lexeme} {options : List Expr} (hw : w.1 = .in_) (h : Readable ls left)
    (hoptions : Options ls' options) (negated : Bool) :
    Inner (ls ++ (notLexemes negated ++ w::openLexeme::(ls' ++ [closeLexeme])))
      (.inList left options negated) where
  first := h.first_append _
  expr := by
    intro ts i fuel hat hnext hf
    simp only [List.length_append,List.length_cons,List.length_nil] at hnext hf ⊢
    obtain ⟨t,ht,htype,hlater,hcomparison⟩ :=
      predicate_at h hat (.inr (.inl hw)) (by omega : ls.length ≤ fuel)
    obtain ⟨hls,-⟩ := at_append.mp hat
    obtain ⟨⟨o,ho,hotype,-⟩,hrest⟩ := at_cons.mp hlater
    obtain ⟨hls',hlast⟩ := at_append.mp hrest
    obtain ⟨⟨r,hr,hrtype,-⟩,-⟩ := at_cons.mp hlast
    change o.type = .leftParen at hotype
    change r.type = .rightParen at hrtype
    rw [hw] at htype
    generalize hstart : i + ls.length + (notLexemes negated).length + 1 = start at *
    have hindex : i + (ls.length + ((notLexemes negated).length + (ls'.length + (0 + 1) + 1 + 1))) =
        start + 1 + ls'.length + 1 := by omega
    rw [hindex] at hnext ⊢
    have hlt := hnext.lt
    obtain ⟨n,rfl⟩ : ∃ k, fuel = k + 1 := ⟨fuel - 1,by omega⟩
    have hfirst : NextIs ts i (· ≠ .not) := (h.start hls).mono fun type h => by simp_all
    refine expr_of_comparison ?_ hfirst hnext (by omega)
    obtain ⟨f,hf',hselect⟩ := nextIs_first (p := (· ∉ [.minus,.not,.select,.star]))
      (by simpa using hoptions.first) hls'
    have hlist : commaSeparated (grammar (n+1)).compileExpr (grammar (n+1)).fuel ts (start + 1) =
        .ok options (start + 1 + ls'.length) :=
      options_at hoptions hls' ⟨r,hr,by simp [hrtype]⟩ (by omega) (by simp; omega)
    rw [hcomparison,ifMatch_no ht (by simp [htype]),ifMatch_yes ht htype (by omega),hstart,parseIn,
      bind_at (expect_yes ho hotype (by omega)),bind_at (peek_next hf'),if_neg (by simp_all),
      bind_at hlist,bind_at (expect_yes hr hrtype (by omega))]
    rfl

/-! ### Atoms -/

/-- An atom of one token. -/
theorem Readable.of_token {l : Lexeme} (hfirst : l.1 ∉ [.minus,.not,.select,.star])
    (h : ∀ {ts : List Token} {i : ℕ} {t : Token} (g : Grammar), ts[i]? = some t → t.type = l.1 →
      t.lexeme = l.2 → NextIs ts (i + 1) endsOperand →
      parseCompilePrimary g ts i = .ok e (i + 1)) : Readable [l] e where
  first := ⟨l,rfl,hfirst⟩
  primary := by
    intro ts i fuel hat hnext hf
    obtain ⟨⟨t,ht,htype,htext⟩,-⟩ := at_cons.mp hat
    exact h _ ht htype htext hnext

theorem readable_null {w : List UInt8} : Readable [(.null,w)] (makeLiteralExpr .null) := by
  refine .of_token (by simp) fun {ts i t} g ht htype htext hnext => ?_
  rw [parseCompilePrimary,ifMatch_yes ht htype hnext.lt]
  rfl

theorem readable_true {w : List UInt8} : Readable [(.true,w)] (CompileExpr.makeBool true) := by
  refine .of_token (by simp) fun {ts i t} g ht htype htext hnext => ?_
  rw [parseCompilePrimary,ifMatch_no ht (by simp [htype]),ifMatch_no ht (by simp [htype]),
    ifMatch_yes ht htype hnext.lt]
  rfl

theorem readable_false {w : List UInt8} : Readable [(.false,w)] (CompileExpr.makeBool false) := by
  refine .of_token (by simp) fun {ts i t} g ht htype htext hnext => ?_
  rw [parseCompilePrimary,ifMatch_no ht (by simp [htype]),ifMatch_no ht (by simp [htype]),
    ifMatch_no ht (by simp [htype]),ifMatch_yes ht htype hnext.lt]
  rfl

theorem readable_string (value : List UInt8) :
    Readable [(.string,value)] (makeLiteralExpr (.varchar value)) := by
  refine .of_token (by simp) fun {ts i t} g ht htype htext hnext => ?_
  rw [parseCompilePrimary,ifMatch_no ht (by simp [htype]),ifMatch_no ht (by simp [htype]),
    ifMatch_no ht (by simp [htype]),ifMatch_no ht (by simp [htype]),
    ifMatch_yes ht htype hnext.lt,bind_at (previous_at ht),htext]
  rfl

theorem readable_integer {w : List UInt8} {n : Int64} (h : fromCharsInt64 w = some n) :
    Readable [(.integer,w)] (makeLiteralExpr (.int n)) := by
  refine .of_token (by simp) fun {ts i t} g ht htype htext hnext => ?_
  have hinteger : parseInteger ts (i+1) = .ok n (i+1) := by
    rw [parseInteger,bind_at (previous_at ht),htext,h]
    rfl
  rw [parseCompilePrimary,ifMatch_no ht (by simp [htype]),ifMatch_no ht (by simp [htype]),
    ifMatch_no ht (by simp [htype]),ifMatch_no ht (by simp [htype]),
    ifMatch_no ht (by simp [htype]),ifMatch_yes ht htype hnext.lt,bind_at hinteger]
  rfl

/-! ### Names and aggregates -/

theorem expectIdentifier_yes {s : String} {t : Token} (ht : ts[i]? = some t)
    (h : t.type = .identifier) (hlt : i + 1 < ts.length) :
    expectIdentifier s ts i = .ok (text t.lexeme) (i+1) := by
  rw [expectIdentifier,bind_at (expect_yes ht h hlt)]
  rfl

theorem parseCompilePrimary_name {t : Token} (ht : ts[i]? = some t) (h : t.type = .identifier) :
    parseCompilePrimary g ts i = parseName g ts i := by
  rw [parseCompilePrimary,ifMatch_no ht (by simp [h]),ifMatch_no ht (by simp [h]),
    ifMatch_no ht (by simp [h]),ifMatch_no ht (by simp [h]),ifMatch_no ht (by simp [h]),
    ifMatch_no ht (by simp [h]),bind_at (peek_next ht),if_pos h]

/-- A name is an aggregate if a parenthesis follows and it is the name of one. -/
theorem parseName_at {t next : Token} (ht : ts[i]? = some t) (h : t.type = .identifier)
    (hnext : ts[i + 1]? = some next) : parseName g ts i =
      if next.type = .leftParen && (aggregateKindFromName (text t.lexeme)).isSome then
        parseAggregateExpr g ts i
      else parseColumnRef "表达式中的列名" ts i := by
  have hcall : isAggregateCall ts i =
      .ok (next.type = .leftParen && (aggregateKindFromName (text t.lexeme)).isSome) i := by
    rw [isAggregateCall,bind_at (peek_next ht),if_pos h,bind_at (peek_at hnext)]
    rfl
  rw [parseName,bind_at hcall]
  split <;> rfl

theorem readable_column (w : List UInt8) : Readable [(.identifier,w)] (.column "" (text w)) := by
  refine .of_token (by simp) fun {ts i t} g ht htype htext hnext => ?_
  have hlt := hnext.lt
  obtain ⟨next,hn,hend⟩ := hnext
  have hne : next.type ≠ .dot ∧ next.type ≠ .leftParen := by simpa [endsOperand] using hend
  rw [parseCompilePrimary_name ht htype,parseName_at ht htype hn,if_neg (by simp [hne.2]),
    parseColumnRef,bind_at (expectIdentifier_yes ht htype hlt),ifMatch_no hn hne.1,htext]
  rfl

theorem readable_qualified (w w' : List UInt8) {d : Lexeme} (hd : d.1 = .dot) :
    Readable [(.identifier,w),d,(.identifier,w')] (.column (text w) (text w')) where
  first := ⟨_,rfl,by simp⟩
  primary := by
    intro ts i fuel hat hnext hf
    obtain ⟨⟨t,ht,htype,htext⟩,hrest⟩ := at_cons.mp hat
    obtain ⟨⟨dot,hdot,hdottype,-⟩,hlast⟩ := at_cons.mp hrest
    obtain ⟨⟨c,hc,hctype,hctext⟩,-⟩ := at_cons.mp hlast
    rw [hd] at hdottype
    have hlt : i + 3 < ts.length := hnext.lt
    rw [parseCompilePrimary_name ht htype,parseName_at ht htype hdot,if_neg (by simp [hdottype]),
      parseColumnRef,bind_at (expectIdentifier_yes ht htype (by omega)),
      ifMatch_yes hdot hdottype (by omega),bind_at (expectIdentifier_yes hc hctype (by omega)),
      htext,hctext]
    rfl

/-- The name of an aggregate and its parenthesis. -/
theorem parseAggregateExpr_at {t o : Token} {kind : CompileAggregateKind} (ht : ts[i]? = some t)
    (h : t.type = .identifier) (hkind : aggregateKindFromName (text t.lexeme) = some kind)
    (ho : ts[i + 1]? = some o) (hotype : o.type = .leftParen) (hlt : i + 2 < ts.length) :
    parseCompilePrimary g ts i = (do
      let star ← matchType .star
      let argument ← (if star then pure .nullptr else g.compileExpr)
      let _ ← expect .rightParen "聚合函数后的 ')'"
      pure (.aggregate kind star argument) : Parsing Expr) ts (i+2) := by
  rw [parseCompilePrimary_name ht h,parseName_at ht h ho,if_pos (by simp [hotype,hkind]),
    parseAggregateExpr,bind_at (expectIdentifier_yes ht h (by omega)),hkind]
  exact bind_at (expect_yes ho hotype hlt)

theorem readable_star {w : List UInt8} {kind : CompileAggregateKind} {s : Lexeme}
    (hkind : aggregateKindFromName (text w) = some kind) (hs : s.1 = .star) :
    Readable [(.identifier,w),openLexeme,s,closeLexeme] (.aggregate kind true .nullptr) where
  first := ⟨_,rfl,by simp⟩
  primary := by
    intro ts i fuel hat hnext hf
    obtain ⟨⟨t,ht,htype,htext⟩,hrest⟩ := at_cons.mp hat
    obtain ⟨⟨o,ho,hotype,-⟩,hrest⟩ := at_cons.mp hrest
    obtain ⟨⟨m,hm,hmtype,-⟩,hlast⟩ := at_cons.mp hrest
    obtain ⟨⟨r,hr,hrtype,-⟩,-⟩ := at_cons.mp hlast
    change t.lexeme = w at htext
    have hlt : i + 4 < ts.length := hnext.lt
    have hmatch : matchType .star ts (i+2) = .ok true (i+3) := by
      rw [matchType,accept_at hm fun _ => by omega]
      simp [hasType,hmtype,hs]
    rw [parseAggregateExpr_at ht htype (by rw [htext,hkind]) ho hotype (by omega),bind_at hmatch]
    exact bind_at (expect_yes hr hrtype (by omega))

theorem Readable.aggregate {w : List UInt8} {kind : CompileAggregateKind}
    (hkind : aggregateKindFromName (text w) = some kind) (h : Readable ls e) :
    Readable ((.identifier,w)::openLexeme::(ls ++ [closeLexeme])) (.aggregate kind false e) where
  first := ⟨_,rfl,by simp⟩
  primary := by
    intro ts i fuel hat hnext hf
    simp only [List.length_cons,List.length_append,List.length_nil] at hnext hf ⊢
    obtain ⟨⟨t,ht,htype,htext⟩,hrest⟩ := at_cons.mp hat
    obtain ⟨⟨o,ho,hotype,-⟩,hrest⟩ := at_cons.mp hrest
    obtain ⟨hls,hlast⟩ := at_append.mp hrest
    obtain ⟨⟨r,hr,hrtype,-⟩,-⟩ := at_cons.mp hlast
    change t.lexeme = w at htext
    change r.type = .rightParen at hrtype
    have hindex : i + (ls.length + (0 + 1) + 1 + 1) = i + 2 + ls.length + 1 := by omega
    rw [hindex] at hnext ⊢
    have hlt := hnext.lt
    obtain ⟨n,rfl⟩ : ∃ k, fuel = k + 1 := ⟨fuel - 1,by omega⟩
    obtain ⟨f,hfirst,hne⟩ := h.start hls
    have hmatch : matchType .star ts (i+2) = .ok false (i+2) := by
      have hstar : ¬hasType .star f := by simp_all [hasType]
      rw [matchType,accept_at hfirst fun hq => absurd hq hstar,if_neg hstar,
        Bool.eq_false_iff.mpr hstar]
    have hargument : (grammar (n+1)).compileExpr ts (i+2) = .ok e (i + 2 + ls.length) :=
      h.expr hls ⟨r,hr,by rw [hrtype]; decide⟩ (by omega)
    rw [parseAggregateExpr_at ht htype (by rw [htext,hkind]) ho hotype (by omega),bind_at hmatch]
    exact (bind_at hargument).trans (bind_at (expect_yes hr hrtype (by omega)))

end Parser
end OurSql
