import Mathlib.Data.List.Chain
import OurSql.Parser.Printable

/-! What the productions keep of the tokens of an expression: a SELECT stands among them when the
tree has a subquery, and otherwise no integer stands right behind an operand and every minus sign
is a node of the tree. -/
namespace OurSql
namespace Parser

open Expression
open Parse (Listed)

/-- An operand may end with the token. -/
def isOperandEnd (type : TokenType) : Bool :=
  [.identifier,.integer,.string,.true,.false,.null,.rightParen].contains type

/-- The two may be neighbours within an expression. -/
def Adjacent (t u : Token) : Prop := isOperandEnd t.type → u.type ≠ .integer

mutual

/-- The nodes of the tree, those of the statement of a subquery left out. -/
def nodes (p : Expr → Bool) : Expr → ℕ
  | .nullptr => 0
  | .column tableName name => (p (.column tableName name)).toNat
  | .literal l => (p (.literal l)).toNat
  | .binary op left right => (p (.binary op left right)).toNat + nodes p left + nodes p right
  | .unary op operand => (p (.unary op operand)).toNat + nodes p operand
  | .isNull operand negated => (p (.isNull operand negated)).toNat + nodes p operand
  | .between operand lower upper negated =>
    (p (.between operand lower upper negated)).toNat + nodes p operand + nodes p lower +
      nodes p upper
  | .inList operand options negated =>
    (p (.inList operand options negated)).toNat + nodes p operand + nodesOf p options
  | .subquery kind query operand negated =>
    (p (.subquery kind query operand negated)).toNat + nodes p operand
  | .aggregate kind star argument => (p (.aggregate kind star argument)).toNat + nodes p argument

def nodesOf (p : Expr → Bool) : List Expr → ℕ
  | [] => 0
  | option::options => nodes p option + nodesOf p options

end

def isMinus : Expr → Bool
  | .binary op _ _ => op == "-"
  | .unary op _ => op == "-"
  | _ => false

def isSubquery : Expr → Bool
  | .subquery _ _ _ _ => true
  | _ => false

/-! ### Subqueries -/

/-- A SELECT stands among the tokens. -/
def Selects (used : List Token) : Prop := ∃ t ∈ used, t.type = .select

@[simp] theorem selects_nil : ¬Selects [] := by simp [Selects]

@[simp] theorem selects_cons {t : Token} {used : List Token} :
    Selects (t::used) ↔ t.type = .select ∨ Selects used := by simp [Selects]

@[simp] theorem selects_append {used later : List Token} :
    Selects (used ++ later) ↔ Selects used ∨ Selects later := by
  simp only [Selects,List.mem_append,or_and_right,exists_or]

theorem not_select_of_hasType {type : TokenType} {t : Token} (h : hasType type t)
    (htype : type ≠ .select) : t.type ≠ .select := by
  rwa [type_of_hasType h]

theorem Negates.not_selects {words : List Token} {negated : Bool} (h : Negates words negated) :
    ¬Selects words := by
  cases negated with
  | false => simp [show words = [] from h]
  | true =>
    obtain ⟨t,ht,rfl⟩ := h
    simp [type_of_hasType ht]

theorem selects_of_listed {later : List Token} {options : List Expr}
    (h : Listed (hasType .comma) (fun used e => Selects used ↔ 0 < nodes isSubquery e) later
      options) : Selects later ↔ 0 < nodesOf isSubquery options := by
  induction h with
  | one h => simpa [nodesOf] using h
  | cons h ht _ ih =>
    rw [selects_append,selects_cons,h,ih,type_of_hasType ht,nodesOf]
    simp

/-- The tree of an expression has a subquery when a SELECT stands among its tokens. -/
theorem productions_selects :
    Productions fun used e => Selects used ↔ 0 < nodes isSubquery e where
  null h := by simp [type_of_hasType h,makeLiteralExpr,nodes,isSubquery]
  bool {t b} h := by cases b <;> simp [type_of_hasType h,CompileExpr.makeBool,nodes,isSubquery]
  string h := by simp [type_of_hasType h,makeLiteralExpr,nodes,isSubquery]
  integer h _ := by simp [type_of_hasType h,makeLiteralExpr,nodes,isSubquery]
  column h := by simp [type_of_hasType h,nodes,isSubquery]
  qualified ht hdot hc := by
    simp [type_of_hasType ht,type_of_hasType hdot,type_of_hasType hc,nodes,isSubquery]
  star hf _ hleft ht hright := by
    simp [type_of_hasType hf,type_of_hasType hleft,type_of_hasType ht,type_of_hasType hright,nodes,
      isSubquery]
  aggregate hf _ hleft h hright := by
    simp [type_of_hasType hf,type_of_hasType hleft,type_of_hasType hright,h,nodes,isSubquery]
  paren hleft h hright := by simp [type_of_hasType hleft,type_of_hasType hright,h]
  minus ht h := by simp [type_of_hasType ht,h,nodes,isSubquery]
  not ht h := by simp [type_of_hasType ht,h,nodes,isSubquery]
  operator {t _ _ _ _} h ht hright := by
    have hselect : t.type ≠ .select := fun hselect => absurd ht (hselect ▸ by decide)
    simp [h,hright,hselect,nodes,isSubquery]
  logical {_ type _ _ _ _ _} h hop ht hright := by
    have hselect : type ≠ .select := by
      have hall : ∀ w ∈ wordOperators, w.1 ≠ .select := by decide
      exact hall _ hop
    simp [h,hright,not_select_of_hasType ht hselect,nodes,isSubquery]
  isNull h ht hwords hn := by
    simp [h,type_of_hasType ht,hwords.not_selects,type_of_hasType hn,nodes,isSubquery]
  between h hwords ht hlow ha hhigh := by
    simp [h,hwords.not_selects,type_of_hasType ht,hlow,type_of_hasType ha,hhigh,nodes,isSubquery]
    tauto
  inList h hwords ht hleft hoptions hright := by
    simp [h,hwords.not_selects,type_of_hasType ht,type_of_hasType hleft,selects_of_listed hoptions,
      type_of_hasType hright,nodes,isSubquery]
  like h hwords ht hright := by
    simp [h,hwords.not_selects,type_of_hasType ht,hright,nodes,isSubquery]
  existence {used _} h := by
    obtain ⟨t,ht,hselect⟩ := h
    have hused : Selects used := ⟨t,ht,type_of_hasType hselect⟩
    simp [hused,nodes,isSubquery]
  scalar {used _} h := by
    obtain ⟨t,ht,hselect⟩ := h
    have hused : Selects used := ⟨t,ht,type_of_hasType hselect⟩
    simp [hused,nodes,isSubquery]
  membership {_ later _ _ _} _ h := by
    obtain ⟨t,ht,hselect⟩ := h
    have hlater : Selects later := ⟨t,ht,type_of_hasType hselect⟩
    simp [hlater,nodes,isSubquery]

/-! ### Neighbours -/

variable {used later words : List Token} {t u : Token}

/-- A token that is neither an integer nor the end of an operand joins what stands around it. -/
theorem chain_glue (h : used.IsChain Adjacent) (ht : t.type ≠ .integer)
    (hend : ¬isOperandEnd t.type) (hlater : later.IsChain Adjacent) :
    (used ++ t::later).IsChain Adjacent := by
  have htail : (t::later).IsChain Adjacent :=
    List.isChain_cons.mpr ⟨fun _ _ hop => absurd hop hend,hlater⟩
  refine List.isChain_append.mpr ⟨h,htail,fun x _ y hy _ => ?_⟩
  obtain rfl : t = y := by simpa using hy
  exact ht

theorem chain_glue_of_hasType {type : TokenType} (h : used.IsChain Adjacent) (ht : hasType type t)
    (htype : type ≠ .integer ∧ ¬isOperandEnd type) (hlater : later.IsChain Adjacent) :
    (used ++ t::later).IsChain Adjacent := by
  rw [← type_of_hasType ht] at htype
  exact chain_glue h htype.1 htype.2 hlater

theorem chain_close {type : TokenType} (h : used.IsChain Adjacent) (ht : hasType type t)
    (htype : type ≠ .integer) : (used ++ [t]).IsChain Adjacent := by
  refine List.isChain_append.mpr ⟨h,List.isChain_singleton t,fun x _ y hy _ => ?_⟩
  obtain rfl : t = y := by simpa using hy
  rwa [type_of_hasType ht]

theorem Negates.chain {negated : Bool} (h : Negates words negated)
    (hlater : later.IsChain Adjacent) : (words ++ later).IsChain Adjacent := by
  cases negated with
  | false => simpa [show words = [] from h] using hlater
  | true =>
    obtain ⟨n,hn,rfl⟩ := h
    exact chain_glue_of_hasType .nil hn (by decide) hlater

theorem Negates.chain_behind {negated : Bool} (h : Negates words negated)
    (hused : used.IsChain Adjacent) : (used ++ words).IsChain Adjacent := by
  cases negated with
  | false => simpa [show words = [] from h] using hused
  | true =>
    obtain ⟨n,hn,rfl⟩ := h
    exact chain_close hused hn (by decide)

/-- The minus signs among the tokens. -/
def minusSigns (used : List Token) : ℕ := used.countP (hasType .minus)

@[simp] theorem minusSigns_nil : minusSigns [] = 0 := rfl

@[simp] theorem minusSigns_cons :
    minusSigns (t::used) = (hasType .minus t).toNat + minusSigns used := by
  rw [minusSigns,List.countP_cons,Nat.add_comm]
  cases hasType .minus t <;> rfl

@[simp] theorem minusSigns_append :
    minusSigns (used ++ later) = minusSigns used + minusSigns later := List.countP_append

theorem minusSign_of_hasType {type : TokenType} (h : hasType type t) (htype : type ≠ .minus) :
    hasType .minus t = false := by
  simpa [hasType,type_of_hasType h] using htype

theorem Negates.minusSigns {negated : Bool} (h : Negates words negated) : minusSigns words = 0 := by
  cases negated with
  | false => simp [show words = [] from h]
  | true =>
    obtain ⟨n,hn,rfl⟩ := h
    simp [minusSign_of_hasType hn]

/-- The tokens of an expression without a subquery, and its tree. -/
structure Spelt (used : List Token) (e : Expr) : Prop where
  chain : used.IsChain Adjacent
  minuses : minusSigns used = nodes isMinus e

/-- What the lexer hands on, SELECT excepted. -/
def Words (used : List Token) : Prop :=
  ∀ t ∈ used, Lexical (lexemeOf t) ∧ t.type ≠ .select

@[simp] theorem words_cons : Words (t::used) ↔
    (Lexical (lexemeOf t) ∧ t.type ≠ .select) ∧ Words used := List.forall_mem_cons

@[simp] theorem words_append : Words (used ++ later) ↔ Words used ∧ Words later :=
  List.forall_mem_append

theorem spelt_of_listed {options : List Expr}
    (h : Listed (hasType .comma) (fun used e => Words used → Spelt used e) later options)
    (hwords : Words later) :
    later.IsChain Adjacent ∧ minusSigns later = nodesOf isMinus options := by
  induction h with
  | one h =>
    obtain ⟨hchain,hminuses⟩ := h hwords
    exact ⟨hchain,by simpa [nodesOf] using hminuses⟩
  | cons h ht _ ih =>
    rw [words_append,words_cons] at hwords
    obtain ⟨hchain,hminuses⟩ := h hwords.1
    obtain ⟨hchain',hminuses'⟩ := ih hwords.2.2
    refine ⟨chain_glue_of_hasType hchain ht (by decide) hchain',?_⟩
    simp [minusSign_of_hasType ht,hminuses,hminuses',nodesOf]

/-- An operator is a minus sign when it is spelt so. -/
theorem minus_of_operator (h : isOperatorType t.type) (hlexical : Lexical (lexemeOf t)) :
    hasType .minus t = (text t.lexeme == "-") := by
  have hall : ∀ l ∈ operatorLexemes, decide (l.1 = .minus) = (text l.2 == "-") := by decide
  exact hall _ (hlexical.operator h)

theorem neighbour_of_operator (h : isOperatorType t.type) :
    t.type ≠ .integer ∧ ¬isOperandEnd t.type := by
  cases htype : t.type <;> simp_all [isOperatorType,isComparisonType,isAdditiveType,
    isMultiplicativeType,isOperandEnd]

/-- No integer stands right behind an operand, and every minus sign is a node of the tree. -/
theorem productions_spelt : Productions fun used e => Words used → Spelt used e where
  null h _ := ⟨by simp,by simp [minusSign_of_hasType h,makeLiteralExpr,nodes,isMinus]⟩
  bool {t b} h _ := by
    refine ⟨by simp,?_⟩
    cases b <;> simp [minusSign_of_hasType h,CompileExpr.makeBool,nodes,isMinus]
  string h _ := ⟨by simp,by simp [minusSign_of_hasType h,makeLiteralExpr,nodes,isMinus]⟩
  integer h _ _ := ⟨by simp,by simp [minusSign_of_hasType h,makeLiteralExpr,nodes,isMinus]⟩
  column h _ := ⟨by simp,by simp [minusSign_of_hasType h,nodes,isMinus]⟩
  qualified {t dot c} ht hdot hc _ := by
    refine ⟨?_,?_⟩
    · exact chain_glue_of_hasType (List.isChain_singleton t) hdot (by decide)
        (List.isChain_singleton c)
    · simp [minusSign_of_hasType ht,minusSign_of_hasType hdot,minusSign_of_hasType hc,nodes,isMinus]
  star {f left t right kind} hf _ hleft ht hright _ := by
    refine ⟨?_,?_⟩
    · have hlast := chain_glue_of_hasType .nil ht (by decide) (List.isChain_singleton right)
      exact chain_glue_of_hasType (List.isChain_singleton f) hleft (by decide) hlast
    · simp [minusSign_of_hasType hf,minusSign_of_hasType hleft,minusSign_of_hasType ht,
        minusSign_of_hasType hright,nodes,isMinus]
  aggregate {f left right kind used argument} hf _ hleft h hright hwords := by
    simp only [words_cons,words_append] at hwords
    obtain ⟨hchain,hminuses⟩ := h hwords.2.2.1
    refine ⟨?_,?_⟩
    · exact chain_glue_of_hasType (List.isChain_singleton f) hleft (by decide)
        (chain_close hchain hright (by decide))
    · simp [minusSign_of_hasType hf,minusSign_of_hasType hleft,hminuses,
        minusSign_of_hasType hright,nodes,isMinus]
  paren hleft h hright hwords := by
    simp only [words_cons,words_append] at hwords
    obtain ⟨hchain,hminuses⟩ := h hwords.2.1
    refine ⟨?_,?_⟩
    · exact chain_glue_of_hasType .nil hleft (by decide) (chain_close hchain hright (by decide))
    · simp [minusSign_of_hasType hleft,hminuses,minusSign_of_hasType hright]
  minus ht h hwords := by
    obtain ⟨hchain,hminuses⟩ := h (words_cons.mp hwords).2
    refine ⟨chain_glue_of_hasType .nil ht (by decide) hchain,?_⟩
    simp [ht,hminuses,nodes,isMinus]
  not ht h hwords := by
    obtain ⟨hchain,hminuses⟩ := h (words_cons.mp hwords).2
    refine ⟨chain_glue_of_hasType .nil ht (by decide) hchain,?_⟩
    simp [minusSign_of_hasType ht,hminuses,nodes,isMinus]
  operator h ht hright hwords := by
    obtain ⟨hused,hmiddle,hlater⟩ := by simpa using hwords
    obtain ⟨hchain,hminuses⟩ := h hused
    obtain ⟨hchain',hminuses'⟩ := hright hlater
    obtain ⟨hinteger,hend⟩ := neighbour_of_operator ht
    refine ⟨chain_glue hchain hinteger hend hchain',?_⟩
    simp [minus_of_operator ht hmiddle.1,hminuses,hminuses',nodes,isMinus]
    omega
  logical {t type op used later left right} h hop ht hright hwords := by
    obtain ⟨hused,-,hlater⟩ := by simpa using hwords
    obtain ⟨hchain,hminuses⟩ := h hused
    obtain ⟨hchain',hminuses'⟩ := hright hlater
    have hall : ∀ w ∈ wordOperators, w.1 ≠ .minus ∧ (w.2 == "-") = false ∧
        w.1 ≠ .integer ∧ ¬isOperandEnd w.1 := by decide
    obtain ⟨hminus,hop,hneighbour⟩ := hall _ hop
    refine ⟨chain_glue_of_hasType hchain ht hneighbour hchain',?_⟩
    simp [minusSign_of_hasType ht hminus,hminuses,hminuses',nodes,isMinus,hop]
  isNull {t n used words operand negated} h ht hnot hn hwords := by
    obtain ⟨hchain,hminuses⟩ := h (words_append.mp hwords).1
    refine ⟨?_,?_⟩
    · exact chain_glue_of_hasType hchain ht (by decide) (hnot.chain (List.isChain_singleton n))
    · simp [minusSign_of_hasType ht,hminuses,hnot.minusSigns,minusSign_of_hasType hn,nodes,isMinus]
  between h hnot ht hlow ha hhigh hwords := by
    simp only [words_cons,words_append] at hwords
    obtain ⟨hchain,hminuses⟩ := h hwords.1
    obtain ⟨hlowChain,hlowMinuses⟩ := hlow hwords.2.2.2.1
    obtain ⟨hhighChain,hhighMinuses⟩ := hhigh hwords.2.2.2.2.2
    refine ⟨?_,?_⟩
    · rw [← List.append_assoc]
      exact chain_glue_of_hasType (hnot.chain_behind hchain) ht (by decide)
        (chain_glue_of_hasType hlowChain ha (by decide) hhighChain)
    · simp [hminuses,hnot.minusSigns,minusSign_of_hasType ht,hlowMinuses,minusSign_of_hasType ha,
        hhighMinuses,nodes,isMinus]
      omega
  inList h hnot ht hleft hoptions hright hwords := by
    simp only [words_cons,words_append] at hwords
    obtain ⟨hchain,hminuses⟩ := h hwords.1
    obtain ⟨hchain',hminuses'⟩ := spelt_of_listed hoptions hwords.2.2.2.2.1
    refine ⟨?_,?_⟩
    · rw [← List.append_assoc]
      exact chain_glue_of_hasType (hnot.chain_behind hchain) ht (by decide)
        (chain_glue_of_hasType .nil hleft (by decide) (chain_close hchain' hright (by decide)))
    · simp [hminuses,hnot.minusSigns,minusSign_of_hasType ht,minusSign_of_hasType hleft,hminuses',
        minusSign_of_hasType hright,nodes,isMinus]
  like {_ _ _ _ _ _ negated} h hnot ht hright hwords := by
    simp only [words_cons,words_append] at hwords
    obtain ⟨hchain,hminuses⟩ := h hwords.1
    obtain ⟨hchain',hminuses'⟩ := hright hwords.2.2.2
    refine ⟨?_,?_⟩
    · rw [← List.append_assoc]
      exact chain_glue_of_hasType (hnot.chain_behind hchain) ht (by decide) hchain'
    · cases negated <;>
        simp [hminuses,hnot.minusSigns,minusSign_of_hasType ht,hminuses',nodes,isMinus]
  existence h hwords := by
    obtain ⟨t,ht,hselect⟩ := h
    exact absurd (type_of_hasType hselect) (hwords t ht).2
  scalar h hwords := by
    obtain ⟨t,ht,hselect⟩ := h
    exact absurd (type_of_hasType hselect) (hwords t ht).2
  membership _ h hwords := by
    obtain ⟨t,ht,hselect⟩ := h
    exact absurd (type_of_hasType hselect) ((words_append.mp hwords).2 t ht).2

/-- What the parser of expressions reads, whatever stands behind it. -/
theorem reads_parseCompileExpr {fuel i j : ℕ} {tokens : List Token} {e : Expr}
    (h : parseCompileExpr (grammar fuel) tokens i = .ok e j) : ∃ used,
      tokens.drop i = used ++ tokens.drop j ∧ j = i + used.length ∧
        (Selects used ↔ 0 < nodes isSubquery e) ∧ (Words used → Spelt used e) := by
  obtain ⟨used,hdrop,hj,hselects⟩ := yields_parseCompileExpr productions_selects
    (sound_grammar productions_selects fuel) tokens i e j h
  obtain ⟨used',hdrop',-,hspelt⟩ := yields_parseCompileExpr productions_spelt
    (sound_grammar productions_spelt fuel) tokens i e j h
  obtain rfl : used' = used := List.append_cancel_right (hdrop'.symm.trans hdrop)
  exact ⟨used',hdrop,hj,hselects,hspelt⟩

/-! ### Lexemes alone -/

theorem minusSigns_eq (used : List Token) :
    minusSigns used = (used.map lexemeOf).countP fun l => decide (l.1 = .minus) := by
  rw [List.countP_map]
  rfl

theorem adjacent_of_chain {before after : List Lexeme} {l l' : Lexeme}
    (h : used.IsChain Adjacent) (hused : used.map lexemeOf = before ++ l::l'::after)
    (hend : isOperandEnd l.1) : l'.1 ≠ .integer := by
  have hchain : (used.map lexemeOf).IsChain fun l l' => isOperandEnd l.1 → l'.1 ≠ .integer :=
    (List.isChain_map lexemeOf).mpr h
  rw [hused] at hchain
  exact (List.isChain_append_cons_cons.mp hchain).2.1 hend

end Parser
end OurSql
