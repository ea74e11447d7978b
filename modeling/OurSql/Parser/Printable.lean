import OurSql.Parser.Chunks
import OurSql.Parser.Trees

/-! The shape of the trees the parser builds: names are identifiers of the lexer, operators are
spelt as the lexer spells them, and a list of options is not empty. Folding keeps it. -/
namespace OurSql
namespace Parser

open Expression
open CompileExpr (makeInt makeBool)
open Parse (Listed)

/-- A word as the lexer hands it on. -/
structure IsWord (w : List UInt8) : Prop where
  start : w.head?.any isWordStart
  bytes : w.all isWordByte
  lower : w.map lowerAscii = w

structure IsName (w : List UInt8) : Prop extends IsWord w where
  keyword : keywordType w = .identifier

/-- The operators as the lexer spells them. -/
def operatorLexemes : List Lexeme :=
  [(.equal,[61]),(.equal,[61,61]),(.notEqual,[33]),(.notEqual,[33,61]),(.notEqual,[60,62]),
   (.greater,[62]),(.greaterEqual,[62,61]),(.less,[60]),(.lessEqual,[60,61]),(.plus,[43]),
   (.minus,[45]),(.star,[42]),(.slash,[47])]

inductive Printable : Expr → Prop
  | null : Printable (makeLiteralExpr .null)
  | bool (b : Bool) : Printable (makeBool b)
  | string (value : List UInt8) : Printable (makeLiteralExpr (.varchar value))
  | int (n : Int64) : Printable (makeLiteralExpr (.int n))
  | column {w : List UInt8} (h : IsName w) : Printable (.column "" (text w))
  | qualified {t c : List UInt8} (ht : IsName t) (hc : IsName c) :
      Printable (.column (text t) (text c))
  | star (kind : CompileAggregateKind) : Printable (.aggregate kind true .nullptr)
  | aggregate (kind : CompileAggregateKind) {argument : Expr} (h : Printable argument) :
      Printable (.aggregate kind false argument)
  | minus {operand : Expr} (h : Printable operand) : Printable (.unary "-" operand)
  | not {operand : Expr} (h : Printable operand) : Printable (.unary "not" operand)
  | operator {l : Lexeme} (hl : l ∈ operatorLexemes) {left right : Expr} (h : Printable left)
      (hright : Printable right) : Printable (.binary (text l.2) left right)
  | logical {type : TokenType} {op : String} (hop : (type,op) ∈ wordOperators) {left right : Expr}
      (h : Printable left) (hright : Printable right) : Printable (.binary op left right)
  | like (negated : Bool) {left right : Expr} (h : Printable left) (hright : Printable right) :
      Printable (.binary (if negated then "not like" else "like") left right)
  | isNull {operand : Expr} (h : Printable operand) (negated : Bool) :
      Printable (.isNull operand negated)
  | between {operand lower upper : Expr} (h : Printable operand) (hlower : Printable lower)
      (hupper : Printable upper) (negated : Bool) : Printable (.between operand lower upper negated)
  | inList {operand : Expr} {options : List Expr} (h : Printable operand) (hne : options ≠ [])
      (hoptions : ∀ option ∈ options, Printable option) (negated : Bool) :
      Printable (.inList operand options negated)
  | subquery (kind : CompileSubqueryKind) (query : Option SelectStatement) (operand : Expr)
      (negated : Bool) : Printable (.subquery kind query operand negated)

/-! ### What the lexer hands on -/

/-- What the lexeme of a name or an operator looks like. -/
structure Lexical (l : Lexeme) : Prop where
  name : l.1 = .identifier → IsName l.2
  operator : isOperatorType l.1 → l ∈ operatorLexemes

theorem lowerAscii_toNat (b : UInt8) :
    (lowerAscii b).toNat = if 65 ≤ b.toNat ∧ b.toNat ≤ 90 then b.toNat + 32 else b.toNat := by
  unfold lowerAscii isUpper
  by_cases h : 65 ≤ b.toNat ∧ b.toNat ≤ 90
  · have hb : (65 ≤ b && b ≤ 90) = true := by
      simpa [UInt8.le_iff_toNat_le] using h
    rw [if_pos hb,if_pos h,UInt8.toNat_add]
    simp
    omega
  · have hb : ¬(65 ≤ b && b ≤ 90) = true := by
      simpa [UInt8.le_iff_toNat_le] using h
    rw [if_neg hb,if_neg h]

theorem isWordStart_iff (b : UInt8) : isWordStart b ↔ (65 ≤ b.toNat ∧ b.toNat ≤ 90) ∨
    (97 ≤ b.toNat ∧ b.toNat ≤ 122) ∨ b.toNat = 95 := by
  simp [isWordStart,isAlpha,isUpper,UInt8.le_iff_toNat_le,← UInt8.toNat_inj,or_assoc]

theorem isWordByte_iff (b : UInt8) : isWordByte b ↔ isWordStart b ∨
    (48 ≤ b.toNat ∧ b.toNat ≤ 57) := by
  simp [isWordByte,isWordStart,isDigit,UInt8.le_iff_toNat_le]
  tauto

theorem isWordStart_lowerAscii {b : UInt8} (h : isWordStart b) : isWordStart (lowerAscii b) := by
  rw [isWordStart_iff,lowerAscii_toNat]
  rw [isWordStart_iff] at h
  split <;> omega

theorem isWordByte_lowerAscii {b : UInt8} (h : isWordByte b) : isWordByte (lowerAscii b) := by
  rw [isWordByte_iff,isWordStart_iff,lowerAscii_toNat]
  rw [isWordByte_iff,isWordStart_iff] at h
  split <;> omega

theorem lowerAscii_lowerAscii (b : UInt8) : lowerAscii (lowerAscii b) = lowerAscii b := by
  rw [← UInt8.toNat_inj,lowerAscii_toNat,lowerAscii_toNat]
  grind

theorem isName_of_word {b : UInt8} {tail : List UInt8} (hb : isWordStart b)
    (htail : ∀ c ∈ tail, isWordByte c)
    (h : keywordType ((b::tail).map lowerAscii) = .identifier) :
    IsName ((b::tail).map lowerAscii) where
  start := by simpa using isWordStart_lowerAscii hb
  bytes := by
    have hall : ∀ d ∈ b::tail, isWordByte (lowerAscii d) := List.forall_mem_cons.mpr
      ⟨isWordByte_lowerAscii (isWordByte_of_start hb),fun d hd => isWordByte_lowerAscii (htail d hd)⟩
    simpa using hall
  lower := by simp [lowerAscii_lowerAscii,Function.comp_def]
  keyword := h

theorem isOperatorType_word (word : List UInt8) : ¬isOperatorType (keywordType word) :=
  forall_keywordType (P := fun type => ¬isOperatorType type) (by decide) (by decide) word

theorem lexical_of_chunk {used rest : List UInt8} {l : Lexeme} (h : Chunk used rest (some l)) :
    Lexical l := by
  cases h with
  | word hb htail => exact ⟨isName_of_word hb htail,fun h => absurd h (isOperatorType_word _)⟩
  | number => exact ⟨by simp,fun h => absurd h (by simp [isOperatorType,isComparisonType,
      isAdditiveType,isMultiplicativeType])⟩
  | string => exact ⟨by simp,fun h => absurd h (by simp [isOperatorType,isComparisonType,
      isAdditiveType,isMultiplicativeType])⟩
  | @pair b type rest hb =>
    obtain ⟨hname,hop⟩ := forall_of_lookup (P := fun b type => type ≠ .identifier ∧
      (isOperatorType type → (type,[b,61]) ∈ operatorLexemes)) (by decide) hb
    exact ⟨fun h => absurd h hname,hop⟩
  | unequal => exact ⟨by simp,fun _ => by decide⟩
  | @punctuation b type rest hb hrest =>
    obtain ⟨hname,hop⟩ := forall_of_lookup (P := fun b type => type ≠ .identifier ∧
      (isOperatorType type → (type,[b]) ∈ operatorLexemes)) (by decide) hb
    exact ⟨fun h => absurd h hname,hop⟩

/-- The lexeme of a token. -/
def lexemeOf (t : Token) : Lexeme := (t.type,t.lexeme)

/-- The lexemes of the tokens are those of the chunks, and that of EOF. -/
theorem tokensOf_lexemes (place : Place) (pieces : Pieces) :
    (tokensOf place pieces).map lexemeOf = pieces.filterMap Prod.snd ++ [(.endOfFile,[])] := by
  induction pieces generalizing place with
  | nil => rfl
  | cons piece pieces ih =>
    obtain ⟨used,what⟩ := piece
    cases what with
    | none => simpa [tokensOf] using ih (place.after used)
    | some l => simpa [tokensOf,lexemeOf,makeToken] using ih (place.after used)

theorem Splits.lexical {sql : List UInt8} {pieces : Pieces} (h : Splits sql pieces) :
    ∀ l ∈ pieces.filterMap Prod.snd, Lexical l := by
  induction h with
  | nil => simp
  | @cons used rest what pieces hchunk hrest ih =>
    cases what with
    | none => simpa using ih
    | some l => exact List.forall_mem_cons.mpr ⟨lexical_of_chunk hchunk,ih⟩

theorem lexical_of_tokenize {fuel : ℕ} {sql : List UInt8} {tokens : List Token}
    (h : tokenize fuel sql = some (.ok tokens)) : ∀ t ∈ tokens, Lexical (lexemeOf t) := by
  obtain ⟨pieces,hsplits,rfl⟩ := splits_of_tokenizeFrom h
  intro t ht
  have hmem : lexemeOf t ∈ pieces.filterMap Prod.snd ++ [(.endOfFile,[])] :=
    tokensOf_lexemes {} pieces ▸ List.mem_map_of_mem ht
  rcases List.mem_append.mp hmem with hmem | hmem
  · exact hsplits.lexical _ hmem
  · rw [List.mem_singleton.mp hmem]
    exact ⟨by simp,fun h => absurd h (by decide)⟩

/-! ### The productions keep the shape -/

theorem productions_printable :
    Productions fun used e => (∀ t ∈ used, Lexical (lexemeOf t)) → Printable e where
  null _ _ := .null
  bool _ _ := .bool _
  string _ _ := .string _
  integer _ _ _ := .int _
  column h hall := .column ((hall _ (by simp)).name (type_of_hasType h))
  qualified ht _ hc hall := .qualified ((hall _ (by simp)).name (type_of_hasType ht))
    ((hall _ (by simp)).name (type_of_hasType hc))
  star _ _ _ _ _ _ := .star _
  aggregate _ _ _ h _ hall := .aggregate _ (h fun t ht => hall t (by simp [ht]))
  paren _ h _ hall := h fun t ht => hall t (by simp [ht])
  minus _ h hall := .minus (h fun t ht => hall t (by simp [ht]))
  not _ h hall := .not (h fun t ht => hall t (by simp [ht]))
  operator h ht hright hall := .operator ((hall _ (by simp)).operator ht)
    (h fun t ht => hall t (by simp [ht])) (hright fun t ht => hall t (by simp [ht]))
  logical h hop _ hright hall := .logical hop (h fun t ht => hall t (by simp [ht]))
    (hright fun t ht => hall t (by simp [ht]))
  isNull h _ _ _ hall := .isNull (h fun t ht => hall t (by simp [ht])) _
  between h _ _ hlow _ hhigh hall := .between (h fun t ht => hall t (by simp [ht]))
    (hlow fun t ht => hall t (by simp [ht])) (hhigh fun t ht => hall t (by simp [ht])) _
  inList h _ _ _ hoptions _ hall := by
    refine .inList (h fun t ht => hall t (by simp [ht])) hoptions.ne_nil (fun option hoption => ?_) _
    obtain ⟨part,hpart,hk⟩ := hoptions.parts option hoption
    exact hk fun t ht => hall t (by simp [hpart ht])
  like h _ _ hright hall := .like _ (h fun t ht => hall t (by simp [ht]))
    (hright fun t ht => hall t (by simp [ht]))
  existence _ _ := .subquery _ _ _ _
  scalar _ _ := .subquery _ _ _ _
  membership _ _ _ := .subquery _ _ _ _

/-! ### Folding keeps the shape -/

theorem printable_makeInt (n : Int64) : Printable (makeInt n) := .int n

theorem printable_foldBinary {op : String} {left right : Expr}
    (h : Printable (.binary op left right)) : Printable (foldBinary op left right) := by
  unfold foldBinary
  dsimp only
  split
  · exact printable_makeInt _
  split
  · exact .bool _
  split
  · exact .bool _
  · exact h

theorem printable_foldUnary {op : String} {operand : Expr} (h : Printable (.unary op operand)) :
    Printable (foldUnary op operand) := by
  unfold foldUnary
  split
  · exact printable_makeInt _
  split
  · exact .bool _
  · exact h

theorem foldOptions_eq_map (options : List Expr) :
    foldOptions options = options.map foldCompileExpr := by
  induction options with
  | nil => rw [foldOptions,List.map_nil]
  | cons option options ih => rw [foldOptions,ih,List.map_cons]

theorem Printable.fold {e : Expr} (h : Printable e) : Printable (foldCompileExpr e) := by
  induction h with
  | null => simpa [makeLiteralExpr,foldCompileExpr] using Printable.null
  | bool b => simpa [makeBool,foldCompileExpr] using Printable.bool b
  | string value => simpa [makeLiteralExpr,foldCompileExpr] using Printable.string value
  | int n => simpa [makeLiteralExpr,foldCompileExpr] using Printable.int n
  | column h => simpa [foldCompileExpr] using Printable.column h
  | qualified ht hc => simpa [foldCompileExpr] using Printable.qualified ht hc
  | star kind => simpa [foldCompileExpr] using Printable.star kind
  | aggregate kind h ih =>
    rw [foldCompileExpr]
    split
    · exact .aggregate kind h
    · exact .aggregate kind ih
  | minus h ih =>
    rw [foldCompileExpr]
    exact printable_foldUnary (.minus ih)
  | not h ih =>
    rw [foldCompileExpr]
    exact printable_foldUnary (.not ih)
  | operator hl h hright ih ihright =>
    rw [foldCompileExpr]
    exact printable_foldBinary (.operator hl ih ihright)
  | logical hop h hright ih ihright =>
    rw [foldCompileExpr]
    exact printable_foldBinary (.logical hop ih ihright)
  | like negated h hright ih ihright =>
    rw [foldCompileExpr]
    exact printable_foldBinary (.like negated ih ihright)
  | isNull h negated ih =>
    rw [foldCompileExpr,foldIsNull]
    split
    · exact .bool _
    · exact .isNull ih negated
  | between h hlower hupper negated ih ihlower ihupper =>
    rw [foldCompileExpr,foldBetween]
    split
    · exact .bool _
    · exact .between ih ihlower ihupper negated
  | inList h hne hoptions negated ih ihoptions =>
    rw [foldCompileExpr,foldIn,foldOptions_eq_map]
    split
    · exact .bool _
    · refine .inList ih (by simpa using hne) (fun option hoption => ?_) negated
      obtain ⟨option',hmem,rfl⟩ := List.mem_map.mp hoption
      exact ihoptions option' hmem
  | subquery kind query operand negated =>
    simpa [foldCompileExpr] using Printable.subquery kind query operand negated

/-! ### What the parser builds -/

/-- Every expression the parser reads, wherever it starts to read, has the shape. -/
theorem printable_of_parse {fuel fuel' i j : ℕ} {sql : List UInt8} {tokens : List Token} {e : Expr}
    (htokens : tokenize fuel sql = some (.ok tokens))
    (h : parseCompileExpr (grammar fuel') tokens i = .ok e j) : Printable e := by
  have hyields := yields_parseCompileExpr productions_printable
    (sound_grammar productions_printable fuel')
  obtain ⟨used,hdrop,-,hk⟩ := hyields tokens i e j h
  refine hk fun t ht => lexical_of_tokenize htokens t (List.mem_of_mem_drop (i := i) ?_)
  rw [hdrop]
  exact List.mem_append_left _ ht

/-- Every expression a parsed statement keeps has the shape. -/
theorem printable_of_statement {fuel j : ℕ} {sql : List UInt8} {statements : List Statement}
    (h : parse fuel sql = .ok statements j) {s : Statement} (hs : s ∈ statements) {e : Expr}
    (he : e ∈ s.trees) : e = .nullptr ∨ Printable e := by
  unfold parse at h
  rcases htokens : tokenize fuel sql with - | (error | tokens)
  · simp [htokens] at h
  · simp [htokens] at h
  · simp only [htokens] at h
    have hstands := answers_parseStatements productions_printable
      (sound_grammar productions_printable fuel) 0 statements j h s hs e he
    rcases hstands with rfl | ⟨used,e',hused,hk,hfold⟩
    · exact .inl rfl
    · have hshape := hk fun t ht => lexical_of_tokenize htokens t (hused ht)
      rcases hfold with rfl | rfl
      · exact .inr hshape
      · exact .inr hshape.fold

end Parser
end OurSql
