import OurSql.Parser.Adjacent
import OurSql.Parser.Agree
import OurSql.Parser.Spans

/-! Blanks around a binary operator. Without them the lexer hands on the same lexemes, so the parser
reads the same tree, unless a minus sign is joined to the digits of the next operand. -/
namespace OurSql
namespace Parser

/-- The text without what stands between an operand, an operator and the token behind it. -/
def closeUp (sql : List UInt8) (x o y : Token) : List UInt8 :=
  sql.take x.endOffset ++ (slice sql o.startOffset o.endOffset ++ sql.drop y.startOffset)

/-- The operator and the byte behind it open a comment. -/
def OpensComment (o : Token) (rest : List UInt8) : Prop :=
  (o.type = .minus ∧ rest.head? = some 45) ∨ (o.type = .slash ∧ rest.head? = some 42)

def textOf (pieces : Pieces) : List UInt8 := pieces.flatMap Prod.fst

def lexemesOf (pieces : Pieces) : List Lexeme := pieces.filterMap Prod.snd

/-! ### The chunk of an operand or an operator -/

/-- A binary operator of arithmetic. -/
def isArithmetic (type : TokenType) : Bool := isAdditiveType type || isMultiplicativeType type

theorem isOperatorType_of_arithmetic {type : TokenType} (h : isArithmetic type) :
    isOperatorType type := by
  simp only [isArithmetic,Bool.or_eq_true] at h
  simp only [isOperatorType,Bool.or_eq_true]
  tauto

variable {used rest : List UInt8} {what : Option Lexeme} {l : Lexeme}

theorem arithmetic_of_chunk (h : Chunk used rest (some l)) (hop : isArithmetic l.1) :
    ∃ b, used = [b] ∧ l.2 = [b] ∧ punctuations.lookup b = some l.1 := by
  cases h with
  | word => exact absurd (isOperatorType_of_arithmetic hop) (isOperatorType_word _)
  | number => exact absurd hop (by simp [isArithmetic,isAdditiveType,isMultiplicativeType])
  | string => exact absurd hop (by simp [isArithmetic,isAdditiveType,isMultiplicativeType])
  | pair _ hb =>
    exact absurd hop (forall_of_lookup (P := fun _ type => ¬isArithmetic type) (by decide) hb)
  | unequal => exact absurd hop (by simp [isArithmetic,isAdditiveType,isMultiplicativeType])
  | punctuation hb => exact ⟨_,rfl,rfl,hb⟩

/-- What the table of operators says of an arithmetic one. -/
structure IsArithmetic (b : UInt8) (type : TokenType) : Prop where
  joins : pairs.lookup b = none ∧ b ≠ 60
  minus : b = 45 ↔ type = .minus
  slash : b = 47 ↔ type = .slash
  bounds : ¬isWordByte b ∧ b ≠ 46 ∧ b ≠ 39

theorem isArithmetic_of_lookup {b : UInt8} {type : TokenType}
    (h : punctuations.lookup b = some type) (hop : isArithmetic type) : IsArithmetic b type := by
  have hall : ∀ p ∈ punctuations, isArithmetic p.2 → (pairs.lookup p.1 = none ∧ p.1 ≠ 60) ∧
      (p.1 = 45 ↔ p.2 = .minus) ∧ (p.1 = 47 ↔ p.2 = .slash) ∧
      ¬isWordByte p.1 ∧ p.1 ≠ 46 ∧ p.1 ≠ 39 := by decide
  obtain ⟨hjoins,hminus,hslash,hbounds⟩ := forall_of_lookup (P := fun b type => isArithmetic type →
    (pairs.lookup b = none ∧ b ≠ 60) ∧ (b = 45 ↔ type = .minus) ∧ (b = 47 ↔ type = .slash) ∧
      ¬isWordByte b ∧ b ≠ 46 ∧ b ≠ 39) hall h hop
  exact ⟨hjoins,hminus,hslash,hbounds⟩

/-- An arithmetic operator is by itself, or opens a comment or a negative number. -/
theorem IsArithmetic.joins_iff {b : UInt8} {type : TokenType} (h : IsArithmetic b type) :
    Joins b rest ↔ (type = .minus ∧ (rest.head? = some 45 ∨ rest.head?.any isDigit)) ∨
      (type = .slash ∧ rest.head? = some 42) := by
  simp [Joins,h.joins,h.minus,h.slash]

/-- Behind the last token of an operand an operator may follow at once. -/
theorem Chunk.followed (h : Chunk used rest (some l)) (hend : isOperandEnd l.1) {b : UInt8}
    (hb : ¬isWordByte b ∧ b ≠ 46 ∧ b ≠ 39) (rest' : List UInt8) :
    Chunk used (b::rest') (some l) := by
  cases h with
  | word hstart htail => exact .word hstart htail (by simpa using hb.1)
  | number hsign hd hdigits =>
    refine .number hsign hd hdigits ?_ (by simp [hb.2.1])
    intro c hc hdigit
    obtain rfl : b = c := by simpa using hc
    exact hb.1 (by simp [isWordByte,hdigit])
  | string hraw => exact .string hraw (by simpa using hb.2.2)
  | pair _ hp => exact .pair _ hp
  | unequal => exact .unequal _
  | punctuation hp =>
    refine .punctuation hp ?_
    have hall := forall_of_lookup (P := fun b type => isOperandEnd type →
      pairs.lookup b = none ∧ b ≠ 60 ∧ b ≠ 45 ∧ b ≠ 47) (by decide) hp hend
    simp [Joins,hall]

theorem Chunk.ne_dot (h : Chunk used rest (some l)) (hend : isOperandEnd l.1) : used ≠ [46] := by
  intro hdot
  cases h with
  | word hb => 
    obtain ⟨rfl,-⟩ := List.cons.inj hdot
    exact absurd hb (by decide)
  | number hsign hd =>
    rcases hsign with rfl | rfl
    · obtain ⟨rfl,-⟩ := List.cons.inj hdot
      exact absurd hd (by decide)
    · simp at hdot
  | string => simp at hdot
  | pair => simp at hdot
  | unequal => simp at hdot
  | punctuation hp =>
    obtain ⟨rfl,-⟩ := List.cons.inj hdot
    have htype : punctuations.lookup 46 = some .dot := by decide
    obtain rfl := Option.some.inj (htype.symm.trans hp)
    exact absurd hend (by decide)

/-- A number without a sign joins a minus sign in front of it. -/
theorem number_of_digit (h : Chunk used rest (some l)) (hd : used.head?.any isDigit) :
    l.1 = .integer ∧ Chunk (45::used) rest (some (.integer,45::used)) := by
  cases h with
  | word hb => exact absurd hb (not_space_of_digit (by simpa using hd)).2
  | number hsign hdigit hdigits hrest hpoint =>
    rcases hsign with rfl | rfl
    · exact ⟨rfl,.number (.inr rfl) hdigit hdigits hrest hpoint⟩
    · exact absurd (show isDigit 45 from by simpa using hd) (by decide)
  | string => exact absurd (show isDigit 39 from by simpa using hd) (by decide)
  | pair _ hp =>
    exact absurd hd (forall_of_lookup (P := fun b _ => ¬isDigit b) (by decide) hp)
  | unequal => exact absurd hd (by decide)
  | punctuation hp =>
    exact absurd hd (forall_of_lookup (P := fun b _ => ¬isDigit b) (by decide) hp)

/-- A chunk depends on no more than the two bytes behind it. -/
theorem Chunk.context {text text' : List UInt8} (h : Chunk used (rest ++ text) what)
    (hne : rest ≠ []) (hdot : rest ≠ [46]) : Chunk used (rest ++ text') what := by
  obtain ⟨b,tail,rfl⟩ := List.exists_cons_of_ne_nil hne
  have hhead : ∀ t : List UInt8, (b::tail ++ t).head? = some b := fun _ => rfl
  cases h with
  | space _ hb => exact .space _ hb
  | line hbody hrest => exact .line hbody (by simpa using hrest)
  | block _ hbody => exact .block _ hbody
  | word hb htail hrest => exact .word hb htail (by simpa using hrest)
  | number hsign hd hdigits hrest hpoint =>
    refine .number hsign hd hdigits (by simpa using hrest) ?_
    cases tail with
    | nil =>
      rintro ⟨hb,-⟩
      exact hdot (by simpa using hb)
    | cons c tail => simpa using hpoint
  | string hraw hrest => exact .string hraw (by simpa using hrest)
  | pair _ hb => exact .pair _ hb
  | unequal => exact .unequal _
  | punctuation hb hrest => exact .punctuation hb (by simpa [Joins] using hrest)

/-! ### Chunks and tokens side by side -/

@[simp] theorem textOf_append (pieces pieces' : Pieces) :
    textOf (pieces ++ pieces') = textOf pieces ++ textOf pieces' := List.flatMap_append

@[simp] theorem textOf_cons (piece : List UInt8 × Option Lexeme) (pieces : Pieces) :
    textOf (piece::pieces) = piece.1 ++ textOf pieces := rfl

theorem Splits.text {sql : List UInt8} {pieces : Pieces} (h : Splits sql pieces) :
    sql = textOf pieces := by
  induction h with
  | nil => rfl
  | cons _ _ ih => rw [textOf_cons,← ih]

theorem Splits.behind {sql : List UInt8} {before after : Pieces}
    (h : Splits sql (before ++ after)) : Splits (textOf after) after := by
  induction before generalizing sql with
  | nil => exact h.text ▸ h
  | cons piece before ih =>
    cases h with
    | cons hchunk hrest => exact ih hrest

theorem Splits.tail {sql : List UInt8} {piece : List UInt8 × Option Lexeme} {pieces : Pieces}
    (h : Splits sql (piece::pieces)) : Splits (textOf pieces) pieces :=
  Splits.behind (show Splits sql ([piece] ++ pieces) from h)

theorem Splits.chunk {sql : List UInt8} {after : Pieces} (h : Splits sql ((used,what)::after)) :
    Chunk used (textOf after) what := by
  cases h with
  | cons hchunk hrest => rwa [← hrest.text]

/-- What stands behind a lexeme other than a dot may change when the lexeme does not. -/
theorem Splits.change {sql : List UInt8} {before after after' : Pieces}
    (h : Splits sql (before ++ (used,what)::after)) (hchunk : Chunk used (textOf after') what)
    (hdot : used ≠ [46]) (hafter : Splits (textOf after') after') :
    Splits (textOf (before ++ (used,what)::after')) (before ++ (used,what)::after') := by
  induction before generalizing sql with
  | nil => exact .cons hchunk hafter
  | cons piece before ih =>
    cases h with
    | @cons first rest what' _ hfirst hrest =>
      have hrest : Splits rest (before ++ (used,what)::after) := hrest
      have hne : textOf before ++ used ≠ [] := by simp [hchunk.ne_nil]
      have hdot' : textOf before ++ used ≠ [46] := fun heq => by
        rcases List.append_eq_singleton_iff.mp heq with ⟨-,hused⟩ | ⟨-,hused⟩
        · exact hdot hused
        · exact hchunk.ne_nil hused
      rw [hrest.text,textOf_append,textOf_cons,← List.append_assoc] at hfirst
      have hchange : Chunk first (textOf (before ++ (used,what)::after')) what' := by
        rw [textOf_append,textOf_cons,← List.append_assoc]
        exact hfirst.context hne hdot'
      exact .cons hchange (ih hrest)

/-- The chunks in front of a token, none of them another lexeme's. -/
theorem pieces_of_token {pieces : Pieces} {place : Place} {k : ℕ} {t : Token}
    (h : (tokensOf place pieces)[k]? = some t) : ∃ before after, pieces = before ++ after ∧
      (lexemesOf before).length = k ∧ t.startOffset = (place.after (textOf before)).offset ∧
      (tokensOf place pieces).drop k = tokensOf (place.after (textOf before)) after ∧
      ((after = [] ∧ t.type = .endOfFile) ∨ ∃ used l rest, after = (used,some l)::rest ∧
        t = makeToken l.1 (place.after (textOf before))
          (place.after (textOf before ++ used)) l.2) := by
  induction pieces generalizing place k with
  | nil =>
    cases k with
    | zero =>
      obtain rfl := Option.some.inj h
      exact ⟨[],[],rfl,rfl,rfl,rfl,.inl ⟨rfl,rfl⟩⟩
    | succ k => simp [tokensOf] at h
  | cons piece pieces ih =>
    obtain ⟨used,what⟩ := piece
    cases what with
    | none =>
      obtain ⟨before,after,rfl,hk,hstart,hdrop,hafter⟩ := ih h
      simp only [← Place.after_append] at hstart hdrop hafter
      refine ⟨(used,none)::before,after,rfl,hk,hstart,hdrop,?_⟩
      simpa using hafter
    | some l =>
      cases k with
      | zero =>
        obtain rfl := Option.some.inj h
        exact ⟨[],_,rfl,rfl,rfl,rfl,.inr ⟨used,l,pieces,rfl,rfl⟩⟩
      | succ k =>
        obtain ⟨before,after,rfl,hk,hstart,hdrop,hafter⟩ := ih h
        simp only [← Place.after_append] at hstart hdrop hafter
        refine ⟨(used,some l)::before,after,rfl,by simpa [lexemesOf] using hk,hstart,hdrop,?_⟩
        simpa using hafter

/-- An operand, an operator and what follows it, with the chunks in the gaps between them. -/
structure Parts (sql : List UInt8) (tokens : List Token) (k : ℕ) (x o y : Token) (before : Pieces)
    (used : List UInt8) (gap : Pieces) (b : UInt8) (gap' after : Pieces) : Prop where
  splits : Splits sql (before ++ (used,some (lexemeOf x))::(gap ++ ([b],some (o.type,[b]))::
    (gap' ++ after)))
  tokens : tokens = tokensOf {} (before ++ (used,some (lexemeOf x))::(gap ++
    ([b],some (o.type,[b]))::(gap' ++ after)))
  count : (lexemesOf before).length = k
  gap : lexemesOf gap = []
  gap' : lexemesOf gap' = []
  lookup : punctuations.lookup b = some o.type
  closed : closeUp sql x o y = textOf before ++ (used ++ b::textOf after)
  rest : sql.drop y.startOffset = textOf after
  last : (after = [] ∧ y.type = .endOfFile) ∨ ∃ v rest, after = (v,some (lexemeOf y))::rest

theorem getElem?_behind {place place' : Place} {pieces rest : Pieces} {k : ℕ}
    (h : (tokensOf place pieces).drop k = tokensOf place' ((used,some l)::rest)) (m : ℕ) :
    (tokensOf place pieces)[k+1+m]? = (tokensOf (place'.after used) rest)[m]? := by
  have hget : (tokensOf place pieces)[k+1+m]? = ((tokensOf place pieces).drop k)[m+1]? := by
    rw [List.getElem?_drop]
    congr 1
    omega
  rw [hget,h]
  rfl

theorem closeUp_eq {x o y : Token} {first gap word gap' : List UInt8} (rest : List UInt8)
    (hx : x.endOffset = first.length) (ho : o.startOffset = (first ++ gap).length)
    (hstop : o.endOffset = (first ++ gap).length + word.length)
    (hy : y.startOffset = (first ++ gap ++ word ++ gap').length) :
    (first ++ (gap ++ (word ++ (gap' ++ rest)))).drop y.startOffset = rest ∧
      closeUp (first ++ (gap ++ (word ++ (gap' ++ rest)))) x o y = first ++ (word ++ rest) := by
  have hrest : (first ++ (gap ++ (word ++ (gap' ++ rest)))).drop y.startOffset = rest := by
    simp only [hy,← List.append_assoc]
    exact List.drop_left
  have hslice : slice (first ++ (gap ++ (word ++ (gap' ++ rest)))) (first ++ gap).length
      ((first ++ gap).length + word.length) = word := by
    rw [← List.append_assoc,slice_of_split]
  rw [closeUp,hrest,hx,List.take_left,ho,hstop,hslice]
  exact ⟨rfl,rfl⟩

theorem parts_of_tokens {fuel k : ℕ} {sql : List UInt8} {tokens : List Token} {x o y : Token}
    (htokens : tokenize fuel sql = some (.ok tokens)) (hx : tokens[k]? = some x)
    (ho : tokens[k+1]? = some o) (hy : tokens[k+2]? = some y) (hend : isOperandEnd x.type)
    (hop : isArithmetic o.type) : ∃ before used gap b gap' after,
      Parts sql tokens k x o y before used gap b gap' after := by
  obtain ⟨pieces,hsplits,rfl⟩ := splits_of_tokenizeFrom htokens
  obtain ⟨before,behind,rfl,hcount,-,hdropx,hpiecex⟩ := pieces_of_token hx
  rcases hpiecex with ⟨-,heof⟩ | ⟨used,lx,behindx,rfl,rfl⟩
  · exact absurd hend (by rw [heof]; decide)
  rw [getElem?_behind hdropx 0] at ho
  rw [getElem?_behind hdropx 1] at hy
  obtain ⟨gap,behind,rfl,hgap,hstarto,hdropo,hpieceo⟩ := pieces_of_token ho
  rcases hpieceo with ⟨-,heof⟩ | ⟨usedo,⟨type,lexeme⟩,behindo,rfl,rfl⟩
  · exact absurd hop (by rw [heof]; decide)
  rw [getElem?_behind hdropo 0] at hy
  obtain ⟨gap',after,rfl,hgap',hstarty,-,hpiecey⟩ := pieces_of_token hy
  obtain ⟨b,rfl,rfl,hlookup⟩ := arithmetic_of_chunk hsplits.behind.tail.behind.chunk hop
  simp only [← Place.after_append] at hstarto hstarty
  have hoffset (w : List UInt8) : (({} : Place).after w).offset = w.length := by
    rw [Place.after_eq]
  have hstopo : (({} : Place).after (textOf before ++ used ++ (textOf gap ++ [b]))).offset =
      (textOf before ++ used ++ textOf gap).length + [b].length := by
    rw [hoffset,← List.append_assoc,List.length_append]
  rw [hoffset] at hstarto hstarty
  have hstopx : (makeToken lx.1 (({} : Place).after (textOf before))
      (({} : Place).after (textOf before ++ used)) lx.2).endOffset = (textOf before ++ used).length :=
    hoffset _
  obtain ⟨hrest,hclosed⟩ := closeUp_eq (textOf after) hstopx hstarto hstopo hstarty
  have htext : sql = textOf before ++ used ++ (textOf gap ++ ([b] ++ (textOf gap' ++
      textOf after))) := by
    simp [hsplits.text]
  rw [← htext] at hrest hclosed
  refine ⟨before,used,gap,b,gap',after,hsplits,rfl,hcount,List.length_eq_zero_iff.mp hgap,
    List.length_eq_zero_iff.mp hgap',hlookup,?_,hrest,?_⟩
  · simpa using hclosed
  · rcases hpiecey with hnil | ⟨v,ly,rest,rfl,rfl⟩
    · exact .inl hnil
    · exact .inr ⟨v,rest,rfl⟩

section

variable {sql : List UInt8} {tokens : List Token} {k : ℕ} {x o y : Token} {before : Pieces}
  {gap : Pieces} {b : UInt8} {gap' after after' : Pieces}
  (h : Parts sql tokens k x o y before used gap b gap' after)

include h

theorem Parts.splits_after : Splits (textOf after) after :=
  h.splits.behind.tail.behind.tail.behind

/-- The closed text, when the operator and what follows it are cut into other chunks. -/
theorem Parts.replace (hend : isOperandEnd x.type) (hop : isArithmetic o.type)
    (hafter : Splits (b::textOf after) after') :
    Splits (closeUp sql x o y) (before ++ (used,some (lexemeOf x))::after') := by
  have hchunk := h.splits.behind.chunk
  have hbounds := (isArithmetic_of_lookup h.lookup hop).bounds
  rw [h.closed,hafter.text,← textOf_cons (used,some (lexemeOf x)),← textOf_append]
  refine h.splits.change ?_ (hchunk.ne_dot hend) (hafter.text ▸ hafter)
  rw [← hafter.text]
  exact hchunk.followed hend hbounds _

/-- Where the operator stays by itself the lexemes are the same. -/
theorem Parts.same_lexemes (hend : isOperandEnd x.type) (hop : isArithmetic o.type)
    (hapart : ¬Joins b (textOf after)) : ∃ tokens',
      tokenize ((closeUp sql x o y).length + 1) (closeUp sql x o y) = some (.ok tokens') ∧
        tokens.map lexemeOf = tokens'.map lexemeOf := by
  have hsplits := h.replace hend hop (.cons (.punctuation h.lookup hapart) h.splits_after)
  refine ⟨_,tokenizeFrom_of_splits hsplits (Nat.lt_succ_self _) {},?_⟩
  rw [h.tokens,tokensOf_lexemes,tokensOf_lexemes]
  have hgap := h.gap
  have hgap' := h.gap'
  rw [lexemesOf] at hgap hgap'
  simp [hgap,hgap']

/-- Where a minus sign is joined to digits they are one lexeme of the closed text. -/
theorem Parts.joined_lexemes (hend : isOperandEnd x.type) (hminus : o.type = .minus)
    (hdigit : (textOf after).head?.any isDigit) : ∃ tokens' number later later',
      tokenize ((closeUp sql x o y).length + 1) (closeUp sql x o y) = some (.ok tokens') ∧
        tokens.map lexemeOf = lexemesOf before ++ lexemeOf x::(.minus,[b])::later ∧
        tokens'.map lexemeOf =
          lexemesOf before ++ lexemeOf x::(.integer,number)::later' := by
  have hop : isArithmetic o.type := by rw [hminus]; decide
  obtain rfl : b = 45 := (isArithmetic_of_lookup h.lookup hop).minus.mpr hminus
  rcases h.last with ⟨rfl,-⟩ | ⟨v,rest,rfl⟩
  · simp [textOf] at hdigit
  have hchunk := h.splits_after.chunk
  have hd : v.head?.any isDigit := by
    rwa [textOf_cons,List.head?_append_of_ne_nil _ hchunk.ne_nil] at hdigit
  obtain ⟨-,hjoined⟩ := number_of_digit hchunk hd
  have hsplits := h.replace hend hop (.cons hjoined h.splits_after.tail)
  refine ⟨_,45::v,lexemeOf y::(lexemesOf rest ++ [(.endOfFile,[])]),
    lexemesOf rest ++ [(.endOfFile,[])],
    tokenizeFrom_of_splits hsplits (Nat.lt_succ_self _) {},?_,?_⟩
  · have hgap := h.gap
    rw [lexemesOf] at hgap
    rw [h.tokens,tokensOf_lexemes]
    have hgap' := h.gap'
    rw [lexemesOf] at hgap'
    simp [hgap,hgap',hminus,lexemesOf]
  · rw [tokensOf_lexemes]
    simp [lexemesOf]

end

/-! ### The trees differ -/

/-- What is read between two positions is a prefix of the lexemes from the first on. -/
theorem prefix_of_drop {tokens used : List Token} {ls ls' : List Lexeme} {i j : ℕ}
    (hls : tokens.map lexemeOf = ls ++ ls') (hi : i ≤ ls.length)
    (hdrop : tokens.drop i = used ++ tokens.drop j) :
    used.map lexemeOf <+: ls.drop i ++ ls' := by
  rw [← List.drop_append_of_le_length hi,← hls,← List.map_drop,hdrop,List.map_append]
  exact List.prefix_append _ _

theorem not_selects_of_reads {tokens used : List Token} {i j : ℕ}
    (hdrop : tokens.drop i = used ++ tokens.drop j)
    (hselect : ∀ n t, i ≤ n → n < i + used.length → tokens[n]? = some t → t.type ≠ .select) :
    ¬Selects used := by
  rintro ⟨t,ht,hs⟩
  obtain ⟨n,hn,rfl⟩ := List.mem_iff_getElem.mp ht
  refine hselect (i + n) _ (Nat.le_add_right i n) (by omega) ?_ hs
  rw [← List.getElem?_drop,hdrop,List.getElem?_append_left hn,List.getElem?_eq_getElem hn]

theorem words_of_reads {tokens used : List Token} {i j : ℕ}
    (hdrop : tokens.drop i = used ++ tokens.drop j)
    (hlexical : ∀ t ∈ tokens, Lexical (lexemeOf t)) (hnone : ¬Selects used) : Words used := by
  intro t ht
  have hmem : t ∈ tokens := List.mem_of_mem_drop (hdrop ▸ List.mem_append_left _ ht)
  exact ⟨hlexical t hmem,fun hs => hnone ⟨t,ht,hs⟩⟩

/-- No expression goes on from an operand to an integer. -/
theorem stops_between {used : List Token} {ls later : List Lexeme} {number : List UInt8}
    (h : used.IsChain Adjacent) (hend : isOperandEnd l.1)
    (hhead : used.map lexemeOf <+: ls ++ l::(.integer,number)::later) :
    used.map lexemeOf <+: ls ++ [l] := by
  refine List.prefix_of_prefix_length_le hhead ?_ ?_
  · exact (List.prefix_append_right_inj _).mpr ⟨_,rfl⟩
  by_contra hlong
  have hpair : ls ++ [l,(.integer,number)] <+: used.map lexemeOf := by
    refine List.prefix_of_prefix_length_le ?_ hhead ?_
    · exact (List.prefix_append_right_inj _).mpr ⟨later,rfl⟩
    · simp at hlong ⊢
      omega
  obtain ⟨after,hafter⟩ := hpair
  have hbehind : used.map lexemeOf = ls ++ l::(.integer,number)::after := by
    rw [← hafter,List.append_assoc]
    rfl
  exact adjacent_of_chain h hbehind hend rfl

/-- With an integer right behind an operand the parser stops between them, where it has read fewer
minus signs than before an operator that stands there. -/
theorem trees_differ {fuel i j j' : ℕ} {tokens tokens' : List Token} {e e' : Expr}
    {ls later later' : List Lexeme} {l : Lexeme} {sign number : List UInt8}
    (hls : tokens.map lexemeOf = ls ++ l::(.minus,sign)::later)
    (hls' : tokens'.map lexemeOf = ls ++ l::(.integer,number)::later')
    (hend : isOperandEnd l.1) (hlexical : ∀ t ∈ tokens, Lexical (lexemeOf t))
    (hlexical' : ∀ t ∈ tokens', Lexical (lexemeOf t)) (hi : i ≤ ls.length) (hj : ls.length + 1 < j)
    (hselect : ∀ n t, i ≤ n → n < j → tokens[n]? = some t → t.type ≠ .select)
    (h : parseCompileExpr (grammar fuel) tokens i = .ok e j)
    (h' : parseCompileExpr (grammar fuel) tokens' i = .ok e' j') : e ≠ e' := by
  rintro rfl
  obtain ⟨used,hdrop,rfl,hselects,hspelt⟩ := reads_parseCompileExpr h
  obtain ⟨used',hdrop',-,hselects',hspelt'⟩ := reads_parseCompileExpr h'
  -- neither reads a subquery
  have hnone := not_selects_of_reads hdrop hselect
  have hnone' : ¬Selects used' := fun hs => hnone (hselects.mpr (hselects'.mp hs))
  have hspelt := hspelt (words_of_reads hdrop hlexical hnone)
  have hspelt' := hspelt' (words_of_reads hdrop' hlexical' hnone')
  have hcount := hspelt.minuses.trans hspelt'.minuses.symm
  rw [minusSigns_eq,minusSigns_eq] at hcount
  -- the first reads the minus sign, the second nothing behind the operand
  have hread : ls.drop i ++ [l,(.minus,sign)] <+: used.map lexemeOf := by
    refine List.prefix_of_prefix_length_le ?_ (prefix_of_drop hls hi hdrop) ?_
    · exact (List.prefix_append_right_inj _).mpr ⟨later,rfl⟩
    · simp
      omega
  have hstop := stops_between hspelt'.chain hend (prefix_of_drop hls' hi hdrop')
  have hle := hstop.countP_le (p := fun l => decide (l.1 = .minus))
  have hlt := hread.countP_le (p := fun l => decide (l.1 = .minus))
  simp only [List.countP_append,List.countP_cons,List.countP_nil,decide_true,if_true] at hle hlt
  omega

/-- Without the blanks around a binary operator the parser reads the same tree, unless the operator
is a minus sign and the next operand begins with a digit. -/
theorem parse_closeUp {fuel fuel' i j k : ℕ} {sql : List UInt8} {tokens : List Token}
    {x o y : Token} {e : Expr} (htokens : tokenize fuel' sql = some (.ok tokens))
    (hx : tokens[k]? = some x) (ho : tokens[k+1]? = some o) (hy : tokens[k+2]? = some y)
    (hend : isOperandEnd x.type) (hop : isArithmetic o.type)
    (hcomment : ¬OpensComment o (sql.drop y.startOffset))
    (hparse : parseCompileExpr (grammar fuel) tokens i = .ok e j) (hi : i ≤ k) (hj : k + 2 < j)
    (hselect : ∀ n t, i ≤ n → n < j → tokens[n]? = some t → t.type ≠ .select) :
    (∃ tokens' j', tokenize ((closeUp sql x o y).length + 1) (closeUp sql x o y) =
        some (.ok tokens') ∧ parseCompileExpr (grammar fuel) tokens' i = .ok e j') ↔
      ¬(o.type = .minus ∧ (sql.drop y.startOffset).head?.any isDigit) := by
  obtain ⟨before,used,gap,b,gap',after,h⟩ := parts_of_tokens htokens hx ho hy hend hop
  rw [h.rest] at hcomment ⊢
  constructor
  · rintro ⟨tokens',j',htokens',hparse'⟩ ⟨hminus,hdigit⟩
    obtain ⟨tokens₁,number,later,later',htokens₁,hls,hls'⟩ := h.joined_lexemes hend hminus hdigit
    obtain rfl : tokens₁ = tokens' := by
      rw [htokens₁] at htokens'
      exact Except.ok.inj (Option.some.inj htokens')
    have hcount := h.count
    exact trees_differ hls hls' hend (lexical_of_tokenize htokens) (lexical_of_tokenize htokens')
      (by omega) (by omega) hselect hparse hparse' rfl
  · intro hnumber
    have hapart : ¬Joins b (textOf after) := by
      rw [(isArithmetic_of_lookup h.lookup hop).joins_iff]
      rintro (⟨hminus,hhead | hdigit⟩ | hslash)
      · exact hcomment (.inl ⟨hminus,hhead⟩)
      · exact hnumber ⟨hminus,hdigit⟩
      · exact hcomment (.inr hslash)
    obtain ⟨tokens',htokens',hlexemes⟩ := h.same_lexemes hend hop hapart
    have halike : Alike tokens tokens' i j :=
      ⟨hlexemes,fun {n t} hin hnj ht => hselect n t hin hnj ht⟩
    have hagrees := agrees_parseCompileExpr halike (agreeing_grammar halike fuel) i e j hparse
    exact ⟨tokens',j,htokens',hagrees.2 le_rfl le_rfl⟩

/-- `1 + 1` is read like `1+1`. -/
theorem parse_closeUp_plus : ∃ tokens e, tokenize 6 [49,32,43,32,49] = some (.ok tokens) ∧
    parseCompileExpr (grammar 2) tokens 0 = .ok e 3 ∧
      ∃ tokens' j', tokenize 4 [49,43,49] = some (.ok tokens') ∧
        parseCompileExpr (grammar 2) tokens' 0 = .ok e j' := by
  obtain ⟨tokens,htokens,hlist⟩ : ∃ tokens, tokenize 6 [49,32,43,32,49] = some (.ok tokens) ∧
      tokens = [⟨.integer,[49],0,1,1,1,1,2⟩,⟨.plus,[43],2,3,1,3,1,4⟩,⟨.integer,[49],4,5,1,5,1,6⟩,
        ⟨.endOfFile,[],5,5,1,6,1,6⟩] := ⟨_,rfl,rfl⟩
  have hselect : ∀ t ∈ tokens, t.type ≠ .select := by
    rw [hlist]
    decide
  obtain ⟨e,hparse⟩ : ∃ e, parseCompileExpr (grammar 2) tokens 0 = .ok e 3 := by
    rw [hlist]
    exact ⟨_,rfl⟩
  subst hlist
  refine ⟨_,e,htokens,hparse,?_⟩
  exact (parse_closeUp htokens rfl rfl rfl (by decide) (by decide) (by simp [OpensComment]) hparse
    le_rfl (by decide) fun n t _ _ ht => hselect t (List.mem_of_getElem? ht)).mpr (by decide)

/-- `1 - 1` is a difference, and `1-1` is read as `1` in front of `-1`. -/
theorem closeUp_minus : ∃ tokens x o y e, tokenize 6 [49,32,45,32,49] = some (.ok tokens) ∧
    tokens[0]? = some x ∧ tokens[1]? = some o ∧ tokens[2]? = some y ∧ isOperandEnd x.type ∧
    isArithmetic o.type ∧ ¬OpensComment o ([49,32,45,32,49].drop y.startOffset) ∧
    parseCompileExpr (grammar 2) tokens 0 = .ok e 3 ∧ (∀ t ∈ tokens, t.type ≠ .select) ∧
    closeUp [49,32,45,32,49] x o y = [49,45,49] ∧
    ¬∃ tokens' j', tokenize 4 [49,45,49] = some (.ok tokens') ∧
      parseCompileExpr (grammar 2) tokens' 0 = .ok e j' := by
  refine ⟨[⟨.integer,[49],0,1,1,1,1,2⟩,⟨.minus,[45],2,3,1,3,1,4⟩,⟨.integer,[49],4,5,1,5,1,6⟩,
    ⟨.endOfFile,[],5,5,1,6,1,6⟩],_,_,_,.binary "-" (makeLiteralExpr (.int 1))
      (makeLiteralExpr (.int 1)),rfl,rfl,rfl,rfl,by decide,by decide,by simp [OpensComment],rfl,
    by decide,rfl,?_⟩
  rintro ⟨tokens',j',htokens',hparse'⟩
  have hlist : tokenize 4 [49,45,49] = some (.ok [⟨.integer,[49],0,1,1,1,1,2⟩,
    ⟨.integer,[45,49],1,3,1,2,1,4⟩,⟨.endOfFile,[],3,3,1,4,1,4⟩]) := rfl
  obtain rfl := Except.ok.inj (Option.some.inj (hlist.symm.trans htokens'))
  cases hparse'

end Parser
end OurSql
