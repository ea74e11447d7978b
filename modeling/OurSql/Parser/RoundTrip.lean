import OurSql.Parser.Reparse

/-! Printing and parsing an expression: the lexer cuts the printed text into the lexemes of the
tree, and the parser reads the tree back from them. -/
namespace OurSql
namespace Parser

open Expression

mutual

/-- Without subqueries, and without apostrophes in the strings. -/
def Plain : Expr → Prop
  | .nullptr => True
  | .column _ _ => True
  | .literal l => l.kind = .string → 39 ∉ l.text
  | .binary _ left right => Plain left ∧ Plain right
  | .unary _ operand => Plain operand
  | .isNull operand _ => Plain operand
  | .between operand lower upper _ => Plain operand ∧ Plain lower ∧ Plain upper
  | .inList operand options _ => Plain operand ∧ PlainOptions options
  | .subquery _ _ _ _ => False
  | .aggregate _ _ argument => Plain argument

def PlainOptions : List Expr → Prop
  | [] => True
  | option::options => Plain option ∧ PlainOptions options

end

theorem plainOptions_iff (options : List Expr) :
    PlainOptions options ↔ ∀ option ∈ options, Plain option := by
  induction options with
  | nil => simp [PlainOptions]
  | cons option options ih => rw [PlainOptions,ih,List.forall_mem_cons]

/-- The text is cut into lexemes from which the tree is read back. -/
def Prints (txt : List UInt8) (e : Expr) : Prop :=
  ∃ ls, Lexes Delimits txt ls ∧ Readable ls e

variable {txt txt' : List UInt8} {ls : List Lexeme} {e left right : Expr}

theorem Lexes.delimited (h : Always txt ls) : Lexes Delimits txt ls := h.mono fun _ _ => trivial

theorem prints_enclosed (h : Lexes Delimits txt ls) (hinner : Inner ls e) :
    Prints ([40] ++ (txt ++ [41])) e :=
  ⟨_,h.enclosed.delimited,hinner.enclosed⟩

/-! ### The words of the grammar -/

theorem isWord_bytes (word : String) (h : word ∈ ["is","not","null","between","and","or","in","like",
    "true","false","count","sum","avg","max","min"]) : IsWord (bytes word) := by
  have hall : ∀ word ∈ ["is","not","null","between","and","or","in","like","true","false","count",
      "sum","avg","max","min"], (bytes word).head?.any isWordStart ∧ (bytes word).all isWordByte ∧
      (bytes word).map lowerAscii = bytes word := by decide
  obtain ⟨h1,h2,h3⟩ := hall word h
  exact ⟨h1,h2,h3⟩

def notWords (negated : Bool) : List (List UInt8) := if negated then [bytes "not"] else []

theorem always_negated (negated : Bool) {word : String}
    (h : word ∈ ["between","in","like"]) :
    Always (wordsText (notWords negated ++ [bytes word]))
      (notLexemes negated ++ [(keywordType (bytes word),bytes word)]) := by
  have hwords : ∀ w ∈ notWords negated ++ [bytes word], IsWord w := by
    intro w hw
    have hword : IsWord (bytes word) := isWord_bytes word (by
      simp only [List.mem_cons,List.not_mem_nil,or_false] at h ⊢
      tauto)
    cases negated with
    | false =>
      obtain rfl : w = bytes word := by simpa [notWords] using hw
      exact hword
    | true =>
      rcases (by simpa [notWords] using hw : w = bytes "not" ∨ w = bytes word) with rfl | rfl
      · exact isWord_bytes _ (by decide)
      · exact hword
  have hlexes := always_words _ hwords
  have hnot : (notWords negated).map (fun w => (keywordType w,w)) = notLexemes negated := by
    cases negated <;> decide
  simpa [hnot] using hlexes

/-! ### One lemma for each form of an expression -/

theorem prints_minus (h : Prints txt e) :
    Prints ([40] ++ ([45,32] ++ txt ++ [41])) (.unary "-" e) := by
  obtain ⟨ls,hlexes,hread⟩ := h
  have hsign : Always ([45] ++ [32]) [(.minus,[45])] :=
    always_operator (l := (.minus,[45])) (by decide)
  exact prints_enclosed (hsign.append hlexes fun _ _ => trivial) (Inner.minus rfl hread)

theorem prints_not (h : Prints txt e) :
    Prints ([40] ++ (wordsText [bytes "not"] ++ txt ++ [41])) (.unary "not" e) := by
  obtain ⟨ls,hlexes,hread⟩ := h
  have hword : Always (wordsText [bytes "not"]) [(.not,bytes "not")] :=
    always_words [bytes "not"] (by simpa using isWord_bytes _ (by decide))
  exact prints_enclosed (hword.append hlexes fun _ _ => trivial) (Inner.not rfl hread)

theorem prints_operator {l : Lexeme} (hl : l ∈ operatorLexemes) (h : Prints txt left)
    (h' : Prints txt' right) :
    Prints ([40] ++ (txt ++ (32::(l.2 ++ [32]) ++ txt') ++ [41]))
      (.binary (text l.2) left right) := by
  obtain ⟨ls,hlexes,hread⟩ := h
  obtain ⟨ls',hlexes',hread'⟩ := h'
  have htype : isOperatorType l.1 := by
    have hall : ∀ l ∈ operatorLexemes, isOperatorType l.1 := by decide
    exact hall l hl
  exact prints_enclosed (hlexes.between (always_operator hl) hlexes')
    (Inner.operator htype hread hread')

theorem prints_logical {type : TokenType} {op : String} (hop : (type,op) ∈ wordOperators)
    (h : Prints txt left) (h' : Prints txt' right) :
    Prints ([40] ++ (txt ++ (32::wordsText [bytes op] ++ txt') ++ [41])) (.binary op left right) := by
  obtain ⟨ls,hlexes,hread⟩ := h
  obtain ⟨ls',hlexes',hread'⟩ := h'
  have hall : ∀ k ∈ wordOperators, keywordType (bytes k.2) = k.1 ∧ k.2 ∈ ["and","or"] := by decide
  obtain ⟨htype,hmem⟩ := hall (type,op) hop
  have hword : Always (wordsText [bytes op]) [(keywordType (bytes op),bytes op)] :=
    always_words [bytes op] (by
      simpa using isWord_bytes op (by
        simp only [List.mem_cons,List.not_mem_nil,or_false] at hmem ⊢
        tauto))
  exact prints_enclosed (hlexes.between hword hlexes')
    (Inner.logical (o := (keywordType (bytes op),bytes op)) (by rwa [htype]) hread hread')

theorem prints_isNull (h : Prints txt e) (negated : Bool) :
    Prints ([40] ++ (txt ++ (32::wordsText (bytes "is"::notWords negated) ++ bytes "null") ++ [41]))
      (.isNull e negated) := by
  obtain ⟨ls,hlexes,hread⟩ := h
  have hwords : ∀ w ∈ bytes "is"::notWords negated, IsWord w := by
    cases negated with
    | false => simpa [notWords] using isWord_bytes "is" (by decide)
    | true => simpa [notWords] using
        ⟨isWord_bytes "is" (by decide),isWord_bytes "not" (by decide)⟩
  have his := always_words _ hwords
  have hnull : Lexes Delimits (bytes "null") [(.null,bytes "null")] :=
    (lexes_word (isWord_bytes _ (by decide))).mono fun _ h => h.apart
  refine prints_enclosed (hlexes.between his hnull) ?_
  have hinner := Inner.isNull (o := (.is,bytes "is")) (n := (.null,bytes "null")) rfl rfl hread
    negated
  cases negated <;> exact hinner

theorem prints_between {low high : List UInt8} {lower upper : Expr} (h : Prints txt e)
    (hlow : Prints low lower) (hhigh : Prints high upper) (negated : Bool) :
    Prints ([40] ++ (txt ++ (32::wordsText (notWords negated ++ [bytes "between"]) ++
      (low ++ (32::wordsText [bytes "and"] ++ high))) ++ [41])) (.between e lower upper negated) := by
  obtain ⟨ls,hlexes,hread⟩ := h
  obtain ⟨ls1,hlexes1,hread1⟩ := hlow
  obtain ⟨ls2,hlexes2,hread2⟩ := hhigh
  have hand : Always (wordsText [bytes "and"]) [(.and,bytes "and")] :=
    always_words [bytes "and"] (by simpa using isWord_bytes "and" (by decide))
  refine prints_enclosed (hlexes.between (always_negated negated (by decide))
    (hlexes1.between hand hlexes2)) ?_
  rw [List.append_assoc (notLexemes negated)]
  exact Inner.between rfl rfl hread hread1 hread2 negated

theorem prints_like (h : Prints txt left) (h' : Prints txt' right) (negated : Bool) :
    Prints ([40] ++ (txt ++ (32::wordsText (notWords negated ++ [bytes "like"]) ++ txt') ++ [41]))
      (.binary (if negated then "not like" else "like") left right) := by
  obtain ⟨ls,hlexes,hread⟩ := h
  obtain ⟨ls',hlexes',hread'⟩ := h'
  refine prints_enclosed (hlexes.between (always_negated negated (by decide)) hlexes') ?_
  rw [List.append_assoc (notLexemes negated)]
  exact Inner.like rfl hread hread' negated

theorem always_comma : Always [44,32] [commaLexeme] :=
  (always_mark rfl rfl (by decide)).append always_space fun _ _ => trivial

theorem lexes_options {options : List Expr} (hne : options ≠ [])
    (h : ∀ option ∈ options, Prints (compileExprText option) option) :
    ∃ ls, Lexes Delimits (optionsText options) ls ∧ Options ls options := by
  induction options with
  | nil => exact absurd rfl hne
  | cons option options ih =>
    obtain ⟨ls,hlexes,hread⟩ := h option (by simp)
    cases options with
    | nil => exact ⟨ls,by rwa [optionsText],.one hread⟩
    | cons option' options =>
      obtain ⟨ls',hlexes',hread'⟩ := ih (by simp) fun o ho => h o (by simp [ho])
      refine ⟨ls ++ commaLexeme::ls',?_,.cons hread (by simp) hread'⟩
      have hrest := hlexes.append (always_comma.append hlexes' fun _ _ => trivial)
        fun rest _ b hb => ?_
      · have htext : optionsText (option::option'::options) =
            compileExprText option ++ ([44,32] ++ optionsText (option'::options)) := by
          rw [optionsText,List.append_assoc]
          · rfl
          · simp
        rw [htext]
        exact hrest
      · exact .inr (.inr (by simpa using hb.symm))

theorem prints_inList {options : List Expr} (h : Prints txt e) (hne : options ≠ [])
    (hoptions : ∀ option ∈ options, Prints (compileExprText option) option) (negated : Bool) :
    Prints ([40] ++ (txt ++ (32::wordsText (notWords negated ++ [bytes "in"]) ++
      ([40] ++ (optionsText options ++ [41]))) ++ [41])) (.inList e options negated) := by
  obtain ⟨ls,hlexes,hread⟩ := h
  obtain ⟨ls',hlexes',hread'⟩ := lexes_options hne hoptions
  refine prints_enclosed (hlexes.between (always_negated negated (by decide))
    hlexes'.enclosed.delimited) ?_
  rw [List.append_assoc (notLexemes negated)]
  exact Inner.inList rfl hread hread' negated

/-! ### Aggregates and atoms -/

theorem aggregate_name (kind : CompileAggregateKind) :
    keywordType (bytes (aggregateName kind)) = .identifier ∧
      aggregateKindFromName (text (bytes (aggregateName kind))) = some kind ∧
      IsWord (bytes (aggregateName kind)) := by
  have hword : IsWord (bytes (aggregateName kind)) := by
    cases kind <;> exact isWord_bytes _ (by decide)
  cases kind <;> exact ⟨by decide,by decide,hword⟩

theorem lexes_name (kind : CompileAggregateKind) : Always (bytes (aggregateName kind) ++ [40])
    [(.identifier,bytes (aggregateName kind)),openLexeme] := by
  obtain ⟨htype,-,hword⟩ := aggregate_name kind
  have hname := (lexes_word hword).append always_open fun rest _ b hb => ?_
  · rw [htype] at hname
    exact hname
  · obtain rfl : b = 40 := by simpa using hb.symm
    decide

theorem prints_star (kind : CompileAggregateKind) :
    Prints (bytes (aggregateName kind) ++ [40] ++ ([42] ++ [41]))
      (.aggregate kind true .nullptr) := by
  have hstar : Always [42] [(.star,[42])] := always_mark rfl rfl (by decide)
  have hlexes := (lexes_name kind).append
    (hstar.append always_close fun _ _ => trivial) fun _ _ => trivial
  exact ⟨_,hlexes.delimited,readable_star (aggregate_name kind).2.1 rfl⟩

theorem prints_aggregate (kind : CompileAggregateKind) (h : Prints txt e) :
    Prints (bytes (aggregateName kind) ++ [40] ++ (txt ++ [41])) (.aggregate kind false e) := by
  obtain ⟨ls,hlexes,hread⟩ := h
  have hargument := hlexes.append always_close fun rest _ b hb => ?_
  · have hall := (lexes_name kind).append hargument fun _ _ => trivial
    exact ⟨_,hall.delimited,hread.aggregate (aggregate_name kind).2.1⟩
  · exact .inr (.inl (by simpa using hb.symm))

theorem prints_qualified {w w' : List UInt8} (h : IsName w) (h' : IsName w') :
    Prints (w ++ ([46] ++ w')) (.column (text w) (text w')) := by
  have hdot : Always [46] [(.dot,[46])] := always_mark rfl rfl (by decide)
  have hword := lexes_word h.toIsWord
  have hword' := lexes_word h'.toIsWord
  rw [h.keyword] at hword
  rw [h'.keyword] at hword'
  have hall := hword.append (hdot.append hword' fun _ _ => trivial) fun rest _ b hb => ?_
  · exact ⟨_,hall.mono fun _ h => h.apart,readable_qualified w w' rfl⟩
  · obtain rfl : b = 46 := by simpa using hb.symm
    decide

/-! ### Every printable tree -/

theorem text_eq_empty {w : List UInt8} : text w = "" ↔ w = [] := by
  constructor
  · intro h
    have := congrArg bytes h
    rwa [bytes_text] at this
  · rintro rfl
    rfl

theorem IsName.text_ne {w : List UInt8} (h : IsName w) : text w ≠ "" := fun heq => by
  obtain rfl := text_eq_empty.mp heq
  exact absurd h.start (by simp)

theorem compileExprText_binary (op : String) (left right : Expr) :
    compileExprText (.binary op left right) =
      [40] ++ (compileExprText left ++ (32::(bytes op ++ [32]) ++ compileExprText right) ++ [41]) := by
  have hopen : bytes "(" = [40] := rfl
  have hclose : bytes ")" = [41] := rfl
  have hspace : bytes " " = [32] := rfl
  simp [compileExprText,bytes_append,hopen,hclose,hspace]

/-- Every tree of the parser's shape prints, if it is plain. -/
theorem Printable.prints (h : Printable e) (hplain : Plain e) : Prints (compileExprText e) e := by
  induction h with
  | null =>
    have hword : Lexes Apart (bytes "NULL") [(.null,bytes "null")] :=
      lexes_letters (by decide) (by decide)
    exact ⟨_,hword.mono fun _ h => h.apart,readable_null⟩
  | bool b =>
    cases b with
    | true =>
      have hword : Lexes Apart (bytes "true") [(.true,bytes "true")] :=
        lexes_word (isWord_bytes _ (by decide))
      exact ⟨_,hword.mono fun _ h => h.apart,readable_true⟩
    | false =>
      have hword : Lexes Apart (bytes "false") [(.false,bytes "false")] :=
        lexes_word (isWord_bytes _ (by decide))
      exact ⟨_,hword.mono fun _ h => h.apart,readable_false⟩
  | string value =>
    have hquote : 39 ∉ value := hplain rfl
    exact ⟨_,lexes_string hquote,readable_string value⟩
  | int n =>
    obtain ⟨w,htext,hread,hlexes⟩ := lexes_integer n
    have hint : compileExprText (makeLiteralExpr (.int n)) = w := htext
    rw [hint]
    exact ⟨_,hlexes,readable_integer hread⟩
  | @column w h =>
    have hword := lexes_word h.toIsWord
    rw [h.keyword] at hword
    rw [compileExprText,if_pos rfl,bytes_text]
    exact ⟨_,hword.mono fun _ h => h.apart,readable_column w⟩
  | @qualified t c ht hc =>
    have htext : compileExprText (.column (text t) (text c)) = t ++ ([46] ++ c) := by
      rw [compileExprText,if_neg ht.text_ne,bytes_append,bytes_append,bytes_text,bytes_text,
        List.append_assoc]
      rfl
    rw [htext]
    exact prints_qualified ht hc
  | star kind =>
    rw [compileExprText,bytes_append,if_pos rfl,List.append_assoc]
    exact prints_star kind
  | aggregate kind h ih =>
    rw [compileExprText,bytes_append,if_neg (by simp),List.append_assoc]
    exact prints_aggregate kind (ih hplain)
  | minus h ih =>
    rw [compileExprText,List.append_assoc]
    exact prints_minus (ih hplain)
  | not h ih =>
    rw [compileExprText,List.append_assoc]
    exact prints_not (ih hplain)
  | operator hl h hright ih ihright =>
    rw [compileExprText_binary,bytes_text]
    exact prints_operator hl (ih hplain.1) (ihright hplain.2)
  | @logical type op hop left right h hright ih ihright =>
    rw [compileExprText_binary]
    have hwords : wordsText [bytes op] = bytes op ++ [32] := by simp [wordsText]
    rw [← hwords]
    exact prints_logical hop (ih hplain.1) (ihright hplain.2)
  | @like negated left right h hright ih ihright =>
    rw [compileExprText_binary]
    have hwords : bytes (if negated then "not like" else "like") ++ [32] =
        wordsText (notWords negated ++ [bytes "like"]) := by cases negated <;> decide
    rw [hwords]
    exact prints_like (ih hplain.1) (ihright hplain.2) negated
  | @isNull operand h negated ih =>
    have htext : compileExprText (.isNull operand negated) = [40] ++ (compileExprText operand ++
        (32::wordsText (bytes "is"::notWords negated) ++ bytes "null") ++ [41]) := by
      have hwords : bytes (if negated then " is not null)" else " is null)") =
          32::wordsText (bytes "is"::notWords negated) ++ bytes "null" ++ [41] := by
        cases negated <;> decide
      rw [compileExprText,hwords]
      simp [show bytes "(" = [40] from rfl]
    rw [htext]
    exact prints_isNull (ih hplain) negated
  | @between operand lower upper h hlower hupper negated ih ihlower ihupper =>
    have htext : compileExprText (.between operand lower upper negated) =
        [40] ++ (compileExprText operand ++
          (32::wordsText (notWords negated ++ [bytes "between"]) ++ (compileExprText lower ++
            (32::wordsText [bytes "and"] ++ compileExprText upper))) ++ [41]) := by
      have hwords : bytes (if negated then " not between " else " between ") =
          32::wordsText (notWords negated ++ [bytes "between"]) := by
        cases negated <;> decide
      have hand : bytes " and " = 32::wordsText [bytes "and"] := by decide
      rw [compileExprText,hwords,hand]
      simp [show bytes "(" = [40] from rfl,show bytes ")" = [41] from rfl]
    rw [htext]
    exact prints_between (ih hplain.1) (ihlower hplain.2.1) (ihupper hplain.2.2) negated
  | @inList operand options h hne hoptions negated ih ihoptions =>
    have htext : compileExprText (.inList operand options negated) =
        [40] ++ (compileExprText operand ++
          (32::wordsText (notWords negated ++ [bytes "in"]) ++
            ([40] ++ (optionsText options ++ [41]))) ++ [41]) := by
      have hwords : bytes (if negated then " not in (" else " in (") =
          32::wordsText (notWords negated ++ [bytes "in"]) ++ [40] := by
        cases negated <;> decide
      rw [compileExprText,hwords]
      simp [show bytes "(" = [40] from rfl,show bytes "))" = [41,41] from rfl]
    rw [htext]
    have hall := (plainOptions_iff options).mp hplain.2
    exact prints_inList (ih hplain.1) hne (fun o ho => ihoptions o ho (hall o ho)) negated
  | subquery => exact hplain.elim

/-! ### The round trip -/

/-- What is printed is read back: the lexer accepts the text and the parser ends at EOF. -/
theorem Prints.reparse (h : Prints txt e) {fuel : ℕ} (hfuel : txt.length < fuel) :
    ∃ tokens eof, tokenize fuel txt = some (.ok (tokens ++ [eof])) ∧ eof.type = .endOfFile ∧
      parseCompileExpr (grammar fuel) (tokens ++ [eof]) 0 = .ok e tokens.length := by
  obtain ⟨ls,hlexes,hread⟩ := h
  obtain ⟨pieces,hsplits,rfl⟩ := hlexes [] [] (by simp [Delimits]) .nil
  simp only [List.append_nil] at hsplits
  have htokens := tokenizeFrom_of_splits hsplits hfuel {}
  rcases tokenizeFrom_total hfuel {} with ⟨error,herror⟩ | ⟨tokens,eof,hok,hcount,heof,-⟩
  · rw [herror] at htokens
    simp at htokens
  · have heq : tokens ++ [eof] = tokensOf {} pieces :=
      Except.ok.inj (Option.some.inj (hok.symm.trans htokens))
    have hlexemes := tokensOf_lexemes {} pieces
    rw [← heq,List.map_append] at hlexemes
    obtain ⟨hls,-⟩ := List.append_inj' hlexemes rfl
    have hlen : (pieces.filterMap Prod.snd).length = tokens.length := by
      rw [← hls,List.length_map]
    have hat : At (tokens ++ [eof]) 0 (pieces.filterMap Prod.snd) := by
      rw [At,List.drop_zero,List.map_append,hls]
      exact List.prefix_append _ _
    have hnext : NextIs (tokens ++ [eof]) (0 + (pieces.filterMap Prod.snd).length) endsLogical := by
      refine ⟨eof,?_,by rw [heof]; decide⟩
      rw [hlen]
      simp
    have hparse := hread.expr hat hnext (by omega : _ ≤ fuel)
    rw [hlen,Nat.zero_add] at hparse
    exact ⟨tokens,eof,hok,heof,hparse⟩

/-- An expression tree the parser can produce: it is read somewhere in a text, or a statement
keeps it. -/
def Produced (e : Expr) : Prop :=
  (∃ fuel sql tokens fuel' i j, tokenize fuel sql = some (.ok tokens) ∧
    parseCompileExpr (grammar fuel') tokens i = .ok e j) ∨
  ∃ fuel sql statements j, parse fuel sql = .ok statements j ∧
    ∃ s ∈ statements, e ∈ s.trees ∧ e ≠ .nullptr

theorem Produced.printable (h : Produced e) : Printable e := by
  rcases h with ⟨_,_,_,_,_,_,htokens,hparse⟩ | ⟨_,_,_,_,hparse,s,hs,he,hne⟩
  · exact printable_of_parse htokens hparse
  · exact (printable_of_statement hparse hs he).resolve_left hne

/-- Printing and parsing are inverse on the plain trees the parser produces. -/
theorem parse_print (h : Produced e) (hplain : Plain e) {fuel : ℕ}
    (hfuel : (compileExprText e).length < fuel) :
    ∃ tokens eof, tokenize fuel (compileExprText e) = some (.ok (tokens ++ [eof])) ∧
      eof.type = .endOfFile ∧
      parseCompileExpr (grammar fuel) (tokens ++ [eof]) 0 = .ok e tokens.length :=
  (h.printable.prints hplain).reparse hfuel

/-- `not a-b in (1)` is printed as `(not ((a - b) in (1)))`. -/
theorem parse_print_negated : ∃ e tokens eof,
    compileExprText e = bytes "(not ((a - b) in (1)))" ∧ Produced e ∧ Plain e ∧
    tokenize 23 (compileExprText e) = some (.ok (tokens ++ [eof])) ∧
    parseCompileExpr (grammar 23) (tokens ++ [eof]) 0 = .ok e tokens.length := by
  let e : Expr := .unary "not" (.inList (.binary "-" (.column "" "a") (.column "" "b"))
    [.literal {kind := .int,integer := 1}] false)
  have hproduced : Produced e :=
    .inl ⟨15,bytes "not a-b in (1)",
      [⟨.not,[110,111,116],0,3,1,1,1,4⟩,⟨.identifier,[97],4,5,1,5,1,6⟩,⟨.minus,[45],5,6,1,6,1,7⟩,
       ⟨.identifier,[98],6,7,1,7,1,8⟩,⟨.in_,[105,110],8,10,1,9,1,11⟩,
       ⟨.leftParen,[40],11,12,1,12,1,13⟩,⟨.integer,[49],12,13,1,13,1,14⟩,
       ⟨.rightParen,[41],13,14,1,14,1,15⟩,⟨.endOfFile,[],14,14,1,15,1,15⟩],
      4,0,8,by decide +kernel,rfl⟩
  have hplain : Plain e := by simp [e,Plain,PlainOptions]
  have htext : compileExprText e = bytes "(not ((a - b) in (1)))" := by decide +kernel
  have hfuel : (compileExprText e).length < 23 := by
    rw [htext]
    decide
  obtain ⟨tokens,eof,htokens,-,hparse⟩ := parse_print hproduced hplain hfuel
  exact ⟨e,tokens,eof,htext,hproduced,hplain,htokens,hparse⟩

end Parser
end OurSql
