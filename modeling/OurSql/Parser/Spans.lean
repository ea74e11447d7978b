import OurSql.Parser.Chunks

/-! Where the tokens are. Every token stands at the offsets, the line and the column it names,
only white space and comments stand between two, and each is read the same by itself. -/
namespace OurSql
namespace Parser

/-- White space and comments in front of the rest of the text. -/
inductive Blank : List UInt8 → List UInt8 → Prop
  | nil (rest : List UInt8) : Blank [] rest
  | skip {used gap rest : List UInt8} (h : Chunk used (gap ++ rest) none) (hgap : Blank gap rest) :
      Blank (used ++ gap) rest

def slice (sql : List UInt8) (start stop : ℕ) : List UInt8 := (sql.drop start).take (stop - start)

/-- Lines are numbered from one, and each ends with its line feed. -/
def lineAt (sql : List UInt8) (offset : ℕ) : ℕ := (sql.take offset).count 10 + 1

def columnAt (sql : List UInt8) (offset : ℕ) : ℕ :=
  ((sql.take offset).reverse.takeWhile (· != 10)).length + 1

/-- From an offset on there are only white space and comments between the tokens. -/
def Spaced (sql : List UInt8) : ℕ → List Token → Prop
  | _, [] => True
  | offset, t::tokens => offset ≤ t.startOffset ∧
      Blank (slice sql offset t.startOffset) (sql.drop t.startOffset) ∧
      Spaced sql t.endOffset tokens

structure Token.Exact (sql : List UInt8) (t : Token) : Prop where
  ordered : t.startOffset ≤ t.endOffset
  bound : t.endOffset ≤ sql.length
  nonempty : t.type ≠ .endOfFile → t.startOffset < t.endOffset
  line : t.line = lineAt sql t.startOffset
  column : t.column = columnAt sql t.startOffset
  endLine : t.endLine = lineAt sql t.endOffset
  endColumn : t.endColumn = columnAt sql t.endOffset
  alone : ∀ fuel > (slice sql t.startOffset t.endOffset).length, ∃ again eof,
    tokenize fuel (slice sql t.startOffset t.endOffset) = some (.ok (again ++ [eof])) ∧
      eof.type = .endOfFile ∧ again.map (fun u => (u.type,u.lexeme)) =
        if t.type = .endOfFile then [] else [(t.type,t.lexeme)]

theorem Place.after_eq (bytes : List UInt8) : ({} : Place).after bytes =
    ⟨bytes.length,bytes.count 10 + 1,(bytes.reverse.takeWhile (· != 10)).length + 1⟩ := by
  induction bytes using List.reverseRecOn with
  | nil => rfl
  | append_singleton bytes b ih =>
    rw [Place.after_append,ih,Place.after_cons,Place.after_nil,Place.advance]
    by_cases hb : b = 10
    · simp [hb]
    · simp [hb]

theorem place_of_prefix (before rest : List UInt8) : ({} : Place).after before =
    ⟨before.length,lineAt (before ++ rest) before.length,
      columnAt (before ++ rest) before.length⟩ := by
  rw [Place.after_eq,lineAt,columnAt,List.take_left]

theorem slice_of_split (before used rest : List UInt8) :
    slice (before ++ (used ++ rest)) before.length (before.length + used.length) = used := by
  rw [slice,List.drop_left,Nat.add_sub_cancel_left,List.take_left]

/-- A lexeme does not need what follows it. -/
theorem Chunk.alone {used rest : List UInt8} {l : Lexeme} (h : Chunk used rest (some l)) :
    Chunk used [] (some l) := by
  cases h with
  | word hb htail => exact .word hb htail (by simp)
  | number hsign hd hdigits => exact .number hsign hd hdigits (by simp) (by simp)
  | string hraw => exact .string hraw (by simp)
  | pair _ hb => exact .pair [] hb
  | unequal => exact .unequal []
  | punctuation hb => exact .punctuation hb (by simp [Joins])

theorem Chunk.ne_endOfFile {used rest : List UInt8} {l : Lexeme} (h : Chunk used rest (some l)) :
    l.1 ≠ .endOfFile := by
  cases h with
  | word => exact keywordType_ne_endOfFile _
  | number => simp
  | string => simp
  | pair _ hb => exact ne_endOfFile_of_lookup (by decide) hb
  | unequal => simp
  | punctuation hb => exact ne_endOfFile_of_lookup (by decide) hb

theorem tokenize_alone {used rest : List UInt8} {l : Lexeme} (h : Chunk used rest (some l))
    {fuel : ℕ} (hfuel : used.length < fuel) : tokenize fuel used =
      some (.ok [makeToken l.1 {} (({} : Place).after used) l.2,
        makeToken .endOfFile (({} : Place).after used) (({} : Place).after used) []]) := by
  have hsplits := Splits.cons h.alone .nil
  rw [List.append_nil] at hsplits
  exact tokenizeFrom_of_splits hsplits hfuel {}

/-- The token of a lexeme at its place in the text. -/
theorem exact_of_chunk {before used rest : List UInt8} {l : Lexeme}
    (h : Chunk used rest (some l)) :
    (makeToken l.1 (({} : Place).after before) (({} : Place).after (before ++ used)) l.2).Exact
      (before ++ (used ++ rest)) := by
  have hstart := place_of_prefix before (used ++ rest)
  have hstop := place_of_prefix (before ++ used) rest
  rw [List.append_assoc,List.length_append] at hstop
  have hpos := List.length_pos_iff.mpr h.ne_nil
  rw [hstart,hstop]
  refine ⟨by simp [makeToken],by simp [makeToken],fun _ => ?_,rfl,rfl,rfl,rfl,fun fuel hfuel => ?_⟩
  · simpa [makeToken] using hpos
  · simp only [makeToken,slice_of_split] at hfuel ⊢
    refine ⟨[_],_,tokenize_alone h hfuel,rfl,?_⟩
    simp [makeToken,h.ne_endOfFile]

theorem exact_endOfFile (sql : List UInt8) :
    (makeToken .endOfFile (({} : Place).after sql) (({} : Place).after sql) []).Exact sql := by
  have hplace := place_of_prefix sql []
  rw [List.append_nil] at hplace
  rw [hplace]
  refine ⟨by simp [makeToken],by simp [makeToken],by simp [makeToken],rfl,rfl,rfl,rfl,
    fun fuel hfuel => ?_⟩
  have hempty : slice sql sql.length sql.length = [] := by simp [slice]
  simp only [makeToken,hempty] at hfuel ⊢
  exact ⟨[],_,tokenizeFrom_of_splits .nil hfuel {},rfl,rfl⟩

/-- Skipping a chunk widens the gap in front of the next token. -/
theorem Spaced.skip {before used rest : List UInt8} (h : Chunk used rest none)
    {tokens : List Token} (hs : Spaced (before ++ (used ++ rest)) (before ++ used).length tokens) :
    Spaced (before ++ (used ++ rest)) before.length tokens := by
  cases tokens with
  | nil => trivial
  | cons t tokens =>
    obtain ⟨hle,hgap,htail⟩ := hs
    rw [List.length_append] at hle hgap
    refine ⟨by omega,?_,htail⟩
    have hdrop : (before ++ (used ++ rest)).drop (before.length + used.length) = rest := by
      rw [← List.append_assoc,← List.length_append,List.drop_left]
    have hsplit : slice (before ++ (used ++ rest)) (before.length + used.length) t.startOffset ++
        (before ++ (used ++ rest)).drop t.startOffset = rest := by
      conv_rhs => rw [← hdrop,← List.take_append_drop (t.startOffset - (before.length + used.length))
        ((before ++ (used ++ rest)).drop (before.length + used.length))]
      rw [slice,List.drop_drop,Nat.add_sub_cancel' hle]
    have hwide : slice (before ++ (used ++ rest)) before.length t.startOffset =
        used ++ slice (before ++ (used ++ rest)) (before.length + used.length) t.startOffset := by
      rw [slice,slice,hdrop,List.drop_left,List.take_append,List.take_of_length_le (by omega),
        Nat.sub_sub]
    rw [hwide]
    exact .skip (hsplit.symm ▸ h) hgap

/-- The tokens of the chunks behind a prefix of the text. -/
theorem spans_of_splits {sql : List UInt8} {pieces : List (List UInt8 × Option Lexeme)}
    (h : Splits sql pieces) (before : List UInt8) {tokens : List Token}
    (htokens : tokens = tokensOf (({} : Place).after before) pieces) :
    (∀ t ∈ tokens, t.Exact (before ++ sql) ∧ before.length ≤ t.startOffset) ∧
      tokens.Pairwise (fun t u => t.endOffset ≤ u.startOffset ∧ t.startOffset < u.startOffset) ∧
      Spaced (before ++ sql) before.length tokens := by
  induction h generalizing before tokens with
  | nil =>
    subst htokens
    have hoffset : (({} : Place).after before).offset = before.length := by rw [Place.after_eq]
    refine ⟨?_,List.pairwise_singleton _ _,?_,?_,trivial⟩
    · intro t ht
      obtain rfl := List.mem_singleton.mp ht
      rw [List.append_nil]
      exact ⟨exact_endOfFile before,hoffset.ge⟩
    · exact hoffset.ge
    · simp only [makeToken,hoffset,slice,Nat.sub_self,List.take_zero]
      exact .nil _
  | @cons used rest what pieces hchunk hrest ih =>
    obtain ⟨hexact,hsorted,hspaced⟩ := ih (before ++ used) rfl
    rw [List.append_assoc] at hexact hspaced
    rw [tokensOf,← Place.after_append] at htokens
    cases what with
    | none =>
      subst htokens
      refine ⟨fun t ht => ⟨(hexact t ht).1,?_⟩,hsorted,hspaced.skip hchunk⟩
      have := (hexact t ht).2
      rw [List.length_append] at this
      omega
    | some l =>
      subst htokens
      have hfirst : Token.Exact (before ++ (used ++ rest)) _ := exact_of_chunk hchunk
      have hstart : (({} : Place).after before).offset = before.length := by rw [Place.after_eq]
      have hstop : (({} : Place).after (before ++ used)).offset = (before ++ used).length := by
        rw [Place.after_eq]
      have hpos := List.length_pos_iff.mpr hchunk.ne_nil
      refine ⟨fun t ht => ?_,List.pairwise_cons.mpr ⟨fun t ht => ?_,hsorted⟩,hstart.ge,?_,?_⟩
      · rcases List.mem_cons.mp ht with rfl | ht
        · exact ⟨hfirst,hstart.ge⟩
        · have := (hexact t ht).2
          rw [List.length_append] at this
          exact ⟨(hexact t ht).1,by omega⟩
      · have := (hexact t ht).2
        simp only [makeToken,hstart,hstop]
        rw [List.length_append] at this ⊢
        exact ⟨this,by omega⟩
      · simp only [makeToken,hstart,slice,Nat.sub_self,List.take_zero]
        exact .nil _
      · simp only [makeToken,hstop]
        exact hspaced

/-- The spans of the tokens of a text are exact. -/
theorem tokenize_spans {fuel : ℕ} {sql : List UInt8} {tokens : List Token}
    (h : tokenize fuel sql = some (.ok tokens)) :
    (∀ t ∈ tokens, t.Exact sql) ∧
      tokens.Pairwise (fun t u => t.endOffset ≤ u.startOffset ∧ t.startOffset < u.startOffset) ∧
      Spaced sql 0 tokens := by
  obtain ⟨pieces,hsplits,rfl⟩ := splits_of_tokenizeFrom h
  obtain ⟨hexact,hsorted,hspaced⟩ := spans_of_splits hsplits [] rfl
  exact ⟨fun t ht => (hexact t ht).1,hsorted,hspaced⟩

/-- A string over two lines, a comment and an operator. -/
theorem tokenize_spans_lines : ∃ tokens,
    tokenize 12 [39,97,10,39,39,39,45,45,10,62,61] = some (.ok tokens) ∧
      ∀ t ∈ tokens, t.Exact [39,97,10,39,39,39,45,45,10,62,61] := by
  obtain ⟨tokens,h⟩ : ∃ tokens, tokenize 12 [39,97,10,39,39,39,45,45,10,62,61] =
      some (.ok tokens) := ⟨_,rfl⟩
  exact ⟨tokens,h,(tokenize_spans h).1⟩

end Parser
end OurSql
