import Mathlib.Data.List.Infix
import OurSql.Parser.Lexer

/-! The lexical grammar. A text the lexer accepts is a sequence of chunks, white space, comments
and lexemes, each delimited by what follows it, and its tokens are those of its lexemes. -/
namespace OurSql
namespace Parser

/-- A string behind its first quote, up to its last one, and the value it stands for. -/
inductive Quoted : List UInt8 → List UInt8 → Prop
  | last : Quoted [39] []
  | quotes {raw value : List UInt8} (h : Quoted raw value) : Quoted (39::39::raw) (39::value)
  | byte {b : UInt8} {raw value : List UInt8} (hb : b ≠ 39) (h : Quoted raw value) :
      Quoted (b::raw) (b::value)

/-- The byte is part of a longer lexeme or opens a comment. -/
def Joins (b : UInt8) (rest : List UInt8) : Prop :=
  (pairs.lookup b ≠ none ∧ rest.head? = some 61) ∨ (b = 60 ∧ rest.head? = some 62) ∨
    (b = 45 ∧ (rest.head? = some 45 ∨ rest.head?.any isDigit)) ∨ (b = 47 ∧ rest.head? = some 42)

abbrev Lexeme := TokenType × List UInt8

/-- A chunk in front of the rest of the text, and its lexeme, unless it is skipped. -/
inductive Chunk : List UInt8 → List UInt8 → Option Lexeme → Prop
  | space {b : UInt8} (rest : List UInt8) (hb : isSpace b) : Chunk [b] rest none
  | line {body rest : List UInt8} (hbody : ∀ b ∈ body, b ≠ 10 ∧ b ≠ 13)
      (hrest : ∀ b ∈ rest.head?, b = 10 ∨ b = 13) : Chunk (45::45::body) rest none
  | block {body : List UInt8} (rest : List UInt8) (hbody : ¬[42,47] <:+: body ++ [42]) :
      Chunk (47::42::(body ++ [42,47])) rest none
  | word {b : UInt8} {tail rest : List UInt8} (hb : isWordStart b) (htail : ∀ c ∈ tail, isWordByte c)
      (hrest : ∀ c ∈ rest.head?, ¬isWordByte c) :
      Chunk (b::tail) rest (some (keywordType ((b::tail).map lowerAscii),(b::tail).map lowerAscii))
  | number {sign : List UInt8} {d : UInt8} {digits rest : List UInt8} (hsign : sign = [] ∨ sign = [45])
      (hd : isDigit d) (hdigits : ∀ c ∈ digits, isDigit c) (hrest : ∀ c ∈ rest.head?, ¬isDigit c)
      (hpoint : ¬(rest.head? = some 46 ∧ rest.tail.head?.any isDigit)) :
      Chunk (sign ++ d::digits) rest (some (.integer,sign ++ d::digits))
  | string {raw value rest : List UInt8} (hraw : Quoted raw value) (hrest : rest.head? ≠ some 39) :
      Chunk (39::raw) rest (some (.string,value))
  | pair {b : UInt8} {type : TokenType} (rest : List UInt8) (hb : pairs.lookup b = some type) :
      Chunk [b,61] rest (some (type,[b,61]))
  | unequal (rest : List UInt8) : Chunk [60,62] rest (some (.notEqual,[60,62]))
  | punctuation {b : UInt8} {type : TokenType} {rest : List UInt8}
      (hb : punctuations.lookup b = some type) (hrest : ¬Joins b rest) :
      Chunk [b] rest (some (type,[b]))

abbrev Pieces := List (List UInt8 × Option Lexeme)

/-- The text as a sequence of chunks. -/
inductive Splits : List UInt8 → Pieces → Prop
  | nil : Splits [] []
  | cons {used rest : List UInt8} {what : Option Lexeme} {pieces : Pieces}
      (h : Chunk used rest what) (hrest : Splits rest pieces) :
      Splits (used ++ rest) ((used,what)::pieces)

/-- The place behind some bytes. -/
def Place.after (place : Place) (bytes : List UInt8) : Place := bytes.foldl Place.advance place

@[simp] theorem Place.after_nil (place : Place) : place.after [] = place := rfl

@[simp] theorem Place.after_cons (place : Place) (b : UInt8) (bytes : List UInt8) :
    place.after (b::bytes) = (place.advance b).after bytes := rfl

@[simp] theorem Place.after_append (place : Place) (bytes bytes' : List UInt8) :
    place.after (bytes ++ bytes') = (place.after bytes).after bytes' := List.foldl_append

/-- The round that consumes a chunk. -/
def roundOf (used rest : List UInt8) (what : Option Lexeme) (start : Place) : Round :=
  (what.map fun l => makeToken l.1 start (start.after used) l.2,rest,start.after used)

/-- The tokens of a sequence of chunks that starts at a place. -/
def tokensOf (place : Place) : Pieces → List Token
  | [] => [makeToken .endOfFile place place []]
  | piece::pieces =>
    (piece.2.map fun l => makeToken l.1 place (place.after piece.1) l.2).toList ++
      tokensOf (place.after piece.1) pieces

/-! ### The inner loops -/

theorem scanWhile_spec (p : UInt8 → Bool) (sql : List UInt8) (place : Place) :
    sql = (scanWhile p sql place).taken ++ (scanWhile p sql place).rest ∧
      (∀ b ∈ (scanWhile p sql place).taken, p b) ∧
      (∀ b ∈ (scanWhile p sql place).rest.head?, ¬p b) ∧
      (scanWhile p sql place).place = place.after (scanWhile p sql place).taken := by
  induction sql generalizing place with
  | nil => simp [scanWhile]
  | cons b rest ih =>
    obtain ⟨hsql,htaken,hrest,hplace⟩ := ih (place.advance b)
    by_cases hb : p b
    · simp only [scanWhile,hb,if_true,List.cons_append,Place.after_cons,List.mem_cons,
        forall_eq_or_imp,true_and]
      exact ⟨congrArg (b::·) hsql,htaken,hrest,hplace⟩
    · simp [scanWhile,hb]

theorem scanWhile_append {p : UInt8 → Bool} {taken rest : List UInt8} (htaken : ∀ b ∈ taken, p b)
    (hrest : ∀ b ∈ rest.head?, ¬p b) (place : Place) :
    scanWhile p (taken ++ rest) place = ⟨taken,rest,place.after taken⟩ := by
  induction taken generalizing place with
  | nil =>
    cases rest with
    | nil => rfl
    | cons b rest => simp [scanWhile,hrest b rfl]
  | cons b taken ih =>
    have hb := htaken b List.mem_cons_self
    have hrec := ih (fun c hc => htaken c (List.mem_cons_of_mem b hc)) (place.advance b)
    simp [scanWhile,hb,hrec]

theorem scanComment_append {body : List UInt8} (hbody : ¬[42,47] <:+: body ++ [42])
    (rest : List UInt8) (place : Place) : scanComment (body ++ 42::47::rest) place =
      some ⟨[],rest,place.after (body ++ [42,47])⟩ := by
  induction body generalizing place with
  | nil => simp [scanComment]
  | cons b body ih =>
    have hopen : ¬(b = 42 ∧ (body ++ 42::47::rest).head? = some 47) := by
      rintro ⟨rfl,hhead⟩
      cases body with
      | nil => simp at hhead
      | cons c body =>
        obtain rfl : c = 47 := by simpa using hhead
        exact hbody ⟨[],body ++ [42],rfl⟩
    have htail : ¬[42,47] <:+: body ++ [42] := fun h => hbody (List.infix_cons h)
    rw [List.cons_append,scanComment,if_neg hopen,ih htail]
    simp

theorem scanComment_spec {sql : List UInt8} {place : Place} {scan : Scan}
    (h : scanComment sql place = some scan) : ∃ body, ¬[42,47] <:+: body ++ [42] ∧
      sql = body ++ 42::47::scan.rest := by
  induction sql generalizing place with
  | nil => simp [scanComment] at h
  | cons b rest ih =>
    rw [scanComment] at h
    split at h
    · next hclose =>
      obtain rfl := Option.some.inj h
      refine ⟨[],fun hin => by simpa using hin.length_le,?_⟩
      obtain ⟨rfl,hhead⟩ := hclose
      cases rest with
      | nil => simp at hhead
      | cons c rest =>
        obtain rfl : c = 47 := by simpa using hhead
        rfl
    · next hopen =>
      obtain ⟨body,hbody,rfl⟩ := ih h
      refine ⟨b::body,fun hin => ?_,rfl⟩
      rcases List.infix_cons_iff.mp hin with hprefix | hin
      · obtain ⟨t,ht⟩ := hprefix
        have hhead : (body ++ [42]).head? = some 47 :=
          congrArg List.head? (List.cons.inj ht).2.symm
        refine hopen ⟨(List.cons.inj ht).1.symm,?_⟩
        cases body with
        | nil => simp at hhead
        | cons c body => simpa using hhead
      · exact hbody hin

theorem scanString_append {raw value rest : List UInt8} (h : Quoted raw value)
    (hrest : rest.head? ≠ some 39) (place : Place) :
    scanString (raw ++ rest) place = some ⟨value,rest,place.after raw⟩ := by
  induction h generalizing place with
  | last =>
    cases rest with
    | nil => simp [scanString]
    | cons b rest =>
      have hb : b ≠ 39 := by simpa using hrest
      simp [scanString,hb]
  | quotes h ih => simp [scanString,ih]
  | @byte b raw value hb h ih =>
    rcases hraw : raw ++ rest with - | ⟨c,tail⟩
    · cases h <;> simp at hraw
    · have hrec := ih (place.advance b)
      rw [hraw] at hrec
      simp [scanString,hb,hraw,hrec]

theorem scanString_spec {sql : List UInt8} {place : Place} {scan : Scan}
    (h : scanString sql place = some scan) : ∃ raw, Quoted raw scan.taken ∧
      sql = raw ++ scan.rest ∧ scan.rest.head? ≠ some 39 := by
  induction sql, place using scanString.induct generalizing scan with
  | case1 => simp [scanString] at h
  | case2 place =>
    obtain rfl := Option.some.inj (by simpa [scanString] using h)
    exact ⟨[39],.last,rfl,by simp⟩
  | case3 b place hb => simp [scanString,hb] at h
  | case4 place rest ih =>
    simp only [scanString,if_true,Option.map_eq_some_iff] at h
    obtain ⟨inner,hinner,rfl⟩ := h
    obtain ⟨raw,hraw,rfl,hrest⟩ := ih hinner
    exact ⟨39::39::raw,.quotes hraw,rfl,hrest⟩
  | case5 b' rest place hb' =>
    obtain rfl := Option.some.inj (by simpa [scanString,hb'] using h)
    exact ⟨[39],.last,rfl,by simpa using hb'⟩
  | case6 b b' rest place hb ih =>
    simp only [scanString,hb,if_false,Option.map_eq_some_iff] at h
    obtain ⟨inner,hinner,rfl⟩ := h
    obtain ⟨raw,hraw,heq,hrest⟩ := ih hinner
    exact ⟨b::raw,.byte hb hraw,by rw [heq]; rfl,hrest⟩

theorem scanComment_place {sql : List UInt8} {place : Place} {scan : Scan} {body : List UInt8}
    (h : scanComment sql place = some scan) (hbody : ¬[42,47] <:+: body ++ [42])
    (hsql : sql = body ++ 42::47::scan.rest) : scan.place = place.after (body ++ [42,47]) := by
  rw [hsql,scanComment_append hbody] at h
  exact congrArg Scan.place (Option.some.inj h).symm

theorem scanString_place {sql : List UInt8} {place : Place} {scan : Scan} {raw : List UInt8}
    (h : scanString sql place = some scan) (hraw : Quoted raw scan.taken)
    (hsql : sql = raw ++ scan.rest) (hrest : scan.rest.head? ≠ some 39) :
    scan.place = place.after raw := by
  rw [hsql,scanString_append hraw hrest] at h
  exact congrArg Scan.place (Option.some.inj h).symm

/-! ### A round is a chunk -/

theorem not_space_of_wordStart {b : UInt8} (h : isWordStart b) : ¬isSpace b := by
  intro hs
  simp only [isWordStart,isAlpha,isUpper,isSpace,Bool.or_eq_true,Bool.and_eq_true,
    decide_eq_true_eq,beq_iff_eq,UInt8.le_iff_toNat_le,← UInt8.toNat_inj] at h hs
  simp at h hs
  omega

theorem not_space_of_digit {b : UInt8} (h : isDigit b) : ¬isSpace b ∧ ¬isWordStart b := by
  simp only [isWordStart,isAlpha,isUpper,isSpace,isDigit,Bool.or_eq_true,Bool.and_eq_true,
    decide_eq_true_eq,beq_iff_eq,UInt8.le_iff_toNat_le,← UInt8.toNat_inj] at h ⊢
  simp at h ⊢
  omega

theorem chunk_of_word {b : UInt8} (hb : isWordStart b) (rest : List UInt8) (start : Place) :
    ∃ used what, Chunk used (lexWord (b::rest) start).2.1 what ∧
      b::rest = used ++ (lexWord (b::rest) start).2.1 ∧
      lexWord (b::rest) start = roundOf used (lexWord (b::rest) start).2.1 what start := by
  obtain ⟨hsql,htaken,hrest,hplace⟩ := scanWhile_spec isWordByte (b::rest) start
  have hword := isWordByte_of_start hb
  rcases htail : (scanWhile isWordByte (b::rest) start).taken with - | ⟨c,tail⟩
  · simp [scanWhile,hword] at htail
  · rw [htail] at hsql htaken hplace
    obtain ⟨rfl,-⟩ := List.cons.inj hsql
    refine ⟨b::tail,_,.word hb (fun c hc => htaken c (List.mem_cons_of_mem b hc)) hrest,hsql,?_⟩
    simp only [lexWord,roundOf,htail,hplace]
    rfl

theorem chunk_of_number {sign sql : List UInt8} {start place : Place} {round : Round}
    (hsign : sign = [] ∨ sign = [45]) (hplace : place = start.after sign)
    (hd : sql.head?.any isDigit) (h : lexNumber sign sql start place = .ok round) :
    ∃ used what, Chunk used round.2.1 what ∧ sign ++ sql = used ++ round.2.1 ∧
      round = roundOf used round.2.1 what start := by
  subst hplace
  obtain ⟨hsql,htaken,hrest,hstop⟩ := scanWhile_spec isDigit sql (start.after sign)
  unfold lexNumber at h
  dsimp only at h
  split at h
  · simp [fail] at h
  · next hpoint =>
    obtain rfl := Except.ok.inj h
    rcases hdigits : (scanWhile isDigit sql (start.after sign)).taken with - | ⟨d,digits⟩
    · rw [hdigits,List.nil_append] at hsql
      rw [hsql] at hd
      rcases hr : (scanWhile isDigit sql (start.after sign)).rest.head? with - | c
      · simp [hr] at hd
      · rw [hr,Option.any_some] at hd
        exact absurd hd (hrest c hr)
    · rw [hdigits] at hsql htaken hstop
      refine ⟨sign ++ d::digits,_,.number hsign (htaken d List.mem_cons_self)
        (fun c hc => htaken c (List.mem_cons_of_mem d hc)) hrest hpoint,?_,?_⟩
      · rw [List.append_assoc]
        exact congrArg (sign ++ ·) hsql
      · simp only [roundOf,hstop,Place.after_append]
        rfl

theorem chunk_of_string {rest : List UInt8} {start : Place} {round : Round}
    (h : lexString rest start = .ok round) : ∃ used what, Chunk used round.2.1 what ∧
      39::rest = used ++ round.2.1 ∧ round = roundOf used round.2.1 what start := by
  unfold lexString at h
  split at h
  · next scan hscan =>
    obtain rfl := Except.ok.inj h
    obtain ⟨raw,hraw,hsql,hrest⟩ := scanString_spec hscan
    refine ⟨39::raw,_,.string hraw hrest,congrArg (39::·) hsql,?_⟩
    simp only [roundOf,scanString_place hscan hraw hsql hrest,Place.after_cons]
    rfl
  · simp [fail] at h

theorem chunk_of_comment {rest : List UInt8} {start : Place} {round : Round}
    (h : lexComment rest start = .ok round) : ∃ used what, Chunk used round.2.1 what ∧
      47::42::rest = used ++ round.2.1 ∧ round = roundOf used round.2.1 what start := by
  unfold lexComment at h
  split at h
  · next scan hscan =>
    obtain rfl := Except.ok.inj h
    obtain ⟨body,hbody,hsql⟩ := scanComment_spec hscan
    refine ⟨47::42::(body ++ [42,47]),none,.block scan.rest hbody,by simp [hsql],?_⟩
    simp only [roundOf,scanComment_place hscan hbody hsql,Place.after_cons]
    rfl
  · simp [fail] at h

theorem lexOperator_pair {b : UInt8} {type : TokenType} (h : pairs.lookup b = some type)
    (rest : List UInt8) (start : Place) :
    lexOperator b (61::rest) start = .ok (roundOf [b,61] rest (some (type,[b,61])) start) := by
  simp [lexOperator,h,roundOf]

/-- Without an equals sign behind it the byte is an operator of its own, or `<>`. -/
theorem lexOperator_single {b : UInt8} {rest : List UInt8}
    (h : ¬(pairs.lookup b ≠ none ∧ rest.head? = some 61)) (start : Place) :
    lexOperator b rest start = if b = 60 ∧ rest.head? = some 62 then
        .ok (some (makeToken .notEqual start ((start.advance b).advance 62) [60,62]),rest.tail,
          (start.advance b).advance 62)
      else (punctuations.lookup b).elim
        (fail .invalidArgument ("非法字符 '" ++ text [b] ++ "'，位置 " ++ start.text))
        fun type => .ok (some (makeToken type start (start.advance b) [b]),rest,
          start.advance b) := by
  unfold lexOperator
  dsimp only
  split
  · next type rest' htype => exact absurd ⟨by simp [htype],rfl⟩ h
  · cases punctuations.lookup b <;> rfl

theorem chunk_of_operator {b : UInt8} {rest : List UInt8} {start : Place} {round : Round}
    (hminus : ¬(b = 45 ∧ (rest.head? = some 45 ∨ rest.head?.any isDigit)))
    (hslash : ¬(b = 47 ∧ rest.head? = some 42)) (h : lexOperator b rest start = .ok round) :
    ∃ used what, Chunk used round.2.1 what ∧ b::rest = used ++ round.2.1 ∧
      round = roundOf used round.2.1 what start := by
  by_cases hpair : pairs.lookup b ≠ none ∧ rest.head? = some 61
  · obtain ⟨hb,hhead⟩ := hpair
    obtain ⟨type,htype⟩ := Option.ne_none_iff_exists'.mp hb
    rcases rest with - | ⟨c,rest⟩
    · simp at hhead
    obtain rfl : c = 61 := by simpa using hhead
    rw [lexOperator_pair htype] at h
    obtain rfl := Except.ok.inj h
    exact ⟨[b,61],_,.pair rest htype,rfl,rfl⟩
  rw [lexOperator_single hpair] at h
  by_cases hunequal : b = 60 ∧ rest.head? = some 62
  · rw [if_pos hunequal] at h
    obtain rfl := Except.ok.inj h
    obtain ⟨rfl,hhead⟩ := hunequal
    rcases rest with - | ⟨c,rest⟩
    · simp at hhead
    obtain rfl : c = 62 := by simpa using hhead
    exact ⟨[60,62],_,.unequal rest,rfl,rfl⟩
  rw [if_neg hunequal] at h
  rcases htype : punctuations.lookup b with - | type
  · simp [htype,fail] at h
  · rw [htype] at h
    obtain rfl := Except.ok.inj h
    refine ⟨[b],_,.punctuation htype ?_,rfl,rfl⟩
    rintro (hjoin | hjoin | hjoin | hjoin)
    · exact hpair hjoin
    · exact hunequal hjoin
    · exact hminus hjoin
    · exact hslash hjoin

/-- Every round of the lexer consumes a chunk. -/
theorem chunk_of_round {b : UInt8} {rest : List UInt8} {start : Place} {round : Round}
    (h : lexRound b rest start = .ok round) : ∃ used what, Chunk used round.2.1 what ∧
      b::rest = used ++ round.2.1 ∧ round = roundOf used round.2.1 what start := by
  unfold lexRound at h
  dsimp only at h
  split at h
  · next hspace =>
    obtain rfl := Except.ok.inj h
    exact ⟨[b],none,.space rest hspace,rfl,rfl⟩
  split at h
  · next hline =>
    obtain rfl := Except.ok.inj h
    obtain ⟨rfl,hhead⟩ := hline
    rcases rest with - | ⟨c,rest⟩
    · simp at hhead
    obtain rfl : c = 45 := by simpa using hhead
    have hmark : ∀ place, scanWhile (fun c => c != 10 && c != 13) (45::45::rest) place =
        {scanWhile (fun c => c != 10 && c != 13) rest (place.after [45,45]) with
          taken := 45::45::(scanWhile (fun c => c != 10 && c != 13) rest
            (place.after [45,45])).taken} := fun place => by simp [scanWhile]
    obtain ⟨hsql,htaken,hrest,hplace⟩ :=
      scanWhile_spec (fun c => c != 10 && c != 13) rest (start.after [45,45])
    rw [hmark]
    refine ⟨45::45::(scanWhile (fun c => c != 10 && c != 13) rest (start.after [45,45])).taken,none,
      .line (fun c hc => by simpa using htaken c hc) (fun c hc => ?_),?_,?_⟩
    · have := hrest c hc
      simp only [Bool.and_eq_true,bne_iff_ne,ne_eq] at this
      tauto
    · exact congrArg (45::45::·) hsql
    · simp only [Place.after_cons,Place.after_nil] at hplace ⊢
      simp only [roundOf,hplace,Place.after_cons]
      rfl
  split at h
  · next hblock =>
    obtain ⟨rfl,hhead⟩ := hblock
    rcases rest with - | ⟨c,rest⟩
    · simp at hhead
    obtain rfl : c = 42 := by simpa using hhead
    exact chunk_of_comment h
  split at h
  · next hword =>
    obtain rfl := Except.ok.inj h
    exact chunk_of_word hword rest start
  split at h
  · next hdigit => exact chunk_of_number (.inl rfl) rfl (by simpa using hdigit) h
  split at h
  · next hnegative =>
    obtain ⟨rfl,hdigit⟩ := hnegative
    exact chunk_of_number (.inr rfl) rfl hdigit h
  split at h
  · next hquote =>
    obtain rfl := hquote
    exact chunk_of_string h
  · next hline hblock hword hdigit hnegative hquote =>
    refine chunk_of_operator (fun hop => ?_) hblock h
    obtain ⟨hb,hjoin | hjoin⟩ := hop
    · exact hline ⟨hb,hjoin⟩
    · exact hnegative ⟨hb,hjoin⟩

/-! ### A chunk is a round -/

/-- No operator byte starts another lexeme. -/
theorem operator_bytes {b : UInt8} {type : TokenType}
    (h : pairs.lookup b = some type ∨ punctuations.lookup b = some type) :
    ¬isSpace b ∧ ¬isWordStart b ∧ ¬isDigit b ∧ b ≠ 39 := by
  have hall : ∀ k ∈ pairs ++ punctuations,
      ¬isSpace k.1 ∧ ¬isWordStart k.1 ∧ ¬isDigit k.1 ∧ k.1 ≠ 39 := by decide
  rcases h with h | h
  · obtain ⟨l,r,hl,-⟩ := List.lookup_eq_some_iff.mp h
    exact hall (b,type) (List.mem_append_left _ (hl ▸ by simp))
  · obtain ⟨l,r,hl,-⟩ := List.lookup_eq_some_iff.mp h
    exact hall (b,type) (List.mem_append_right _ (hl ▸ by simp))

theorem lexRound_operator {b : UInt8} {rest : List UInt8}
    (hb : ¬isSpace b ∧ ¬isWordStart b ∧ ¬isDigit b ∧ b ≠ 39)
    (hminus : ¬(b = 45 ∧ (rest.head? = some 45 ∨ rest.head?.any isDigit)))
    (hslash : ¬(b = 47 ∧ rest.head? = some 42)) (start : Place) :
    lexRound b rest start = lexOperator b rest start := by
  obtain ⟨hspace,hword,hdigit,hquote⟩ := hb
  rw [lexRound,if_neg hspace,if_neg fun h => hminus ⟨h.1,.inl h.2⟩,if_neg hslash,if_neg hword,
    if_neg hdigit,if_neg fun h => hminus ⟨h.1,.inr h.2⟩,if_neg hquote]

theorem lexRound_word {b : UInt8} (hb : isWordStart b) (rest : List UInt8) (start : Place) :
    lexRound b rest start = .ok (lexWord (b::rest) start) := by
  have h45 : b ≠ 45 := by
    rintro rfl
    exact absurd hb (by decide)
  have h47 : b ≠ 47 := by
    rintro rfl
    exact absurd hb (by decide)
  simp [lexRound,not_space_of_wordStart hb,hb,h45,h47]

theorem lexRound_digit {b : UInt8} (hb : isDigit b) (rest : List UInt8) (start : Place) :
    lexRound b rest start = lexNumber [] (b::rest) start start := by
  have h45 : b ≠ 45 := by
    rintro rfl
    exact absurd hb (by decide)
  have h47 : b ≠ 47 := by
    rintro rfl
    exact absurd hb (by decide)
  obtain ⟨hspace,hword⟩ := not_space_of_digit hb
  simp [lexRound,hspace,hword,hb,h45,h47]

theorem lexRound_negative {d : UInt8} (hd : isDigit d) (rest : List UInt8) (start : Place) :
    lexRound 45 (d::rest) start = lexNumber [45] (d::rest) start (start.advance 45) := by
  have h45 : d ≠ 45 := by
    rintro rfl
    exact absurd hd (by decide)
  have hbyte : ¬isSpace 45 ∧ ¬isWordStart 45 ∧ ¬isDigit 45 := by decide
  simp [lexRound,hbyte,hd,h45]

theorem lexNumber_append {sign digits rest : List UInt8} (hdigits : ∀ c ∈ digits, isDigit c)
    (hrest : ∀ c ∈ rest.head?, ¬isDigit c)
    (hpoint : ¬(rest.head? = some 46 ∧ rest.tail.head?.any isDigit)) (start : Place) :
    lexNumber sign (digits ++ rest) start (start.after sign) =
      .ok (roundOf (sign ++ digits) rest (some (.integer,sign ++ digits)) start) := by
  rw [lexNumber,scanWhile_append hdigits hrest]
  simp only
  rw [if_neg hpoint,roundOf,Place.after_append]
  rfl

theorem round_of_chunk {used rest : List UInt8} {what : Option Lexeme} (h : Chunk used rest what)
    {b : UInt8} {tail : List UInt8} (hsql : b::tail = used ++ rest) (start : Place) :
    lexRound b tail start = .ok (roundOf used rest what start) := by
  cases h with
  | @space c rest hb =>
    obtain ⟨rfl,rfl⟩ := List.cons.inj hsql
    rw [lexRound,if_pos hb]
    rfl
  | @line body rest hbody hrest =>
    obtain ⟨rfl,rfl⟩ : b = 45 ∧ tail = 45::(body ++ rest) := List.cons.inj hsql
    have hmarked : ∀ c ∈ 45::45::body, (c != 10 && c != 13) = true := by simpa using hbody
    have hstop : ∀ c ∈ rest.head?, ¬(c != 10 && c != 13) = true := fun c hc => by
      rcases hrest c hc with rfl | rfl <;> decide
    have hscan := scanWhile_append hmarked hstop start
    rw [lexRound,if_neg (by decide),if_pos ⟨rfl,rfl⟩]
    simp only [List.cons_append] at hscan
    simp only [hscan]
    rfl
  | @block body rest hbody =>
    obtain ⟨rfl,rfl⟩ : b = 47 ∧ tail = 42::(body ++ [42,47] ++ rest) := by simpa using hsql
    have hscan := scanComment_append hbody rest ((start.advance 47).advance 42)
    rw [lexRound,if_neg (by decide),if_neg (by simp),if_pos ⟨rfl,rfl⟩,lexComment,List.tail_cons,
      List.append_assoc]
    simp only [List.cons_append,List.nil_append,hscan]
    rfl
  | @word c cs rest hb htail hrest =>
    obtain ⟨rfl,rfl⟩ : b = c ∧ tail = cs ++ rest := List.cons.inj hsql
    have hword := isWordByte_of_start hb
    have hall : ∀ c ∈ b::cs, isWordByte c := by simpa [hword] using htail
    have hscan := scanWhile_append hall hrest start
    rw [lexRound_word hb,lexWord,← List.cons_append,hscan]
    rfl
  | @number sign d digits rest hsign hd hdigits hrest hpoint =>
    have hall : ∀ c ∈ d::digits, isDigit c := by simpa [hd] using hdigits
    have hlex : lexNumber sign (d::digits ++ rest) start (start.after sign) = _ :=
      lexNumber_append hall hrest hpoint start
    rcases hsign with rfl | rfl
    · obtain ⟨rfl,rfl⟩ : b = d ∧ tail = digits ++ rest := List.cons.inj hsql
      rw [lexRound_digit hd]
      exact hlex
    · obtain ⟨rfl,rfl⟩ : b = 45 ∧ tail = d::(digits ++ rest) := List.cons.inj hsql
      rw [lexRound_negative hd]
      exact hlex
  | @string raw value rest hraw hrest =>
    obtain ⟨rfl,rfl⟩ : b = 39 ∧ tail = raw ++ rest := List.cons.inj hsql
    have hquote : lexRound 39 (raw ++ rest) start = lexString (raw ++ rest) start := by
      simp [lexRound,show ¬isSpace 39 ∧ ¬isWordStart 39 ∧ ¬isDigit 39 by decide]
    rw [hquote,lexString,scanString_append hraw hrest]
    rfl
  | @pair c type rest hb =>
    obtain ⟨rfl,rfl⟩ : b = c ∧ tail = 61::rest := List.cons.inj hsql
    have hlist : ∀ k ∈ pairs, k.1 ≠ 45 ∧ k.1 ≠ 47 := by decide
    obtain ⟨l,r,hl,-⟩ := List.lookup_eq_some_iff.mp hb
    obtain ⟨h45,h47⟩ := hlist (b,type) (hl ▸ by simp)
    rw [lexRound_operator (operator_bytes (.inl hb)) (fun h => h45 h.1) fun h => h47 h.1]
    exact lexOperator_pair hb rest start
  | unequal =>
    obtain ⟨rfl,rfl⟩ : b = 60 ∧ tail = 62::rest := List.cons.inj hsql
    rw [lexRound_operator (by decide) (by simp) (by simp),
      lexOperator_single (by simp),if_pos ⟨rfl,rfl⟩]
    rfl
  | @punctuation c type rest hb hrest =>
    obtain ⟨rfl,rfl⟩ : b = c ∧ tail = rest := List.cons.inj hsql
    rw [lexRound_operator (operator_bytes (.inr hb)) (fun h => hrest (.inr (.inr (.inl h))))
        fun h => hrest (.inr (.inr (.inr h))),lexOperator_single fun h => hrest (.inl h),
      if_neg fun h => hrest (.inr (.inl h)),hb]
    rfl

/-! ### The tokens of a text are those of its chunks -/

theorem Chunk.ne_nil {used rest : List UInt8} {what : Option Lexeme} (h : Chunk used rest what) :
    used ≠ [] := by
  cases h <;> simp

/-- What the lexer accepts is a sequence of chunks. -/
theorem splits_of_tokenizeFrom {fuel : ℕ} {sql : List UInt8} {place : Place} {tokens : List Token}
    (h : tokenizeFrom fuel sql place = some (.ok tokens)) :
    ∃ pieces, Splits sql pieces ∧ tokens = tokensOf place pieces := by
  induction fuel generalizing sql place tokens with
  | zero => simp [tokenizeFrom] at h
  | succ fuel ih =>
    cases sql with
    | nil =>
      obtain rfl := Except.ok.inj (Option.some.inj h)
      exact ⟨[],.nil,rfl⟩
    | cons b rest =>
      rw [tokenizeFrom] at h
      rcases hround : lexRound b rest place with e | round
      · simp [hround] at h
      · obtain ⟨used,what,hchunk,hsql,hrec⟩ := chunk_of_round hround
        rw [hround] at h
        obtain ⟨result,hresult,hmap⟩ := Option.map_eq_some_iff.mp h
        rcases result with e | later
        · simp [Except.map] at hmap
        · obtain rfl := Except.ok.inj hmap
          obtain ⟨pieces,hsplits,rfl⟩ := ih hresult
          refine ⟨(used,what)::pieces,?_,?_⟩
          · rw [hsql]
            exact .cons hchunk hsplits
          · rw [hrec]
            rfl

/-- A sequence of chunks is accepted, and its tokens are those of the chunks. -/
theorem tokenizeFrom_of_splits {sql : List UInt8} {pieces : Pieces}
    (h : Splits sql pieces) {fuel : ℕ} (hfuel : sql.length < fuel) (place : Place) :
    tokenizeFrom fuel sql place = some (.ok (tokensOf place pieces)) := by
  induction h generalizing fuel place with
  | nil =>
    obtain ⟨n,rfl⟩ := Nat.exists_eq_add_of_lt hfuel
    rfl
  | @cons used rest what pieces hchunk hrest ih =>
    have hne := List.length_pos_iff.mpr hchunk.ne_nil
    rw [List.length_append] at hfuel
    rcases fuel with - | fuel
    · omega
    rcases hsql : used ++ rest with - | ⟨b,tail⟩
    · exact absurd (List.append_eq_nil_iff.mp hsql).1 hchunk.ne_nil
    · rw [tokenizeFrom,round_of_chunk hchunk hsql.symm place]
      simp only [roundOf,ih (by omega : rest.length < fuel) (place.after used)]
      rfl

/-- The lexer reads the language of its lexical grammar. -/
theorem tokenize_iff {sql : List UInt8} {tokens : List Token} :
    tokenize (sql.length + 1) sql = some (.ok tokens) ↔
      ∃ pieces, Splits sql pieces ∧ tokens = tokensOf {} pieces := by
  constructor
  · exact splits_of_tokenizeFrom
  · rintro ⟨pieces,h,rfl⟩
    exact tokenizeFrom_of_splits h (Nat.lt_succ_self _) {}

end Parser
end OurSql
