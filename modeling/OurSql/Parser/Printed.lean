import OurSql.Parser.Printable

/-! How the lexer cuts the text of an expression: into the lexemes of its parts and the
punctuation between them, whatever delimiter follows. -/
namespace OurSql
namespace Parser

open Expression

/-- In front of a rest that `ok` allows the lexer cuts the text into the lexemes. -/
def Lexes (ok : List UInt8 → Prop) (txt : List UInt8) (ls : List Lexeme) : Prop :=
  ∀ rest pieces, ok rest → Splits rest pieces →
    ∃ before, Splits (txt ++ rest) (before ++ pieces) ∧ before.filterMap Prod.snd = ls

/-- Whatever follows. -/
abbrev Always (txt : List UInt8) (ls : List Lexeme) : Prop := Lexes (fun _ => True) txt ls

/-- Nothing follows, or a blank, a closing parenthesis or a comma. -/
def Delimits (rest : List UInt8) : Prop := ∀ b ∈ rest.head?, b = 32 ∨ b = 41 ∨ b = 44

/-- No byte of a word follows. -/
def Apart (rest : List UInt8) : Prop := ∀ b ∈ rest.head?, ¬isWordByte b

variable {ok ok' : List UInt8 → Prop} {txt txt' : List UInt8} {ls ls' : List Lexeme}

theorem Lexes.mono (h : Lexes ok txt ls) (hok : ∀ rest, ok' rest → ok rest) : Lexes ok' txt ls :=
  fun rest pieces hrest => h rest pieces (hok rest hrest)

theorem Lexes.append (h : Lexes ok txt ls) (h' : Lexes ok' txt' ls')
    (hok : ∀ rest, ok' rest → ok (txt' ++ rest)) : Lexes ok' (txt ++ txt') (ls ++ ls') := by
  intro rest pieces hrest hsplits
  obtain ⟨after,hafter,rfl⟩ := h' rest pieces hrest hsplits
  obtain ⟨before,hbefore,rfl⟩ := h _ _ (hok rest hrest) hafter
  exact ⟨before ++ after,by simpa using hbefore,List.filterMap_append⟩

theorem lexes_chunk {l : Lexeme} (h : ∀ rest, ok rest → Chunk txt rest (some l)) :
    Lexes ok txt [l] :=
  fun rest _ hrest hsplits => ⟨[(txt,some l)],.cons (h rest hrest) hsplits,rfl⟩

theorem Delimits.apart {rest : List UInt8} (h : Delimits rest) : Apart rest := by
  intro b hb
  rcases h b hb with rfl | rfl | rfl <;> decide

/-! ### Words and punctuation -/

theorem always_space : Always [32] [] :=
  fun rest _ _ hsplits => ⟨[([32],none)],.cons (.space rest (by decide)) hsplits,rfl⟩

theorem always_mark {b : UInt8} {type : TokenType} (hb : punctuations.lookup b = some type)
    (hpair : pairs.lookup b = none) (hjoin : b ≠ 60 ∧ b ≠ 45 ∧ b ≠ 47) : Always [b] [(type,[b])] :=
  lexes_chunk fun _ _ => .punctuation hb (by simp [Joins,hpair,hjoin])

theorem always_open : Always [40] [(.leftParen,[40])] := always_mark rfl rfl (by decide)

theorem always_close : Always [41] [(.rightParen,[41])] := always_mark rfl rfl (by decide)

/-- A word may have upper-case letters, its lexeme has none. -/
theorem lexes_letters {w : List UInt8} (hstart : w.head?.any isWordStart)
    (hbytes : w.all isWordByte) :
    Lexes Apart w [(keywordType (w.map lowerAscii),w.map lowerAscii)] := by
  cases w with
  | nil => simp at hstart
  | cons b tail =>
    have hall : ∀ c ∈ b::tail, isWordByte c := by simpa using hbytes
    exact lexes_chunk fun rest hrest => .word (by simpa using hstart)
      (fun c hc => hall c (List.mem_cons_of_mem b hc)) hrest

theorem lexes_word {w : List UInt8} (h : IsWord w) : Lexes Apart w [(keywordType w,w)] := by
  have hletters := lexes_letters h.start h.bytes
  rwa [h.lower] at hletters

theorem apart_space (txt : List UInt8) : Apart (32::txt) := by
  intro b hb
  obtain rfl : b = 32 := by simpa using hb.symm
  decide

theorem delimits_space (txt : List UInt8) : Delimits (32::txt) := by
  intro b hb
  exact .inl (by simpa using hb.symm)

/-- Words with a blank behind each of them. -/
def wordsText (ws : List (List UInt8)) : List UInt8 := ws.flatMap (· ++ [32])

theorem always_words (ws : List (List UInt8)) (h : ∀ w ∈ ws, IsWord w) :
    Always (wordsText ws) (ws.map fun w => (keywordType w,w)) := by
  induction ws with
  | nil => exact fun _ _ _ hsplits => ⟨[],hsplits,rfl⟩
  | cons w ws ih =>
    have hword := (lexes_word (h w (by simp))).append always_space fun rest _ => apart_space rest
    have hrest := hword.append (ih fun w' hw => h w' (by simp [hw])) fun _ _ => trivial
    simpa [wordsText] using hrest

/-- An operator with a blank behind it. -/
theorem always_operator {l : Lexeme} (hl : l ∈ operatorLexemes) : Always (l.2 ++ [32]) [l] := by
  have hjoin : ∀ (b : UInt8) (rest : List UInt8), ¬Joins b (32::rest) := by simp [Joins,isDigit]
  have hchunk : ∀ rest, Chunk l.2 (32::rest) (some l) := by
    intro rest
    simp only [operatorLexemes,List.mem_cons,List.not_mem_nil,or_false] at hl
    rcases hl with rfl | rfl | rfl | rfl | rfl | rfl | rfl | rfl | rfl | rfl | rfl | rfl | rfl
    · exact .punctuation rfl (hjoin _ _)
    · exact .pair _ rfl
    · exact .punctuation rfl (hjoin _ _)
    · exact .pair _ rfl
    · exact .unequal _
    · exact .punctuation rfl (hjoin _ _)
    · exact .pair _ rfl
    · exact .punctuation rfl (hjoin _ _)
    · exact .pair _ rfl
    · exact .punctuation rfl (hjoin _ _)
    · exact .punctuation rfl (hjoin _ _)
    · exact .punctuation rfl (hjoin _ _)
    · exact .punctuation rfl (hjoin _ _)
  have hlexes : Lexes (fun rest => ∃ later, rest = 32::later) l.2 [l] := by
    refine lexes_chunk fun rest hrest => ?_
    obtain ⟨later,rfl⟩ := hrest
    exact hchunk later
  exact hlexes.append always_space fun rest _ => ⟨rest,rfl⟩

/-! ### Literals -/

theorem bytes_append (a b : String) : bytes (a ++ b) = bytes a ++ bytes b := by
  simp [bytes]

theorem bytes_text (w : List UInt8) : bytes (text w) = w := by
  have hbyte : ∀ b : UInt8, UInt8.ofNat (Char.ofNat b.toNat).toNat = b := by
    intro b
    have hvalid : b.toNat.isValidChar := by
      have := b.toNat_lt
      exact .inl (by omega)
    rw [Char.toNat_ofNat,if_pos hvalid,UInt8.ofNat_toNat]
  simp [bytes,text,Function.comp_def,hbyte]

/-- The digits of a number. -/
def digitsOf (n : ℕ) : List UInt8 := bytes (toString n)

theorem digitsOf_eq (n : ℕ) :
    digitsOf n = (Nat.toDigits 10 n).map fun c => UInt8.ofNat c.toNat := by
  simp [digitsOf,bytes]

theorem digit_byte {c : Char} (h : c.isDigit) : isDigit (UInt8.ofNat c.toNat) ∧
    (UInt8.ofNat c.toNat).toNat = c.toNat := by
  have hc : 48 ≤ c.toNat ∧ c.toNat ≤ 57 := by simpa [Char.isDigit,UInt32.le_iff_toNat_le] using h
  have hbyte : (UInt8.ofNat c.toNat).toNat = c.toNat := by
    rw [UInt8.toNat_ofNat']
    omega
  refine ⟨?_,hbyte⟩
  simp only [isDigit,Bool.and_eq_true,decide_eq_true_eq,UInt8.le_iff_toNat_le,hbyte]
  exact hc

theorem foldl_digits (cs : List Char) (h : ∀ c ∈ cs, c.isDigit) (n : ℕ) :
    (cs.map fun c => UInt8.ofNat c.toNat).foldl (fun n b => 10 * n + (b.toNat - 48)) n =
      Nat.ofDigitChars 10 cs n := by
  induction cs generalizing n with
  | nil => rfl
  | cons c cs ih =>
    rw [List.map_cons,List.foldl_cons,(digit_byte (h c (by simp))).2,
      ih (fun d hd => h d (by simp [hd])),Nat.ofDigitChars_cons]
    rfl

theorem digitsOf_digit (n : ℕ) : digitsOf n ≠ [] ∧ ∀ b ∈ digitsOf n, isDigit b := by
  rw [digitsOf_eq]
  refine ⟨by simp [Nat.toDigits_ne_nil],fun b hb => ?_⟩
  obtain ⟨c,hc,rfl⟩ := List.mem_map.mp hb
  exact (digit_byte (Nat.isDigit_of_mem_toDigits (by decide) (by decide) hc)).1

theorem readDigits_digitsOf (n : ℕ) : readDigits (digitsOf n) = some n := by
  obtain ⟨hne,hall⟩ := digitsOf_digit n
  rw [readDigits,if_pos ⟨hne,by simpa using hall⟩,digitsOf_eq,foldl_digits]
  · exact congrArg some Nat.ofDigitChars_ten_toDigits
  · exact fun c hc => Nat.isDigit_of_mem_toDigits (by decide) (by decide) hc

theorem fromCharsInt64_nonneg {n : ℕ} (h : n < 2 ^ 63) :
    fromCharsInt64 (digitsOf n) = some (Int64.ofNat n) := by
  obtain ⟨-,hall⟩ := digitsOf_digit n
  have hread := readDigits_digitsOf n
  unfold fromCharsInt64
  split
  · next digits hdigits =>
    have := hall 45 (by simp [hdigits])
    exact absurd this (by decide)
  · rw [hread,Option.bind_some,if_pos h]

theorem fromCharsInt64_negative {n : ℕ} (h : n ≤ 2 ^ 63) :
    fromCharsInt64 (45::digitsOf n) = some (Int64.ofInt (-n)) := by
  rw [fromCharsInt64,readDigits_digitsOf,Option.bind_some,if_pos h]

/-- The text of an integer: a sign, or none, and digits. -/
theorem integer_text (n : Int64) : ∃ sign digits, (sign = [] ∨ sign = [45]) ∧ digits ≠ [] ∧
    bytes (toString n.toInt) = sign ++ digits ∧ (∀ b ∈ digits, isDigit b) ∧
    fromCharsInt64 (sign ++ digits) = some n := by
  have hlow := n.le_toInt
  have hhigh := n.toInt_lt
  rw [Int.toString_eq_repr,Int.repr_eq_if]
  by_cases h : 0 ≤ n.toInt
  · obtain ⟨hne,hall⟩ := digitsOf_digit n.toInt.toNat
    refine ⟨[],digitsOf n.toInt.toNat,.inl rfl,hne,by simp [h,digitsOf],hall,?_⟩
    rw [List.nil_append,fromCharsInt64_nonneg (by omega)]
    have hint : Int64.ofInt n.toInt = n := Int64.ofInt_toInt n
    rw [← Int.toNat_of_nonneg h,Int64.ofInt_eq_ofNat] at hint
    rw [hint]
  · obtain ⟨hne,hall⟩ := digitsOf_digit (-n.toInt).toNat
    refine ⟨[45],digitsOf (-n.toInt).toNat,.inr rfl,hne,?_,hall,?_⟩
    · rw [if_neg h,bytes_append]
      rfl
    · rw [List.singleton_append,fromCharsInt64_negative (by omega),
        Int.toNat_of_nonneg (by omega),Int.neg_neg,Int64.ofInt_toInt]

theorem lexes_integer (n : Int64) : ∃ w, bytes (toString n.toInt) = w ∧
    fromCharsInt64 w = some n ∧ Lexes Delimits w [(.integer,w)] := by
  obtain ⟨sign,digits,hsign,hne,htext,hall,hread⟩ := integer_text n
  obtain ⟨d,rest,rfl⟩ := List.exists_cons_of_ne_nil hne
  refine ⟨sign ++ d::rest,htext,hread,lexes_chunk fun later hlater => ?_⟩
  refine .number hsign (hall d (by simp)) (fun c hc => hall c (by simp [hc])) (fun b hb => ?_) ?_
  · rcases hlater b hb with rfl | rfl | rfl <;> decide
  · rintro ⟨hpoint,-⟩
    simpa using hlater 46 hpoint

theorem quoted_of_plain {value : List UInt8} (h : 39 ∉ value) : Quoted (value ++ [39]) value := by
  induction value with
  | nil => exact .last
  | cons b value ih =>
    have hb : b ≠ 39 := fun heq => h (by simp [heq])
    exact .byte hb (ih fun hin => h (List.mem_cons_of_mem b hin))

theorem lexes_string {value : List UInt8} (h : 39 ∉ value) :
    Lexes Delimits (39::value ++ [39]) [(.string,value)] := by
  refine lexes_chunk fun later hlater => .string (quoted_of_plain h) fun hquote => ?_
  simpa using hlater 39 hquote

/-! ### Expressions -/

theorem Lexes.enclosed (h : Lexes Delimits txt ls) :
    Always ([40] ++ (txt ++ [41])) ((.leftParen,[40])::(ls ++ [(.rightParen,[41])])) := by
  refine always_open.append (h.append always_close fun rest _ b hb => ?_) fun _ _ => trivial
  exact .inr (.inl (by simpa using hb.symm))

/-- An operand, words or an operator between blanks, and an operand. -/
theorem Lexes.between {op : List UInt8} {o : List Lexeme} (h : Lexes Delimits txt ls)
    (hop : Always op o) (h' : Lexes Delimits txt' ls') :
    Lexes Delimits (txt ++ (32::op ++ txt')) (ls ++ (o ++ ls')) := by
  have hspaced : Always (32::op) o := by simpa using always_space.append hop fun _ _ => trivial
  refine h.append (hspaced.append h' fun _ _ => trivial) fun rest _ => ?_
  exact delimits_space _

end Parser
end OurSql
