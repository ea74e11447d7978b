import Mathlib.Order.Nat
import Mathlib.Tactic.Tauto
import OurSql.Common

/-! The lexer. A text is the list of its bytes; the lexer is in the branch of its main
loop that the next byte chooses and keeps the place in the text as it consumes bytes. -/
namespace OurSql
namespace Parser

inductive TokenType
  | identifier | integer | string | true | false | null | comma | dot | leftParen | rightParen
  | star | equal | notEqual | greater | greaterEqual | less | lessEqual | plus | minus | slash
  | and | or | not | semicolon | create | table | index | unique | on | insert | into | values
  | select | explain | distinct | from_ | where_ | is | between | in_ | like | group | having
  | order | by_ | limit | asc | desc | as | exists_ | join | inner | left | right | full | outer
  | delete | drop | alter | add | column | rename | to | default | primary | key | begin | commit
  | rollback | update | set | int | varchar | endOfFile
  deriving DecidableEq, Repr

/-- The offsets are those of the first byte and of the byte behind the token. -/
structure Token where
  type : TokenType
  lexeme : List UInt8
  startOffset : ℕ
  endOffset : ℕ
  line : ℕ
  column : ℕ
  endLine : ℕ
  endColumn : ℕ
  deriving DecidableEq, Repr

/-- Bytes as characters: names, keywords and operators are ASCII. -/
def text (bytes : List UInt8) : String := String.ofList (bytes.map fun b => Char.ofNat b.toNat)

def isSpace (b : UInt8) : Bool := (9 ≤ b && b ≤ 13) || b == 32
def isDigit (b : UInt8) : Bool := 48 ≤ b && b ≤ 57
def isUpper (b : UInt8) : Bool := 65 ≤ b && b ≤ 90
def isAlpha (b : UInt8) : Bool := isUpper b || (97 ≤ b && b ≤ 122)
def isWordStart (b : UInt8) : Bool := isAlpha b || b == 95
def isWordByte (b : UInt8) : Bool := isAlpha b || isDigit b || b == 95

def lowerAscii (b : UInt8) : UInt8 := if isUpper b then b + 32 else b

def keywords : List (String × TokenType) :=
  [("create",.create),("table",.table),("index",.index),("unique",.unique),("on",.on),
   ("insert",.insert),("into",.into),("values",.values),("select",.select),("explain",.explain),
   ("distinct",.distinct),("from",.from_),("where",.where_),("is",.is),("between",.between),
   ("in",.in_),("like",.like),("group",.group),("having",.having),("order",.order),("by",.by_),
   ("limit",.limit),("asc",.asc),("desc",.desc),("as",.as),("exists",.exists_),("join",.join),
   ("inner",.inner),("left",.left),("right",.right),("full",.full),("outer",.outer),
   ("delete",.delete),("drop",.drop),("alter",.alter),("add",.add),("column",.column),
   ("rename",.rename),("to",.to),("default",.default),("primary",.primary),("key",.key),
   ("begin",.begin),("commit",.commit),("rollback",.rollback),("update",.update),("set",.set),
   ("int",.int),("varchar",.varchar),("and",.and),("or",.or),("not",.not),("true",.true),
   ("false",.false),("null",.null)]

/-- `KeywordType`: a word that is no keyword is an identifier. -/
def keywordType (word : List UInt8) : TokenType := (keywords.lookup (text word)).getD .identifier

def tokenTypeName : TokenType → String
  | .identifier => "identifier"
  | .integer => "integer"
  | .string => "string"
  | .true => "TRUE"
  | .false => "FALSE"
  | .null => "NULL"
  | .comma => "','"
  | .dot => "'.'"
  | .leftParen => "'('"
  | .rightParen => "')'"
  | .star => "'*'"
  | .equal => "'='"
  | .notEqual => "'!='"
  | .greater => "'>'"
  | .greaterEqual => "'>='"
  | .less => "'<'"
  | .lessEqual => "'<='"
  | .plus => "'+'"
  | .minus => "'-'"
  | .slash => "'/'"
  | .and => "AND"
  | .or => "OR"
  | .not => "NOT"
  | .semicolon => "';'"
  | .create => "CREATE"
  | .table => "TABLE"
  | .index => "INDEX"
  | .unique => "UNIQUE"
  | .on => "ON"
  | .insert => "INSERT"
  | .into => "INTO"
  | .values => "VALUES"
  | .select => "SELECT"
  | .explain => "EXPLAIN"
  | .distinct => "DISTINCT"
  | .from_ => "FROM"
  | .where_ => "WHERE"
  | .is => "IS"
  | .between => "BETWEEN"
  | .in_ => "IN"
  | .like => "LIKE"
  | .group => "GROUP"
  | .having => "HAVING"
  | .order => "ORDER"
  | .by_ => "BY"
  | .limit => "LIMIT"
  | .asc => "ASC"
  | .desc => "DESC"
  | .as => "AS"
  | .exists_ => "EXISTS"
  | .join => "JOIN"
  | .inner => "INNER"
  | .left => "LEFT"
  | .right => "RIGHT"
  | .full => "FULL"
  | .outer => "OUTER"
  | .delete => "DELETE"
  | .drop => "DROP"
  | .alter => "ALTER"
  | .add => "ADD"
  | .column => "COLUMN"
  | .rename => "RENAME"
  | .to => "TO"
  | .default => "DEFAULT"
  | .primary => "PRIMARY"
  | .key => "KEY"
  | .begin => "BEGIN"
  | .commit => "COMMIT"
  | .rollback => "ROLLBACK"
  | .update => "UPDATE"
  | .set => "SET"
  | .int => "INT"
  | .varchar => "VARCHAR"
  | .endOfFile => "EOF"

/-- The three counters of the lexer. -/
structure Place where
  offset : ℕ := 0
  line : ℕ := 1
  column : ℕ := 1
  deriving DecidableEq, Repr

/-- Consume one byte: a line feed starts a line. -/
def Place.advance (place : Place) (b : UInt8) : Place :=
  if b = 10 then {offset := place.offset + 1,line := place.line + 1,column := 1}
  else {place with offset := place.offset + 1,column := place.column + 1}

def Place.text (place : Place) : String := toString place.line ++ ":" ++ toString place.column

def makeToken (type : TokenType) (start stop : Place) (lexeme : List UInt8) : Token where
  type := type
  lexeme := lexeme
  startOffset := start.offset
  endOffset := stop.offset
  line := start.line
  column := start.column
  endLine := stop.line
  endColumn := stop.column

/-- What an inner loop of the lexer has consumed and where it has stopped. -/
structure Scan where
  taken : List UInt8
  rest : List UInt8
  place : Place
  deriving DecidableEq, Repr

def scanWhile (p : UInt8 → Bool) : List UInt8 → Place → Scan
  | [], place => ⟨[],[],place⟩
  | b::rest, place =>
    if p b then
      let scan := scanWhile p rest (place.advance b)
      {scan with taken := b::scan.taken}
    else ⟨[],b::rest,place⟩

/-- The body of a block comment; `none` if it is not closed. -/
def scanComment : List UInt8 → Place → Option Scan
  | [], _ => none
  | b::rest, place =>
    if b = 42 ∧ rest.head? = some 47 then
      some ⟨[],rest.tail,(place.advance b).advance 47⟩
    else scanComment rest (place.advance b)

/-- A string behind its first quote; two quotes stand for one, `none` if it is not closed. -/
def scanString : List UInt8 → Place → Option Scan
  | [], _ => none
  | [b], place => if b = 39 then some ⟨[],[],place.advance b⟩ else none
  | b::b'::rest, place =>
    if b = 39 then
      if b' = 39 then
        (scanString rest ((place.advance b).advance b')).map fun scan =>
          {scan with taken := 39::scan.taken}
      else some ⟨[],b'::rest,place.advance b⟩
    else
      (scanString (b'::rest) (place.advance b)).map fun scan =>
        {scan with taken := b::scan.taken}

/-- The operators of two bytes whose second is an equals sign, by their first. -/
def pairs : List (UInt8 × TokenType) :=
  [(62,.greaterEqual),(60,.lessEqual),(33,.notEqual),(61,.equal)]

def punctuations : List (UInt8 × TokenType) :=
  [(44,.comma),(46,.dot),(40,.leftParen),(41,.rightParen),(42,.star),(61,.equal),(62,.greater),
   (60,.less),(33,.notEqual),(43,.plus),(45,.minus),(47,.slash),(59,.semicolon)]

/-- One round of the main loop: the token it makes, if any, and where it stops. -/
abbrev Round := Option Token × List UInt8 × Place

def lexWord (sql : List UInt8) (start : Place) : Round :=
  let scan := scanWhile isWordByte sql start
  let word := scan.taken.map lowerAscii
  (some (makeToken (keywordType word) start scan.place word),scan.rest,scan.place)

/-- `sign` is what has been taken of the number, up to `place`. -/
def lexNumber (sign sql : List UInt8) (start place : Place) : Result Round :=
  let digits := scanWhile isDigit sql place
  if digits.rest.head? = some 46 ∧ digits.rest.tail.head?.any isDigit then
    let fraction := scanWhile (fun b => isDigit b || b == 46) digits.rest digits.place
    fail .invalidArgument ("非法数字格式 '" ++ text (sign ++ digits.taken ++ fraction.taken) ++
      "'，位置 " ++ start.text)
  else
    .ok (some (makeToken .integer start digits.place (sign ++ digits.taken)),digits.rest,
      digits.place)

def lexString (sql : List UInt8) (start : Place) : Result Round :=
  match scanString sql (start.advance 39) with
  | some scan => .ok (some (makeToken .string start scan.place scan.taken),scan.rest,scan.place)
  | none => fail .invalidArgument ("未闭合字符串，位置 " ++ start.text)

def lexComment (sql : List UInt8) (start : Place) : Result Round :=
  match scanComment sql ((start.advance 47).advance 42) with
  | some scan => .ok (none,scan.rest,scan.place)
  | none => fail .invalidArgument ("未闭合块注释，位置 " ++ start.text)

/-- Operators of two bytes come before those of one. -/
def lexOperator (b : UInt8) (rest : List UInt8) (start : Place) : Result Round :=
  let next := start.advance b
  match pairs.lookup b, rest with
  | some type, 61::rest' =>
    .ok (some (makeToken type start (next.advance 61) [b,61]),rest',next.advance 61)
  | _, _ =>
    if b = 60 ∧ rest.head? = some 62 then
      .ok (some (makeToken .notEqual start (next.advance 62) [60,62]),rest.tail,next.advance 62)
    else
      match punctuations.lookup b with
      | some type => .ok (some (makeToken type start next [b]),rest,next)
      | none => fail .invalidArgument ("非法字符 '" ++ text [b] ++ "'，位置 " ++ start.text)

def lexRound (b : UInt8) (rest : List UInt8) (start : Place) : Result Round :=
  if isSpace b then .ok (none,rest,start.advance b)
  else if b = 45 ∧ rest.head? = some 45 then
    let scan := scanWhile (fun c => c != 10 && c != 13) (b::rest) start
    .ok (none,scan.rest,scan.place)
  else if b = 47 ∧ rest.head? = some 42 then lexComment rest.tail start
  else if isWordStart b then .ok (lexWord (b::rest) start)
  else if isDigit b then lexNumber [] (b::rest) start start
  else if b = 45 ∧ rest.head?.any isDigit then lexNumber [b] rest start (start.advance b)
  else if b = 39 then lexString rest start
  else lexOperator b rest start

/-- The main loop; `none` if the fuel does not last. -/
def tokenizeFrom : ℕ → List UInt8 → Place → Option (Result (List Token))
  | 0, _, _ => none
  | _+1, [], place => some (.ok [makeToken .endOfFile place place []])
  | fuel+1, b::rest, place =>
    match lexRound b rest place with
    | .error e => some (.error e)
    | .ok round => (tokenizeFrom fuel round.2.1 round.2.2).map (·.map (round.1.toList ++ ·))

def tokenize (fuel : ℕ) (sql : List UInt8) : Option (Result (List Token)) :=
  tokenizeFrom fuel sql {}

/-! ### What the tables hold -/

theorem forall_of_lookup {α : Type} [BEq α] [LawfulBEq α] {table : List (α × TokenType)}
    {P : α → TokenType → Prop} (hall : ∀ k ∈ table, P k.1 k.2) {a : α} {type : TokenType}
    (h : table.lookup a = some type) : P a type := by
  obtain ⟨before,after,rfl,-⟩ := List.lookup_eq_some_iff.mp h
  exact hall (a,type) (by simp)

theorem forall_keywordType {P : TokenType → Prop} (hid : P .identifier)
    (hall : ∀ k ∈ keywords, P k.2) (word : List UInt8) : P (keywordType word) := by
  unfold keywordType
  rcases h : keywords.lookup (text word) with - | type
  · exact hid
  · exact forall_of_lookup (P := fun _ type => P type) hall h

theorem keywordType_ne {type : TokenType} (hid : type ≠ .identifier)
    (hall : ∀ k ∈ keywords, k.2 ≠ type) (word : List UInt8) : keywordType word ≠ type :=
  forall_keywordType (P := (· ≠ type)) hid.symm hall word

theorem ne_endOfFile_of_lookup {α : Type} [BEq α] [LawfulBEq α] {table : List (α × TokenType)}
    (hall : ∀ k ∈ table, k.2 ≠ .endOfFile) {a : α} {type : TokenType}
    (h : table.lookup a = some type) : type ≠ .endOfFile :=
  forall_of_lookup (P := fun _ type => type ≠ .endOfFile) hall h

theorem keywordType_ne_endOfFile (word : List UInt8) : keywordType word ≠ .endOfFile :=
  keywordType_ne (by decide) (by decide) word

/-! ### Every round consumes a byte, and only the end makes an EOF token -/

theorem scanWhile_length (p : UInt8 → Bool) (sql : List UInt8) (place : Place) :
    (scanWhile p sql place).rest.length ≤ sql.length := by
  induction sql generalizing place with
  | nil => simp [scanWhile]
  | cons b rest ih =>
    by_cases h : p b
    · simpa [scanWhile,h] using Nat.le_succ_of_le (ih (place.advance b))
    · simp [scanWhile,h]

theorem scanWhile_length_of_first {p : UInt8 → Bool} {b : UInt8} (h : p b) (rest : List UInt8)
    (place : Place) : (scanWhile p (b::rest) place).rest.length ≤ rest.length := by
  simpa [scanWhile,h] using scanWhile_length p rest (place.advance b)

theorem scanComment_length {sql : List UInt8} {place : Place} {scan : Scan}
    (h : scanComment sql place = some scan) : scan.rest.length ≤ sql.length := by
  induction sql generalizing place with
  | nil => simp [scanComment] at h
  | cons b rest ih =>
    rw [scanComment] at h
    split at h
    · obtain rfl := Option.some.inj h
      simp only [List.length_tail,List.length_cons]
      omega
    · exact Nat.le_succ_of_le (ih h)

theorem scanString_length {sql : List UInt8} {place : Place} {scan : Scan}
    (h : scanString sql place = some scan) : scan.rest.length ≤ sql.length := by
  induction sql, place using scanString.induct generalizing scan with
  | case1 => simp [scanString] at h
  | case2 place =>
    obtain rfl := Option.some.inj (by simpa [scanString] using h)
    simp
  | case3 b place hb => simp [scanString,hb] at h
  | case4 place rest ih =>
    simp only [scanString,if_true,Option.map_eq_some_iff] at h
    obtain ⟨inner,hinner,rfl⟩ := h
    have := ih hinner
    simp only [List.length_cons]
    omega
  | case5 b' rest place hb' =>
    obtain rfl := Option.some.inj (by simpa [scanString,hb'] using h)
    simp
  | case6 b b' rest place hb ih =>
    simp only [scanString,hb,if_false,Option.map_eq_some_iff] at h
    obtain ⟨inner,hinner,rfl⟩ := h
    have := ih hinner
    exact Nat.le_succ_of_le this

/-- The round leaves at most `n` bytes, and no EOF token. -/
def Round.Sound (n : ℕ) (round : Round) : Prop :=
  round.2.1.length ≤ n ∧ ∀ t ∈ round.1, t.type ≠ .endOfFile

theorem isWordByte_of_start {b : UInt8} (h : isWordStart b) : isWordByte b := by
  simp only [isWordStart,isWordByte,Bool.or_eq_true] at h ⊢
  tauto

theorem lexWord_sound {b : UInt8} (h : isWordStart b) (rest : List UInt8) (start : Place) :
    (lexWord (b::rest) start).Sound rest.length := by
  refine ⟨scanWhile_length_of_first (isWordByte_of_start h) rest start,?_⟩
  simp [lexWord,makeToken,keywordType_ne_endOfFile]

theorem lexNumber_sound {sign sql : List UInt8} {start place : Place} {round : Round} {n : ℕ}
    (h : lexNumber sign sql start place = .ok round)
    (hn : (scanWhile isDigit sql place).rest.length ≤ n) : round.Sound n := by
  unfold lexNumber at h
  dsimp only at h
  split at h
  · cases h
  · obtain rfl := Except.ok.inj h
    exact ⟨hn,by simp [makeToken]⟩

theorem lexString_sound {sql : List UInt8} {start : Place} {round : Round}
    (h : lexString sql start = .ok round) : round.Sound sql.length := by
  unfold lexString at h
  split at h
  next scan hscan =>
    obtain rfl := Except.ok.inj h
    exact ⟨scanString_length hscan,by simp [makeToken]⟩
  next => cases h

theorem lexComment_sound {sql : List UInt8} {start : Place} {round : Round}
    (h : lexComment sql start = .ok round) : round.Sound sql.length := by
  unfold lexComment at h
  split at h
  next scan hscan =>
    obtain rfl := Except.ok.inj h
    exact ⟨scanComment_length hscan,by simp⟩
  next => cases h

theorem lexOperator_sound {b : UInt8} {rest : List UInt8} {start : Place} {round : Round}
    (h : lexOperator b rest start = .ok round) : round.Sound rest.length := by
  unfold lexOperator at h
  dsimp only at h
  split at h
  next type rest' htype =>
    obtain rfl := Except.ok.inj h
    exact ⟨by simp,by simp [makeToken,ne_endOfFile_of_lookup (by decide) htype]⟩
  next =>
    split at h
    · obtain rfl := Except.ok.inj h
      exact ⟨by simp,by simp [makeToken]⟩
    · split at h
      next type htype =>
        obtain rfl := Except.ok.inj h
        exact ⟨le_rfl,by simp [makeToken,ne_endOfFile_of_lookup (by decide) htype]⟩
      next => cases h

theorem lexRound_sound {b : UInt8} {rest : List UInt8} {start : Place} {round : Round}
    (h : lexRound b rest start = .ok round) : round.Sound rest.length := by
  unfold lexRound at h
  dsimp only at h
  split at h
  · obtain rfl := Except.ok.inj h
    exact ⟨le_rfl,by simp⟩
  split at h
  next hline =>
    obtain rfl := Except.ok.inj h
    exact ⟨scanWhile_length_of_first (by simp [hline.1]) rest start,by simp⟩
  split at h
  · have := lexComment_sound h
    exact ⟨this.1.trans (by simp),this.2⟩
  split at h
  next hword =>
    obtain rfl := Except.ok.inj h
    exact lexWord_sound hword rest start
  split at h
  next hdigit => exact lexNumber_sound h (scanWhile_length_of_first hdigit rest start)
  split at h
  · exact lexNumber_sound h (scanWhile_length isDigit rest _)
  split at h
  · exact lexString_sound h
  · exact lexOperator_sound h

/-- With a unit of fuel for each byte and one more the lexer ends: in an error, or in tokens,
one for each byte at most, and the EOF token behind them, which is the only one. -/
theorem tokenizeFrom_total {fuel : ℕ} {sql : List UInt8} (h : sql.length < fuel) (place : Place) :
    (∃ e, tokenizeFrom fuel sql place = some (.error e)) ∨
      ∃ tokens eof, tokenizeFrom fuel sql place = some (.ok (tokens ++ [eof])) ∧
        tokens.length ≤ sql.length ∧ eof.type = .endOfFile ∧ ∀ t ∈ tokens, t.type ≠ .endOfFile := by
  induction fuel generalizing sql place with
  | zero => omega
  | succ fuel ih =>
    cases sql with
    | nil => exact .inr ⟨[],makeToken .endOfFile place place [],rfl,le_rfl,rfl,by simp⟩
    | cons b rest =>
      rcases hround : lexRound b rest place with e | round
      · exact .inl ⟨e,by simp [tokenizeFrom,hround]⟩
      · obtain ⟨hlen,htoken⟩ := lexRound_sound hround
        have hlt : round.2.1.length < fuel := by
          simp only [List.length_cons] at h
          omega
        rcases ih hlt round.2.2 with ⟨e,he⟩ | ⟨tokens,eof,htokens,hcount,heof,hall⟩
        · exact .inl ⟨e,by simp [tokenizeFrom,hround,he,Except.map]⟩
        · refine .inr ⟨round.1.toList ++ tokens,eof,?_,?_,heof,?_⟩
          · simp [tokenizeFrom,hround,htokens,Except.map]
          · have hone : round.1.toList.length ≤ 1 := by cases round.1 <;> simp
            simp only [List.length_append,List.length_cons]
            omega
          · intro t ht
            rcases List.mem_append.mp ht with h1 | h2
            · exact htoken t (Option.mem_toList.mp h1)
            · exact hall t h2

end Parser
end OurSql
