import Mathlib.Algebra.BigOperators.Group.List.Basic
import Mathlib.Algebra.GroupWithZero.Nat
import OurSql.Parser.Chunks

/-! The scanner of the interactive client. It knows strings but no comments, so what a comment
holds can hide a terminator from it or show it one. -/
namespace OurSql
namespace Parser

/-- The loop of `HasStatementTerminator`. -/
def scanTerminator : Bool → List UInt8 → Bool
  | _, [] => false
  | inString, [b] => b != 39 && !inString && b == 59
  | inString, b::b'::rest =>
    if b = 39 then
      if inString && b' == 39 then scanTerminator inString rest
      else scanTerminator (!inString) (b'::rest)
    else if !inString && b == 59 then true
    else scanTerminator inString (b'::rest)

def hasStatementTerminator (text : List UInt8) : Bool := scanTerminator false text

/-- A semicolon behind an even number of apostrophes, `n` of them in front of the text. -/
def Shown (n : ℕ) (text : List UInt8) : Prop :=
  ∃ x y, text = x ++ 59::y ∧ (n + x.count 39) % 2 = 0

theorem not_shown_nil (n : ℕ) : ¬Shown n [] := by
  rintro ⟨x,y,h,-⟩
  simp at h

theorem shown_cons (n : ℕ) (b : UInt8) (text : List UInt8) :
    Shown n (b::text) ↔ b = 59 ∧ n % 2 = 0 ∨ Shown (n + [b].count 39) text := by
  constructor
  · rintro ⟨x,y,h,heven⟩
    cases x with
    | nil => exact .inl ⟨(List.cons.inj h).1,heven⟩
    | cons c x =>
      obtain ⟨rfl,rfl⟩ := List.cons.inj h
      refine .inr ⟨x,y,rfl,?_⟩
      rw [← List.singleton_append,List.count_append] at heven
      omega
  · rintro (⟨rfl,heven⟩ | ⟨x,y,rfl,heven⟩)
    · exact ⟨[],text,rfl,heven⟩
    · refine ⟨b::x,y,rfl,?_⟩
      rw [← List.singleton_append,List.count_append]
      omega

theorem shown_append (n : ℕ) (text text' : List UInt8) :
    Shown n (text ++ text') ↔ Shown n text ∨ Shown (n + text.count 39) text' := by
  induction text generalizing n with
  | nil => simp [not_shown_nil]
  | cons b text ih =>
    rw [List.cons_append,shown_cons,shown_cons,ih,or_assoc]
    have hcount : (b::text).count 39 = [b].count 39 + text.count 39 := by
      rw [← List.singleton_append,List.count_append]
    rw [hcount,Nat.add_assoc]

theorem shown_congr {n m : ℕ} (h : n % 2 = m % 2) (text : List UInt8) :
    Shown n text ↔ Shown m text := by
  have heven : ∀ k, (n + k) % 2 = (m + k) % 2 := fun k => by omega
  simp only [Shown,heven]

theorem shown_quote (n : ℕ) (text : List UInt8) : Shown n (39::text) ↔ Shown (n + 1) text := by
  rw [shown_cons]
  simp

theorem shown_byte {b : UInt8} (hb : b ≠ 39) (n : ℕ) (text : List UInt8) :
    Shown n (b::text) ↔ b = 59 ∧ n % 2 = 0 ∨ Shown n text := by
  rw [shown_cons,List.count_singleton,beq_false_of_ne hb]
  simp

/-- The scanner counts apostrophes: two of them in a string leave it where it was. -/
theorem scanTerminator_iff (inString : Bool) (text : List UInt8) :
    scanTerminator inString text ↔ Shown inString.toNat text := by
  induction inString, text using scanTerminator.induct with
  | case1 inString => simp [scanTerminator,not_shown_nil]
  | case2 inString b =>
    rw [shown_cons]
    simp only [scanTerminator,not_shown_nil,or_false]
    cases inString
    · by_cases hb : b = 59
      · simp [hb]
      · simp [hb]
    · simp
  | case3 inString b' rest h ih =>
    simp only [Bool.and_eq_true,beq_iff_eq] at h
    obtain ⟨rfl,rfl⟩ := h
    rw [scanTerminator,if_pos rfl,if_pos (by simp),ih,shown_quote,shown_quote]
    exact shown_congr (by decide) rest
  | case4 inString b' rest h ih =>
    rw [scanTerminator,if_pos rfl,if_neg h,ih,shown_quote]
    exact shown_congr (by cases inString <;> rfl) _
  | case5 inString b b' rest hb h =>
    simp only [Bool.and_eq_true,Bool.not_eq_true',beq_iff_eq] at h
    obtain ⟨rfl,rfl⟩ := h
    rw [scanTerminator,if_neg hb,if_pos (by simp),shown_byte hb]
    simp
  | case6 inString b b' rest hb h ih =>
    rw [scanTerminator,if_neg hb,if_neg h,ih,shown_byte hb]
    have hno : ¬(b = 59 ∧ inString.toNat % 2 = 0) := by
      rintro ⟨rfl,heven⟩
      cases inString
      · exact h rfl
      · simp at heven
    rw [or_iff_right hno]

theorem hasStatementTerminator_iff (text : List UInt8) :
    hasStatementTerminator text ↔ Shown 0 text := scanTerminator_iff false text

/-! ### What a chunk shows -/

theorem Quoted.count {raw value : List UInt8} (h : Quoted raw value) : raw.count 39 % 2 = 1 := by
  induction h with
  | last => rfl
  | quotes h ih =>
    simp only [List.count_cons_self]
    omega
  | byte hb h ih => rwa [List.count_cons_of_ne hb]

/-- Inside a string every semicolon stands behind an odd number of its apostrophes. -/
theorem Quoted.shown {raw value : List UInt8} (h : Quoted raw value) (n : ℕ) :
    Shown n raw ↔ n % 2 = 0 ∧ 59 ∈ raw := by
  induction h generalizing n with
  | last => simp [shown_quote,not_shown_nil]
  | quotes h ih =>
    rw [shown_quote,shown_quote,ih]
    have heven : (n + 1 + 1) % 2 = 0 ↔ n % 2 = 0 := by omega
    simp [heven]
  | @byte b raw value hb h ih =>
    rw [shown_byte hb,ih,List.mem_cons]
    have hcomm : (59 : UInt8) = b ↔ b = 59 := eq_comm
    rw [hcomm]
    tauto

theorem shown_string {raw value : List UInt8} (h : Quoted raw value) (n : ℕ) :
    Shown n (39::raw) ↔ n % 2 = 1 ∧ 59 ∈ 39::raw := by
  rw [shown_quote,h.shown]
  have hodd : (n + 1) % 2 = 0 ↔ n % 2 = 1 := by omega
  simp [hodd]

theorem shown_plain {text : List UInt8} (h : 39 ∉ text) (n : ℕ) :
    Shown n text ↔ n % 2 = 0 ∧ 59 ∈ text := by
  induction text with
  | nil => simp [not_shown_nil]
  | cons b text ih =>
    simp only [List.mem_cons,not_or] at h
    have hcomm : (59 : UInt8) = b ↔ b = 59 := eq_comm
    rw [shown_byte (Ne.symm h.1),ih h.2,List.mem_cons,hcomm]
    tauto

/-- A lexeme that is no string holds no apostrophe, and a semicolon only if it is one. -/
theorem plain_of_chunk {used rest : List UInt8} {l : Lexeme} (h : Chunk used rest (some l))
    (hl : l.1 ≠ .string) : 39 ∉ used ∧ (59 ∈ used ↔ l.1 = .semicolon) := by
  have hnot : ∀ p : UInt8 → Bool, p 39 = false → p 59 = false → (∀ c ∈ used, p c) →
      39 ∉ used ∧ 59 ∉ used := fun p h1 h2 hall =>
    ⟨fun hin => by simpa [h1] using hall 39 hin,fun hin => by simpa [h2] using hall 59 hin⟩
  cases h with
  | @word b tail rest hb htail hrest =>
    have hword := isWordByte_of_start hb
    obtain ⟨h1,h2⟩ := hnot isWordByte rfl rfl (by simpa [hword] using htail)
    exact ⟨h1,iff_of_false h2 (keywordType_ne (by simp) (by decide) _)⟩
  | @number sign d digits rest hsign hd hdigits =>
    obtain ⟨h1,h2⟩ := hnot (fun c => c == 45 || isDigit c) rfl rfl (by
      intro c hc
      rcases List.mem_append.mp hc with hc | hc
      · rcases hsign with rfl | rfl
        · simp at hc
        · simp [List.mem_singleton.mp hc]
      · rcases List.mem_cons.mp hc with rfl | hc
        · simp [hd]
        · simp [hdigits c hc])
    exact ⟨h1,iff_of_false h2 (by simp)⟩
  | string => exact absurd rfl hl
  | pair rest hb =>
    obtain ⟨h1,h2,h3⟩ := forall_of_lookup
      (P := fun b type => b ≠ 39 ∧ b ≠ 59 ∧ type ≠ .semicolon) (by decide) hb
    refine ⟨by simp [Ne.symm h1],iff_of_false ?_ h3⟩
    simp [Ne.symm h2]
  | unequal => simp
  | punctuation hb hrest =>
    obtain ⟨h1,h2⟩ := forall_of_lookup
      (P := fun b type => b ≠ 39 ∧ (59 = b ↔ type = .semicolon)) (by decide) hb
    exact ⟨by simp [Ne.symm h1],by simp [h2]⟩

theorem string_of_chunk {used rest : List UInt8} {l : Lexeme} (h : Chunk used rest (some l))
    (hl : l.1 = .string) : ∃ raw, used = 39::raw ∧ Quoted raw l.2 := by
  cases h with
  | word => exact absurd hl (keywordType_ne (by simp) (by decide) _)
  | number => simp at hl
  | string hraw => exact ⟨_,rfl,hraw⟩
  | pair _ hb =>
    exact absurd hl (forall_of_lookup (P := fun _ type => type ≠ .string) (by decide) hb)
  | unequal => simp at hl
  | punctuation hb =>
    exact absurd hl (forall_of_lookup (P := fun _ type => type ≠ .string) (by decide) hb)

/-- Lexemes hold their apostrophes in pairs, so only comments change the parity. -/
theorem count_of_chunk {used rest : List UInt8} {l : Lexeme} (h : Chunk used rest (some l)) :
    used.count 39 % 2 = 0 := by
  by_cases hl : l.1 = .string
  · obtain ⟨raw,rfl,hraw⟩ := string_of_chunk h hl
    have := hraw.count
    simp only [List.count_cons_self]
    omega
  · rw [List.count_eq_zero.mpr (plain_of_chunk h hl).1]

/-! ### The text as the lexer divides it -/

/-- The apostrophes in a comment. -/
def stray (piece : List UInt8 × Option Lexeme) : ℕ :=
  if piece.2.isNone then piece.1.count 39 else 0

def strays (pieces : Pieces) : ℕ := (pieces.map stray).sum

def Terminated (pieces : Pieces) : Prop := ∃ piece ∈ pieces, ∃ l ∈ piece.2, l.1 = .semicolon

/-- A terminator behind an even number of apostrophes in comments, `n` of them in front. -/
def Kept (n : ℕ) (pieces : Pieces) : Prop :=
  ∃ before piece after, pieces = before ++ piece::after ∧
    (∃ l ∈ piece.2, l.1 = .semicolon) ∧ (n + strays before) % 2 = 0

/-- A semicolon in a string behind an odd number of apostrophes in comments, or a semicolon in a
comment behind an even number of them, `n` of them in front. -/
def Misread (n : ℕ) (pieces : Pieces) : Prop :=
  ∃ before piece after, pieces = before ++ piece::after ∧
    ((∃ l ∈ piece.2, l.1 = .string) ∧ 59 ∈ piece.1 ∧ (n + strays before) % 2 = 1 ∨
      piece.2 = none ∧ Shown (n + strays before) piece.1)

theorem exists_split_cons {α : Type} {P : List α → α → Prop} (p : α) (ps : List α) :
    (∃ before x after, p::ps = before ++ x::after ∧ P before x) ↔
      P [] p ∨ ∃ before x after, ps = before ++ x::after ∧ P (p::before) x := by
  constructor
  · rintro ⟨before,x,after,h,hP⟩
    cases before with
    | nil =>
      obtain ⟨rfl,rfl⟩ := List.cons.inj h
      exact .inl hP
    | cons q before =>
      obtain ⟨rfl,rfl⟩ := List.cons.inj h
      exact .inr ⟨before,x,after,rfl,hP⟩
  · rintro (hP | ⟨before,x,after,rfl,hP⟩)
    · exact ⟨[],p,ps,rfl,hP⟩
    · exact ⟨p::before,x,after,rfl,hP⟩

theorem strays_cons (piece : List UInt8 × Option Lexeme) (pieces : Pieces) :
    strays (piece::pieces) = stray piece + strays pieces := by
  simp [strays]

theorem kept_cons (n : ℕ) (piece : List UInt8 × Option Lexeme) (pieces : Pieces) :
    Kept n (piece::pieces) ↔
      (∃ l ∈ piece.2, l.1 = .semicolon) ∧ n % 2 = 0 ∨ Kept (n + stray piece) pieces := by
  unfold Kept
  rw [exists_split_cons (P := fun before piece => (∃ l ∈ piece.2, l.1 = .semicolon) ∧
    (n + strays before) % 2 = 0)]
  simp only [strays_cons piece,← Nat.add_assoc]
  rfl

theorem misread_cons (n : ℕ) (piece : List UInt8 × Option Lexeme) (pieces : Pieces) :
    Misread n (piece::pieces) ↔
      ((∃ l ∈ piece.2, l.1 = .string) ∧ 59 ∈ piece.1 ∧ n % 2 = 1 ∨
        piece.2 = none ∧ Shown n piece.1) ∨ Misread (n + stray piece) pieces := by
  unfold Misread
  rw [exists_split_cons (P := fun before piece => (∃ l ∈ piece.2, l.1 = .string) ∧
    59 ∈ piece.1 ∧ (n + strays before) % 2 = 1 ∨ piece.2 = none ∧ Shown (n + strays before) piece.1)]
  simp only [strays_cons piece,← Nat.add_assoc]
  rfl

/-- What the scanner takes for a terminator: some that are, and what comments make it misread. -/
theorem shown_iff {sql : List UInt8} {pieces : Pieces} (h : Splits sql pieces) (n : ℕ) :
    Shown n sql ↔ Kept n pieces ∨ Misread n pieces := by
  induction h generalizing n with
  | nil => simp [not_shown_nil,Kept,Misread]
  | @cons used rest what pieces hchunk hrest ih =>
    rw [shown_append,kept_cons,misread_cons]
    cases what with
    | none =>
      have hstray : stray (used,none) = used.count 39 := rfl
      rw [ih,hstray]
      simp
      tauto
    | some l =>
      have hstray : stray (used,some l) = 0 := rfl
      have hcount := count_of_chunk hchunk
      rw [shown_congr (n := n + used.count 39) (m := n) (by omega),ih,hstray,Nat.add_zero]
      by_cases hl : l.1 = .string
      · obtain ⟨raw,rfl,hraw⟩ := string_of_chunk hchunk hl
        rw [shown_string hraw]
        simp [hl]
        tauto
      · obtain ⟨h39,h59⟩ := plain_of_chunk hchunk hl
        rw [shown_plain h39,h59]
        simp [hl]
        tauto

theorem terminated_iff (place : Place) (pieces : Pieces) :
    (∃ t ∈ tokensOf place pieces, t.type = .semicolon) ↔ Terminated pieces := by
  induction pieces generalizing place with
  | nil => simp [tokensOf,Terminated,makeToken]
  | cons piece pieces ih =>
    have hrec := ih (place.after piece.1)
    have hcons : Terminated (piece::pieces) ↔
        (∃ l ∈ piece.2, l.1 = .semicolon) ∨ Terminated pieces := by simp [Terminated]
    rw [hcons,← hrec,tokensOf]
    cases hp : piece.2 with
    | none => simp
    | some l => simp [makeToken]

/-- The scanner agrees with the lexer on a text that has a terminator exactly when it sees one or
misreads a semicolon, and on one that has none exactly when it misreads no semicolon. -/
theorem hasStatementTerminator_agrees {sql : List UInt8} {tokens : List Token} {pieces : Pieces}
    (h : tokenize (sql.length + 1) sql = some (.ok tokens)) (hsplits : Splits sql pieces) :
    (hasStatementTerminator sql = true ↔ ∃ t ∈ tokens, t.type = .semicolon) ↔
      (Terminated pieces → Kept 0 pieces ∨ Misread 0 pieces) ∧
        (¬Terminated pieces → ¬Misread 0 pieces) := by
  have htokens := tokenizeFrom_of_splits hsplits (Nat.lt_succ_self _) {}
  obtain rfl := Except.ok.inj (Option.some.inj (h.symm.trans htokens))
  rw [hasStatementTerminator_iff,shown_iff hsplits,terminated_iff]
  have hkept : Kept 0 pieces → Terminated pieces := by
    rintro ⟨before,piece,after,rfl,hl,-⟩
    exact ⟨piece,by simp,hl⟩
  tauto

/-- A string with a doubled quote and a semicolon in front of the terminator. -/
theorem hasStatementTerminator_agrees_string : ∃ tokens pieces,
    tokenize 8 [39,39,39,59,39,32,59] = some (.ok tokens) ∧
    Splits [39,39,39,59,39,32,59] pieces ∧
    ((hasStatementTerminator [39,39,39,59,39,32,59] = true ↔ ∃ t ∈ tokens, t.type = .semicolon) ↔
      (Terminated pieces → Kept 0 pieces ∨ Misread 0 pieces) ∧
        (¬Terminated pieces → ¬Misread 0 pieces)) := by
  obtain ⟨tokens,h⟩ : ∃ tokens, tokenize 8 [39,39,39,59,39,32,59] = some (.ok tokens) := ⟨_,rfl⟩
  obtain ⟨pieces,hsplits,-⟩ := splits_of_tokenizeFrom h
  exact ⟨tokens,pieces,h,hsplits,hasStatementTerminator_agrees h hsplits⟩

/-- An apostrophe in a line comment hides the terminator behind it. -/
theorem terminator_hidden : ¬ ∀ sql tokens, tokenize (sql.length + 1) sql = some (.ok tokens) →
    (hasStatementTerminator sql = true ↔ ∃ t ∈ tokens, t.type = .semicolon) := by
  intro h
  have hsees := (h [45,45,39,10,59] _ rfl).mpr ⟨_,List.mem_cons_self,rfl⟩
  exact absurd hsees (by decide)

end Parser
end OurSql
