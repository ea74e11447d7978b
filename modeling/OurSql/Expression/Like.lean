import OurSql.Expression.Evaluate

/-! `LikeMatches`: each row of its table tells which prefixes of the pattern match the part
of the text read so far. -/
namespace OurSql
namespace Expression

/-- The LIKE relation: `%` stands for any bytes, `_` for one byte, every other byte for itself. -/
inductive Like : List UInt8 → List UInt8 → Prop
  | nil : Like [] []
  | percent (bytes : List UInt8) {value pattern : List UInt8} :
    Like value pattern → Like (bytes ++ value) (37::pattern)
  | underscore (byte : UInt8) {value pattern : List UInt8} :
    Like value pattern → Like (byte::value) (95::pattern)
  | byte {byte : UInt8} {value pattern : List UInt8} : byte ≠ 37 → byte ≠ 95 →
    Like value pattern → Like (byte::value) (byte::pattern)

variable {value front back pattern before after : List UInt8} {byte p : UInt8}
  {left : Bool} {entries : List Bool}

theorem Like.append (h : Like front before) (h' : Like back after) :
    Like (front ++ back) (before ++ after) := by
  induction h with
  | nil => exact h'
  | percent bytes _ ih =>
    rw [List.append_assoc]
    exact .percent bytes ih
  | underscore b _ ih => exact .underscore b ih
  | byte hp hu _ ih => exact .byte hp hu ih

/-- A pattern in two parts splits the text. -/
theorem like_append : Like value (before ++ after) ↔
    ∃ front back, value = front ++ back ∧ Like front before ∧ Like back after := by
  refine ⟨fun h => ?_,fun ⟨front,back,he,hf,hb⟩ => he ▸ hf.append hb⟩
  induction before generalizing value with
  | nil => exact ⟨[],value,rfl,.nil,h⟩
  | cons c before ih =>
    cases h with
    | percent bytes h =>
      obtain ⟨front,back,rfl,hf,hb⟩ := ih h
      exact ⟨bytes ++ front,back,(List.append_assoc ..).symm,.percent bytes hf,hb⟩
    | underscore b h =>
      obtain ⟨front,back,rfl,hf,hb⟩ := ih h
      exact ⟨b::front,back,rfl,.underscore b hf,hb⟩
    | byte hp hu h =>
      obtain ⟨front,back,rfl,hf,hb⟩ := ih h
      exact ⟨c::front,back,rfl,.byte hp hu hf,hb⟩

theorem like_nil : Like value [] ↔ value = [] := by
  refine ⟨fun h => ?_,fun h => h ▸ .nil⟩
  cases h
  rfl

theorem like_percent (value : List UInt8) : Like value [37] := by
  simpa using Like.percent value .nil

theorem like_single (hp : p ≠ 37) : Like value [p] ↔ ∃ b, value = [b] ∧ (p = 95 ∨ p = b) := by
  constructor
  · intro h
    cases h with
    | percent bytes h => exact absurd rfl hp
    | underscore b h =>
      cases h
      exact ⟨b,rfl,.inl rfl⟩
    | byte _ _ h =>
      cases h
      exact ⟨p,rfl,.inr rfl⟩
  · rintro ⟨b,rfl,rfl | rfl⟩
    · exact .underscore b .nil
    · by_cases hu : p = 95
      · subst hu
        exact .underscore 95 .nil
      · exact .byte hp hu .nil

/-! ### One byte more of the pattern -/

theorem like_concat_percent : Like value (before ++ [37]) ↔
    ∃ front back, value = front ++ back ∧ Like front before := by
  rw [like_append]
  exact ⟨fun ⟨front,back,he,hf,_⟩ => ⟨front,back,he,hf⟩,
    fun ⟨front,back,he,hf⟩ => ⟨front,back,he,hf,like_percent back⟩⟩

/-- The last byte of the text is left to the `%`, or nothing is. -/
theorem like_concat_percent_concat : Like (value ++ [byte]) (before ++ [37]) ↔
    Like (value ++ [byte]) before ∨ Like value (before ++ [37]) := by
  simp only [like_concat_percent]
  constructor
  · rintro ⟨front,back,he,hf⟩
    rcases back.eq_nil_or_concat with rfl | ⟨back,b,rfl⟩
    · rw [List.append_nil] at he
      exact .inl (he ▸ hf)
    · rw [List.concat_eq_append,← List.append_assoc] at he
      exact .inr ⟨front,back,List.append_inj_left' he rfl,hf⟩
  · rintro (hf | ⟨front,back,rfl,hf⟩)
    · exact ⟨value ++ [byte],[],(List.append_nil _).symm,hf⟩
    · exact ⟨front,back ++ [byte],List.append_assoc ..,hf⟩

theorem like_concat (hp : p ≠ 37) : Like (value ++ [byte]) (before ++ [p]) ↔
    Like value before ∧ (p = 95 ∨ p = byte) := by
  rw [like_append]
  constructor
  · rintro ⟨front,back,he,hf,hb⟩
    obtain ⟨b,rfl,hcase⟩ := (like_single hp).mp hb
    obtain ⟨rfl,hbyte⟩ := List.append_inj' he rfl
    obtain rfl : byte = b := by simpa using hbyte
    exact ⟨hf,hcase⟩
  · rintro ⟨hf,hb⟩
    exact ⟨value,[byte],rfl,hf,(like_single hp).mpr ⟨byte,rfl,hb⟩⟩

theorem not_like_nil_concat (hp : p ≠ 37) : ¬ Like [] (before ++ [p]) := by
  rw [like_append]
  rintro ⟨front,back,he,-,hb⟩
  obtain ⟨b,rfl,-⟩ := (like_single hp).mp hb
  simp at he

/-! ### The table -/

/-- The entries for the prefixes of the pattern that contain `before`. -/
inductive RowOf (value : List UInt8) : List UInt8 → List UInt8 → List Bool → Prop
  | last {before : List UInt8} {entry : Bool} : (entry = true ↔ Like value before) →
    RowOf value before [] [entry]
  | entry {before after : List UInt8} {p : UInt8} {entry : Bool} {entries : List Bool} :
    (entry = true ↔ Like value before) → RowOf value (before ++ [p]) after entries →
    RowOf value before (p::after) (entry::entries)

theorem likeStart_rowOf (h : left = true ↔ Like [] before) :
    RowOf [] before after (left::likeStart left after) := by
  induction after generalizing left before with
  | nil => exact .last h
  | cons p after ih =>
    refine .entry h (ih ?_)
    by_cases hp : p = 37
    · subst hp
      simp [h,like_concat_percent]
    · simp [hp,not_like_nil_concat hp]

theorem likeRow_rowOf (h : RowOf value before after entries)
    (hleft : left = true ↔ Like (value ++ [byte]) before) :
    RowOf (value ++ [byte]) before after (left::likeRow byte left after entries) := by
  induction h generalizing left with
  | last _ => exact .last hleft
  | @entry before after p diagonal entries hd hrest ih =>
    -- the entry above stands in front of the rest of the row
    obtain ⟨above,previous,rfl,habove⟩ : ∃ above previous, entries = above::previous ∧
        (above = true ↔ Like value (before ++ [p])) := by
      cases hrest with
      | last ha => exact ⟨_,_,rfl,ha⟩
      | entry ha _ => exact ⟨_,_,rfl,ha⟩
    refine .entry hleft (ih ?_)
    by_cases hp : p = 37
    · subst hp
      simp [hleft,habove,like_concat_percent_concat]
    · simp [hp,hd,like_concat hp,and_comm]

theorem likeRows_rowOf (h : RowOf front [] pattern entries) :
    RowOf (front ++ value) [] pattern (likeRows pattern value entries) := by
  induction value generalizing front entries with
  | nil => simpa [likeRows] using h
  | cons byte value ih =>
    have hnext : RowOf (front ++ [byte]) [] pattern (false::likeRow byte false pattern entries) :=
      likeRow_rowOf h (by simp [like_nil])
    simpa [likeRows] using ih hnext

theorem RowOf.getD (h : RowOf value before after entries) :
    entries.getD after.length false = true ↔ Like value (before ++ after) := by
  induction h with
  | last h => simpa using h
  | entry _ _ ih => simpa using ih

/-- `LikeMatches` decides the LIKE relation. -/
theorem likeMatches_iff (value pattern : List UInt8) :
    likeMatches value pattern = true ↔ Like value pattern := by
  have hstart : RowOf [] [] pattern (true::likeStart true pattern) :=
    likeStart_rowOf (by simp [like_nil])
  have hrows : RowOf value [] pattern (likeRows pattern value (true::likeStart true pattern)) :=
    likeRows_rowOf hstart
  exact hrows.getD

end Expression
end OurSql
