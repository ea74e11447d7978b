import Mathlib.Data.List.Nodup
import OurSql.Data.RowCodec
import OurSql.Parser.Statement

/-! What the planner makes of the rows of an INSERT. Its rows are in the order of the schema, every
column has its listed value, its default or NULL, and the row codec accepts them. -/
namespace OurSql
namespace Planner

open Data hiding Column
open OurSql.Parser (Column)

/-- The checks of a value for a column; each caller has its own texts. -/
def checkValue (value : Value) (c : Column) (noNull mismatch tooLong : String) : Status :=
  if value = .null then
    if !c.nullable then fail .invalidArgument noNull else .ok ()
  else if value.type ≠ c.type then fail .typeMismatch mismatch
  else match value, c.length with
    | .varchar text, some n => if n < text.length then fail .invalidArgument tooLong else .ok ()
    | _, _ => .ok ()

/-! ### `CheckSchema` -/

def checkDefault (c : Column) : Status :=
  match c.defaultValue with
  | none => .ok ()
  | some value => checkValue value c ("NOT NULL 列的 DEFAULT 不能是 NULL: " ++ c.name)
      ("DEFAULT 类型与列不匹配: " ++ c.name) ("DEFAULT 字符串超过列长度: " ++ c.name)

/-- The turn of the loop behind the checks of the name. -/
def checkColumn (c : Column) : Status :=
  if c.type = .int ∧ c.length.isSome then
    fail .invalidArgument ("INT 列不能设置 VARCHAR 长度: " ++ c.name)
  else if c.type = .varchar ∧ c.length = some 0 then
    fail .invalidArgument ("VARCHAR 长度必须大于 0: " ++ c.name)
  else if c.primaryKey ∧ c.nullable then
    fail .invalidArgument ("PRIMARY KEY 列不能允许 NULL: " ++ c.name)
  else checkDefault c

/-- The loop, with the names it has met. -/
def checkColumns (names : List String) : List Column → Status
  | [] => .ok ()
  | c::cs =>
    if c.name = "" then fail .invalidArgument "列名不能为空"
    else if c.name ∈ names then fail .alreadyExists ("重复列名: " ++ c.name)
    else match checkColumn c with
      | .error e => .error e
      | .ok () => checkColumns (c.name::names) cs

def checkSchema (schema : List Column) : Status :=
  if schema = [] then fail .invalidArgument "表结构不能为空"
  else match checkColumns [] schema with
    | .error e => .error e
    | .ok () =>
      if 1 < schema.countP (·.primaryKey) then
        fail .invalidArgument "当前版本每张表最多支持一个 PRIMARY KEY 列"
      else .ok ()

/-! ### `NormalizeInsertRows` -/

def checkInsertValue (value : Value) (c : Column) (context : String) : Status :=
  checkValue value c (context ++ "列不允许 NULL") (context ++ "类型不匹配")
    (context ++ "字符串超过列长度")

def findColumnIndex (schema : List Column) (name : String) : Option ℕ :=
  schema.findIdx? (·.name = name)

/-- The indexes of the listed columns, behind the names `seen`. -/
def findTargets (schema : List Column) (seen : List String) : List String → Result (List ℕ)
  | [] => .ok []
  | name::names =>
    if name ∈ seen then fail .alreadyExists ("INSERT 目标列重复: " ++ name)
    else match findColumnIndex schema name with
      | none => fail .notFound ("INSERT 目标列不存在: " ++ name)
      | some i => (findTargets schema (name::seen) names).map (i::·)

/-- Without a list every column is a target. -/
def targetIndexes (columns : List String) (schema : List Column) : Result (List ℕ) :=
  if columns = [] then .ok (List.range schema.length) else findTargets schema [] columns

/-- The values a row provides, by column. -/
abbrev Provided := ℕ → Option Value

/-- The loop over the values of row `rowIndex`, at its item `item`. -/
def provide (schema : List Column) (rowIndex item : ℕ) (provided : Provided) :
    List ℕ → Row → Result Provided
  | i::is, v::vs =>
    match schema[i]? with
    | none => fail .internalError "Schema::At 下标越界"
    | some c =>
      match checkInsertValue v c ("INSERT 第 " ++ toString (rowIndex + 1) ++ " 行第 " ++
          toString (item + 1) ++ " 项与列 " ++ c.name ++ " ") with
      | .error e => .error e
      | .ok () => provide schema rowIndex (item + 1) (Function.update provided i (some v)) is vs
  | _, _ => .ok provided

/-- The loop over the columns, from column `i` on. -/
def complete (provided : Provided) (i : ℕ) : List Column → Result Row
  | [] => .ok []
  | c::cs =>
    match (provided i).or c.defaultValue with
    | some v => (complete provided (i + 1) cs).map (v::·)
    | none =>
      if c.nullable then (complete provided (i + 1) cs).map (.null::·)
      else fail .invalidArgument ("INSERT 缺少 NOT NULL 列: " ++ c.name)

def normalizeRow (schema : List Column) (targets : List ℕ) (rowIndex : ℕ) (row : Row) :
    Result Row :=
  if row.length ≠ targets.length then
    fail .invalidArgument ("INSERT 第 " ++ toString (rowIndex + 1) ++
      " 行 VALUES 数量与目标列数量不符: 期望 " ++ toString targets.length ++ "，实际 " ++
      toString row.length)
  else match provide schema rowIndex 0 (fun _ => none) targets row with
    | .error e => .error e
    | .ok provided => complete provided 0 schema

def normalizeRows (schema : List Column) (targets : List ℕ) (rowIndex : ℕ) :
    List Row → Result (List Row)
  | [] => .ok []
  | row::rows =>
    match normalizeRow schema targets rowIndex row with
    | .error e => .error e
    | .ok out => (normalizeRows schema targets (rowIndex + 1) rows).map (out::·)

def normalizeInsertRows (rows : List Row) (columns : List String) (schema : List Column) :
    Result (List Row) :=
  if rows = [] then fail .invalidArgument "INSERT 至少需要一行 VALUES"
  else match targetIndexes columns schema with
    | .error e => .error e
    | .ok targets => normalizeRows schema targets 0 rows

/-! ### What a row should be -/

/-- The value of a row for column `i`, by its place or by the name in the list. -/
def listed (columns : List String) (row : Row) (i : ℕ) (name : String) : Option Value :=
  if columns = [] then row[i]? else (columns.zip row).lookup name

/-- Every column with its listed value, else its default, else NULL. -/
def rowFor (schema : List Column) (columns : List String) (row : Row) : Row :=
  schema.zipIdx.map fun x => ((listed columns row x.2 x.1.name).or x.1.defaultValue).getD .null

/-- The nullability, the type and the length of a column hold of the value. -/
structure Fits (c : Column) (v : Value) : Prop where
  null : v = .null → c.nullable
  type : v ≠ .null → v.type = c.type
  length : ∀ text, v = .varchar text → ∀ n ∈ c.length, text.length ≤ n

theorem checkValue_eq_ok {v : Value} {c : Column} {noNull mismatch tooLong : String} :
    checkValue v c noNull mismatch tooLong = .ok () ↔ Fits c v := by
  cases v with
  | null =>
    cases hn : c.nullable with
    | false =>
      exact ⟨fun h => by simp [checkValue,hn,fail] at h,fun h => by simpa [hn] using h.null rfl⟩
    | true => exact ⟨fun _ => ⟨fun _ => hn,by simp,by simp⟩,fun _ => by simp [checkValue,hn]⟩
  | int n =>
    by_cases ht : DataType.int = c.type
    · exact ⟨fun _ => ⟨by simp,fun _ => ht,by simp⟩,fun _ => by simp [checkValue,Value.type,ht]⟩
    · exact ⟨fun h => by simp [checkValue,Value.type,ht,fail] at h,
        fun h => absurd (h.type (by simp)) ht⟩
  | varchar text =>
    by_cases ht : DataType.varchar = c.type
    · have hcheck : checkValue (.varchar text) c noNull mismatch tooLong =
          if c.length.any (· < text.length) then fail .invalidArgument tooLong else .ok () := by
        cases hl : c.length <;> simp [checkValue,Value.type,ht,hl]
      rw [hcheck]
      cases hl : c.length.any (· < text.length) with
      | true =>
        refine ⟨fun h => by simp [fail] at h,fun h => ?_⟩
        have hfits := RowCodec.any_lt_eq_false.mpr (h.length text rfl)
        simp [hl] at hfits
      | false =>
        refine ⟨fun _ => ⟨by simp,fun _ => ht,fun t he => ?_⟩,fun _ => by simp⟩
        obtain rfl := Value.varchar.inj he
        exact RowCodec.any_lt_eq_false.mp hl
    · exact ⟨fun h => by simp [checkValue,Value.type,ht,fail] at h,
        fun h => absurd (h.type (by simp)) ht⟩

variable {schema cs : List Column} {c : Column} {columns names : List String}

theorem checkColumns_sound (h : checkColumns names cs = .ok ()) :
    (∀ c ∈ cs, checkColumn c = .ok ()) ∧ (cs.map (·.name)).Nodup ∧ ∀ c ∈ cs, c.name ∉ names := by
  induction cs generalizing names with
  | nil => simp
  | cons c cs ih =>
    rw [checkColumns,ite_fail_eq_ok,ite_fail_eq_ok] at h
    obtain ⟨-,hmet,h⟩ := h
    cases hc : checkColumn c with
    | error e => simp [hc] at h
    | ok _ =>
      rw [hc] at h
      obtain ⟨hcols,hnodup,hnames⟩ := ih h
      refine ⟨List.forall_mem_cons.mpr ⟨hc,hcols⟩,List.nodup_cons.mpr ⟨?_,hnodup⟩,
        List.forall_mem_cons.mpr ⟨hmet,fun d hd hm => hnames d hd (List.mem_cons_of_mem _ hm)⟩⟩
      rintro hin
      obtain ⟨d,hd,he⟩ := List.mem_map.mp hin
      exact hnames d hd (he ▸ List.mem_cons_self)

theorem default_fits (h : checkColumn c = .ok ()) {v : Value} (hv : c.defaultValue = some v) :
    Fits c v := by
  rw [checkColumn,ite_fail_eq_ok,ite_fail_eq_ok,ite_fail_eq_ok,checkDefault,hv] at h
  exact checkValue_eq_ok.mp h.2.2.2

/-- A schema that passes the checks has distinct names and defaults that fit. -/
theorem checkSchema_sound (h : checkSchema schema = .ok ()) :
    (schema.map (·.name)).Nodup ∧ ∀ c ∈ schema, ∀ v, c.defaultValue = some v → Fits c v := by
  rw [checkSchema,ite_fail_eq_ok] at h
  cases hc : checkColumns [] schema with
  | error e => simp [hc] at h
  | ok _ =>
    obtain ⟨hcols,hnodup,-⟩ := checkColumns_sound hc
    exact ⟨hnodup,fun c hc v hv => default_fits (hcols c hc) hv⟩

/-! ### The targets -/

theorem name_of_find {name : String} {i : ℕ} (h : findColumnIndex schema name = some i) :
    ∃ c, schema[i]? = some c ∧ c.name = name := by
  obtain ⟨hi,hname,-⟩ := List.findIdx?_eq_some_iff_getElem.mp h
  exact ⟨schema[i],List.getElem?_eq_getElem hi,of_decide_eq_true hname⟩

/-- Distinct names stand for distinct columns. -/
theorem find_eq_iff (hnames : (schema.map (·.name)).Nodup) {name : String} {i j : ℕ}
    (h : findColumnIndex schema name = some j) (hc : schema[i]? = some c) :
    i = j ↔ c.name = name := by
  obtain ⟨d,hd,rfl⟩ := name_of_find h
  constructor
  · rintro rfl
    rw [Option.some.inj (hc.symm.trans hd)]
  · intro he
    obtain ⟨hi,rfl⟩ := List.getElem?_eq_some_iff.mp hc
    obtain ⟨hj,rfl⟩ := List.getElem?_eq_some_iff.mp hd
    have hi' : i < (schema.map (·.name)).length := by simpa using hi
    have hj' : j < (schema.map (·.name)).length := by simpa using hj
    have heq : (schema.map (·.name))[i] = (schema.map (·.name))[j] := by simpa using he
    exact hnames.getElem_inj_iff.mp heq

theorem findTargets_sound {is : List ℕ} (h : findTargets schema names columns = .ok is) :
    List.Forall₂ (fun i name => findColumnIndex schema name = some i) is columns ∧
      columns.Nodup ∧ ∀ name ∈ columns, name ∉ names := by
  induction columns generalizing names is with
  | nil =>
    obtain rfl := Except.ok.inj h
    exact ⟨.nil,List.nodup_nil,by simp⟩
  | cons name columns ih =>
    rw [findTargets,ite_fail_eq_ok] at h
    obtain ⟨hmet,h⟩ := h
    cases hfind : findColumnIndex schema name with
    | none => simp [hfind,fail] at h
    | some i =>
      rw [hfind] at h
      cases hrest : findTargets schema (name::names) columns with
      | error e => simp [hrest,Except.map] at h
      | ok is' =>
        rw [hrest] at h
        obtain rfl := Except.ok.inj h
        obtain ⟨hall,hnodup,hnew⟩ := ih hrest
        refine ⟨.cons hfind hall,List.nodup_cons.mpr ⟨fun hin => ?_,hnodup⟩,
          List.forall_mem_cons.mpr ⟨hmet,fun d hd hm => hnew d hd (List.mem_cons_of_mem _ hm)⟩⟩
        exact hnew name hin List.mem_cons_self

/-- The targets of distinct names are distinct. -/
theorem targets_nodup {is : List ℕ}
    (h : List.Forall₂ (fun i name => findColumnIndex schema name = some i) is columns)
    (hnodup : columns.Nodup) : is.Nodup := by
  induction h with
  | nil => exact List.nodup_nil
  | @cons i name is columns hfind hall ih =>
    obtain ⟨hnew,hnodup⟩ := List.nodup_cons.mp hnodup
    refine List.nodup_cons.mpr ⟨fun hin => hnew ?_,ih hnodup⟩
    obtain ⟨c,hc,rfl⟩ := name_of_find hfind
    obtain ⟨k,hk,rfl⟩ := List.getElem_of_mem hin
    have hk' : k < columns.length := hall.length_eq ▸ hk
    obtain ⟨d,hd,he⟩ := name_of_find (hall.get hk hk')
    obtain rfl := Option.some.inj (hc.symm.trans hd)
    rw [he]
    exact List.getElem_mem hk'

theorem lookup_targets (hnames : (schema.map (·.name)).Nodup) {is : List ℕ}
    (h : List.Forall₂ (fun i name => findColumnIndex schema name = some i) is columns) {i : ℕ}
    (hc : schema[i]? = some c) (row : Row) :
    (is.zip row).lookup i = (columns.zip row).lookup c.name := by
  induction h generalizing row with
  | nil => rfl
  | @cons j name is columns hfind hall ih =>
    cases row with
    | nil => rfl
    | cons v row =>
      have hiff := find_eq_iff hnames hfind hc
      simp only [List.zip_cons_cons,List.lookup_cons]
      by_cases he : i = j
      · simp [he,hiff.mp he]
      · have hne : c.name ≠ name := fun hn => he (hiff.mpr hn)
        simp [beq_false_of_ne he,beq_false_of_ne hne,ih row]

theorem lookup_range (s : ℕ) (row : Row) (j : ℕ) :
    ((List.range' s row.length).zip row).lookup (s + j) = row[j]? := by
  induction row generalizing s j with
  | nil => rfl
  | cons v row ih =>
    rw [List.length_cons,List.range'_succ,List.zip_cons_cons,List.lookup_cons]
    cases j with
    | zero => simp
    | succ j =>
      have hne : s + (j + 1) ≠ s := by omega
      rw [beq_false_of_ne hne,show s + (j + 1) = s + 1 + j by omega]
      exact ih (s + 1) j

/-- The targets are distinct, and the values paired with them are the listed ones. -/
theorem targetIndexes_sound (hnames : (schema.map (·.name)).Nodup) {is : List ℕ}
    (h : targetIndexes columns schema = .ok is) : is.Nodup ∧
      ∀ row : Row, row.length = is.length → ∀ i c, schema[i]? = some c →
        (is.zip row).lookup i = listed columns row i c.name := by
  unfold targetIndexes at h
  by_cases hempty : columns = []
  · rw [if_pos hempty] at h
    obtain rfl := Except.ok.inj h
    refine ⟨List.nodup_range,fun row hlen i c _ => ?_⟩
    rw [List.length_range] at hlen
    have hrange := lookup_range 0 row i
    rw [Nat.zero_add,← List.range_eq_range',hlen] at hrange
    rw [hrange,listed,if_pos hempty]
  · rw [if_neg hempty] at h
    obtain ⟨hall,hnodup,-⟩ := findTargets_sound h
    refine ⟨targets_nodup hall hnodup,fun row _ i c hc => ?_⟩
    rw [lookup_targets hnames hall hc,listed,if_neg hempty]

/-! ### The rows -/

theorem provide_sound {rowIndex item : ℕ} {provided provided' : Provided} {is : List ℕ} {vs : Row}
    (hnodup : is.Nodup) (h : provide schema rowIndex item provided is vs = .ok provided') :
    (∀ j, provided' j = ((is.zip vs).lookup j).or (provided j)) ∧
      ∀ p ∈ is.zip vs, ∀ c, schema[p.1]? = some c → Fits c p.2 := by
  induction is generalizing vs item provided with
  | nil =>
    obtain rfl := Except.ok.inj h
    simp
  | cons i is ih =>
    cases vs with
    | nil =>
      obtain rfl := Except.ok.inj h
      simp
    | cons v vs =>
      rw [provide] at h
      cases hc : schema[i]? with
      | none => simp [hc,fail] at h
      | some c =>
        rw [hc] at h
        dsimp only at h
        split at h
        · simp at h
        · next hcheck =>
          obtain ⟨hnew,hnodup⟩ := List.nodup_cons.mp hnodup
          obtain ⟨hvals,hfits⟩ := ih hnodup h
          refine ⟨fun j => ?_,?_⟩
          · rw [hvals j,List.zip_cons_cons,List.lookup_cons]
            by_cases hj : j = i
            · subst hj
              have hnone : (is.zip vs).lookup j = none := by
                refine List.lookup_eq_none_iff.mpr fun p hp => ?_
                have hin := (List.of_mem_zip hp).1
                exact bne_iff_ne.mpr fun he => hnew (he ▸ hin)
              simp [hnone]
            · simp [beq_false_of_ne hj,Function.update_of_ne hj]
          · rw [List.zip_cons_cons]
            refine List.forall_mem_cons.mpr ⟨fun d hd => ?_,hfits⟩
            obtain rfl := Option.some.inj (hc.symm.trans hd)
            exact checkValue_eq_ok.mp hcheck

theorem complete_sound {provided : Provided} {i : ℕ} {out : Row}
    (h : complete provided i cs = .ok out) : out =
      (cs.zipIdx i).map (fun x => ((provided x.2).or x.1.defaultValue).getD .null) ∧
      ((∀ j c, cs[j]? = some c → ∀ v, (provided (i + j)).or c.defaultValue = some v → Fits c v) →
        List.Forall₂ Fits cs out) := by
  induction cs generalizing i out with
  | nil =>
    obtain rfl := Except.ok.inj h
    exact ⟨rfl,fun _ => .nil⟩
  | cons c cs ih =>
    have hrec : ∀ v, (complete provided (i + 1) cs).map (v::·) = .ok out →
        ∃ rest, out = v::rest ∧ complete provided (i + 1) cs = .ok rest := fun v hv => by
      cases hrest : complete provided (i + 1) cs with
      | error e => simp [hrest,Except.map] at hv
      | ok rest =>
        rw [hrest] at hv
        exact ⟨rest,(Except.ok.inj hv).symm,rfl⟩
    have hshift : (∀ j d, (c::cs)[j]? = some d → ∀ v,
        (provided (i + j)).or d.defaultValue = some v → Fits d v) →
        ∀ j d, cs[j]? = some d → ∀ v, (provided (i + 1 + j)).or d.defaultValue = some v →
          Fits d v := fun hall j d hd v hv => by
      refine hall (j + 1) d (by simpa using hd) v ?_
      rwa [show i + (j + 1) = i + 1 + j by omega]
    rw [complete] at h
    cases hv : (provided i).or c.defaultValue with
    | some v =>
      rw [hv] at h
      obtain ⟨rest,rfl,hrest⟩ := hrec v h
      obtain ⟨hout,hfits⟩ := ih hrest
      refine ⟨?_,fun hall => .cons ?_ (hfits (hshift hall))⟩
      · rw [List.zipIdx_cons,List.map_cons,← hout,hv,Option.getD_some]
      · exact hall 0 c rfl v hv
    | none =>
      rw [hv] at h
      dsimp only at h
      by_cases hn : c.nullable
      · rw [if_pos hn] at h
        obtain ⟨rest,rfl,hrest⟩ := hrec .null h
        obtain ⟨hout,hfits⟩ := ih hrest
        refine ⟨?_,fun hall => .cons ⟨fun _ => hn,by simp,by simp⟩ (hfits (hshift hall))⟩
        rw [List.zipIdx_cons,List.map_cons,← hout,hv,Option.getD_none]
      · simp [hn,fail] at h

theorem normalizeRow_sound (hschema : checkSchema schema = .ok ()) {is : List ℕ}
    (his : targetIndexes columns schema = .ok is) {rowIndex : ℕ} {row out : Row}
    (h : normalizeRow schema is rowIndex row = .ok out) :
    out = rowFor schema columns row ∧ List.Forall₂ Fits schema out := by
  obtain ⟨hnames,hdefaults⟩ := checkSchema_sound hschema
  obtain ⟨hnodup,hlisted⟩ := targetIndexes_sound hnames his
  rw [normalizeRow,ite_fail_eq_ok,not_not] at h
  obtain ⟨hlen,h⟩ := h
  cases hp : provide schema rowIndex 0 (fun _ => none) is row with
  | error e => simp [hp] at h
  | ok provided =>
    rw [hp] at h
    obtain ⟨hvals,hfits⟩ := provide_sound hnodup hp
    obtain ⟨hout,hrow⟩ := complete_sound h
    have hprovided : ∀ i c, schema[i]? = some c → provided i = listed columns row i c.name :=
      fun i c hc => by rw [hvals i,hlisted row hlen i c hc,Option.or_none]
    constructor
    · rw [hout,rowFor]
      refine List.map_congr_left fun x hx => ?_
      rw [hprovided x.2 x.1 (List.mk_mem_zipIdx_iff_getElem?.mp hx)]
    · refine hrow fun i c hc v hv => ?_
      rw [Nat.zero_add] at hv
      rcases Option.or_eq_some_iff.mp hv with hv | ⟨-,hv⟩
      · rw [hvals i,Option.or_none] at hv
        obtain ⟨l,r,hl,-⟩ := List.lookup_eq_some_iff.mp hv
        exact hfits (i,v) (hl ▸ by simp) c hc
      · exact hdefaults c (List.mem_of_getElem? hc) v hv

theorem normalizeRows_sound (hschema : checkSchema schema = .ok ()) {is : List ℕ}
    (his : targetIndexes columns schema = .ok is) {rowIndex : ℕ} {rows outs : List Row}
    (h : normalizeRows schema is rowIndex rows = .ok outs) :
    outs = rows.map (rowFor schema columns) ∧ ∀ out ∈ outs, List.Forall₂ Fits schema out := by
  induction rows generalizing rowIndex outs with
  | nil =>
    obtain rfl := Except.ok.inj h
    simp
  | cons row rows ih =>
    rw [normalizeRows] at h
    cases hrow : normalizeRow schema is rowIndex row with
    | error e => simp [hrow] at h
    | ok out =>
      rw [hrow] at h
      dsimp only at h
      cases hrest : normalizeRows schema is (rowIndex + 1) rows with
      | error e => simp [hrest,Except.map] at h
      | ok outs' =>
        rw [hrest] at h
        obtain rfl := Except.ok.inj h
        obtain ⟨hout,hfits⟩ := normalizeRow_sound hschema his hrow
        obtain ⟨houts,hall⟩ := ih hrest
        exact ⟨by rw [List.map_cons,← hout,← houts],List.forall_mem_cons.mpr ⟨hfits,hall⟩⟩

/-! ### What the codec accepts -/

theorem encodes_of_fits {v : Value} (h : Fits c v)
    (hsize : ∀ text, v = .varchar text → text.length < 4294967296) :
    ∃ bytes, RowCodec.Encodes c.toColumn v bytes := by
  cases v with
  | null => exact ⟨_,.null (h.null rfl)⟩
  | int n => exact ⟨_,.int n (h.type (by simp)).symm⟩
  | varchar text =>
    exact ⟨_,.varchar text (h.type (by simp)).symm (h.length text rfl) (hsize text rfl)⟩

theorem encodeFields_of_fits {row : Row} (h : List.Forall₂ Fits schema row)
    (hsize : ∀ text, .varchar text ∈ row → text.length < 4294967296) (i : ℕ) :
    ∃ fields, RowCodec.encodeFields i (schema.map (·.toColumn)) row = .ok fields := by
  induction h generalizing i with
  | nil => exact ⟨[],rfl⟩
  | @cons c v cs vs hfits hall ih =>
    obtain ⟨bytes,hbytes⟩ := encodes_of_fits hfits fun text he =>
      hsize text (he ▸ List.mem_cons_self)
    obtain ⟨fields,hfields⟩ := ih (fun text ht => hsize text (List.mem_cons_of_mem _ ht)) (i + 1)
    refine ⟨bytes ++ fields,?_⟩
    rw [List.map_cons,RowCodec.encodeFields,RowCodec.encodeField_eq_ok.mpr hbytes,hfields]

theorem encode_of_fits {row : Row} (h : List.Forall₂ Fits schema row)
    (hsize : ∀ text, .varchar text ∈ row → text.length < 4294967296) :
    ∃ record, RowCodec.encode (schema.map (·.toColumn)) row = .ok record := by
  obtain ⟨fields,hfields⟩ := encodeFields_of_fits h hsize 0
  have hlen : ¬row.length ≠ (schema.map (·.toColumn)).length := by
    rw [List.length_map,not_not,h.length_eq]
  refine ⟨RowCodec.header (schema.map (·.toColumn)).length ++ fields,?_⟩
  rw [RowCodec.encode,if_neg hlen,hfields]

/-- The rows of an accepted INSERT have the listed values, the defaults and NULL in the order of the
schema, they fit its columns, and the codec takes every one whose strings fit its length field. -/
theorem normalizeInsertRows_storable {rows outs : List Row} (hschema : checkSchema schema = .ok ())
    (h : normalizeInsertRows rows columns schema = .ok outs) :
    outs = rows.map (rowFor schema columns) ∧ ∀ out ∈ outs, List.Forall₂ Fits schema out ∧
      ((∀ text, .varchar text ∈ out → text.length < 4294967296) →
        ∃ record, RowCodec.encode (schema.map (·.toColumn)) out = .ok record) := by
  rw [normalizeInsertRows,ite_fail_eq_ok] at h
  cases his : targetIndexes columns schema with
  | error e => simp [his] at h
  | ok is =>
    rw [his] at h
    obtain ⟨houts,hfits⟩ := normalizeRows_sound hschema his h.2
    exact ⟨houts,fun out hout => ⟨hfits out hout,encode_of_fits (hfits out hout)⟩⟩

/-- Two listed columns of three, in another order than the schema's. -/
theorem normalizeInsertRows_storable_three :
    let schema : List Column := [{name := "a",type := .varchar,length := some 2},
      {name := "b",type := .int,nullable := false},
      {name := "c",type := .int,defaultValue := some (.int 7)}]
    ∃ outs, normalizeInsertRows [[.int 1,.varchar [65]],[.int 2,.null]] ["b","a"] schema = .ok outs ∧
      outs = [[.varchar [65],.int 1,.int 7],[.null,.int 2,.int 7]] ∧
      ∀ out ∈ outs, List.Forall₂ Fits schema out := by
  intro schema
  have h : normalizeInsertRows [[.int 1,.varchar [65]],[.int 2,.null]] ["b","a"] schema =
      .ok [[.varchar [65],.int 1,.int 7],[.null,.int 2,.int 7]] := by rfl
  have hsound := normalizeInsertRows_storable (by decide) h
  exact ⟨_,h,rfl,fun out hout => (hsound.2 out hout).1⟩

end Planner
end OurSql
