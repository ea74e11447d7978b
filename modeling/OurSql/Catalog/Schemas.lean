import OurSql.Catalog.Records
import OurSql.Data.Value

/-! `CREATE TABLE` and `ALTER TABLE`: what the planner checks of the statement, and what the
executors leave in the catalog. -/
namespace OurSql
namespace Catalog.Schemas

/-- Where a statement begins. -/
structure Position where
  line : ℕ
  column : ℕ
  deriving DecidableEq, Repr

def positionText (p : Position) : String :=
  "，位置 " ++ toString p.line ++ ":" ++ toString p.column

/-- `WithLocation`. -/
def failAt {α : Type} (p : Position) (e : Failure) : Result α :=
  .error ⟨e.code,e.message ++ positionText p⟩

/-! ### What the planner demands -/

/-- The checks of `CheckSchema` on one column, behind those of its name. -/
def checkColumn (c : Column) : Status :=
  if c.type = .int ∧ c.length.isSome then
    fail .invalidArgument ("INT 列不能设置 VARCHAR 长度: " ++ c.name)
  else if c.type = .varchar ∧ c.length = some 0 then
    fail .invalidArgument ("VARCHAR 长度必须大于 0: " ++ c.name)
  else if c.primaryKey ∧ c.nullable then
    fail .invalidArgument ("PRIMARY KEY 列不能允许 NULL: " ++ c.name)
  else match c.defaultValue with
    | none => .ok ()
    | some .null =>
      if !c.nullable then fail .invalidArgument ("NOT NULL 列的 DEFAULT 不能是 NULL: " ++ c.name)
      else .ok ()
    | some v =>
      if !v.hasType c.type then fail .typeMismatch ("DEFAULT 类型与列不匹配: " ++ c.name)
      else match v, c.length with
        | .varchar s, some n =>
          if n < s.utf8ByteSize then
            fail .invalidArgument ("DEFAULT 字符串超过列长度: " ++ c.name)
          else .ok ()
        | _, _ => .ok ()

/-- The loop of `CheckSchema`, with the names it has met. -/
def checkColumns (names : List String) : List Column → Status
  | [] => .ok ()
  | c::cs =>
    if c.name = "" then fail .invalidArgument "列名不能为空"
    else if c.name ∈ names then fail .alreadyExists ("重复列名: " ++ c.name)
    else match checkColumn c with
      | .error e => .error e
      | .ok () => checkColumns (c.name::names) cs

def checkSchema (schema : List Column) : Status :=
  if schema = [] then fail .invalidArgument "表结构不能为空"
  else match checkColumns [] schema with
    | .error e => .error e
    | .ok () =>
      if 1 < schema.countP Column.primaryKey then
        fail .invalidArgument "当前版本每张表最多支持一个 PRIMARY KEY 列"
      else .ok ()

def checkInsertValue (value : Value) (c : Column) (context : String) : Status :=
  if value = .null then
    if !c.nullable then fail .invalidArgument (context ++ "列不允许 NULL") else .ok ()
  else if !value.hasType c.type then fail .typeMismatch (context ++ "类型不匹配")
  else match value, c.length with
    | .varchar s, some n =>
      if n < s.utf8ByteSize then fail .invalidArgument (context ++ "字符串超过列长度") else .ok ()
    | _, _ => .ok ()

/-! ### Statements -/

/-- The schemas of the tables. -/
abbrev Tables := String → Option (List Column)

/-- `AlterTableAction`, with what each needs. -/
inductive AlterTableAction
  | renameTable (newName : String)
  | renameColumn (columnName newName : String)
  | addColumn (column : Column) (defaultValue : Option Value)
  deriving DecidableEq, Repr

inductive DdlStatement
  | createTable (tableName : String) (schema : List Column)
  | alterTable (tableName : String) (action : AlterTableAction)
  deriving DecidableEq, Repr

def hasColumn (schema : List Column) (name : String) : Bool := schema.any (·.name = name)

/-- The branch of `Planner::Build` for an action on a table that is there. -/
def planAlter (tables : Tables) (schema : List Column) : AlterTableAction → Status
  | .renameTable newName =>
    if newName = "" then fail .invalidArgument "ALTER TABLE 新表名不能为空"
    else if (tables newName).isSome then
      fail .alreadyExists ("ALTER TABLE 目标表已存在: " ++ newName)
    else .ok ()
  | .renameColumn columnName newName =>
    if !hasColumn schema columnName then
      fail .notFound ("ALTER TABLE 旧列不存在: " ++ columnName)
    else if newName = "" then fail .invalidArgument "ALTER TABLE 新列名不能为空"
    else if hasColumn schema newName then
      fail .alreadyExists ("ALTER TABLE 新列名已存在: " ++ newName)
    else .ok ()
  | .addColumn column defaultValue =>
    if column.name = "" then fail .invalidArgument "ALTER TABLE 新列名不能为空"
    else if hasColumn schema column.name then
      fail .alreadyExists ("ALTER TABLE 新列已存在: " ++ column.name)
    else match checkSchema [column] with
      | .error e => .error e
      | .ok () =>
        match defaultValue with
        | none => .ok ()
        | some value => checkInsertValue value column "ALTER TABLE DEFAULT "

/-- The checks of `Planner::Build`. -/
def plan (tables : Tables) : DdlStatement → Status
  | .createTable tableName schema =>
    match checkSchema schema with
    | .error e => .error e
    | .ok () =>
      if (tables tableName).isSome then fail .alreadyExists ("表已存在: " ++ tableName)
      else .ok ()
  | .alterTable tableName action =>
    match tables tableName with
    | none => fail .notFound ("表不存在: " ++ tableName)
    | some schema => planAlter tables schema action

/-- `Catalog::CreateTable`, as far as the schemas go; `stored` is what the pages answer. -/
def createTable (stored : Status) (name : String) (schema : List Column) (tables : Tables) :
    Status × Tables :=
  match validateTable ⟨name,schema,invalidPageId⟩ with
  | .error e => (.error e,tables)
  | .ok () =>
    match encodeTable ⟨name,schema,invalidPageId⟩ with
    | .error e => (.error e,tables)
    | .ok () =>
      if (tables name).isSome then (fail .alreadyExists ("表已存在: " ++ name),tables)
      else match stored with
        | .error e => (.error e,tables)
        | .ok () => (.ok (),Function.update tables name (some schema))

/-- `columns[index]` of the first column of the name. -/
def renameFirst (columnName newName : String) : List Column → List Column
  | [] => []
  | c::cs =>
    if c.name = columnName then { c with name := newName }::cs
    else c::renameFirst columnName newName cs

/-- The replacement that `AlterTableExecutor` builds. -/
def replacement (tableName : String) (schema : List Column) :
    AlterTableAction → String × List Column
  | .renameTable newName => (newName,schema)
  | .renameColumn columnName newName => (tableName,renameFirst columnName newName schema)
  | .addColumn column _ => (tableName,schema ++ [column])

/-- What the pages answer to `AlterTableExecutor`: the encoding of the rows, the removal of the
old table, the new one with its rows and indexes, and the old one put back. -/
structure Stored where
  encoded : Status := .ok ()
  removed : Status := .ok ()
  installed : Status := .ok ()
  restored : Status := .ok ()
  deriving DecidableEq, Repr

def within (layer : String) (e : Failure) : Failure := ⟨e.code,layer ++ ": " ++ e.message⟩

/-- `AlterTableExecutor::Execute`. -/
def executeAlter (stored : Stored) (tableName : String) (action : AlterTableAction)
    (tables : Tables) : Status × Tables :=
  match tables tableName with
  | none => (.error (within "AlterTableExecutor" ⟨.notFound,"Catalog 未找到表: " ++ tableName⟩),tables)
  | some schema =>
    let (newName,newSchema) := replacement tableName schema action
    match stored.encoded with
    | .error e => (.error e,tables)
    | .ok () =>
      match stored.removed with
      | .error e => (.error (within "AlterTableExecutor" e),tables)
      | .ok () =>
        match createTable stored.installed newName newSchema
            (Function.update tables tableName none) with
        | (.ok (),tables) => (.ok (),tables)
        | (.error e,without) =>
          match createTable stored.restored tableName schema without with
          | (.error e',tables) => (fail .ioError ("AlterTableExecutor: " ++ e.message ++
              "; 恢复旧表也失败: " ++ e'.message),tables)
          | (.ok (),tables) => (.error (within "AlterTableExecutor" e),tables)

/-- A statement, planned and executed. -/
def execute (stored : Stored) (p : Position) (s : DdlStatement) (tables : Tables) :
    Status × Tables :=
  match plan tables s with
  | .error e => (failAt p e,tables)
  | .ok () =>
    match s with
    | .createTable tableName schema =>
      match createTable stored.installed tableName schema tables with
      | (.error e,tables) => (.error (within "CreateTableExecutor" e),tables)
      | (.ok (),tables) => (.ok (),tables)
    | .alterTable tableName action => executeAlter stored tableName action tables

/-! ### Schemas that are well formed -/

/-- What `CheckSchema` demands of a whole table. -/
structure WellFormed (schema : List Column) : Prop where
  nonempty : schema ≠ []
  columns : ∀ c ∈ schema, c.name ≠ "" ∧ checkColumn c = .ok ()
  names : (schema.map Column.name).Nodup
  primary : schema.countP Column.primaryKey ≤ 1

variable {schema cs : List Column} {c : Column} {names : List String} {tables tables' : Tables}

theorem checkColumns_eq_ok : checkColumns names cs = .ok () ↔
    (∀ c ∈ cs, c.name ≠ "" ∧ checkColumn c = .ok ()) ∧ (cs.map Column.name).Nodup ∧
      ∀ c ∈ cs, c.name ∉ names := by
  induction cs generalizing names with
  | nil => simp [checkColumns]
  | cons c cs ih =>
    rw [checkColumns]
    by_cases hempty : c.name = ""
    · simp [hempty,fail]
    by_cases hmet : c.name ∈ names
    · simp [hempty,hmet,fail]
    rw [if_neg hempty,if_neg hmet]
    cases hc : checkColumn c with
    | error e => simp [hc]
    | ok _ =>
      rw [ih,List.forall_mem_cons,List.forall_mem_cons,List.map_cons,List.nodup_cons,List.mem_map]
      constructor
      · rintro ⟨hcols,hnodup,hnames⟩
        refine ⟨⟨⟨hempty,hc⟩,hcols⟩,⟨?_,hnodup⟩,hmet,
          fun d hd hm => hnames d hd (List.mem_cons_of_mem _ hm)⟩
        rintro ⟨d,hd,he⟩
        exact hnames d hd (List.mem_cons.mpr (.inl he))
      · rintro ⟨⟨-,hcols⟩,⟨hnew,hnodup⟩,-,hnames⟩
        refine ⟨hcols,hnodup,fun d hd hm => ?_⟩
        rcases List.mem_cons.mp hm with he | hm
        · exact hnew ⟨d,hd,he⟩
        · exact hnames d hd hm

theorem checkSchema_eq_ok : checkSchema schema = .ok () ↔ WellFormed schema := by
  rw [checkSchema]
  by_cases hempty : schema = []
  · rw [if_pos hempty]
    exact ⟨fun h => by simp [fail] at h,fun h => absurd hempty h.nonempty⟩
  rw [if_neg hempty]
  cases hc : checkColumns [] schema with
  | error e =>
    refine ⟨fun h => by simp at h,fun h => ?_⟩
    have hok := checkColumns_eq_ok.mpr ⟨h.columns,h.names,fun _ _ => List.not_mem_nil⟩
    simp [hc] at hok
  | ok _ =>
    obtain ⟨hcols,hnames,-⟩ := checkColumns_eq_ok.mp hc
    dsimp only
    by_cases hcount : 1 < schema.countP Column.primaryKey
    · rw [if_pos hcount]
      exact ⟨fun h => by simp [fail] at h,fun h => absurd hcount (Nat.not_lt.mpr h.primary)⟩
    · rw [if_neg hcount]
      exact ⟨fun _ => ⟨hempty,hcols,hnames,Nat.not_lt.mp hcount⟩,fun _ => rfl⟩

/-- A column without a new primary key may be added, and no other. -/
theorem wellFormed_add_iff (h : WellFormed schema) (hc : checkSchema [c] = .ok ())
    (hnew : hasColumn schema c.name = false) :
    WellFormed (schema ++ [c]) ↔ c.primaryKey = true → ∀ d ∈ schema, d.primaryKey = false := by
  have hcol := (checkSchema_eq_ok.mp hc).columns c (List.mem_singleton_self c)
  have hname : ∀ d ∈ schema, d.name ≠ c.name := by simpa [hasColumn] using hnew
  have hcount : (schema ++ [c]).countP Column.primaryKey =
      schema.countP Column.primaryKey + if c.primaryKey then 1 else 0 := by
    rw [List.countP_append,List.countP_singleton]
  constructor
  · intro hwf hpk d hd
    have hle := hwf.primary
    rw [hcount,if_pos hpk] at hle
    have hzero : schema.countP Column.primaryKey = 0 := by omega
    simpa using List.countP_eq_zero.mp hzero d hd
  · intro hpk
    refine ⟨by simp,?_,?_,?_⟩
    · intro d hd
      rcases List.mem_append.mp hd with hd | hd
      · exact h.columns d hd
      · exact List.mem_singleton.mp hd ▸ hcol
    · rw [List.map_append,List.nodup_append]
      refine ⟨h.names,List.nodup_singleton _,?_⟩
      intro a ha b hb he
      obtain ⟨d,hd,rfl⟩ := List.mem_map.mp ha
      exact hname d hd (he.trans (List.mem_singleton.mp hb))
    · rw [hcount]
      by_cases hkey : c.primaryKey = true
      · have hzero : schema.countP Column.primaryKey = 0 :=
          List.countP_eq_zero.mpr fun d hd => by simp [hpk hkey d hd]
        rw [if_pos hkey,hzero]
      · rw [if_neg hkey]
        exact h.primary

/-- A default that its column takes. -/
def DefaultFits (c : Column) : Prop :=
  ∀ v, c.defaultValue = some v →
    (v = .null → c.nullable = true) ∧ v.hasType c.type = true ∧
      ∀ s n, v = .varchar s → c.length = some n → s.utf8ByteSize ≤ n

theorem checkColumn_eq_ok : checkColumn c = .ok () ↔
    ¬ (c.type = .int ∧ c.length.isSome) ∧ ¬ (c.type = .varchar ∧ c.length = some 0) ∧
      ¬ (c.primaryKey ∧ c.nullable) ∧ DefaultFits c := by
  rw [checkColumn,Data.ite_fail_eq_ok,Data.ite_fail_eq_ok,Data.ite_fail_eq_ok]
  refine and_congr_right fun _ => and_congr_right fun _ => and_congr_right fun _ => ?_
  cases hd : c.defaultValue with
  | none => simp [DefaultFits,hd]
  | some v =>
    cases v with
    | null =>
      cases hn : c.nullable <;> simp [DefaultFits,hd,hn,fail,Value.hasType]
    | int n => simp [DefaultFits,hd,fail]
    | varchar s =>
      dsimp only
      rw [Data.ite_fail_eq_ok]
      cases hl : c.length with
      | none => simp [DefaultFits,hd,hl]
      | some n => simp [DefaultFits,hd,hl,fail]

/-- The name of a column stands in the messages only. -/
theorem checkColumn_rename {name : String} (h : checkColumn c = .ok ()) :
    checkColumn { c with name := name } = .ok () := by
  obtain ⟨hint,hlength,hkey,hdefault⟩ := checkColumn_eq_ok.mp h
  exact checkColumn_eq_ok.mpr ⟨hint,hlength,hkey,hdefault⟩

theorem map_renameFirst {columnName newName : String} (schema : List Column) :
    ∀ d ∈ renameFirst columnName newName schema, d ∈ schema ∨
      ∃ c ∈ schema, d = { c with name := newName } := by
  induction schema with
  | nil => simp [renameFirst]
  | cons c cs ih =>
    rw [renameFirst]
    split
    · intro d hd
      rcases List.mem_cons.mp hd with rfl | hd
      · exact .inr ⟨c,List.mem_cons_self,rfl⟩
      · exact .inl (List.mem_cons_of_mem _ hd)
    · intro d hd
      rcases List.mem_cons.mp hd with rfl | hd
      · exact .inl List.mem_cons_self
      · rcases ih d hd with hd | ⟨e,he,hd⟩
        · exact .inl (List.mem_cons_of_mem _ hd)
        · exact .inr ⟨e,List.mem_cons_of_mem _ he,hd⟩

theorem wellFormed_rename {columnName newName : String} (h : WellFormed schema)
    (hempty : newName ≠ "") (hnew : hasColumn schema newName = false) :
    WellFormed (renameFirst columnName newName schema) := by
  have hname : ∀ d ∈ schema, d.name ≠ newName := by simpa [hasColumn] using hnew
  refine ⟨?_,?_,?_,?_⟩
  · obtain ⟨c,cs,hs⟩ := List.exists_cons_of_ne_nil h.nonempty
    rw [hs,renameFirst]
    split <;> simp
  · intro d hd
    rcases map_renameFirst schema d hd with hd | ⟨c,hc,rfl⟩
    · exact h.columns d hd
    · exact ⟨hempty,checkColumn_rename (h.columns c hc).2⟩
  · have hnodup := h.names
    clear h hnew
    induction schema with
    | nil => simp [renameFirst]
    | cons c cs ih =>
      obtain ⟨hc,hcs⟩ := List.nodup_cons.mp hnodup
      rw [renameFirst]
      split
      · refine List.nodup_cons.mpr ⟨?_,hcs⟩
        intro hm
        obtain ⟨d,hd,he⟩ := List.mem_map.mp hm
        exact hname d (List.mem_cons_of_mem _ hd) he
      · refine List.nodup_cons.mpr ⟨?_,ih (fun d hd => hname d (List.mem_cons_of_mem _ hd)) hcs⟩
        intro hm
        obtain ⟨d,hd,he⟩ := List.mem_map.mp hm
        rcases map_renameFirst cs d hd with hd | ⟨e,-,rfl⟩
        · exact hc (he ▸ List.mem_map_of_mem hd)
        · exact hname c List.mem_cons_self he.symm
  · have hcount : (renameFirst columnName newName schema).countP Column.primaryKey =
        schema.countP Column.primaryKey := by
      clear h hnew hname
      induction schema with
      | nil => rfl
      | cons c cs ih =>
        rw [renameFirst]
        split
        · rw [List.countP_cons,List.countP_cons]
        · rw [List.countP_cons,List.countP_cons,ih]
    rw [hcount]
    exact h.primary

/-! ### Runs -/

/-- Statements that have succeeded, from an empty catalog on. `allowed` says which of them. -/
inductive Reached (allowed : Tables → DdlStatement → Prop) : Tables → Prop
  | empty : Reached allowed fun _ => none
  | step {tables tables' : Tables} {s : DdlStatement} (stored : Stored) (p : Position) :
    Reached allowed tables → allowed tables s → execute stored p s tables = (.ok (),tables') →
    Reached allowed tables'

/-- A new column is no primary key of a table that has one. -/
def OnePrimaryKey (tables : Tables) (s : DdlStatement) : Prop :=
  ∀ name column value schema, s = .alterTable name (.addColumn column value) →
    tables name = some schema → column.primaryKey = true → ∀ d ∈ schema, d.primaryKey = false

theorem createTable_ok {stored : Status} {name : String}
    (h : createTable stored name schema tables = (.ok (),tables')) :
    tables' = Function.update tables name (some schema) := by
  unfold createTable at h
  split at h
  · simp at h
  split at h
  · simp at h
  split at h
  · simp [fail] at h
  split at h
  · simp at h
  · exact (Prod.mk.inj h).2.symm

theorem executeAlter_ok {stored : Stored} {name : String} {action : AlterTableAction}
    (h : executeAlter stored name action tables = (.ok (),tables')) :
    ∃ schema, tables name = some schema ∧
      tables' = Function.update (Function.update tables name none)
        (replacement name schema action).1 (some (replacement name schema action).2) := by
  unfold executeAlter at h
  split at h
  · simp at h
  next schema hs =>
  dsimp only at h
  split at h
  · simp at h
  split at h
  · simp at h
  split at h
  · next hc =>
    obtain rfl := (Prod.mk.inj h).2
    exact ⟨schema,hs,createTable_ok hc⟩
  · split at h
    · simp [fail] at h
    · simp at h

/-- An alteration that the planner lets through keeps the schema well formed; a new primary key
has to be the first one. -/
theorem wellFormed_replacement {name : String} {action : AlterTableAction}
    (h : WellFormed schema) (hp : planAlter tables schema action = .ok ())
    (hk : ∀ column value, action = .addColumn column value → column.primaryKey = true →
      ∀ d ∈ schema, d.primaryKey = false) :
    WellFormed (replacement name schema action).2 := by
  cases action with
  | renameTable newName => exact h
  | renameColumn columnName newName =>
    rw [planAlter,Data.ite_fail_eq_ok,Data.ite_fail_eq_ok,Data.ite_fail_eq_ok] at hp
    exact wellFormed_rename h hp.2.1 (by simpa using hp.2.2.1)
  | addColumn column value =>
    unfold planAlter at hp
    rw [Data.ite_fail_eq_ok,Data.ite_fail_eq_ok] at hp
    obtain ⟨-,hnew,hcheck⟩ := hp
    cases hc : checkSchema [column] with
    | error e => simp [hc] at hcheck
    | ok _ => exact (wellFormed_add_iff h hc (by simpa using hnew)).mpr (hk column value rfl)

def keyColumn (name : String) : Column := ⟨name,.int,none,false,true,true,none⟩

def createKeyed : DdlStatement := .createTable "t" [keyColumn "a"]

def addKey : DdlStatement := .alterTable "t" (.addColumn (keyColumn "b") none)

def keyedTables : Tables := (execute {} ⟨1,1⟩ createKeyed fun _ => none).2

def twiceKeyedTables : Tables := (execute {} ⟨1,1⟩ addKey keyedTables).2

end Catalog.Schemas
end OurSql
