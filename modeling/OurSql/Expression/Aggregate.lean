import OurSql.Expression.Arithmetic
import OurSql.Expression.Outcome

/-! The aggregates over one group: what COUNT, SUM, AVG, MIN and MAX answer, from the values
of their argument on the rows of the group. -/
namespace OurSql
namespace Expression

open Data

variable {Query : Type} {kind : CompileAggregateKind} {v w a b u : EvalValue}
  {vs : List EvalValue} {rows : List Row} {value : Row → Eval Unit EvalValue}

/-- `value` answers `vs` on the rows. -/
def Answered (value : Row → Eval Unit EvalValue) (rows : List Row) (vs : List EvalValue) : Prop :=
  List.Forall₂ (fun row v => (value row ()).1 = .ok v) rows vs

def nonNull (vs : List EvalValue) : List EvalValue := vs.filter fun v => !v.isNull

/-- `v` is not above `w` in the order of `CompareEval`. -/
def AtMost (v w : EvalValue) : Prop := ∃ c, compareEval v w = .ok c ∧ c ≤ 0

def total (vs : List EvalValue) : ℤ := (vs.map fun v => v.integer.toInt).sum

/-- The aggregate of the values that are left without the NULLs. -/
def AggregateOf (kind : CompileAggregateKind) (vs : List EvalValue) (v : EvalValue) : Prop :=
  match kind, vs with
  | .count, _ => v = .int (Int64.ofNat vs.length)
  | _, [] => v = .null
  | .sum, w::_ => v.kind = w.kind ∧ v.integer.toInt = total vs
  | .avg, w::_ => v.kind = w.kind ∧
    ∃ sum : Int64, sum.toInt = total vs ∧ v.integer = sum / Int64.ofNat vs.length
  | .min, _ => v ∈ vs ∧ ∀ w ∈ vs, AtMost v w
  | .max, _ => v ∈ vs ∧ ∀ w ∈ vs, AtMost w v

/-- What the loop needs: running sums of 64 bits, or values that compare. -/
def Accumulates (kind : CompileAggregateKind) (vs : List EvalValue) : Prop :=
  match kind with
  | .count => True
  | .sum | .avg => ∀ n, Machine.Fits (total (vs.take n))
  | .min | .max => ∀ v ∈ vs, ∀ w ∈ vs, v.kind = w.kind

/-! ### The order of `CompareEval` -/

theorem compareEval_ok {c : ℤ} (h : compareEval v w = .ok c) :
    v.kind = w.kind ∧ v.kind ≠ .null := by
  rw [compareEval] at h
  split_ifs at h with hk
  · cases h
  · obtain ⟨hk,hn⟩ := not_or.mp hk
    exact ⟨not_not.mp hk,by simpa [EvalValue.isNull] using hn⟩

theorem compareEval_of_kind (hk : v.kind = w.kind) (hn : v.kind ≠ .null) :
    compareEval v w = .ok (match v.kind with
      | .int => compareInt v.integer w.integer
      | .string => compareText v.text w.text
      | .bool => compareBool v.boolean w.boolean
      | .null => 0) := by
  have hcond : ¬ (v.kind ≠ w.kind ∨ v.isNull = true) := by simp [hk,EvalValue.isNull,hk ▸ hn]
  rw [compareEval,if_neg hcond]
  cases v.kind <;> rfl

theorem compareInt_le {l r : Int64} : compareInt l r ≤ 0 ↔ l.toInt ≤ r.toInt := by
  unfold compareInt
  simp only [Int64.lt_iff_toInt_lt]
  split_ifs <;> omega

theorem compareText_le {l r : List UInt8} : compareText l r ≤ 0 ↔ l ≤ r := by
  rw [← List.not_lt,compareText]
  by_cases hlt : l < r
  · simp [hlt,List.lt_asymm hlt]
  · by_cases hgt : r < l <;> simp [hlt,hgt]

theorem compareBool_le {l r : Bool} : compareBool l r ≤ 0 ↔ l ≤ r := by
  cases l <;> cases r <;> decide

theorem atMost_refl (h : v.kind ≠ .null) : AtMost v v := by
  refine ⟨_,compareEval_of_kind rfl h,?_⟩
  cases hk : v.kind with
  | int => exact compareInt_le.mpr le_rfl
  | string => exact compareText_le.mpr (List.le_refl v.text)
  | bool => exact compareBool_le.mpr le_rfl
  | null => exact le_rfl

theorem AtMost.trans (h : AtMost v w) (h' : AtMost w u) : AtMost v u := by
  obtain ⟨c,hc,hle⟩ := h
  obtain ⟨d,hd,hle'⟩ := h'
  obtain ⟨hk,hn⟩ := compareEval_ok hc
  obtain ⟨hk',hn'⟩ := compareEval_ok hd
  rw [compareEval_of_kind hk hn] at hc
  rw [compareEval_of_kind hk' hn'] at hd
  refine ⟨_,compareEval_of_kind (hk.trans hk') hn,?_⟩
  cases hc
  cases hd
  rw [← hk] at hle'
  cases hv : v.kind with
  | int =>
    simp only [hv] at hle hle' ⊢
    exact compareInt_le.mpr ((compareInt_le.mp hle).trans (compareInt_le.mp hle'))
  | string =>
    simp only [hv] at hle hle' ⊢
    exact compareText_le.mpr (List.le_trans (compareText_le.mp hle) (compareText_le.mp hle'))
  | bool =>
    simp only [hv] at hle hle' ⊢
    exact compareBool_le.mpr ((compareBool_le.mp hle).trans (compareBool_le.mp hle'))
  | null => exact absurd hv hn

theorem compareEval_swap {c : ℤ} (h : compareEval v w = .ok c) : compareEval w v = .ok (-c) := by
  obtain ⟨hk,hn⟩ := compareEval_ok h
  rw [compareEval_of_kind hk hn] at h
  rw [compareEval_of_kind hk.symm (hk ▸ hn),← hk]
  cases h
  cases hv : v.kind with
  | int =>
    simp only [compareInt,Int64.lt_iff_toInt_lt]
    congr 1
    split_ifs <;> omega
  | string =>
    simp only [compareText]
    by_cases hlt : v.text < w.text
    · simp [hlt,List.lt_asymm hlt]
    · by_cases hgt : w.text < v.text <;> simp [hlt,hgt]
  | bool =>
    simp only [compareBool]
    cases v.boolean <;> cases w.boolean <;> rfl
  | null => exact absurd hv hn

/-! ### The loops -/

/-- The loop of SUM, AVG, MIN and MAX over the values that are left without the NULLs. -/
def accumulateAll (kind : CompileAggregateKind) (found : Option EvalValue) (count : Int64) :
    List EvalValue → Result EvalValue
  | [] => .ok (aggregateEnd kind count found)
  | v::vs =>
    match found with
    | none => accumulateAll kind (some v) (count + 1) vs
    | some accumulated => (accumulate kind accumulated v).bind fun next =>
      accumulateAll kind (some next) (count + 1) vs

theorem count_succ (count : Int64) (n : ℕ) :
    count + 1 + Int64.ofNat n = count + Int64.ofNat (n + 1) := by
  rw [Int64.ofNat_add,Int64.add_assoc,Int64.add_comm 1]
  rfl

@[simp] theorem nonNull_cons :
    nonNull (v::vs) = if v.isNull then nonNull vs else v::nonNull vs := by
  unfold nonNull
  cases h : v.isNull <;> simp [h]

theorem countRows_ok {count : Int64} (h : (countRows value count rows ()).1 = .ok v) :
    ∃ vs, Answered value rows vs ∧ v = .int (count + Int64.ofNat (nonNull vs).length) := by
  induction rows generalizing count with
  | nil =>
    cases h
    exact ⟨[],.nil,by simp [nonNull]⟩
  | cons row rows ih =>
    rw [countRows,bind_answers] at h
    obtain ⟨w,hw,h⟩ := h
    obtain ⟨vs,hvs,hv⟩ := ih h
    refine ⟨w::vs,.cons hw hvs,?_⟩
    rw [hv,nonNull_cons]
    cases w.isNull with
    | true => rfl
    | false =>
      simp only [Bool.false_eq_true,if_false,List.length_cons,count_succ]

theorem countRows_answers {count : Int64} (h : Answered value rows vs) :
    ∃ v, (countRows value count rows ()).1 = .ok v := by
  induction h generalizing count with
  | nil => exact ⟨_,rfl⟩
  | cons hw _ ih =>
    obtain ⟨v,hv⟩ := ih
    exact ⟨v,by rw [countRows]; exact bind_answers.mpr ⟨_,hw,hv⟩⟩

theorem aggregateRows_ok {found : Option EvalValue} {count : Int64}
    (h : (aggregateRows kind value found count rows ()).1 = .ok v) :
    ∃ vs, Answered value rows vs ∧ accumulateAll kind found count (nonNull vs) = .ok v := by
  induction rows generalizing found count with
  | nil => exact ⟨[],.nil,h⟩
  | cons row rows ih =>
    rw [aggregateRows,bind_answers] at h
    obtain ⟨w,hw,h⟩ := h
    by_cases hn : w.isNull = true
    · rw [if_pos hn] at h
      obtain ⟨vs,hvs,hv⟩ := ih h
      exact ⟨w::vs,.cons hw hvs,by rw [nonNull_cons,if_pos hn,hv]⟩
    · rw [if_neg hn] at h
      cases found with
      | none =>
        obtain ⟨vs,hvs,hv⟩ := ih h
        exact ⟨w::vs,.cons hw hvs,by rw [nonNull_cons,if_neg hn,accumulateAll,hv]⟩
      | some a =>
        obtain ⟨next,hnext,h⟩ := bind_answers.mp h
        have hnext : accumulate kind a w = .ok next := hnext
        obtain ⟨vs,hvs,hv⟩ := ih h
        refine ⟨w::vs,.cons hw hvs,?_⟩
        rw [nonNull_cons,if_neg hn,accumulateAll,hnext]
        exact hv

theorem aggregateRows_answers {found : Option EvalValue} {count : Int64}
    (h : Answered value rows vs) (hv : accumulateAll kind found count (nonNull vs) = .ok v) :
    (aggregateRows kind value found count rows ()).1 = .ok v := by
  induction h generalizing found count with
  | nil => exact hv
  | @cons row w rows vs hw _ ih =>
    rw [aggregateRows]
    refine bind_answers.mpr ⟨w,hw,?_⟩
    rw [nonNull_cons] at hv
    by_cases hn : w.isNull = true
    · rw [if_pos hn] at hv ⊢
      exact ih hv
    · rw [if_neg hn] at hv ⊢
      cases found with
      | none =>
        rw [accumulateAll] at hv
        exact ih hv
      | some a =>
        rw [accumulateAll] at hv
        cases hb : accumulate kind a w with
        | error e =>
          rw [hb] at hv
          cases hv
        | ok b =>
          rw [hb] at hv
          exact bind_answers.mpr ⟨b,hb,ih hv⟩

/-! ### What the loops add up to -/

theorem total_cons : total (v::vs) = v.integer.toInt + total vs := by
  rw [total,List.map_cons,List.sum_cons]
  rfl

theorem accumulate_sum (hk : kind = .sum ∨ kind = .avg) (h : accumulate kind a v = .ok b) :
    b.kind = a.kind ∧ b.integer.toInt = a.integer.toInt + v.integer.toInt := by
  rw [accumulate,if_pos hk] at h
  split_ifs at h with ho
  · cases h
  · cases h
    have hfits := addOverflows_eq_false.mp (Bool.eq_false_of_not_eq_true ho)
    exact ⟨rfl,Machine.toInt_add hfits⟩

theorem accumulateAll_cons {count : Int64}
    (h : accumulateAll kind (some a) count (v::vs) = .ok w) :
    ∃ b, accumulate kind a v = .ok b ∧ accumulateAll kind (some b) (count + 1) vs = .ok w := by
  rw [accumulateAll] at h
  cases hb : accumulate kind a v with
  | error e =>
    rw [hb] at h
    cases h
  | ok b =>
    rw [hb] at h
    exact ⟨b,rfl,h⟩

theorem sums_ok {count : Int64} (hk : kind = .sum ∨ kind = .avg)
    (h : accumulateAll kind (some a) count vs = .ok v) :
    ∃ b, b.kind = a.kind ∧ b.integer.toInt = total (a::vs) ∧
      v = aggregateEnd kind (count + Int64.ofNat vs.length) (some b) := by
  induction vs generalizing a count with
  | nil =>
    cases h
    exact ⟨a,rfl,by simp [total],by simp⟩
  | cons w vs ih =>
    obtain ⟨b,hb,h⟩ := accumulateAll_cons h
    obtain ⟨hbk,hbn⟩ := accumulate_sum hk hb
    obtain ⟨c,hck,hcn,hv⟩ := ih h
    refine ⟨c,hck.trans hbk,?_,by rw [hv,List.length_cons,count_succ]⟩
    rw [hcn,total_cons,hbn,total_cons,total_cons,add_assoc]

/-- `v` goes before `w` in the order MIN or MAX looks for. -/
def Leads (kind : CompileAggregateKind) (v w : EvalValue) : Prop :=
  if kind = .max then AtMost w v else AtMost v w

theorem leads_refl (h : v.kind ≠ .null) : Leads kind v v := by
  unfold Leads
  split_ifs <;> exact atMost_refl h

theorem Leads.trans (h : Leads kind v w) (h' : Leads kind w u) : Leads kind v u := by
  unfold Leads at *
  split_ifs at *
  · exact AtMost.trans h' h
  · exact AtMost.trans h h'

/-- One more value: the accumulated one is one of the two and leads both. -/
theorem accumulate_leads (hk : kind = .min ∨ kind = .max) (h : accumulate kind a v = .ok b) :
    (b = a ∨ b = v) ∧ Leads kind b a ∧ Leads kind b v := by
  have hkind : ¬ (kind = .sum ∨ kind = .avg) := by rcases hk with rfl | rfl <;> decide
  rw [accumulate,if_neg hkind] at h
  cases hc : compareEval v a with
  | error e =>
    rw [hc] at h
    cases h
  | ok c =>
    rw [hc] at h
    have hav := compareEval_swap hc
    obtain ⟨hsame,hnull⟩ := compareEval_ok hc
    have hrefl : Leads kind v v := leads_refl hnull
    have hrefl' : Leads kind a a := leads_refl (hsame ▸ hnull)
    dsimp only at h
    split_ifs at h with hcond
    · cases h
      refine ⟨Or.inr rfl,?_,hrefl⟩
      rcases hcond with ⟨rfl,hneg⟩ | ⟨rfl,hpos⟩
      · exact ⟨c,hc,hneg.le⟩
      · exact ⟨-c,hav,by omega⟩
    · cases h
      refine ⟨Or.inl rfl,hrefl',?_⟩
      rcases hk with rfl | rfl
      · have hnn : ¬ c < 0 := fun hneg => hcond (Or.inl ⟨rfl,hneg⟩)
        exact ⟨-c,hav,by omega⟩
      · have hnp : ¬ 0 < c := fun hpos => hcond (Or.inr ⟨rfl,hpos⟩)
        exact ⟨c,hc,by omega⟩

theorem extreme_ok {count : Int64} (hk : kind = .min ∨ kind = .max) (ha : a.kind ≠ .null)
    (h : accumulateAll kind (some a) count vs = .ok v) :
    v ∈ a::vs ∧ ∀ w ∈ a::vs, Leads kind v w := by
  induction vs generalizing a count with
  | nil =>
    have hv : v = a := by rcases hk with rfl | rfl <;> cases h <;> rfl
    subst hv
    refine ⟨List.mem_singleton_self _,fun w hw => ?_⟩
    rw [List.mem_singleton.mp hw]
    exact leads_refl ha
  | cons w vs ih =>
    obtain ⟨b,hb,h⟩ := accumulateAll_cons h
    obtain ⟨hbv,hleada,hleadw⟩ := accumulate_leads hk hb
    have hbk : b.kind ≠ .null := by
      unfold Leads at hleada
      split_ifs at hleada
      · obtain ⟨c,hc,-⟩ := hleada
        exact (compareEval_ok hc).1 ▸ ha
      · obtain ⟨c,hc,-⟩ := hleada
        exact (compareEval_ok hc).2
    obtain ⟨hmem,hall⟩ := ih hbk h
    have hlead := hall b List.mem_cons_self
    constructor
    · rcases List.mem_cons.mp hmem with rfl | hmem
      · rcases hbv with rfl | rfl
        · exact List.mem_cons_self
        · exact List.mem_cons_of_mem _ List.mem_cons_self
      · exact List.mem_cons_of_mem _ (List.mem_cons_of_mem _ hmem)
    · intro u hu
      rcases List.mem_cons.mp hu with rfl | hu
      · exact hlead.trans hleada
      rcases List.mem_cons.mp hu with rfl | hu
      · exact hlead.trans hleadw
      · exact hall u (List.mem_cons_of_mem _ hu)

theorem not_null_of_mem (h : v ∈ nonNull vs) : v.kind ≠ .null := by
  have hv := (List.mem_filter.mp h).2
  simpa [EvalValue.isNull] using hv

/-- The values that are not NULL, accumulated from the start. -/
theorem aggregateOf_accumulateAll (hk : kind ≠ .count) (hvs : ∀ w ∈ vs, w.kind ≠ .null)
    (h : accumulateAll kind none 0 vs = .ok v) : AggregateOf kind vs v := by
  cases vs with
  | nil =>
    cases h
    cases kind with
    | count => exact absurd rfl hk
    | _ => rfl
  | cons w vs =>
    have hw := hvs w List.mem_cons_self
    rw [accumulateAll] at h
    have hlength : (0 : Int64) + 1 + Int64.ofNat vs.length = Int64.ofNat (w::vs).length := by
      rw [count_succ,Int64.zero_add,List.length_cons]
    cases kind with
    | count => exact absurd rfl hk
    | sum =>
      obtain ⟨b,hbk,hbn,rfl⟩ := sums_ok (Or.inl rfl) h
      exact ⟨hbk,hbn⟩
    | avg =>
      obtain ⟨b,hbk,hbn,rfl⟩ := sums_ok (Or.inr rfl) h
      exact ⟨hbk,b.integer,hbn,by rw [← hlength]; rfl⟩
    | min => exact extreme_ok (Or.inl rfl) hw h
    | max => exact extreme_ok (Or.inr rfl) hw h

theorem accumulateAll_sums {count : Int64} (hk : kind = .sum ∨ kind = .avg)
    (h : ∀ n, Machine.Fits (a.integer.toInt + total (vs.take n))) :
    ∃ v, accumulateAll kind (some a) count vs = .ok v := by
  induction vs generalizing a count with
  | nil => exact ⟨_,rfl⟩
  | cons w vs ih =>
    have hfits : Machine.Fits (a.integer.toInt + w.integer.toInt) := by
      have h1 := h 1
      simpa [total] using h1
    have hb : accumulate kind a w = .ok {a with integer := a.integer + w.integer} := by
      rw [accumulate,if_pos hk,addOverflows_eq_false.mpr hfits]
      rfl
    rw [accumulateAll,hb]
    refine ih fun n => ?_
    have hn := h (n + 1)
    rw [List.take_succ_cons,total_cons,← add_assoc] at hn
    rw [Machine.toInt_add hfits]
    exact hn

theorem accumulateAll_extreme {count : Int64} (hk : kind = .min ∨ kind = .max)
    (ha : a.kind ≠ .null) (h : ∀ w ∈ vs, w.kind = a.kind) :
    ∃ v, accumulateAll kind (some a) count vs = .ok v := by
  induction vs generalizing a count with
  | nil => exact ⟨_,rfl⟩
  | cons w vs ih =>
    have hw := h w List.mem_cons_self
    have hkind : ¬ (kind = .sum ∨ kind = .avg) := by rcases hk with rfl | rfl <;> decide
    rw [accumulateAll,accumulate,if_neg hkind,compareEval_of_kind hw (hw ▸ ha)]
    dsimp only
    split_ifs
    · exact ih (hw ▸ ha) fun u hu => (h u (List.mem_cons_of_mem _ hu)).trans hw.symm
    · exact ih ha fun u hu => h u (List.mem_cons_of_mem _ hu)

theorem accumulateAll_total (hk : kind ≠ .count) (hvs : ∀ w ∈ vs, w.kind ≠ .null)
    (h : Accumulates kind vs) : ∃ v, accumulateAll kind none 0 vs = .ok v := by
  cases vs with
  | nil => exact ⟨_,rfl⟩
  | cons w vs =>
    rw [accumulateAll]
    have hsum (hs : ∀ n, Machine.Fits (total ((w::vs).take n))) (n : ℕ) :
        Machine.Fits (w.integer.toInt + total (vs.take n)) := by
      have hn := hs (n + 1)
      rwa [List.take_succ_cons,total_cons] at hn
    have hsame (hs : ∀ v ∈ w::vs, ∀ u ∈ w::vs, v.kind = u.kind) (u : EvalValue) (hu : u ∈ vs) :
        u.kind = w.kind := hs u (List.mem_cons_of_mem _ hu) w List.mem_cons_self
    have hw := hvs w List.mem_cons_self
    cases kind with
    | count => exact absurd rfl hk
    | sum => exact accumulateAll_sums (Or.inl rfl) (hsum h)
    | avg => exact accumulateAll_sums (Or.inr rfl) (hsum h)
    | min => exact accumulateAll_extreme (Or.inl rfl) hw (hsame h)
    | max => exact accumulateAll_extreme (Or.inr rfl) hw (hsame h)

/-- An aggregate answers from its argument's values on the rows of the group. -/
theorem outcome_aggregate {schema : Schema} {runner : Option (SubqueryRunner Query Unit)}
    {row : Row} {argument : CompileExpr Query}
    (h : outcome schema runner (some rows) row (.aggregate kind false argument) = .ok v) :
    ∃ vs, List.Forall₂ (fun r w => outcome schema runner none r argument = .ok w) rows vs ∧
      AggregateOf kind (nonNull vs) v := by
  rw [outcome,evaluateExpression] at h
  by_cases hk : kind = .count
  · rw [if_pos hk,if_neg Bool.false_ne_true] at h
    obtain ⟨vs,hvs,hv⟩ := countRows_ok h
    subst hk
    exact ⟨vs,hvs,by rw [hv,Int64.zero_add]; exact rfl⟩
  · rw [if_neg hk] at h
    obtain ⟨vs,hvs,hv⟩ := aggregateRows_ok h
    exact ⟨vs,hvs,aggregateOf_accumulateAll hk (fun w => not_null_of_mem) hv⟩

/-- It answers if the argument has a value on every row and the loop can add them up. -/
theorem aggregate_answers {schema : Schema} {runner : Option (SubqueryRunner Query Unit)}
    {row : Row} {argument : CompileExpr Query}
    (hvs : List.Forall₂ (fun r w => outcome schema runner none r argument = .ok w) rows vs)
    (h : Accumulates kind (nonNull vs)) :
    ∃ v, outcome schema runner (some rows) row (.aggregate kind false argument) = .ok v := by
  rw [outcome,evaluateExpression]
  by_cases hk : kind = .count
  · rw [if_pos hk,if_neg Bool.false_ne_true]
    exact countRows_answers hvs
  · obtain ⟨v,hv⟩ := accumulateAll_total hk (fun w => not_null_of_mem) h
    rw [if_neg hk]
    exact ⟨v,aggregateRows_answers hvs hv⟩

theorem outcome_countStar {schema : Schema} {runner : Option (SubqueryRunner Query Unit)}
    {row : Row} {argument : CompileExpr Query} :
    outcome schema runner (some rows) row (.aggregate .count true argument) =
      .ok (.int (Int64.ofNat rows.length)) := by
  rw [outcome,evaluateExpression]
  rfl

end Expression
end OurSql
