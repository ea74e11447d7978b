import OurSql.Catalog.Open

/-! What the edits of a slotted page do to its records and to the bytes it uses,
page by page and along the chain. -/
namespace OurSql
namespace Catalog

@[simp] theorem records_some (r : Record) (p : Slots) :
    Slots.records (some r::p) = r::Slots.records p := rfl

@[simp] theorem records_none (p : Slots) : Slots.records (none::p) = p.records := rfl

theorem place_records (p : Slots) (r : Record) : (p.place r).records.Perm (r::p.records) := by
  induction p with
  | nil => exact List.Perm.refl _
  | cons o p ih =>
    cases o with
    | none => exact List.Perm.refl _
    | some x => exact (ih.cons x).trans (List.Perm.swap r x _)

theorem place_length (p : Slots) (r : Record) :
    (p.place r).length = p.length + if none ∈ p then 0 else 1 := by
  induction p with
  | nil => rfl
  | cons o p ih =>
    cases o with
    | none => simp [Slots.place]
    | some x =>
      simp only [Slots.place, List.length_cons, ih, List.mem_cons, reduceCtorEq, false_or]
      omega

theorem place_used (p : Slots) (r : Record) :
    (p.place r).used = p.used + r.size + if none ∈ p then 0 else slotSize := by
  have hsum := ((place_records p r).map Record.size).sum_nat
  simp only [List.map_cons, List.sum_cons] at hsum
  simp only [Slots.used, hsum, place_length, slotSize]
  split <;> omega

theorem insertRecord_some {p q : Slots} {r : Record} (h : p.insertRecord r = some q) :
    q.records.Perm (r::p.records) ∧ q.used ≤ pageSize := by
  rw [Slots.insertRecord] at h
  by_cases hfit : pageSize < p.used + r.size + if none ∈ p then 0 else slotSize
  · simp [if_pos hfit] at h
  · rw [if_neg hfit] at h
    obtain rfl := Option.some.inj h
    exact ⟨place_records p r,by rw [place_used]; omega⟩

theorem deleteRecord_records {p : Slots} {slot : ℕ} {r : Record} (h : p[slot]? = some (some r)) :
    p.records.Perm (r::(p.deleteRecord slot).records) := by
  induction p generalizing slot with
  | nil => simp at h
  | cons o p ih =>
    cases slot with
    | zero =>
      have ho : o = some r := by simpa using h
      subst ho
      exact List.Perm.refl _
    | succ slot =>
      have hp : (Slots.records p).Perm (r::(Slots.deleteRecord p slot).records) := ih (by simpa using h)
      cases o with
      | none => exact hp
      | some x => exact (hp.cons x).trans (List.Perm.swap r x _)

theorem deleteRecord_used {p : Slots} {slot : ℕ} {r : Record} (h : p[slot]? = some (some r)) :
    p.used = (p.deleteRecord slot).used + r.size := by
  have hsum := ((deleteRecord_records h).map Record.size).sum_nat
  simp only [List.map_cons, List.sum_cons] at hsum
  have hlen : (p.deleteRecord slot).length = p.length := List.length_set
  simp only [Slots.used, hsum, hlen]
  omega

theorem deleteRecord_none {p : Slots} {slot : ℕ} {r : Record} (h : p[slot]? = some (some r)) :
    none ∈ p.deleteRecord slot := by
  have hlt : slot < p.length := (List.getElem?_eq_some_iff.mp h).1
  exact List.mem_iff_getElem?.mpr ⟨slot,by simp [Slots.deleteRecord, hlt]⟩

/-- The rewritten record fits where the old one of the same length was. -/
theorem rewrite_fits {p : Slots} {slot : ℕ} {r r' : Record} (h : p[slot]? = some (some r))
    (hs : r'.size = r.size) (hu : p.used ≤ pageSize) :
    (p.deleteRecord slot).insertRecord r' = some ((p.deleteRecord slot).place r') := by
  have hused := deleteRecord_used h
  rw [Slots.insertRecord,if_pos (deleteRecord_none h),if_neg]
  omega

theorem slots_find {p : Slots} {wanted : Record → Bool} {slot : ℕ}
    (h : p.find wanted = some slot) : ∃ r, p[slot]? = some (some r) ∧ wanted r = true := by
  obtain ⟨hlt,hw,-⟩ := List.findIdx?_eq_some_iff_getElem.mp h
  obtain ⟨r,hr,hwr⟩ := (Option.any_eq_true _ _).mp hw
  exact ⟨r,by rw [List.getElem?_eq_getElem hlt,hr],hwr⟩

theorem findRecord_some {pages : List Slots} {wanted : Record → Bool} {k slot : ℕ}
    (h : findRecord wanted pages = some (k,slot)) :
    ∃ p r, pages[k]? = some p ∧ p[slot]? = some (some r) ∧ wanted r = true := by
  induction pages generalizing k with
  | nil => simp [findRecord] at h
  | cons p ps ih =>
    simp only [findRecord] at h
    split at h
    · next s hs =>
      simp only [Option.some.injEq, Prod.mk.injEq] at h
      obtain ⟨rfl,rfl⟩ := h
      obtain ⟨r,hr,hw⟩ := slots_find hs
      exact ⟨p,r,rfl,hr,hw⟩
    · obtain ⟨⟨k',slot'⟩,hk,he⟩ := Option.map_eq_some_iff.mp h
      simp only [Prod.mk.injEq] at he
      obtain ⟨rfl,rfl⟩ := he
      obtain ⟨q,r,hq,hr,hw⟩ := ih hk
      exact ⟨q,r,by simpa using hq,hr,hw⟩

theorem recordsOf_cons (p : Slots) (ps : List Slots) :
    recordsOf (p::ps) = p.records ++ recordsOf ps := List.flatMap_cons

theorem mem_recordsOf {pages : List Slots} {k : ℕ} {p : Slots} {r : Record}
    (hk : pages[k]? = some p) (hr : r ∈ p.records) : r ∈ recordsOf pages :=
  List.mem_flatMap.mpr ⟨p,List.mem_of_getElem? hk,hr⟩

/-- Replacing one page trades its records and leaves all others. -/
theorem recordsOf_set {pages : List Slots} {k : ℕ} {p : Slots} (hk : pages[k]? = some p) :
    ∃ others, ∀ q, (recordsOf (pages.set k q)).Perm (q.records ++ others) := by
  induction pages generalizing k with
  | nil => simp at hk
  | cons x ps ih =>
    cases k with
    | zero => exact ⟨recordsOf ps,fun q => List.Perm.refl _⟩
    | succ k =>
      obtain ⟨others,ho⟩ := ih (k := k) (by simpa using hk)
      refine ⟨x.records ++ others,fun q => ?_⟩
      rw [List.set_cons_succ,recordsOf_cons]
      refine ((ho q).append_left x.records).trans ?_
      rw [← List.append_assoc,← List.append_assoc]
      exact (List.perm_append_comm).append_right others

theorem set_self {pages : List Slots} {k : ℕ} {p : Slots} (hk : pages[k]? = some p) :
    pages.set k p = pages := by
  obtain ⟨hlt,rfl⟩ := List.getElem?_eq_some_iff.mp hk
  exact List.set_getElem_self hlt

theorem appendCatalogRecord_records (r : Record) (pages : List Slots) :
    (recordsOf (appendCatalogRecord r pages)).Perm (r::recordsOf pages) := by
  induction pages with
  | nil => exact List.Perm.refl _
  | cons p ps ih =>
    simp only [appendCatalogRecord]
    split
    · next p' hp =>
      rw [recordsOf_cons,recordsOf_cons]
      exact (insertRecord_some hp).1.append_right _
    · rw [recordsOf_cons,recordsOf_cons]
      exact (ih.append_left p.records).trans List.perm_middle

theorem appendCatalogRecord_used {r : Record} (hr : r.size ≤ maxRecordSize) {pages : List Slots}
    (hu : ∀ p ∈ pages, p.used ≤ pageSize) :
    ∀ p ∈ appendCatalogRecord r pages, p.used ≤ pageSize := by
  induction pages with
  | nil =>
    intro p hp
    rw [List.mem_singleton.mp hp]
    simp only [Slots.used, Slots.records, maxRecordSize, pageSize, headerSize, slotSize] at hr ⊢
    simp only [List.length_singleton, List.filterMap_cons, id, List.filterMap_nil, List.map_cons,
      List.map_nil, List.sum_cons, List.sum_nil]
    omega
  | cons p ps ih =>
    intro q hq
    simp only [appendCatalogRecord] at hq
    have hrest : ∀ q ∈ ps, q.used ≤ pageSize := fun q hq => hu q (List.mem_cons_of_mem _ hq)
    split at hq
    · next p' hp =>
      rcases List.mem_cons.mp hq with rfl | hq
      · exact (insertRecord_some hp).2
      · exact hrest q hq
    · rcases List.mem_cons.mp hq with rfl | hq
      · exact hu q List.mem_cons_self
      · exact ih hrest q hq

theorem used_set {pages : List Slots} (hu : ∀ p ∈ pages, p.used ≤ pageSize) {k : ℕ} {q : Slots}
    (hq : q.used ≤ pageSize) : ∀ p ∈ pages.set k q, p.used ≤ pageSize := by
  intro p hp
  rcases List.mem_or_eq_of_mem_set hp with hp | rfl
  · exact hu p hp
  · exact hq

end Catalog
end OurSql
