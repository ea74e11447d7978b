import OurSql.Storage.HeapRows
import OurSql.Execution.Mirror

/-! The rows that the executors work on are those of a heap: what a call does to its pages
is what the call of the same name does to the list of rows. -/
namespace OurSql
namespace Execution

open Data Index
open Storage (HeapTable.TableMetadata HeapTable.Inv HeapTable.Storable HeapTable.Pool)

variable {heap : HeapTable.TableMetadata} {s : HeapTable.Pool} {ids : List PageId}
  {m : RID → Option Row} {t : Table} {rid : RID} {row : Row} {place : Place} {fresh : PageId}

/-- The rows of a table are those that the map of the heap holds. -/
structure Represents (heap : HeapTable.TableMetadata) (m : RID → Option Row) (t : Table) :
    Prop where
  schema : t.schema = heap.schema
  nodup : t.rids.Nodup
  rows : ∀ rid row, (rid,row) ∈ t.rows ↔ m rid = some row

namespace Represents

theorem mem_rids (h : Represents heap m t) : rid ∈ t.rids ↔ m rid ≠ none := by
  rw [Option.ne_none_iff_exists',Table.rids,List.mem_map]
  constructor
  · rintro ⟨⟨rid',row⟩,hmem,rfl⟩
    exact ⟨row,(h.rows _ _).mp hmem⟩
  · rintro ⟨row,hm⟩
    exact ⟨(rid,row),(h.rows _ _).mpr hm,rfl⟩

theorem lookup (h : Represents heap m t) : t.rows.lookup rid = m rid := by
  cases hl : t.rows.lookup rid with
  | none =>
    by_contra hne
    obtain ⟨e,he,hrid⟩ := List.mem_map.mp (h.mem_rids.mpr (Ne.symm hne))
    have := List.lookup_eq_none_iff.mp hl e he
    simp [hrid] at this
  | some row =>
    obtain ⟨front,back,hrows,-⟩ := List.lookup_eq_some_iff.mp hl
    exact ((h.rows rid row).mp (hrows ▸ by simp)).symm

/-- The scan of the heap is the list of rows. -/
theorem of_scan (h : HeapTable.Inv heap s ids m) :
    ∃ rows, Storage.HeapTable.scan heap s = .ok rows ∧ Represents heap m ⟨heap.schema,rows⟩ :=
  ⟨_,h.scan,rfl,h.scan_nodup,fun _ _ => h.mem_scan⟩

theorem getRow (h : Represents heap m t) (hs : HeapTable.Inv heap s ids m) :
    t.getRow rid = .ok row ↔ Storage.HeapTable.getRow heap s rid = .ok row := by
  rw [hs.getRow,Table.getRow,h.lookup]
  cases m rid with
  | none => simp [fail]
  | some row' => simp

/-- A row that the heap refuses is refused; the place of any other is where the heap put it. -/
theorem insertRow (h : Represents heap m t) (hs : HeapTable.Inv heap s ids m)
    (hp : Proper heap.schema) (hf : s.Free fresh) (transaction : Bool) (row : Row) :
    (∃ e, Storage.HeapTable.insertRow heap transaction fresh row s = (.error e,s) ∧
      ∀ place, ∃ e, t.insertRow place row = .error e) ∨
    ∃ rid s' ids', Storage.HeapTable.insertRow heap transaction fresh row s = (.ok rid,s') ∧
      HeapTable.Inv heap s' ids' (Function.update m rid (some row)) ∧
      ∀ position, ∃ t', t.insertRow ⟨rid,position⟩ row = .ok (rid,t') ∧
        Represents heap (Function.update m rid (some row)) t' := by
  rcases hs.insertRow hp hf transaction row with ⟨hn,e,he⟩ | ⟨hst,rid,ids',hok,hm,hinv,-⟩
  · refine Or.inl ⟨e,he,fun place => ?_⟩
    simp only [Table.insertRow,h.schema]
    cases hr : RowCodec.encode heap.schema row with
    | error e => exact ⟨e,rfl⟩
    | ok record =>
      have hlong : Storage.SlottedPage.kMaxRecordSize < record.length :=
        Nat.lt_of_not_le fun hle => hn ⟨record,hr,hle⟩
      exact ⟨_,if_pos hlong⟩
  · refine Or.inr ⟨rid,_,ids',Prod.ext hok rfl,hinv,fun position => ?_⟩
    have hfree : t.freeRid rid = rid := by
      rw [Table.freeRid,if_neg (fun hmem => h.mem_rids.mp hmem hm)]
    obtain ⟨record,hr,hle⟩ := hst
    have ht : ∃ t', t.insertRow ⟨rid,position⟩ row = .ok (rid,t') := by
      simp only [Table.insertRow,h.schema,hr,if_neg (Nat.not_lt.mpr hle),hfree]
      exact ⟨_,rfl⟩
    obtain ⟨t',ht⟩ := ht
    obtain ⟨hnew,hschema,hrows⟩ := Table.insertRow_ok ht
    refine ⟨t',ht,hschema.trans h.schema,?_,fun rid' row' => ?_⟩
    · exact (hrows.map Prod.fst).nodup_iff.mpr (List.nodup_cons.mpr ⟨hnew,h.nodup⟩)
    · rw [hrows.mem_iff,List.mem_cons,h.rows,Function.update_apply]
      by_cases hrid : rid' = rid
      · rw [if_pos hrid,hrid,hm]
        simp [eq_comm]
      · rw [if_neg hrid]
        simp [hrid]

/-- Both delete a live row, and no other. -/
theorem deleteRow (h : Represents heap m t) (hs : HeapTable.Inv heap s ids m)
    (transaction : Bool) (rid : RID) :
    (∃ message message', Storage.HeapTable.deleteRow heap transaction rid s =
        (fail .notFound message,s) ∧ t.deleteRow rid = fail .notFound message') ∨
    ∃ s' ids' t', Storage.HeapTable.deleteRow heap transaction rid s = (.ok (),s') ∧
      HeapTable.Inv heap s' ids' (Function.update m rid none) ∧ t.deleteRow rid = .ok t' ∧
      Represents heap (Function.update m rid none) t' := by
  rcases hs.deleteRow transaction rid with ⟨hm,message,he⟩ | ⟨hm,s',ids',hok,hinv,-,-⟩
  · refine Or.inl ⟨message,"slot_id 不存在: " ++ toString rid.slotId,he,?_⟩
    rw [Table.deleteRow,if_neg (fun hmem => h.mem_rids.mp hmem hm)]
  · have ht : ∃ t', t.deleteRow rid = .ok t' :=
      ⟨_,by rw [Table.deleteRow,if_pos (h.mem_rids.mpr hm)]⟩
    obtain ⟨t',ht⟩ := ht
    obtain ⟨row,hrow⟩ := Option.ne_none_iff_exists'.mp hm
    obtain ⟨hschema,hrows⟩ := Table.deleteRow_ok h.nodup ((h.rows rid row).mpr hrow) ht
    obtain ⟨hnew,hnodup⟩ := List.nodup_cons.mp ((hrows.map Prod.fst).nodup_iff.mp h.nodup)
    refine Or.inr ⟨s',ids',t',hok,hinv,ht,hschema.trans h.schema,hnodup,fun rid' row' => ?_⟩
    rw [Function.update_apply]
    by_cases hrid : rid' = rid
    · rw [if_pos hrid,hrid]
      constructor
      · intro hmem
        exact absurd (List.mem_map_of_mem hmem) hnew
      · intro hne
        simp at hne
    · rw [if_neg hrid,← h.rows,hrows.mem_iff,List.mem_cons]
      simp [hrid]

end Represents
end Execution
end OurSql
