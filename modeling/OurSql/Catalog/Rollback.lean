import OurSql.Catalog.Pages
import OurSql.Lib.Transition

/-! Catalog memory under rollback. DDL changes the pages and the maps together and
leaves no log; a moved index root is logged as a page update of its transaction,
and `Abort` puts the before images back below the maps. -/
namespace OurSql
namespace Catalog

/-- A logged rewrite of one catalog page; `index` and `root` say which root moved
and where it was, which the log record itself does not say. -/
structure PageUpdate where
  txn : TxnId
  page : ℕ
  before : Slots
  index : String
  root : PageId
  deriving DecidableEq, Repr

/-- The page chain in order, the maps, and the updates of transactions still in
flight, newest first. Such a transaction holds X on each page it has rewritten. -/
structure Store where
  pages : List Slots
  maps : Maps
  log : List PageUpdate
  deriving DecidableEq, Repr

namespace Store

def createTable (s : Store) (t : TableMetadata) (dataPage : PageId) : Status × Store :=
  let t := { t with firstDataPageId := dataPage }
  match validateTable t with
  | .error e => (.error e,s)
  | .ok () =>
    match encodeTable t with
    | .error e => (.error e,s)
    | .ok () =>
      if (s.maps.findTable t.name).isSome then
        (fail .alreadyExists ("表已存在: " ++ t.name),s)
      else (.ok (),{ s with
        pages := appendCatalogRecord (.table t) s.pages
        maps := s.maps.insertTable t })

def dropTable (s : Store) (name : String) : Status × Store :=
  match s.maps.findTable name with
  | none => (fail .notFound ("Catalog 未找到表: " ++ name),s)
  | some _ =>
    if s.maps.indexes.any fun i => i.tableName = name then
      (fail .invalidArgument "删除表元数据前必须先删除该表的全部索引",s)
    else match findRecord (isTable name) s.pages with
      | none => (fail .internalError "Catalog 内存表缺少对应的磁盘记录",s)
      | some (k,slot) => (.ok (),{ s with
          pages := deleteAt s.pages k slot
          maps := s.maps.eraseTable name })

def createIndex (s : Store) (i : IndexMetadata) : Status × Store :=
  match validateIndexShape i with
  | .error e => (.error e,s)
  | .ok () =>
    if (s.maps.findIndex i.name).isSome then (fail .alreadyExists ("索引已存在: " ++ i.name),s)
    else match s.maps.findTable i.tableName with
      | none => (fail .notFound ("索引所属表不存在: " ++ i.tableName),s)
      | some t =>
        if t.schema.any fun col => col.name = i.columnName then
          match encodeIndex i with
          | .error e => (.error e,s)
          | .ok () => (.ok (),{ s with
              pages := appendCatalogRecord (.index i) s.pages
              maps := s.maps.insertIndex i })
        else (fail .notFound ("索引列不存在: " ++ i.tableName ++ "." ++ i.columnName),s)

def dropIndex (s : Store) (name : String) : Status × Store :=
  match s.maps.findIndex name with
  | none => (fail .notFound ("Catalog 未找到索引: " ++ name),s)
  | some _ =>
    match findRecord (isIndex name) s.pages with
    | none => (fail .internalError "Catalog 内存索引缺少对应的磁盘记录",s)
    | some (k,slot) => (.ok (),{ s with
        pages := deleteAt s.pages k slot
        maps := s.maps.eraseIndex name })

/-- `UpdateIndexRootPageId` for a transaction; `none` while another transaction
holds the record's page. Nobody else can move the record between the scan and the
grant: that takes X on the root page this transaction has already rewritten. -/
def updateIndexRootPageId (s : Store) (t : TxnId) (name : String) (root : PageId) :
    Option (Status × Store) :=
  if root = 0 then some (fail .invalidArgument "索引根页面编号不能是superblock",s)
  else match s.maps.findIndex name with
    | none => some (fail .notFound ("Catalog 未找到索引: " ++ name),s)
    | some i =>
      let updated := { i with rootPageId := root }
      match encodeIndex updated with
      | .error e => some (.error e,s)
      | .ok () =>
        match findRecord (isIndex name) s.pages with
        | none => some (fail .internalError "Catalog 内存索引缺少对应的磁盘记录",s)
        | some (k,slot) =>
          if s.log.any fun u => u.page = k ∧ u.txn ≠ t then none
          else
            let before := s.pages.getD k []
            let log := ⟨t,k,before,name,i.rootPageId⟩::s.log
            let deleted := before.deleteRecord slot
            match deleted.insertRecord (.index updated) with
            | none =>
              some (fail .internalError "更新Catalog索引根页面记录失败: 页面没有足够的总空间容纳记录",
                { s with pages := s.pages.set k deleted, log := log })
            | some after => some (.ok (),{
                pages := s.pages.set k after
                maps := s.maps.setRoot name root
                log := log })

def updatesOf (s : Store) (t : TxnId) : List PageUpdate := s.log.filter fun u => u.txn = t

def finish (s : Store) (t : TxnId) : Store := { s with log := s.log.filter fun u => u.txn ≠ t }

/-- `Undo`: the before images of the transaction, newest first. -/
def undo (us : List PageUpdate) (pages : List Slots) : List Slots :=
  us.foldl (fun pages u => pages.set u.page u.before) pages

def commit (s : Store) (t : TxnId) : Store := s.finish t

/-- `Abort` restores pages; nothing calls `Reload`. -/
def abort (s : Store) (t : TxnId) : Store :=
  { s.finish t with pages := undo (s.updatesOf t) s.pages }

end Store

inductive Call
  | createTable (t : TableMetadata) (dataPage : PageId)
  | dropTable (name : String)
  | createIndex (i : IndexMetadata)
  | dropIndex (name : String)
  | updateIndexRootPageId (t : TxnId) (name : String) (root : PageId)
  | commit (t : TxnId)
  | abort (t : TxnId)
  deriving DecidableEq

/-- DDL runs under X on the schema, so no transaction has catalog updates in flight. -/
def Store.ddl (s : Store) (result : Status × Store) : Option (Status × Store) :=
  if s.log = [] then some result else none

def Store.next (s : Store) : Call → Option (Status × Store)
  | .createTable t dataPage =>
    if dataPage = 0 ∨ dataPage = invalidPageId then none else s.ddl (s.createTable t dataPage)
  | .dropTable name => s.ddl (s.dropTable name)
  | .createIndex i => s.ddl (s.createIndex i)
  | .dropIndex name => s.ddl (s.dropIndex name)
  | .updateIndexRootPageId t name root => s.updateIndexRootPageId t name root
  | .commit t => some (.ok (),s.commit t)
  | .abort t => some (.ok (),s.abort t)

/-- Where the transaction found the root of an index it has moved. -/
def foundRoot (us : List PageUpdate) (name : String) : Option PageId :=
  (us.reverse.find? fun u => u.index = name).map PageUpdate.root

/-- Every index whose root the transaction has moved is back where it found it. -/
def Store.Returned (s : Store) (t : TxnId) : Prop :=
  ∀ i ∈ s.maps.indexes, ∀ root, foundRoot (s.updatesOf t) i.name = some root →
    i.rootPageId = root

/-- Memory holds what `Open` would load. -/
def Store.InSync (s : Store) : Prop := openPages s.pages = .ok s.maps

def Store.Opened (s : Store) : Prop := s.log = [] ∧ s.InSync

def Store.Step (s : Store) (c : Call) (s' : Store) : Prop :=
  ∃ status, s.next c = some (status,s')

/-- A call of a run whose aborts find every moved root back in its place. -/
def Store.Steady (s : Store) (c : Call) (s' : Store) : Prop :=
  s.Step c s' ∧ ∀ t, c = .abort t → s.Returned t

/-! ### Undoing one transaction -/

/-- The before images of a transaction's updates, newest first, lead back through
the catalogs it found: each one differs in the root of one index. -/
def Stacked (pages : List Slots) : List PageUpdate → Prop
  | [] => True
  | u::us => (∃ p i rest, pages[u.page]? = some p ∧ p.records.Perm (.index i::rest) ∧
      i.name = u.index ∧ u.before.records.Perm (.index { i with rootPageId := u.root }::rest) ∧
      validateIndexShape { i with rootPageId := u.root } = .ok () ∧ u.before.used ≤ pageSize) ∧
      Stacked (pages.set u.page u.before) us

theorem Stacked.frame {pages : List Slots} {us : List PageUpdate} (h : Stacked pages us) {k : ℕ}
    {q : Slots} (hk : ∀ u ∈ us, u.page ≠ k) : Stacked (pages.set k q) us := by
  induction us generalizing pages with
  | nil => trivial
  | cons u us ih =>
    obtain ⟨⟨p,i,rest,hp,hrest⟩,hs⟩ := h
    have hne : u.page ≠ k := hk u List.mem_cons_self
    refine ⟨⟨p,i,rest,by rw [List.getElem?_set_ne hne.symm,hp],hrest⟩,?_⟩
    rw [List.set_comm _ _ hne.symm]
    exact ih hs fun v hv => hk v (List.mem_cons_of_mem _ hv)

/-- The maps with every index an undone transaction has moved at the root it found. -/
def restoreRoots (us : List PageUpdate) (c : Maps) : Maps :=
  us.foldl (fun c u => c.setRoot u.index u.root) c

theorem undo_reads {pages : List Slots} {us : List PageUpdate} {c : Maps}
    (h : Stacked pages us) (hc : Reads (recordsOf pages) c)
    (hu : ∀ p ∈ pages, p.used ≤ pageSize) :
    Reads (recordsOf (Store.undo us pages)) (restoreRoots us c) ∧
      ∀ p ∈ Store.undo us pages, p.used ≤ pageSize := by
  induction us generalizing pages c with
  | nil => exact ⟨hc,hu⟩
  | cons u us ih =>
    obtain ⟨⟨p,i,rest,hp,hrec,hn,hbefore,hv,hused⟩,hs⟩ := h
    obtain ⟨others,hothers⟩ := recordsOf_set hp
    have hnow : (recordsOf pages).Perm (.index i::(rest ++ others)) := by
      have hself := hothers p
      rw [set_self hp] at hself
      exact hself.trans (hrec.append_right others)
    have hthen := (hothers u.before).trans (hbefore.append_right others)
    have hback : Reads (recordsOf (pages.set u.page u.before)) (c.setRoot u.index u.root) :=
      hn ▸ (reads_setRoot hc hnow hv).perm hthen.symm
    exact ih hs hback (used_set hu hused)

theorem undo_frame {pages : List Slots} {us vs : List PageUpdate} (h : Stacked pages vs)
    (hd : ∀ u ∈ us, ∀ v ∈ vs, v.page ≠ u.page) : Stacked (Store.undo us pages) vs := by
  induction us generalizing pages with
  | nil => exact h
  | cons u us ih =>
    exact ih (h.frame (hd u List.mem_cons_self)) fun w hw => hd w (List.mem_cons_of_mem _ hw)

theorem foundRoot_cons (u : PageUpdate) (us : List PageUpdate) (name : String) :
    foundRoot (u::us) name = (foundRoot us name).or
      (if u.index = name then some u.root else none) := by
  simp only [foundRoot, List.reverse_cons, List.find?_append]
  by_cases hn : u.index = name
  · cases us.reverse.find? fun u => u.index = name <;> simp [hn]
  · cases us.reverse.find? fun u => u.index = name <;> simp [hn]

def atFoundRoot (us : List PageUpdate) (i : IndexMetadata) : IndexMetadata :=
  match foundRoot us i.name with
  | some root => { i with rootPageId := root }
  | none => i

theorem restoreRoots_eq (us : List PageUpdate) (c : Maps) :
    restoreRoots us c = { c with indexes := c.indexes.map (atFoundRoot us) } := by
  induction us generalizing c with
  | nil =>
    have hid : c.indexes.map (atFoundRoot []) = c.indexes := List.map_id _
    rw [hid]
    rfl
  | cons u us ih =>
    have hstep : restoreRoots (u::us) c = restoreRoots us (c.setRoot u.index u.root) := rfl
    rw [hstep,ih]
    simp only [Maps.setRoot, List.map_map]
    congr 1
    refine List.map_congr_left fun i _ => ?_
    simp only [Function.comp, atFoundRoot, foundRoot_cons]
    by_cases hn : i.name = u.index
    · rw [if_pos hn,if_pos hn.symm]
      cases foundRoot us i.name <;> rfl
    · rw [if_neg hn,if_neg (Ne.symm hn)]
      cases foundRoot us i.name <;> rfl

theorem restoreRoots_self_iff {us : List PageUpdate} {c : Maps} :
    restoreRoots us c = c ↔ ∀ i ∈ c.indexes, ∀ root, foundRoot us i.name = some root →
      i.rootPageId = root := by
  have hiff : restoreRoots us c = c ↔ c.indexes.map (atFoundRoot us) = c.indexes := by
    rw [restoreRoots_eq]
    constructor
    · intro h
      exact congrArg Maps.indexes h
    · intro h
      rw [h]
  rw [hiff]
  have hone : ∀ i, atFoundRoot us i = i ↔ ∀ root, foundRoot us i.name = some root →
      i.rootPageId = root := by
    intro i
    simp only [atFoundRoot]
    cases hf : foundRoot us i.name with
    | none => simp
    | some root =>
      constructor
      · intro h root' hr
        rw [← Option.some.inj hr,← h]
      · intro h
        rw [← h root rfl]
  constructor
  · intro h i hi
    obtain ⟨n,hn,rfl⟩ := List.getElem_of_mem hi
    refine (hone _).mp ?_
    have := congrArg (fun l => l[n]?) h
    simpa [List.getElem?_eq_getElem hn] using this
  · intro h
    refine (List.map_congr_left fun i hi => ?_).trans (List.map_id _)
    exact (hone i).mpr (h i hi)

/-! ### Runs -/

structure Store.Inv (s : Store) : Prop where
  reads : Reads (recordsOf s.pages) s.maps
  fits : ∀ p ∈ s.pages, p.used ≤ pageSize
  locked : ∀ u ∈ s.log, ∀ v ∈ s.log, u.page = v.page → u.txn = v.txn
  stacked : ∀ t, Stacked s.pages (s.updatesOf t)

theorem Store.Inv.inSync {s : Store} (h : s.Inv) : s.InSync := openPages_iff.mpr ⟨h.reads,h.fits⟩

theorem inv_of_quiet {s : Store} (hlog : s.log = []) (hr : Reads (recordsOf s.pages) s.maps)
    (hf : ∀ p ∈ s.pages, p.used ≤ pageSize) : s.Inv where
  reads := hr
  fits := hf
  locked := by simp [hlog]
  stacked := fun t => by simp [Store.updatesOf, hlog, Stacked]

theorem inv_of_opened {s : Store} (h : s.Opened) : s.Inv :=
  inv_of_quiet h.1 (openPages_iff.mp h.2).1 (openPages_iff.mp h.2).2

theorem mem_updatesOf {s : Store} {t : TxnId} {u : PageUpdate} :
    u ∈ s.updatesOf t ↔ u ∈ s.log ∧ u.txn = t := by
  simp [Store.updatesOf]

theorem updatesOf_cons {s s' : Store} {u : PageUpdate} (h : s'.log = u::s.log) (t : TxnId) :
    s'.updatesOf t = if u.txn = t then u::s.updatesOf t else s.updatesOf t := by
  simp only [Store.updatesOf, h, List.filter_cons]
  by_cases ht : u.txn = t <;> simp [ht]

theorem size_setRoot (i : IndexMetadata) (root : PageId) :
    (Record.index { i with rootPageId := root }).size = (Record.index i).size := rfl

/-- Deleting a found record leaves the others, on pages that still fit. -/
theorem deleteAt_records {pages : List Slots} {wanted : Record → Bool} {k slot : ℕ}
    (h : findRecord wanted pages = some (k,slot)) (hu : ∀ p ∈ pages, p.used ≤ pageSize) :
    ∃ r, wanted r = true ∧ (recordsOf pages).Perm (r::recordsOf (deleteAt pages k slot)) ∧
      ∀ p ∈ deleteAt pages k slot, p.used ≤ pageSize := by
  obtain ⟨p,r,hp,hr,hw⟩ := findRecord_some h
  obtain ⟨others,hothers⟩ := recordsOf_set hp
  have hdel : deleteAt pages k slot = pages.set k (p.deleteRecord slot) := by
    obtain ⟨hlt,he⟩ := List.getElem?_eq_some_iff.mp hp
    rw [deleteAt,List.modify_eq_set_getElem? ,hp]
    rfl
  have hself := hothers p
  rw [set_self hp] at hself
  refine ⟨r,hw,?_,?_⟩
  · rw [hdel]
    have hdrop := (deleteRecord_records hr).append_right others
    exact (hself.trans hdrop).trans ((hothers (p.deleteRecord slot)).symm.cons r)
  · rw [hdel]
    refine used_set hu ?_
    have := deleteRecord_used hr
    have hpu := hu p (List.mem_of_getElem? hp)
    omega

theorem createTable_inv {s : Store} (h : s.Inv) (hlog : s.log = []) {t : TableMetadata}
    {dataPage : PageId} (hd : ¬ (dataPage = 0 ∨ dataPage = invalidPageId)) :
    (s.createTable t dataPage).2.Inv := by
  simp only [Store.createTable]
  split
  · exact h
  · next hv =>
    split
    · exact h
    · next he =>
      split
      · exact h
      · next hf =>
        refine inv_of_quiet hlog ?_ (appendCatalogRecord_used (encodeTable_ok he) h.fits)
        have hdec : decodeTable { t with firstDataPageId := dataPage } = .ok () := by
          rw [decodeTable,if_neg hd]
          exact hv
        exact (reads_insertTable h.reads (by simpa using hf) hdec).perm
          (appendCatalogRecord_records _ _).symm

theorem createIndex_inv {s : Store} (h : s.Inv) (hlog : s.log = []) (i : IndexMetadata) :
    (s.createIndex i).2.Inv := by
  simp only [Store.createIndex]
  split
  · exact h
  · split
    · exact h
    · next hf =>
      split
      · exact h
      · next t ht =>
        split
        · next hany =>
          split
          · exact h
          · next he =>
            obtain ⟨hv,hs⟩ := encodeIndex_ok he
            have hown : Owned s.maps i :=
              ⟨t,List.mem_of_find?_eq_some ht,by simpa using List.find?_some ht,
                by simpa [HasColumn] using hany⟩
            refine inv_of_quiet hlog ?_ (appendCatalogRecord_used hs h.fits)
            exact (reads_insertIndex h.reads (by simpa using hf) hv hown).perm
              (appendCatalogRecord_records _ _).symm
        · exact h

theorem dropTable_inv {s : Store} (h : s.Inv) (hlog : s.log = []) (name : String) :
    (s.dropTable name).2.Inv := by
  simp only [Store.dropTable]
  split
  · exact h
  · split
    · exact h
    · next hany =>
      split
      · exact h
      · next k slot hf =>
        obtain ⟨r,hw,hp,hu⟩ := deleteAt_records hf h.fits
        obtain ⟨t,rfl,rfl⟩ := isTable_eq hw
        refine inv_of_quiet hlog ?_ hu
        exact reads_eraseTable h.reads hp (by simpa using hany)

theorem dropIndex_inv {s : Store} (h : s.Inv) (hlog : s.log = []) (name : String) :
    (s.dropIndex name).2.Inv := by
  simp only [Store.dropIndex]
  split
  · exact h
  · split
    · exact h
    · next k slot hf =>
      obtain ⟨r,hw,hp,hu⟩ := deleteAt_records hf h.fits
      obtain ⟨i,rfl,rfl⟩ := isIndex_eq hw
      exact inv_of_quiet hlog (reads_eraseIndex h.reads hp) hu

/-- A moved root is rewritten in place, and its before image goes on the transaction's stack. -/
theorem update_inv {s s' : Store} {status : Status} (h : s.Inv) {t : TxnId} {name : String}
    {root : PageId} (hn : s.updateIndexRootPageId t name root = some (status,s')) : s'.Inv := by
  simp only [Store.updateIndexRootPageId] at hn
  split at hn
  · obtain ⟨-,rfl⟩ := Prod.mk.inj (Option.some.inj hn)
    exact h
  split at hn
  · obtain ⟨-,rfl⟩ := Prod.mk.inj (Option.some.inj hn)
    exact h
  next i hi =>
  split at hn
  · obtain ⟨-,rfl⟩ := Prod.mk.inj (Option.some.inj hn)
    exact h
  next he =>
  split at hn
  · obtain ⟨-,rfl⟩ := Prod.mk.inj (Option.some.inj hn)
    exact h
  next k slot hf =>
  split at hn
  · simp at hn
  next hfree =>
  obtain ⟨p,r,hp,hr,hw⟩ := findRecord_some hf
  obtain ⟨j,rfl,hj⟩ := isIndex_eq hw
  have hget : s.pages.getD k [] = p := by simp [List.getD, hp]
  have hpu : p.used ≤ pageSize := h.fits p (List.mem_of_getElem? hp)
  have hmem : i ∈ s.maps.indexes := List.mem_of_find?_eq_some hi
  have hij : j = i := by
    have hjmem : j ∈ s.maps.indexes := by
      refine h.reads.indexes.mem_iff.mpr (List.mem_filterMap.mpr ⟨.index j,?_,rfl⟩)
      exact mem_recordsOf hp ((deleteRecord_records hr).mem_iff.mpr List.mem_cons_self)
    have hiname : i.name = name := by simpa using List.find?_some hi
    exact h.reads.indexesKeyed.eq_of_key hjmem hmem (hj.trans hiname.symm)
  subst hij
  have hfit := rewrite_fits hr (size_setRoot j root) hpu
  rw [hget,hfit] at hn
  obtain ⟨-,rfl⟩ := Prod.mk.inj (Option.some.inj hn)
  obtain ⟨hafter,hused⟩ := insertRecord_some hfit
  have hbefore := deleteRecord_records hr
  obtain ⟨others,hothers⟩ := recordsOf_set hp
  have hothers_free : ∀ u ∈ s.log, u.page = k → u.txn = t := by
    intro u hu hk
    by_contra hne
    exact hfree (List.any_eq_true.mpr ⟨u,hu,by simp [hk, hne]⟩)
  refine ⟨?_,used_set h.fits hused,?_,?_⟩
  · have hself := hothers p
    rw [set_self hp] at hself
    have hnow := hself.trans (hbefore.append_right others)
    have hthen := (hothers _).trans (hafter.append_right others)
    rw [← hj]
    exact (reads_setRoot h.reads hnow (encodeIndex_ok he).1).perm hthen.symm
  · intro u hu v hv huv
    rcases List.mem_cons.mp hu with rfl | hu <;> rcases List.mem_cons.mp hv with rfl | hv
    · rfl
    · exact (hothers_free v hv huv.symm).symm
    · exact hothers_free u hu huv
    · exact h.locked u hu v hv huv
  · intro x
    by_cases hx : x = t
    · subst hx
      rw [updatesOf_cons (u := ⟨x,k,p,name,j.rootPageId⟩) rfl,if_pos rfl]
      refine ⟨⟨_,{ j with rootPageId := root },_,?_,hafter,hj,hbefore,
        h.reads.index_valid j hmem,hpu⟩,?_⟩
      · exact List.getElem?_set_self (List.getElem?_eq_some_iff.mp hp).1
      · simp only [List.set_set]
        rw [set_self hp]
        exact h.stacked x
    · rw [updatesOf_cons (u := ⟨t,k,p,name,j.rootPageId⟩) rfl,if_neg (Ne.symm hx)]
      refine (h.stacked x).frame fun u hu hk => hx ?_
      obtain ⟨hu,ht⟩ := mem_updatesOf.mp hu
      exact ht.symm.trans (hothers_free u hu hk)

theorem updatesOf_finish (s : Store) (t x : TxnId) :
    (s.finish t).updatesOf x = if x = t then [] else s.updatesOf x := by
  simp only [Store.updatesOf, Store.finish, List.filter_filter]
  by_cases hx : x = t
  · rw [if_pos hx]
    refine List.filter_eq_nil_iff.mpr fun u _ => ?_
    simp [hx]
  · rw [if_neg hx]
    refine List.filter_congr fun u _ => ?_
    by_cases hu : u.txn = x
    · simp [hu, hx]
    · simp [hu]

theorem locked_finish {s : Store} (h : s.Inv) (t : TxnId) : ∀ u ∈ (s.finish t).log,
    ∀ v ∈ (s.finish t).log, u.page = v.page → u.txn = v.txn := fun u hu v hv =>
  h.locked u (List.mem_filter.mp hu).1 v (List.mem_filter.mp hv).1

theorem commit_inv {s : Store} (h : s.Inv) (t : TxnId) : (s.commit t).Inv where
  reads := h.reads
  fits := h.fits
  locked := locked_finish h t
  stacked := fun x => by
    rw [Store.commit,updatesOf_finish]
    split
    · trivial
    · exact h.stacked x

/-- What the pages say after an abort, whatever the maps say. -/
theorem abort_reads {s : Store} (h : s.Inv) (t : TxnId) :
    Reads (recordsOf (s.abort t).pages) (restoreRoots (s.updatesOf t) s.maps) ∧
      ∀ p ∈ (s.abort t).pages, p.used ≤ pageSize :=
  undo_reads (h.stacked t) h.reads h.fits

theorem abort_inSync_iff {s : Store} (h : s.Inv) (t : TxnId) :
    (s.abort t).InSync ↔ s.Returned t := by
  obtain ⟨hr,hf⟩ := abort_reads h t
  have hmaps : (s.abort t).maps = s.maps := rfl
  rw [Store.InSync,openPages_iff,hmaps]
  constructor
  · intro hsync
    exact restoreRoots_self_iff.mp (hr.unique hsync.1)
  · intro hret
    exact ⟨restoreRoots_self_iff.mpr hret ▸ hr,hf⟩

theorem abort_inv {s : Store} (h : s.Inv) {t : TxnId} (hret : s.Returned t) : (s.abort t).Inv where
  reads := (openPages_iff.mp ((abort_inSync_iff h t).mpr hret)).1
  fits := (abort_reads h t).2
  locked := locked_finish h t
  stacked := fun x => by
    have hupd : (s.abort t).updatesOf x = (s.finish t).updatesOf x := rfl
    rw [hupd,updatesOf_finish]
    split
    · trivial
    · next hx =>
      refine undo_frame (h.stacked x) fun u hu v hv hp => hx ?_
      obtain ⟨hu,hut⟩ := mem_updatesOf.mp hu
      obtain ⟨hv,hvx⟩ := mem_updatesOf.mp hv
      exact hvx.symm.trans ((h.locked v hv u hu hp).trans hut)

theorem ddl_inv {s s' : Store} {result : Status × Store} {status : Status}
    (hr : s.log = [] → result.2.Inv) (h : s.ddl result = some (status,s')) : s'.Inv := by
  rw [Store.ddl] at h
  split at h
  · next hlog =>
    have he : result = (status,s') := Option.some.inj h
    have hi := hr hlog
    rw [he] at hi
    exact hi
  · simp at h

theorem steady_inv {s : Store} {c : Call} {s' : Store} (h : s.Inv) (hs : s.Steady c s') :
    s'.Inv := by
  obtain ⟨⟨status,hn⟩,hret⟩ := hs
  cases c with
  | createTable t dataPage =>
    simp only [Store.next] at hn
    split at hn
    · simp at hn
    · next hd => exact ddl_inv (fun hlog => createTable_inv h hlog hd) hn
  | dropTable name => exact ddl_inv (fun hlog => dropTable_inv h hlog name) hn
  | createIndex i => exact ddl_inv (fun hlog => createIndex_inv h hlog i) hn
  | dropIndex name => exact ddl_inv (fun hlog => dropIndex_inv h hlog name) hn
  | updateIndexRootPageId t name root => exact update_inv h hn
  | commit t =>
    obtain ⟨-,rfl⟩ := Prod.mk.inj (Option.some.inj hn)
    exact commit_inv h t
  | abort t =>
    obtain ⟨-,rfl⟩ := Prod.mk.inj (Option.some.inj hn)
    exact abort_inv h (hret t rfl)

/-- In a run whose aborts so far found every moved root back in its place, memory is
what `Open` would load, and the next abort keeps it so exactly when it finds the
same. -/
theorem rollback_inSync_iff {s : Store} (h : Transition.Reach Store.Opened Store.Steady s)
    (t : TxnId) : s.InSync ∧ ((s.abort t).InSync ↔ s.Returned t) := by
  have hinv : s.Inv :=
    h.invariant (P := Store.Inv) (fun _ => inv_of_opened) fun _ _ _ => steady_inv
  exact ⟨hinv.inSync,abort_inSync_iff hinv t⟩

/-- One table with one index, whose root is page 5. -/
def oneIndex : Store where
  pages := [[some (.table ⟨"t",[{ name := "a", type := .int }],1⟩),
    some (.index ⟨"i","t","a",5,false⟩)]]
  maps := ⟨[⟨"t",[{ name := "a", type := .int }],1⟩],[⟨"i","t","a",5,false⟩]⟩
  log := []

/-- The same after transaction 1 has split the root. -/
def rootMoved : Store where
  pages := [[some (.table ⟨"t",[{ name := "a", type := .int }],1⟩),
    some (.index ⟨"i","t","a",9,false⟩)]]
  maps := ⟨[⟨"t",[{ name := "a", type := .int }],1⟩],[⟨"i","t","a",9,false⟩]⟩
  log := [⟨1,0,oneIndex.pages.headD [],"i",5⟩]

theorem oneIndex_opened : oneIndex.Opened := ⟨rfl,by rfl⟩

theorem oneIndex_moves : oneIndex.Step (.updateIndexRootPageId 1 "i" 9) rootMoved :=
  ⟨.ok (),by decide +kernel⟩

theorem not_rollback_inSync :
    ¬ ∀ s, Transition.Reach Store.Opened Store.Step s → ∀ t, (s.abort t).InSync := by
  intro h
  have hreach : Transition.Reach Store.Opened Store.Step rootMoved :=
    .step (.init oneIndex_opened) oneIndex_moves
  have hinv : rootMoved.Inv :=
    steady_inv (inv_of_opened oneIndex_opened) ⟨oneIndex_moves,fun t ht => by simp at ht⟩
  have hret := (abort_inSync_iff hinv 1).mp (h rootMoved hreach 1)
  have hroot : (9 : PageId) = 5 := hret ⟨"i","t","a",9,false⟩ (by decide) 5 (by decide)
  exact absurd hroot (by decide)

theorem rollback_inSync_iff_rootMoved :
    rootMoved.InSync ∧ ((rootMoved.abort 1).InSync ↔ rootMoved.Returned 1) :=
  rollback_inSync_iff (.step (.init oneIndex_opened)
    ⟨oneIndex_moves,fun t ht => by simp at ht⟩) 1

end Catalog
end OurSql
