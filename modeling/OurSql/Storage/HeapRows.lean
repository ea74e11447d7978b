import Mathlib.Data.Set.Finite.List
import OurSql.Storage.HeapTable

/-! A heap table is a finite map from RIDs to rows, whatever the pages its rows move
through: the chain, the slotted pages and the row codec hold one map together. -/
namespace OurSql
namespace Storage.HeapTable

open Memory SlottedPage Data Chain

variable {t : TableMetadata} {s : Pool} {ids rest pre post visited : List PageId}
  {i j id current fresh tail : PageId} {d d' : Mem} {count e k n : ℕ} {transaction : Bool}
  {record : List UInt8} {row : Row} {rid : RID} {m m' : RID → Option Row}

/-- The page that follows on a page of the pool. -/
def link (pages : PageId → Option Mem) (id : PageId) : PageId :=
  match pages id with
  | some data => load data 16
  | none => invalidPageId

theorem link_of (h : s.pages i = some d) : link s.pages i = load d 16 := by
  rw [link,h]

/-- The chain of a table: data pages, none of them about to be deleted. -/
structure Chained (t : TableMetadata) (s : Pool) (ids : List PageId) : Prop where
  chain : IsChain (link s.pages) invalidPageId t.firstDataPageId ids
  bounded : ∀ i ∈ ids, 0 < i ∧ i < invalidPageId
  kept : ∀ i ∈ ids, i ∉ s.deletePending
  laid : ∀ i ∈ ids, ∃ d count e, s.pages i = some d ∧ Layout d count e

theorem Chained.length_lt (h : Chained t s ids) : ids.length < pageTurns := by
  have hsub : ids ⊆ List.range invalidPageId := fun i hi => List.mem_range.mpr (h.bounded i hi).2
  have hle := (List.subperm_of_subset h.chain.nodup hsub).length_le
  rw [List.length_range] at hle
  exact Nat.lt_succ_of_le hle

theorem Layout.nextPageId (h : Layout d count e) : SlottedPage.nextPageId d = .ok (load d 16) := by
  rw [SlottedPage.nextPageId,h.valid]
  rfl

theorem Layout.count_eq (h : Layout d count e) : SlottedPage.slotCount d = .ok count := by
  rw [SlottedPage.slotCount,h.valid]
  exact congrArg Except.ok h.slotCount

theorem fetchPage_eq (hb : 0 < i ∧ i < invalidPageId) (hk : i ∉ s.deletePending)
    (hd : s.pages i = some d) : s.fetchPage i = .ok d := by
  rw [Pool.fetchPage,if_neg (not_or.mpr ⟨hb.2.ne,hb.1.ne'⟩),if_neg hk,hd]

theorem Chained.fetch (h : Chained t s ids) (hi : i ∈ ids) (hd : s.pages i = some d) :
    s.fetchPage i = .ok d := fetchPage_eq (h.bounded i hi) (h.kept i hi) hd

theorem IsChain.head {next : PageId → PageId} (h : IsChain next invalidPageId current (i::rest)) :
    current = i := h.1

/-- A place on a walk along the chain: what is left of it, and the pages before. -/
structure Walk (t : TableMetadata) (s : Pool) (ids : List PageId) (visited : List PageId)
    (current : PageId) (rest : List PageId) : Prop where
  chained : Chained t s ids
  sub : ∀ i ∈ rest, i ∈ ids
  chain : IsChain (link s.pages) invalidPageId current rest
  unseen : ∀ i ∈ rest, i ∉ visited

theorem Chained.walk (h : Chained t s ids) : Walk t s ids [] t.firstDataPageId ids :=
  ⟨h,fun _ hi => hi,h.chain,fun _ _ => List.not_mem_nil⟩

theorem Walk.turn (h : Walk t s ids visited current (i::rest)) :
    current = i ∧ (i ≠ 0 ∧ i ≠ invalidPageId ∧ i ∉ visited) ∧ ∃ d count e,
      s.fetchPage i = .ok d ∧ s.pages i = some d ∧ Layout d count e ∧
      Walk t s ids (i::visited) (load d 16) rest := by
  have hi : i ∈ ids := h.sub i List.mem_cons_self
  have hb := h.chained.bounded i hi
  obtain ⟨d,count,e,hd,hl⟩ := h.chained.laid i hi
  have hnot := (List.nodup_cons.mp h.chain.nodup).1
  refine ⟨h.chain.1,⟨hb.1.ne',hb.2.ne,h.unseen i List.mem_cons_self⟩,d,count,e,
    h.chained.fetch hi hd,hd,hl,h.chained,fun j hj => h.sub j (List.mem_cons_of_mem _ hj),?_,?_⟩
  · rw [← link_of hd]
    exact h.chain.2.2
  · intro j hj hv
    rcases List.mem_cons.mp hv with rfl | hv
    · exact hnot hj
    · exact h.unseen j (List.mem_cons_of_mem _ hj) hv

/-- The walk goes on unless the chain ends here. -/
theorem Walk.next (h : Walk t s ids visited current rest) :
    (rest = [] ∧ current = invalidPageId) ∨ ∃ j rest', rest = j::rest' ∧ current = j ∧
      current ≠ invalidPageId ∧ ∃ d, s.fetchPage current = .ok d := by
  cases rest with
  | nil => exact Or.inl ⟨rfl,h.chain⟩
  | cons j rest =>
    obtain ⟨rfl,hne,d,count,e,hf,-⟩ := h.turn
    exact Or.inr ⟨current,rest,rfl,rfl,hne.2.1,d,hf⟩

theorem ownerWalk_eq (id : PageId) (hn : rest.length < n)
    (h : Walk t s ids visited current rest) :
    ownerWalk s id n visited current = if id ∈ rest then .ok () else
      fail .notFound ("RID 页面不属于当前表: " ++ toString id) := by
  induction rest generalizing n visited current with
  | nil =>
    obtain ⟨n,rfl⟩ := Nat.exists_eq_succ_of_ne_zero (by omega : n ≠ 0)
    have hc : current = invalidPageId := h.chain
    simp [ownerWalk,hc]
  | cons i rest ih =>
    obtain ⟨n,rfl⟩ := Nat.exists_eq_succ_of_ne_zero (by omega : n ≠ 0)
    obtain ⟨rfl,hne,d,count,e,hf,hd,hl,hw⟩ := h.turn
    rw [ownerWalk,if_neg hne.2.1,if_neg (not_or.mpr ⟨hne.1,hne.2.2⟩),hf]
    simp only [Layout.nextPageId hl]
    by_cases hi : current = id
    · simp [hi]
    have hih := ih (by simpa using hn) hw
    rw [if_neg hi]
    rcases hw.next with ⟨hr,he⟩ | ⟨j,rest',-,-,hnot,d',hf'⟩
    · rw [if_pos he,hih]
      simp [Ne.symm hi]
    · rw [if_neg hnot,hf']
      simp only [hih,List.mem_cons,Ne.symm hi,false_or]

theorem Chained.validateRidPage (h : Chained t s ids) (hn : t.firstDataPageId ≠ invalidPageId)
    (id : PageId) : (id ∈ ids → HeapTable.validateRidPage t s id = .ok ()) ∧
      (id ∉ ids → ∃ message, HeapTable.validateRidPage t s id = fail .notFound message) := by
  have hfirst : t.firstDataPageId ∈ ids := by
    cases hc : ids with
    | nil =>
      have hch := h.chain
      rw [hc] at hch
      exact absurd hch hn
    | cons i rest =>
      have hch := h.chain
      rw [hc] at hch
      rw [hch.1]
      exact List.mem_cons_self
  have hb := h.bounded _ hfirst
  have hwalk := ownerWalk_eq id h.length_lt h.walk
  constructor
  · intro hi
    have hid := h.bounded id hi
    rw [HeapTable.validateRidPage,if_neg (not_or.mpr ⟨hid.1.ne',hid.2.ne⟩),
      if_neg (not_or.mpr ⟨hb.1.ne',hb.2.ne⟩),hwalk,if_pos hi]
  · intro hi
    rw [HeapTable.validateRidPage]
    by_cases hz : id = 0 ∨ id = invalidPageId
    · exact ⟨_,if_pos hz⟩
    · rw [if_neg hz,if_neg (not_or.mpr ⟨hb.1.ne',hb.2.ne⟩),hwalk,if_neg hi]
      exact ⟨_,rfl⟩

/-- The pages and the map hold the same rows at the same places. -/
structure Inv (t : TableMetadata) (s : Pool) (ids : List PageId) (m : RID → Option Row) : Prop
    extends Chained t s ids where
  first : t.firstDataPageId ≠ invalidPageId
  rows : ∀ i ∈ ids, ∀ d, s.pages i = some d → ∀ slot,
    (content d slot).map (RowCodec.decode t.schema) = (m ⟨i,slot⟩).map Except.ok
  outside : ∀ rid, rid.pageId ∉ ids → m rid = none

theorem Inv.first_mem (h : Inv t s ids m) : t.firstDataPageId ∈ ids := by
  have hch := h.chain
  cases ids with
  | nil => exact absurd hch h.first
  | cons i rest =>
    rw [hch.1]
    exact List.mem_cons_self

theorem Inv.page_mem (h : Inv t s ids m) (hm : m rid = some row) : rid.pageId ∈ ids := by
  by_contra hn
  rw [h.outside rid hn] at hm
  cases hm

theorem Inv.getRow (h : Inv t s ids m) : HeapTable.getRow t s rid = .ok row ↔ m rid = some row := by
  obtain ⟨hin,hout⟩ := h.toChained.validateRidPage h.first rid.pageId
  by_cases hi : rid.pageId ∈ ids
  · obtain ⟨d,count,e,hd,hl⟩ := h.laid _ hi
    obtain ⟨hget,hnone⟩ := hl.getRecord rid.slotId
    have hrow := h.rows _ hi d hd rid.slotId
    rw [HeapTable.getRow,hin hi,h.fetch hi hd]
    dsimp only
    cases hc : content d rid.slotId with
    | none =>
      obtain ⟨message,he⟩ := hnone hc
      have hm : m rid = none := by simpa [hc] using hrow.symm
      simp [he,hm,fail]
    | some bytes =>
      rw [hc] at hrow
      rw [(hget bytes).mpr hc]
      cases hm : m rid with
      | none => simp [hm] at hrow
      | some row' =>
        have hdec : RowCodec.decode t.schema bytes = .ok row' := by simpa [hm] using hrow
        simp [hdec]
  · obtain ⟨message,he⟩ := hout hi
    rw [HeapTable.getRow,he,h.outside rid hi]
    simp [fail]

/-! ### Writing one page -/

@[simp] theorem writePage_at (s : Pool) (i : PageId) (d : Mem) :
    (s.writePage i d).pages i = some d := Function.update_self ..

theorem writePage_of_ne (hij : i ≠ j) : (s.writePage j d).pages i = s.pages i :=
  Function.update_of_ne hij ..

theorem newPage_write (s : Pool) (i : PageId) (d : Mem) :
    (s.newPage i).writePage i d = s.writePage i d := by
  simp [Pool.newPage,Pool.writePage]

theorem writePage_self (hd : s.pages i = some d) : s.writePage i d = s := by
  rw [Pool.writePage,← hd,Function.update_eq_self]

theorem next_of_outside (h : ∀ i, Outside i → d' i = d i) : load d' 16 = load d 16 :=
  load_congr fun i hi hi' => h i (Or.inr ⟨hi,by omega⟩)

theorem link_writePage (hd : s.pages j = some d) (hn : load d' 16 = load d 16) :
    link (s.writePage j d').pages = link s.pages := by
  funext i
  by_cases hij : i = j
  · subst hij
    rw [link_of hd,← hn]
    exact link_of (writePage_at ..)
  · simp only [link,writePage_of_ne hij]

/-- A page of the chain may change with the rows that the map has on it. -/
theorem Inv.writePage (h : Inv t s ids m) (hd : s.pages j = some d) (hn : load d' 16 = load d 16)
    (hl : Layout d' count e) (hrows : ∀ slot,
      (content d' slot).map (RowCodec.decode t.schema) = (m' ⟨j,slot⟩).map Except.ok)
    (hj : j ∈ ids) (hsame : ∀ rid, rid.pageId ≠ j → m' rid = m rid) :
    Inv t (s.writePage j d') ids m' where
  chain := by
    rw [link_writePage hd hn]
    exact h.chain
  bounded := h.bounded
  kept := h.kept
  laid := by
    intro i hi
    by_cases hij : i = j
    · subst hij
      exact ⟨d',count,e,writePage_at ..,hl⟩
    · obtain ⟨d₁,c₁,e₁,h₁,hl₁⟩ := h.laid i hi
      exact ⟨d₁,c₁,e₁,(writePage_of_ne hij).trans h₁,hl₁⟩
  first := h.first
  rows := by
    intro i hi d₁ h₁ slot
    by_cases hij : i = j
    · subst hij
      have he := (writePage_at s i d').symm.trans h₁
      rw [← Option.some.inj he]
      exact hrows slot
    · rw [hsame ⟨i,slot⟩ hij]
      exact h.rows i hi d₁ ((writePage_of_ne hij).symm.trans h₁) slot
  outside := by
    intro rid hrid
    rw [hsame rid fun he => hrid (he ▸ hj)]
    exact h.outside rid hrid

/-! ### `InsertRow` -/

/-- The pages that a pool may hand out. -/
structure Pool.Free (s : Pool) (fresh : PageId) : Prop where
  pos : 0 < fresh
  lt : fresh < invalidPageId
  absent : s.pages fresh = none
  kept : fresh ∉ s.deletePending

theorem insertWalk_eq (transaction : Bool) (fresh : PageId)
    (hrecord : record.length ≤ kMaxRecordSize) (hn : rest.length < n) (hne : rest ≠ [])
    (h : Walk t s ids visited current rest) :
    (∃ j d d' slot, j ∈ rest ∧ s.pages j = some d ∧ insertRecord d record = (d',.ok slot) ∧
      insertWalk transaction fresh record s n visited current =
        (.ok ⟨j,slot⟩,s.writePage j d')) ∨
    ∃ pre tail d, rest = pre ++ [tail] ∧ s.pages tail = some d ∧
      insertWalk transaction fresh record s n visited current =
        extend noPage transaction fresh record s tail d := by
  induction rest generalizing n visited current with
  | nil => exact absurd rfl hne
  | cons i rest ih =>
    obtain ⟨n,rfl⟩ := Nat.exists_eq_succ_of_ne_zero (by omega : n ≠ 0)
    obtain ⟨rfl,hcur,d,count,e,hf,hd,hl,hw⟩ := h.turn
    have hstart : ¬ (current = 0 ∨ current = invalidPageId ∨ current ∈ visited) := by tauto
    rcases hl.insertRecord record with ⟨⟨err,he,hcode⟩,hkeep⟩ | ⟨c',e',slot,hok,-⟩
    · -- no room here
      have hpair : insertRecord d record = (d,.error err) := Prod.ext hkeep he
      have hcode := (hcode hrecord).1
      rcases hw.next with ⟨hr,hend⟩ | ⟨j,rest',hr,-,hnot,d',hf'⟩
      · refine Or.inr ⟨[],current,d,by rw [hr]; rfl,hd,?_⟩
        rw [insertWalk,if_neg hstart,hf]
        simp only [hpair,writePage_self hd,if_neg (not_not.mpr hcode),Layout.nextPageId hl,
          if_neg (not_not.mpr hend)]
      · have hgo : insertWalk transaction fresh record s (n + 1) visited current =
            insertWalk transaction fresh record s n (current::visited) (load d 16) := by
          rw [insertWalk,if_neg hstart,hf]
          simp only [hpair,writePage_self hd,if_neg (not_not.mpr hcode),Layout.nextPageId hl,
            if_pos hnot,hf']
        rw [hgo]
        rcases ih (by simpa using hn) (by rw [hr]; exact List.cons_ne_nil _ _) hw with
          ⟨j,d₁,d₂,slot,hj,h₁,h₂,heq⟩ | ⟨pre,tail,d₁,hpre,h₁,heq⟩
        · exact Or.inl ⟨j,d₁,d₂,slot,List.mem_cons_of_mem _ hj,h₁,h₂,heq⟩
        · exact Or.inr ⟨current::pre,tail,d₁,by rw [hpre]; rfl,h₁,heq⟩
    · refine Or.inl ⟨current,d,(insertRecord d record).1,slot,List.mem_cons_self,hd,
        Prod.ext rfl hok,?_⟩
      have hpair : insertRecord d record = ((insertRecord d record).1,.ok slot) := Prod.ext rfl hok
      rw [insertWalk,if_neg hstart,hf]
      dsimp only
      rw [hpair]

theorem lt_of_lt_invalid (h : i < invalidPageId) : i < 4294967296 := Nat.lt_trans h (by decide)

theorem setNextPageId_eq (hl : Layout d count e) (hi : i ≠ 0) (hlt : i < 4294967296) :
    setNextPageId d (UInt32.ofNat i) = (store d 16 i,.ok ()) := by
  have hnat : (UInt32.ofNat i).toNat = i := by
    rw [UInt32.toNat_ofNat']
    exact Nat.mod_eq_of_lt hlt
  have hne : UInt32.ofNat i ≠ 0 := by
    intro h
    rw [h] at hnat
    exact hi hnat.symm
  rw [setNextPageId,if_neg hne,hl.valid,hnat]
  rfl

/-- A new page takes any record that a page can take. -/
theorem extend_eq (transaction : Bool) (hf : s.Free fresh) (hl : Layout d count e)
    (hrecord : record.length ≤ kMaxRecordSize) :
    ∃ page count' e' slot, extend noPage transaction fresh record s tail d =
        (.ok ⟨fresh,slot⟩,(s.writePage fresh page).writePage tail (store d 16 fresh)) ∧
      Layout page count' e' ∧ load page 16 = invalidPageId ∧
      content page = Function.update (fun _ => none) slot (some record) := by
  have hinv : noPage.toNat = invalidPageId := rfl
  obtain ⟨hok,hblank,hnext⟩ := @layout_initializePage (fun _ => 0) noPage (by decide)
  have hempty : content (initializePage (fun _ => 0) noPage).1 =
      fun _ => none := by
    funext slot
    simp [content,hblank.slotCount]
  generalize hpage : initializePage (fun _ => 0) noPage = start
    at hok hblank hnext hempty
  obtain ⟨blank,status⟩ := start
  dsimp only at hok hblank hnext hempty
  subst hok
  rcases hblank.insertRecord record with ⟨⟨err,-,hcode⟩,-⟩ | ⟨c',e',slot,hok,hlay,-,hcont,hout⟩
  · exact absurd rfl (hcode hrecord).2
  · generalize hins : insertRecord blank record = inserted at hok hlay hcont hout
    obtain ⟨page,result⟩ := inserted
    dsimp only at hok hlay hcont hout
    subst hok
    have hlast : load page 16 = invalidPageId := by rw [next_of_outside hout,hnext,hinv]
    have hresult : extend noPage transaction fresh record s tail d =
        (.ok ⟨fresh,slot⟩,(s.writePage fresh page).writePage tail (store d 16 fresh)) := by
      simp only [extend,hpage,hins,setNextPageId_eq hl hf.pos.ne' (lt_of_lt_invalid hf.lt),
        newPage_write]
    exact ⟨page,c',e',slot,hresult,hlay,hlast,by rw [hcont,hempty]⟩

theorem link_extend (hf : s.Free fresh) (hd : s.pages tail = some d) {page : Mem}
    (hp : load page 16 = invalidPageId) :
    link ((s.writePage fresh page).writePage tail (store d 16 fresh)).pages =
      Function.update (Function.update (link s.pages) fresh invalidPageId) tail fresh := by
  have hft : fresh ≠ tail := by
    rintro rfl
    exact absurd (hd.symm.trans hf.absent) (Option.some_ne_none d)
  funext i
  by_cases hi : i = tail
  · subst hi
    rw [Function.update_self,link_of (writePage_at ..)]
    exact load_store (lt_of_lt_invalid hf.lt)
  rw [Function.update_of_ne hi]
  by_cases hi' : i = fresh
  · subst hi'
    rw [Function.update_self,link_of ((writePage_of_ne hi).trans (writePage_at ..)),hp]
  · rw [Function.update_of_ne hi',link,link,writePage_of_ne hi,writePage_of_ne hi']

/-- The chain grows by a page whose only row is new. -/
theorem Inv.extend (h : Inv t s (pre ++ [tail]) m) (hf : s.Free fresh) (hd : s.pages tail = some d)
    {page : Mem} {slot : ℕ} (hl : Layout page count e) (hp : load page 16 = invalidPageId)
    (hc : content page = Function.update (fun _ => none) slot (some record))
    (hrow : RowCodec.decode t.schema record = .ok row) :
    Inv t ((s.writePage fresh page).writePage tail (store d 16 fresh)) (pre ++ [tail,fresh])
      (Function.update m ⟨fresh,slot⟩ (some row)) := by
  have hnew : fresh ∉ pre ++ [tail] := by
    intro hm
    obtain ⟨d',-,-,hd',-⟩ := h.laid fresh hm
    exact absurd (hd'.symm.trans hf.absent) (Option.some_ne_none d')
  have hft : fresh ≠ tail := fun he => hnew (by simp [he])
  have hids : ∀ i, i ∈ pre ++ [tail,fresh] → i = fresh ∨ i ∈ pre ++ [tail] := by
    intro i hi
    simp only [List.mem_append,List.mem_cons,List.not_mem_nil,or_false] at hi ⊢
    tauto
  have hne : ∀ i ∈ pre ++ [tail], i ≠ fresh := fun i hi he => hnew (he ▸ hi)
  constructor
  · constructor
    · rw [link_extend hf hd hp]
      exact h.chain.snoc hf.lt.ne hnew
    · intro i hi
      rcases hids i hi with rfl | hi
      · exact ⟨hf.pos,hf.lt⟩
      · exact h.bounded i hi
    · intro i hi
      rcases hids i hi with rfl | hi
      · exact hf.kept
      · exact h.kept i hi
    · intro i hi
      rcases hids i hi with rfl | hi
      · exact ⟨page,count,e,(writePage_of_ne hft).trans (writePage_at ..),hl⟩
      obtain ⟨d',c',e',hd',hl'⟩ := h.laid i hi
      by_cases hit : i = tail
      · subst hit
        obtain rfl := Option.some.inj (hd.symm.trans hd')
        exact ⟨_,c',e',writePage_at ..,(hl'.setNext hf.pos.ne'
          (lt_of_lt_invalid hf.lt)).1⟩
      · exact ⟨d',c',e',(writePage_of_ne hit).trans ((writePage_of_ne (hne i hi)).trans hd'),hl'⟩
  · exact h.first
  · intro i hi d' hd' slot'
    rcases hids i hi with rfl | hi
    · have hpage := ((writePage_of_ne hft).trans (writePage_at s i page)).symm.trans hd'
      obtain rfl := Option.some.inj hpage
      have hnone := h.outside ⟨i,slot'⟩ hnew
      by_cases hs : slot' = slot
      · subst hs
        simp [hc,hrow]
      · have hrid : (⟨i,slot'⟩ : RID) ≠ ⟨i,slot⟩ := by simp [hs]
        simp [hc,Function.update_of_ne hs,Function.update_of_ne hrid,hnone]
    · have hrid : (⟨i,slot'⟩ : RID) ≠ ⟨fresh,slot⟩ := by simp [hne i hi]
      rw [Function.update_of_ne hrid]
      by_cases hit : i = tail
      · subst hit
        obtain ⟨d₁,c',e',hd₁,hl'⟩ := h.laid i hi
        obtain rfl := Option.some.inj (hd.symm.trans hd₁)
        obtain rfl := Option.some.inj ((writePage_at _ i (store d 16 fresh)).symm.trans hd')
        rw [(hl'.setNext hf.pos.ne' (lt_of_lt_invalid hf.lt)).2.1]
        exact h.rows i hi d hd slot'
      · exact h.rows i hi d' ((writePage_of_ne (hne i hi)).symm.trans
          ((writePage_of_ne hit).symm.trans hd')) slot'
  · intro rid hrid
    have hrid' : rid ≠ ⟨fresh,slot⟩ := by
      rintro rfl
      exact hrid (by simp)
    rw [Function.update_of_ne hrid']
    exact h.outside rid fun hm => hrid (by
      simp only [List.mem_append,List.mem_cons,List.not_mem_nil,or_false] at hm ⊢
      tauto)

/-- What a row needs to be stored. -/
def Storable (t : TableMetadata) (row : Row) : Prop :=
  ∃ record, RowCodec.encode t.schema row = .ok record ∧ record.length ≤ kMaxRecordSize

/-- A storable row goes to a place that was free; any other leaves no trace. -/
theorem Inv.insertRow (h : Inv t s ids m) (hp : Proper t.schema) (hf : s.Free fresh)
    (transaction : Bool) (row : Row) :
    (¬ Storable t row ∧ ∃ e, HeapTable.insertRow t transaction fresh row s = (.error e,s)) ∨
    Storable t row ∧ ∃ rid ids', (HeapTable.insertRow t transaction fresh row s).1 = .ok rid ∧
      m rid = none ∧ Inv t (HeapTable.insertRow t transaction fresh row s).2 ids'
        (Function.update m rid (some row)) ∧ (ids' = ids ∨ ids' = ids ++ [fresh]) := by
  have hb := h.bounded _ h.first_mem
  rw [HeapTable.insertRow,if_neg (not_or.mpr ⟨hb.2.ne,hb.1.ne'⟩)]
  cases he : RowCodec.encode t.schema row with
  | error e => exact Or.inl ⟨by simp [Storable,he],e,rfl⟩
  | ok record =>
  dsimp only
  by_cases hlen : kMaxRecordSize < record.length
  · rw [if_pos hlen]
    exact Or.inl ⟨by simp [Storable,he,hlen],_,rfl⟩
  rw [if_neg hlen]
  have hrecord : record.length ≤ kMaxRecordSize := not_lt.mp hlen
  have hcols : t.schema.length < 4294967296 := by
    have := RowCodec.length_le_of_encode he
    simp only [kMaxRecordSize,kSize,kHeaderSize,kSlotSize] at hrecord
    omega
  have hdec := (RowCodec.decode_iff_encode hp).mpr ⟨hcols,he⟩
  refine Or.inr ⟨⟨record,he,hrecord⟩,?_⟩
  rcases insertWalk_eq transaction fresh hrecord h.length_lt
      (List.ne_nil_of_mem h.first_mem) h.walk with
    ⟨j,d,d',slot,hj,hd,hins,heq⟩ | ⟨pre,tail,d,hids,hd,heq⟩
  · obtain ⟨d₁,count,e,hd₁,hl⟩ := h.laid j hj
    obtain rfl := Option.some.inj (hd.symm.trans hd₁)
    have hrows := h.rows j hj d hd
    rw [heq]
    rcases hl.insertRecord record with ⟨⟨err,herr,-⟩,-⟩ | ⟨c',e',slot',hok,hlay,hfree,hcont,hout⟩
    · simp [hins] at herr
    rw [hins] at hok hlay hcont hout
    obtain rfl : slot = slot' := by simpa using hok
    have hnone : m ⟨j,slot⟩ = none := by simpa [hfree] using (hrows slot).symm
    refine ⟨⟨j,slot⟩,ids,rfl,hnone,h.writePage hd (next_of_outside hout) hlay ?_ hj ?_,Or.inl rfl⟩
    · intro slot'
      rw [hcont]
      by_cases hs : slot' = slot
      · subst hs
        simp [hdec]
      · have hrid : (⟨j,slot'⟩ : RID) ≠ ⟨j,slot⟩ := by simp [hs]
        rw [Function.update_of_ne hs,Function.update_of_ne hrid]
        exact hrows slot'
    · intro rid hne
      exact Function.update_of_ne (fun he => hne (by rw [he])) ..
  · subst hids
    obtain ⟨d₁,count,e,hd₁,hl⟩ := h.laid tail (by simp)
    obtain rfl := Option.some.inj (hd.symm.trans hd₁)
    obtain ⟨page,c',e',slot,hext,hlay,hlast,hcont⟩ := extend_eq transaction hf hl hrecord
    rw [heq,hext]
    refine ⟨⟨fresh,slot⟩,pre ++ [tail,fresh],rfl,?_,h.extend hf hd hlay hlast hcont hdec,
      Or.inr (by simp)⟩
    apply h.outside
    intro hm
    obtain ⟨d',-,-,hd',-⟩ := h.laid fresh hm
    exact absurd (hd'.symm.trans hf.absent) (Option.some_ne_none d')

/-! ### `DeleteRow` -/

theorem predecessorWalk_eq {p : PageId} (hn : pre.length < n)
    (h : Walk t s ids visited current (pre ++ p::id::post)) :
    predecessorWalk s id n visited current = .ok p := by
  induction pre generalizing n visited current with
  | nil =>
    obtain ⟨n,rfl⟩ := Nat.exists_eq_succ_of_ne_zero (by omega : n ≠ 0)
    have hd := h.chain.nodup
    obtain ⟨rfl,hne,d,count,e,hf,-,hl,hw⟩ := h.turn
    have hid : current ≠ id := fun he => (List.nodup_cons.mp hd).1 (by simp [he])
    have hnext : load d 16 = id := hw.chain.1
    rw [predecessorWalk,if_neg (not_or.mpr ⟨hne.2.1,hid⟩),if_neg (not_or.mpr ⟨hne.1,hne.2.2⟩),hf]
    simp only [Layout.nextPageId hl,if_pos hnext]
  | cons i pre ih =>
    obtain ⟨n,rfl⟩ := Nat.exists_eq_succ_of_ne_zero (by omega : n ≠ 0)
    have hd := h.chain.nodup
    obtain ⟨rfl,hne,d,count,e,hf,-,hl,hw⟩ := h.turn
    have hid : current ≠ id := fun he => (List.nodup_cons.mp hd).1 (by simp [he])
    have hih := ih (by simpa using hn) hw
    have hnext : load d 16 ≠ id := by
      have hchain : IsChain (link s.pages) invalidPageId (load d 16) ((pre ++ [p]) ++ id::post) := by
        rw [List.append_assoc]
        exact hw.chain
      exact hchain.head_ne (by simp)
    rcases hw.next with ⟨hr,-⟩ | ⟨j,rest',hr,hj,hnot,d',hf'⟩
    · simp at hr
    rw [predecessorWalk,if_neg (not_or.mpr ⟨hne.2.1,hid⟩),if_neg (not_or.mpr ⟨hne.1,hne.2.2⟩),hf]
    simp only [Layout.nextPageId hl,if_neg hnext,if_neg hnot,hf']
    exact hih

theorem anyRecord_eq (hl : Layout d count e) : ∀ n k, ∃ b, anyRecord d k n = .ok b ∧
    (b = true ↔ ∃ slot, k ≤ slot ∧ slot < k + n ∧ content d slot ≠ none)
  | 0, k => ⟨false,rfl,by simp; omega⟩
  | n+1, k => by
    obtain ⟨hget,hnone⟩ := hl.getRecord k
    cases hc : content d k with
    | some bytes =>
      have hlive : content d k ≠ none := by simp [hc]
      exact ⟨true,by rw [anyRecord,(hget bytes).mpr hc],
        iff_of_true rfl ⟨k,Nat.le_refl _,by omega,hlive⟩⟩
    | none =>
      obtain ⟨message,he⟩ := hnone hc
      obtain ⟨b,hb,hiff⟩ := anyRecord_eq hl n (k + 1)
      refine ⟨b,?_,?_⟩
      · rw [anyRecord,he]
        simp only [fail,ne_eq,not_true,if_false]
        exact hb
      · rw [hiff]
        constructor
        · rintro ⟨slot,h1,h2,h3⟩
          exact ⟨slot,by omega,by omega,h3⟩
        · rintro ⟨slot,h1,h2,h3⟩
          have hk : slot ≠ k := fun he => h3 (he ▸ hc)
          exact ⟨slot,by omega,by omega,h3⟩

theorem content_none_of_le (hl : Layout d count e) {slot : ℕ} (h : count ≤ slot) :
    content d slot = none := by
  rw [content,hl.slotCount,if_neg (fun hlt => absurd hlt.1 (not_lt.mpr h))]

/-- What has become of a page that has left the chain: a transaction still has it. -/
def Released (transaction : Bool) (s s' : Pool) (id : PageId) : Prop :=
  if transaction then s'.deletePending = id::s.deletePending ∧ (s'.pages id).isSome
  else s'.deletePending = s.deletePending ∧ s'.pages id = none

/-- An empty page other than the first leaves the chain, and nothing else changes. -/
theorem Inv.unlink {p : PageId} (h : Inv t s (pre ++ p::id::post) m) (hd : s.pages p = some d)
    (transaction : Bool) (hempty : ∀ rid : RID, rid.pageId = id → m rid = none) :
    ∃ s', HeapTable.unlink transaction s id p (link s.pages id) d = (.ok (),s') ∧
      Inv t s' (pre ++ p::post) m ∧ Released transaction s s' id ∧
      ∀ i, i ≠ p → i ≠ id → s'.pages i = s.pages i := by
  have hnodup := h.chain.nodup
  have hid : id ∈ pre ++ p::id::post := by simp
  have hp : p ∈ pre ++ p::id::post := by simp
  have hsub : ∀ i ∈ pre ++ p::post, i ∈ pre ++ p::id::post ∧ i ≠ id := by
    intro i hi
    refine ⟨by simp only [List.mem_append,List.mem_cons] at hi ⊢; tauto,?_⟩
    rintro rfl
    have hperm : (pre ++ p::i::post).Perm (i::(pre ++ p::post)) := by
      rw [List.append_cons pre p (i::post),List.append_cons pre p post]
      exact List.perm_middle
    exact (List.nodup_cons.mp (hperm.nodup_iff.mp hnodup)).1 hi
  have hpid : p ≠ id := (hsub p (by simp)).2
  have hb := h.bounded id hid
  have hk := h.kept id hid
  obtain ⟨d₁,c₁,e₁,hd₁,hl₁⟩ := h.laid id hid
  obtain ⟨d₂,c₂,e₂,hd₂,hl₂⟩ := h.laid p hp
  obtain rfl := Option.some.inj (hd.symm.trans hd₂)
  have hnext : link s.pages id ≠ 0 ∧ link s.pages id < 4294967296 := by
    rw [link_of hd₁]
    exact ⟨hl₁.next,load_lt ..⟩
  obtain ⟨hlay,hcont,-⟩ := hl₂.setNext hnext.1 hnext.2
  -- both ways of giving the page up leave the pages of the chain alone
  have key : ∀ s' : Pool, (∀ i, i ≠ id →
      s'.pages i = (s.writePage p (store d 16 (link s.pages id))).pages i) →
      (∀ i ∈ s'.deletePending, i = id ∨ i ∈ s.deletePending) →
      Inv t s' (pre ++ p::post) m := by
    intro s' hpages hpending
    constructor
    · constructor
      · refine h.chain.unlink.congr fun i hi => ?_
        by_cases hip : i = p
        · subst hip
          rw [Function.update_self,link_of ((hpages i hpid).trans (writePage_at ..)),
            load_store hnext.2]
        · rw [Function.update_of_ne hip,link,link,hpages i (hsub i hi).2,writePage_of_ne hip]
      · exact fun i hi => h.bounded i (hsub i hi).1
      · intro i hi hm
        rcases hpending i hm with he | hm
        · exact (hsub i hi).2 he
        · exact h.kept i (hsub i hi).1 hm
      · intro i hi
        by_cases hip : i = p
        · subst hip
          exact ⟨_,_,_,(hpages i hpid).trans (writePage_at ..),hlay⟩
        · obtain ⟨d₃,c₃,e₃,hd₃,hl₃⟩ := h.laid i (hsub i hi).1
          exact ⟨d₃,c₃,e₃,((hpages i (hsub i hi).2).trans (writePage_of_ne hip)).trans hd₃,hl₃⟩
    · exact h.first
    · intro i hi d' hd' slot
      rw [hpages i (hsub i hi).2] at hd'
      by_cases hip : i = p
      · subst hip
        obtain rfl := Option.some.inj ((writePage_at ..).symm.trans hd')
        rw [hcont]
        exact h.rows i hp d hd slot
      · exact h.rows i (hsub i hi).1 d' ((writePage_of_ne hip).symm.trans hd') slot
    · intro rid hrid
      by_cases he : rid.pageId = id
      · exact hempty rid he
      · refine h.outside rid fun hm => hrid ?_
        simp only [List.mem_append,List.mem_cons] at hm ⊢
        tauto
  have hstart : HeapTable.unlink transaction s id p (link s.pages id) d =
      if transaction then
        (.ok (),Pool.writePage { s with deletePending := id::s.deletePending } p
          (store d 16 (link s.pages id)))
      else Pool.finalizePageDeletion (Pool.writePage
        { s with deletePending := id::s.deletePending } p (store d 16 (link s.pages id))) id := by
    rw [HeapTable.unlink,Pool.beginPageDeletion,if_neg (not_or.mpr ⟨hb.2.ne,hb.1.ne'⟩),if_neg hk]
    simp only [setNextPageId_eq hl₂ hnext.1 hnext.2]
    cases transaction with
    | true => simp [Pool.deletePage,Pool.writePage]
    | false => simp
  cases transaction with
  | true =>
    rw [if_pos rfl] at hstart
    refine ⟨_,hstart,key _ (fun i _ => rfl) ?_,?_,fun i hip _ => writePage_of_ne hip⟩
    · intro i hi
      simpa [Pool.writePage] using hi
    · rw [Released,if_pos rfl]
      refine ⟨rfl,?_⟩
      rw [writePage_of_ne hpid.symm]
      exact Option.isSome_iff_exists.mpr ⟨d₁,hd₁⟩
  | false =>
    rw [if_neg (by simp)] at hstart
    rw [Pool.finalizePageDeletion,if_neg (by simp [Pool.writePage])] at hstart
    refine ⟨_,hstart,key _ (fun i hi => Function.update_of_ne hi ..) ?_,?_,?_⟩
    · intro i hi
      have hi : i ∈ s.deletePending := by simpa [Pool.writePage] using hi
      exact Or.inr hi
    · rw [Released,if_neg (by simp)]
      exact ⟨by simp [Pool.writePage],Function.update_self ..⟩
    · intro i hip hid
      exact (Function.update_of_ne hid ..).trans (writePage_of_ne hip)

theorem Inv.content_none (h : Inv t s ids m) (hi : i ∈ ids) (hd : s.pages i = some d) (slot : ℕ) :
    content d slot = none ↔ m ⟨i,slot⟩ = none := by
  have hrow := h.rows i hi d hd slot
  rw [← Option.map_eq_none_iff (f := RowCodec.decode t.schema),hrow,Option.map_eq_none_iff]

theorem Inv.releasePage (h : Inv t s ids m) (hid : id ∈ ids) (hfirst : id ≠ t.firstDataPageId)
    (transaction : Bool) :
    ((∃ slot, m ⟨id,slot⟩ ≠ none) ∧ HeapTable.releasePage t transaction s id = (.ok (),s)) ∨
    (∀ slot, m ⟨id,slot⟩ = none) ∧ ∃ s', HeapTable.releasePage t transaction s id = (.ok (),s') ∧
      Inv t s' (ids.erase id) m ∧ Released transaction s s' id ∧
      ∀ i ∉ ids, s'.pages i = s.pages i := by
  obtain ⟨pre,p,post,rfl⟩ : ∃ pre p post, ids = pre ++ p::id::post := by
    obtain ⟨front,post,rfl⟩ := List.append_of_mem hid
    rcases List.eq_nil_or_concat front with rfl | ⟨pre,p,rfl⟩
    · exact absurd h.chain.1.symm hfirst
    · exact ⟨pre,p,post,by simp⟩
  have hp : p ∈ pre ++ p::id::post := by simp
  have hbp := h.bounded p hp
  obtain ⟨d₁,c₁,e₁,hd₁,hl₁⟩ := h.laid p hp
  obtain ⟨d₂,c₂,e₂,hd₂,hl₂⟩ := h.laid id hid
  have hwalk : predecessorWalk s id pageTurns [] t.firstDataPageId = .ok p := by
    apply predecessorWalk_eq ?_ h.walk
    have hlen := h.length_lt
    rw [List.length_append] at hlen
    omega
  have hnext : load d₁ 16 = id := by
    rw [← link_of hd₁]
    exact h.chain.of_append.2.2.1
  obtain ⟨b,hb,hiff⟩ := anyRecord_eq hl₂ c₂ 0
  have hstart : HeapTable.releasePage t transaction s id =
      if b then (.ok (),s) else HeapTable.unlink transaction s id p (link s.pages id) d₁ := by
    rw [HeapTable.releasePage,hwalk]
    simp only [if_neg hbp.2.ne,h.fetch hp hd₁,Layout.nextPageId hl₁,hnext,ne_eq,not_true,if_false,
      h.fetch hid hd₂,Layout.nextPageId hl₂,Layout.count_eq hl₂,hb,link_of hd₂]
    cases b <;> rfl
  cases b with
  | true =>
    obtain ⟨slot,-,-,hlive⟩ := hiff.mp rfl
    exact Or.inl ⟨⟨slot,fun hm => hlive ((h.content_none hid hd₂ slot).mpr hm)⟩,by rw [hstart]; rfl⟩
  | false =>
    have hempty : ∀ slot, m ⟨id,slot⟩ = none := by
      intro slot
      rw [← h.content_none hid hd₂ slot]
      by_contra hlive
      have hlt : slot < 0 + c₂ := by
        rw [Nat.zero_add]
        by_contra hle
        exact hlive (content_none_of_le hl₂ (not_lt.mp hle))
      exact absurd (hiff.mpr ⟨slot,Nat.zero_le _,hlt,hlive⟩) (by simp)
    obtain ⟨s',hs',hinv,hrel,hframe⟩ := h.unlink hd₁ transaction fun rid he => by
      rw [← hempty rid.slotId,← he]
    have herase : (pre ++ p::id::post).erase id = pre ++ p::post := by
      have hnot : id ∉ pre ++ [p] := by
        intro hm
        have hnd := h.chain.nodup
        rw [List.append_cons,List.nodup_append] at hnd
        exact hnd.2.2 id hm id List.mem_cons_self rfl
      rw [List.append_cons,List.erase_append_right _ hnot,List.erase_cons_head,← List.append_cons]
    refine Or.inr ⟨hempty,s',by rw [hstart]; exact hs',by rw [herase]; exact hinv,hrel,?_⟩
    intro i hi
    exact hframe i (fun he => hi (he ▸ hp)) (fun he => hi (he ▸ hid))

/-- A page that has lost one record, in place of the page that had it. -/
theorem Inv.deleted (h : Inv t s ids m) (hd : s.pages rid.pageId = some d)
    (hid : rid.pageId ∈ ids) (hlay : Layout d' count e)
    (hcont : content d' = Function.update (content d) rid.slotId none)
    (hframe : ∀ i, Outside i → d' i = d i) :
    Inv t (s.writePage rid.pageId d') ids (Function.update m rid none) := by
  refine h.writePage hd (next_of_outside hframe) hlay ?_ hid ?_
  · intro slot
    rw [hcont]
    by_cases hs : slot = rid.slotId
    · subst hs
      simp
    · have hrid : (⟨rid.pageId,slot⟩ : RID) ≠ rid := fun he => hs (by rw [← he])
      rw [Function.update_of_ne hs,Function.update_of_ne hrid]
      exact h.rows _ hid d hd slot
  · intro rid' hne
    exact Function.update_of_ne (fun he => hne (by rw [he])) ..

/-- A live row is deleted, and its page with it when that page is left empty and not the
first. -/
theorem Inv.deleteRow (h : Inv t s ids m) (transaction : Bool) (rid : RID) :
    (m rid = none ∧ ∃ message, HeapTable.deleteRow t transaction rid s =
      (fail .notFound message,s)) ∨
    m rid ≠ none ∧ ∃ s' ids', HeapTable.deleteRow t transaction rid s = (.ok (),s') ∧
      Inv t s' ids' (Function.update m rid none) ∧ (∀ i ∉ ids, s'.pages i = s.pages i) ∧
      ((rid.pageId = t.firstDataPageId ∨ ∃ slot ≠ rid.slotId, m ⟨rid.pageId,slot⟩ ≠ none) ∧
          ids' = ids ∧ s'.deletePending = s.deletePending ∨
        rid.pageId ≠ t.firstDataPageId ∧ (∀ slot ≠ rid.slotId, m ⟨rid.pageId,slot⟩ = none) ∧
          ids' = ids.erase rid.pageId ∧ Released transaction s s' rid.pageId) := by
  obtain ⟨hin,hout⟩ := h.toChained.validateRidPage h.first rid.pageId
  by_cases hid : rid.pageId ∈ ids
  swap
  · obtain ⟨message,he⟩ := hout hid
    exact Or.inl ⟨h.outside rid hid,message,by rw [HeapTable.deleteRow,he]; rfl⟩
  obtain ⟨d,count,e,hd,hl⟩ := h.laid _ hid
  have hcontent := h.content_none hid hd rid.slotId
  rcases hl.deleteRecord rid.slotId with
    ⟨hnone,message,hdel⟩ | ⟨d',hlive,hdel,hlay,hcont,hframe⟩
  · refine Or.inl ⟨hcontent.mp hnone,message,?_⟩
    rw [HeapTable.deleteRow,hin hid]
    simp only [h.fetch hid hd,Layout.nextPageId hl,hdel,fail,writePage_self hd]
  have hnow := h.deleted hd hid hlay hcont hframe
  have hother : ∀ slot, slot ≠ rid.slotId →
      Function.update m rid none ⟨rid.pageId,slot⟩ = m ⟨rid.pageId,slot⟩ := by
    intro slot hs
    exact Function.update_of_ne (fun he => hs (by rw [← he])) ..
  refine Or.inr ⟨fun hm => hlive (hcontent.mpr hm),?_⟩
  by_cases hfirst : rid.pageId = t.firstDataPageId
  · refine ⟨_,ids,?_,hnow,fun i hi => writePage_of_ne (fun he => hi (he ▸ hid)),
      Or.inl ⟨Or.inl hfirst,rfl,rfl⟩⟩
    rw [HeapTable.deleteRow,hin hid]
    simp only [h.fetch hid hd,Layout.nextPageId hl,hdel,if_pos hfirst]
  have hstart : HeapTable.deleteRow t transaction rid s =
      HeapTable.releasePage t transaction (s.writePage rid.pageId d') rid.pageId := by
    rw [HeapTable.deleteRow,hin hid]
    simp only [h.fetch hid hd,Layout.nextPageId hl,hdel,if_neg hfirst]
  rw [hstart]
  rcases hnow.releasePage hid hfirst transaction with
    ⟨⟨slot,hslot⟩,hres⟩ | ⟨hempty,s',hres,hinv,hrel,hpages⟩
  · have hs : slot ≠ rid.slotId := by
      rintro rfl
      exact hslot (Function.update_self ..)
    rw [hother slot hs] at hslot
    exact ⟨_,ids,hres,hnow,fun i hi => writePage_of_ne (fun he => hi (he ▸ hid)),
      Or.inl ⟨Or.inr ⟨slot,hs,hslot⟩,rfl,rfl⟩⟩
  · refine ⟨s',_,hres,hinv,?_,Or.inr ⟨hfirst,fun slot hs => ?_,rfl,?_⟩⟩
    · intro i hi
      exact (hpages i hi).trans (writePage_of_ne (fun he => hi (he ▸ hid)))
    · rw [← hother slot hs]
      exact hempty slot
    · exact hrel

/-! ### `Scan` -/

def slotsOf (s : Pool) (i : PageId) : ℕ :=
  match s.pages i with
  | some data => load data 4
  | none => 0

/-- The rows in `n` slots of a page, from slot `k` on. -/
def rowsFrom (m : RID → Option Row) (i : PageId) (k n : ℕ) : List (RID × Row) :=
  (List.range' k n).filterMap fun slot => (m ⟨i,slot⟩).map fun row => (⟨i,slot⟩,row)

def pageRows (m : RID → Option Row) (s : Pool) (i : PageId) : List (RID × Row) :=
  rowsFrom m i 0 (slotsOf s i)

/-- What a cursor on the first of the pages `rest` has still to return. -/
def remaining (m : RID → Option Row) (s : Pool) (k : ℕ) : List PageId → List (RID × Row)
  | [] => []
  | i::rest => rowsFrom m i k (slotsOf s i - k) ++ rest.flatMap (pageRows m s)

theorem slotsOf_eq (hd : s.pages i = some d) (hl : Layout d count e) : slotsOf s i = count := by
  rw [slotsOf,hd]
  exact hl.slotCount

theorem remaining_start (m : RID → Option Row) (s : Pool) (rest : List PageId) :
    remaining m s 0 rest = rest.flatMap (pageRows m s) := by
  cases rest with
  | nil => rfl
  | cons i rest => rfl

theorem nextRecord_eq (h : Inv t s ids m) (hi : i ∈ ids) (hd : s.pages i = some d)
    (hl : Layout d count e) : ∀ n k,
    (rowsFrom m i k n = [] ∧ ScanCursor.nextRecord d k n = .ok none) ∨
    ∃ slot record row, ScanCursor.nextRecord d k n = .ok (some (slot,record)) ∧
      RowCodec.decode t.schema record = .ok row ∧
      rowsFrom m i k n = (⟨i,slot⟩,row)::rowsFrom m i (slot + 1) (k + n - (slot + 1))
  | 0, k => Or.inl ⟨rfl,rfl⟩
  | n+1, k => by
    obtain ⟨hget,hnone⟩ := hl.getRecord k
    have hrow := h.rows i hi d hd k
    cases hc : content d k with
    | some record =>
      rw [hc] at hrow
      cases hm : m ⟨i,k⟩ with
      | none => simp [hm] at hrow
      | some row =>
        have hdec : RowCodec.decode t.schema record = .ok row := by simpa [hm] using hrow
        refine Or.inr ⟨k,record,row,by rw [ScanCursor.nextRecord,(hget record).mpr hc],hdec,?_⟩
        rw [rowsFrom,List.range'_succ,List.filterMap_cons,hm,rowsFrom]
        simp only [Option.map_some]
        rw [show k + (n + 1) - (k + 1) = n by omega]
    | none =>
      obtain ⟨message,he⟩ := hnone hc
      have hm : m ⟨i,k⟩ = none := (h.content_none hi hd k).mp hc
      have hskip : rowsFrom m i k (n + 1) = rowsFrom m i (k + 1) n := by
        rw [rowsFrom,List.range'_succ,List.filterMap_cons,hm]
        rfl
      have hgo : ScanCursor.nextRecord d k (n + 1) = ScanCursor.nextRecord d (k + 1) n := by
        rw [ScanCursor.nextRecord,he]
        simp only [fail,if_true]
      rw [hskip,hgo,show k + (n + 1) = k + 1 + n by omega]
      exact nextRecord_eq h hi hd hl n (k + 1)

/-- A cursor that stands on the first of the pages `rest`. -/
structure At (t : TableMetadata) (s : Pool) (ids : List PageId) (c : ScanCursor)
    (rest : List PageId) : Prop where
  chained : Chained t s ids
  short : rest.length < pageTurns
  sub : ∀ i ∈ rest, i ∈ ids
  chain : IsChain (link s.pages) invalidPageId c.currentPage rest
  guard : ∀ d, c.pageGuard = some d → s.pages c.currentPage = some d ∧ rest ≠ [] ∧
    c.pageLoaded = false
  unseen : rest ≠ [] → c.pageLoaded = false → c.pageGuard = none →
    c.currentPage ∉ c.visitedPages

theorem Chained.start (h : Chained t s ids) : At t s ids { currentPage := t.firstDataPageId } ids :=
  ⟨h,h.length_lt,fun _ hi => hi,h.chain,fun d hg => by simp at hg,fun _ _ _ => List.not_mem_nil⟩

/-- The cursor stands behind the row that it has returned, without a guard. -/
structure Behind (c : ScanCursor) (rid : RID) (rest' rest : List PageId) : Prop where
  suffix : rest' <:+ rest
  page : rest'.head? = some rid.pageId
  slot : c.nextSlot = rid.slotId + 1
  guard : c.pageGuard = none
  loaded : c.pageLoaded = true

theorem count_eq {c : ScanCursor} (hl : Layout d count e) : c.count d = .ok (d,
    { c with pageGuard := some d, slotCount := count, pageLoaded := true }) := by
  rw [ScanCursor.count,hl.valid]
  simp only [Layout.count_eq hl]

theorem load_end {c : ScanCursor} (h : At t s ids c []) : c.load s = .ok none := by
  have hg : c.pageGuard = none := by
    cases hg : c.pageGuard with
    | none => rfl
    | some d => exact absurd rfl (h.guard d hg).2.1
  have hc : c.currentPage = invalidPageId := h.chain
  rw [ScanCursor.load,hg]
  simp only [if_pos hc]

/-- Whichever way the cursor has come to a page, it has it now with its slots counted. -/
theorem load_page {c : ScanCursor} (h : At t s ids c (i::rest)) : ∃ d count e c',
    c.load s = .ok (some (d,c')) ∧ s.pages i = some d ∧ Layout d count e ∧
      c'.slotCount = count ∧ c'.nextSlot = c.nextSlot ∧ c'.currentPage = i ∧
      c'.pageLoaded = true := by
  have hi : i ∈ ids := h.sub i List.mem_cons_self
  have hb := h.chained.bounded i hi
  obtain ⟨d,count,e,hd,hl⟩ := h.chained.laid i hi
  have hcur : c.currentPage = i := h.chain.1
  cases hg : c.pageGuard with
  | some d' =>
    obtain ⟨hd',-,hload⟩ := h.guard d' hg
    rw [hcur] at hd'
    obtain rfl := Option.some.inj (hd.symm.trans hd')
    refine ⟨d,count,e,{ c with pageGuard := some d, slotCount := count, pageLoaded := true },?_,
      hd,hl,rfl,rfl,hcur,rfl⟩
    rw [ScanCursor.load,hg]
    simp only [hload,Bool.false_eq_true,if_false,count_eq hl,Except.map]
  | none =>
    let c₁ : ScanCursor := if c.pageLoaded then c
      else { c with visitedPages := c.currentPage::c.visitedPages }
    have hstart : c.load s = (c₁.count d).map some := by
      have hne : c.currentPage ≠ invalidPageId := by
        rw [hcur]
        exact hb.2.ne
      have hseen : ¬ ((!c.pageLoaded) = true ∧
          (c.currentPage = 0 ∨ c.currentPage ∈ c.visitedPages)) := by
        rintro ⟨hload,hz | hv⟩
        · exact hb.1.ne' (hcur.symm.trans hz)
        · exact h.unseen (List.cons_ne_nil _ _) (by simpa using hload) hg hv
      have hf : s.fetchPage c.currentPage = .ok d := by
        rw [hcur]
        exact h.chained.fetch hi hd
      simp only [ScanCursor.load,hg,if_neg hne,if_neg hseen,hf,c₁]
    have hsame : c₁.nextSlot = c.nextSlot ∧ c₁.currentPage = i := by
      by_cases hload : c.pageLoaded = true
      · simp [c₁,hload,hcur]
      · simp [c₁,hload,hcur]
    exact ⟨d,count,e,{ c₁ with pageGuard := some d, slotCount := count, pageLoaded := true },
      by rw [hstart,count_eq hl]; rfl,hd,hl,rfl,hsame.1,hsame.2,rfl⟩

/-- `Next` returns the first of the rows that remain and leaves the others. -/
theorem next_eq (h : Inv t s ids m) : ∀ (rest : List PageId) (n : ℕ) (c : ScanCursor),
    rest.length < n → At t s ids c rest →
    (remaining m s c.nextSlot rest = [] ∧ ScanCursor.next t s n c = .ok none) ∨
    ∃ entry c' rest', ScanCursor.next t s n c = .ok (some (entry,c')) ∧ At t s ids c' rest' ∧
      Behind c' entry.1 rest' rest ∧
      remaining m s c.nextSlot rest = entry::remaining m s c'.nextSlot rest'
  | [], n, c, hn, hat => by
    obtain ⟨n,rfl⟩ := Nat.exists_eq_succ_of_ne_zero (by omega : n ≠ 0)
    exact Or.inl ⟨rfl,by rw [ScanCursor.next,load_end hat]⟩
  | i::rest, n, c, hn, hat => by
    obtain ⟨n,rfl⟩ := Nat.exists_eq_succ_of_ne_zero (by omega : n ≠ 0)
    obtain ⟨d,count,e,c₁,hload,hd,hl,hcount,hslot,hcur,hloaded⟩ := load_page hat
    have hi : i ∈ ids := hat.sub i List.mem_cons_self
    have hnext : link s.pages i = load d 16 := link_of hd
    have hchain := hat.chain.2.2
    rw [hnext] at hchain
    have hslots := slotsOf_eq hd hl
    rcases nextRecord_eq h hi hd hl (count - c.nextSlot) c.nextSlot with
      ⟨hrows,hrec⟩ | ⟨slot,record,row,hrec,hdec,hrows⟩
    · -- the page is read to its end
      have hrest : remaining m s c.nextSlot (i::rest) = remaining m s 0 rest := by
        rw [remaining_start,remaining,hslots,hrows,List.nil_append]
      have hshort : rest.length < pageTurns := Nat.lt_of_succ_lt hat.short
      have hsub : ∀ j ∈ rest, j ∈ ids := fun j hj => hat.sub j (List.mem_cons_of_mem _ hj)
      obtain ⟨c₂,hgo,hat₂,hzero⟩ : ∃ c₂, ScanCursor.next t s (n + 1) c = ScanCursor.next t s n c₂ ∧
          At t s ids c₂ rest ∧ c₂.nextSlot = 0 := by
        by_cases hend : load d 16 = invalidPageId
        · have hnil : rest = [] := by
            cases rest with
            | nil => rfl
            | cons j rest' => exact absurd (hchain.1.symm.trans hend) hchain.2.1
          refine ⟨{ c₁ with
            currentPage := load d 16, pageLoaded := false, nextSlot := 0, pageGuard := none },?_,
            ⟨hat.chained,hshort,hsub,hchain,?_,?_⟩,rfl⟩
          · rw [ScanCursor.next,hload]
            simp only [hslot,hcount,hrec,Layout.nextPageId hl,if_neg (not_not.mpr hend)]
          · exact fun d' hg => by simp at hg
          · exact fun hne => absurd hnil hne
        · obtain ⟨j,rest',rfl⟩ : ∃ j rest', rest = j::rest' := by
            cases rest with
            | nil => exact absurd hchain hend
            | cons j rest' => exact ⟨j,rest',rfl⟩
          have hj : load d 16 = j := hchain.1
          obtain ⟨d',c',e',hd',-⟩ := h.laid j (hsub j List.mem_cons_self)
          have hf : s.fetchPage (load d 16) = .ok d' := by
            rw [hj]
            exact h.fetch (hsub j List.mem_cons_self) hd'
          refine ⟨{ c₁ with
            currentPage := load d 16, pageLoaded := false, nextSlot := 0, pageGuard := some d' },?_,
            ⟨hat.chained,hshort,hsub,hchain,?_,?_⟩,rfl⟩
          · rw [ScanCursor.next,hload]
            simp only [hslot,hcount,hrec,Layout.nextPageId hl,if_pos hend,hf]
          · intro d₁ hg
            obtain rfl : d' = d₁ := by simpa using hg
            exact ⟨by simpa [hj] using hd',List.cons_ne_nil _ _,rfl⟩
          · exact fun _ _ hg => by simp at hg
      rw [hrest,hgo,← hzero]
      rcases next_eq h rest n c₂ (by simpa using hn) hat₂ with
        hdone | ⟨entry,c',rest',hnext',hat',hbehind,hcons⟩
      · exact Or.inl hdone
      · exact Or.inr ⟨entry,c',rest',hnext',hat',
          { hbehind with suffix := hbehind.suffix.trans (List.suffix_cons i rest) },hcons⟩
    · refine Or.inr ⟨(⟨i,slot⟩,row),{ c₁ with nextSlot := slot + 1, pageGuard := none },i::rest,
        ?_,?_,⟨List.suffix_refl _,rfl,rfl,rfl,hloaded⟩,?_⟩
      · rw [ScanCursor.next,hload]
        simp only [hslot,hcount,hrec,hdec,Except.map,hcur]
      · refine ⟨hat.chained,hat.short,hat.sub,⟨hcur,hat.chain.2⟩,fun d hg => by simp at hg,
          fun _ hu => ?_⟩
        simp [hloaded] at hu
      · have hle : c.nextSlot ≤ count := by
          by_contra hle
          rw [Nat.sub_eq_zero_of_le (by omega)] at hrows
          simp [rowsFrom] at hrows
        rw [Nat.add_sub_cancel' hle] at hrows
        rw [remaining,remaining,hslots,hrows,List.cons_append]

theorem scanRows_eq (h : Inv t s ids m) : ∀ (rows : List (RID × Row)) (n : ℕ) (c : ScanCursor)
    (rest : List PageId), rows.length < n → At t s ids c rest →
    remaining m s c.nextSlot rest = rows → scanRows t s n c = .ok rows
  | rows, 0, _, _, hn, _, _ => absurd hn (Nat.not_lt_zero _)
  | rows, n+1, c, rest, hn, hat, hr => by
    rcases next_eq h rest pageTurns c hat.short hat with
      ⟨hnil,hnext⟩ | ⟨entry,c',rest',hnext,hat',-,hcons⟩
    · rw [scanRows,hnext,← hr,hnil]
    · have hrows : rows = entry::remaining m s c'.nextSlot rest' := hr.symm.trans hcons
      have hlen : (remaining m s c'.nextSlot rest').length < n := by
        rw [hrows] at hn
        simpa using hn
      rw [scanRows,hnext,hrows]
      simp only [scanRows_eq h _ n c' rest' hlen hat' rfl,Except.map]

theorem rowsFrom_length (m : RID → Option Row) (i : PageId) (k n : ℕ) :
    (rowsFrom m i k n).length ≤ n := by
  have h := List.length_filterMap_le
    (fun slot => (m ⟨i,slot⟩).map fun row => ((⟨i,slot⟩ : RID),row)) (List.range' k n)
  rwa [List.length_range'] at h

theorem count_lt (hl : Layout d count e) : count < pageTurns := by
  have hroom := hl.room
  have hfits := hl.fits
  have hturns : 4096 < pageTurns := by decide
  omega

theorem Inv.rows_length (h : Inv t s ids m) (hsub : ∀ i ∈ rest, i ∈ ids) :
    (rest.flatMap (pageRows m s)).length ≤ rest.length * pageTurns := by
  induction rest with
  | nil => simp
  | cons i rest ih =>
    obtain ⟨d,count,e,hd,hl⟩ := h.laid i (hsub i List.mem_cons_self)
    have hpage := rowsFrom_length m i 0 (slotsOf s i)
    have hslots := slotsOf_eq hd hl
    have hcount := count_lt hl
    have hrest := ih fun j hj => hsub j (List.mem_cons_of_mem _ hj)
    rw [List.flatMap_cons,List.length_append,List.length_cons,Nat.add_mul,Nat.one_mul]
    simp only [pageRows] at hrest ⊢
    omega

theorem Inv.scan (h : Inv t s ids m) :
    HeapTable.scan t s = .ok (ids.flatMap (pageRows m s)) := by
  have hb := h.bounded _ h.first_mem
  rw [HeapTable.scan,if_neg (not_or.mpr ⟨hb.2.ne,hb.1.ne'⟩)]
  apply scanRows_eq h _ _ _ ids
  · have hlen := h.rows_length fun i hi => hi
    exact Nat.lt_of_le_of_lt hlen (Nat.mul_lt_mul_of_pos_right h.length_lt (by decide))
  · exact h.toChained.start
  · exact remaining_start m s ids

theorem mem_rowsFrom {k n : ℕ} : (rid,row) ∈ rowsFrom m i k n ↔
    rid.pageId = i ∧ k ≤ rid.slotId ∧ rid.slotId < k + n ∧ m rid = some row := by
  simp only [rowsFrom,List.mem_filterMap,List.mem_range'_1,Option.map_eq_some_iff,Prod.mk.injEq]
  constructor
  · rintro ⟨slot,hslot,row',hm,rfl,rfl⟩
    exact ⟨rfl,hslot.1,hslot.2,hm⟩
  · rintro ⟨rfl,hk,hn,hm⟩
    exact ⟨rid.slotId,⟨hk,hn⟩,row,hm,rfl,rfl⟩

theorem Inv.mem_scan (h : Inv t s ids m) :
    (rid,row) ∈ ids.flatMap (pageRows m s) ↔ m rid = some row := by
  simp only [List.mem_flatMap,pageRows,mem_rowsFrom]
  constructor
  · rintro ⟨i,-,-,-,-,hm⟩
    exact hm
  · intro hm
    have hid := h.page_mem hm
    obtain ⟨d,count,e,hd,hl⟩ := h.laid _ hid
    refine ⟨rid.pageId,hid,rfl,Nat.zero_le _,?_,hm⟩
    rw [slotsOf_eq hd hl,Nat.zero_add]
    by_contra hle
    have hnone := (h.content_none hid hd rid.slotId).mp (content_none_of_le hl (not_lt.mp hle))
    rw [show (⟨rid.pageId,rid.slotId⟩ : RID) = rid from rfl,hm] at hnone
    cases hnone

theorem Inv.scan_nodup (h : Inv t s ids m) :
    ((ids.flatMap (pageRows m s)).map Prod.fst).Nodup := by
  have hmap : ∀ i, (pageRows m s i).map Prod.fst = (List.range' 0 (slotsOf s i)).filterMap
      fun slot => (m ⟨i,slot⟩).map fun _ => (⟨i,slot⟩ : RID) := by
    intro i
    rw [pageRows,rowsFrom,List.map_filterMap]
    simp only [Option.map_map]
    rfl
  have hpage : ∀ i, ∀ rid ∈ (pageRows m s i).map Prod.fst, rid.pageId = i := by
    intro i rid hrid
    obtain ⟨⟨rid',row⟩,hmem,rfl⟩ := List.mem_map.mp hrid
    exact (mem_rowsFrom.mp hmem).1
  rw [List.map_flatMap,List.nodup_flatMap]
  constructor
  · intro i _
    rw [hmap]
    refine List.Nodup.filterMap ?_ List.nodup_range'
    intro a a' b ha ha'
    simp only [Option.mem_def,Option.map_eq_some_iff] at ha ha'
    obtain ⟨-,-,rfl⟩ := ha
    obtain ⟨-,-,he⟩ := ha'
    exact (RID.mk.inj he).2.symm
  · refine h.chain.nodup.imp fun {i j} hne => ?_
    intro rid hi hj
    exact hne ((hpage i rid hi).symm.trans (hpage j rid hj))

/-! ### Runs -/

/-- The pages that the links lead to from the first one. -/
inductive OnChain (t : TableMetadata) (s : Pool) : PageId → Prop
  | first : OnChain t s t.firstDataPageId
  | next {i : PageId} : OnChain t s i → link s.pages i ≠ invalidPageId →
    OnChain t s (link s.pages i)

theorem Chained.onChain (h : Chained t s ids) (hi : i ∈ ids) : OnChain t s i := by
  have key : ∀ {rest : List PageId} {head : PageId},
      IsChain (link s.pages) invalidPageId head rest → (head ≠ invalidPageId → OnChain t s head) →
      ∀ i ∈ rest, OnChain t s i := by
    intro rest
    induction rest with
    | nil => exact fun _ _ i hi => absurd hi List.not_mem_nil
    | cons j rest ih =>
      intro head hc hh i hi
      obtain ⟨rfl,hne,hc⟩ := hc
      rcases List.mem_cons.mp hi with rfl | hi
      · exact hh hne
      · exact ih hc (fun hlink => (hh hne).next hlink) i hi
  exact key h.chain (fun _ => .first) i hi

/-- `CREATE TABLE` checks the schema and initializes the first page. -/
structure TableMetadata.Valid (t : TableMetadata) : Prop where
  proper : Proper t.schema
  pos : 0 < t.firstDataPageId
  lt : t.firstDataPageId < invalidPageId

/-- The runs of a table, beside the map they are meant to have. `GetRow` and `Scan` leave the
pool as it is; whatever else uses the pool leaves the pages of the table alone. -/
inductive Reached (t : TableMetadata) : Pool → (RID → Option Row) → Prop
  | create {s : Pool} {data : Mem} :
    s.pages t.firstDataPageId = some (initializePage data noPage).1 →
    t.firstDataPageId ∉ s.deletePending → Reached t s fun _ => none
  | insertRow {s : Pool} {m : RID → Option Row} (transaction : Bool) {fresh : PageId} (row : Row) :
    Reached t s m → s.Free fresh → Reached t (insertRow t transaction fresh row s).2
      (match (insertRow t transaction fresh row s).1 with
        | .ok rid => Function.update m rid (some row)
        | .error _ => m)
  | deleteRow {s : Pool} {m : RID → Option Row} (transaction : Bool) (rid : RID) :
    Reached t s m → Reached t (deleteRow t transaction rid s).2
      (match (deleteRow t transaction rid s).1 with
        | .ok () => Function.update m rid none
        | .error _ => m)
  | other {s s' : Pool} {m : RID → Option Row} : Reached t s m →
    (∀ i, OnChain t s i → s'.pages i = s.pages i ∧
      (i ∈ s'.deletePending → i ∈ s.deletePending)) → Reached t s' m

theorem Inv.congr (h : Inv t s ids m) {s' : Pool} (hs : ∀ i ∈ ids, s'.pages i = s.pages i ∧
    (i ∈ s'.deletePending → i ∈ s.deletePending)) : Inv t s' ids m where
  chain := h.chain.congr fun i hi => by rw [link,link,(hs i hi).1]
  bounded := h.bounded
  kept := fun i hi hm => h.kept i hi ((hs i hi).2 hm)
  laid := by
    intro i hi
    rw [(hs i hi).1]
    exact h.laid i hi
  first := h.first
  rows := by
    intro i hi d hd
    rw [(hs i hi).1] at hd
    exact h.rows i hi d hd
  outside := h.outside

theorem inv_create (ht : t.Valid) {data : Mem}
    (hp : s.pages t.firstDataPageId = some (initializePage data noPage).1)
    (hk : t.firstDataPageId ∉ s.deletePending) : Inv t s [t.firstDataPageId] fun _ => none := by
  obtain ⟨-,hl,hnext⟩ := @layout_initializePage data noPage (by decide)
  constructor
  · constructor
    · refine ⟨rfl,ht.lt.ne,?_⟩
      rw [link_of hp,hnext]
      rfl
    · intro i hi
      rw [List.mem_singleton.mp hi]
      exact ⟨ht.pos,ht.lt⟩
    · intro i hi
      rwa [List.mem_singleton.mp hi]
    · intro i hi
      rw [List.mem_singleton.mp hi]
      exact ⟨_,_,_,hp,hl⟩
  · exact ht.lt.ne
  · intro i hi d hd slot
    rw [List.mem_singleton.mp hi] at hd
    obtain rfl := Option.some.inj (hp.symm.trans hd)
    rw [content_none_of_le hl (Nat.zero_le _)]
    rfl
  · exact fun _ _ => rfl

/-- Along every run the pages hold the map. -/
theorem Reached.inv (ht : t.Valid) (h : Reached t s m) : ∃ ids, Inv t s ids m := by
  induction h with
  | create hp hk => exact ⟨_,inv_create ht hp hk⟩
  | @insertRow s m transaction fresh row _ hf ih =>
    obtain ⟨ids,hinv⟩ := ih
    rcases hinv.insertRow ht.proper hf transaction row with
      ⟨-,e,he⟩ | ⟨-,rid,ids',hok,-,hinv',-⟩
    · rw [he]
      exact ⟨ids,hinv⟩
    · rw [hok]
      exact ⟨ids',hinv'⟩
  | @deleteRow s m transaction rid _ ih =>
    obtain ⟨ids,hinv⟩ := ih
    rcases hinv.deleteRow transaction rid with ⟨-,message,he⟩ | ⟨-,s',ids',hok,hinv',-,-⟩
    · rw [he]
      exact ⟨ids,hinv⟩
    · rw [hok]
      exact ⟨ids',hinv'⟩
  | other _ hs ih =>
    obtain ⟨ids,hinv⟩ := ih
    exact ⟨ids,hinv.congr fun i hi => hs i (hinv.onChain hi)⟩

/-- The rows that `GetRow` finds are those of the map. -/
def Shows (t : TableMetadata) (s : Pool) (m : RID → Option Row) : Prop :=
  ∀ rid row, getRow t s rid = .ok row ↔ m rid = some row

/-- A table as a finite map: each operation does to the map what its name says, on a chain
of pages that has no cycle and gives up no page but one that a delete has emptied. -/
structure Refines (t : TableMetadata) (s : Pool) (m : RID → Option Row) : Prop where
  finite : {rid | m rid ≠ none}.Finite
  shows : Shows t s m
  scan : ∃ rows, scan t s = .ok rows ∧ (rows.map Prod.fst).Nodup ∧
    ∀ rid row, (rid,row) ∈ rows ↔ m rid = some row
  insert : ∀ transaction fresh row, s.Free fresh →
    (¬ Storable t row ∧ ∃ e, insertRow t transaction fresh row s = (.error e,s)) ∨
    Storable t row ∧ ∃ rid s', insertRow t transaction fresh row s = (.ok rid,s') ∧
      m rid = none ∧ Shows t s' (Function.update m rid (some row))
  delete : ∀ transaction rid,
    (m rid = none ∧ ∃ message, deleteRow t transaction rid s = (fail .notFound message,s)) ∨
    m rid ≠ none ∧ ∃ s', deleteRow t transaction rid s = (.ok (),s') ∧
      Shows t s' (Function.update m rid none)
  chain : ∃ ids, Chained t s ids ∧ ids.Nodup ∧
    ∀ transaction rid s', deleteRow t transaction rid s = (.ok (),s') →
      ∃ ids', Chained t s' ids' ∧ (∀ i ∉ ids, s'.pages i = s.pages i) ∧
        ((rid.pageId = t.firstDataPageId ∨
            ∃ slot ≠ rid.slotId, m ⟨rid.pageId,slot⟩ ≠ none) ∧
          ids' = ids ∧ s'.deletePending = s.deletePending ∨
        rid.pageId ≠ t.firstDataPageId ∧ (∀ slot ≠ rid.slotId, m ⟨rid.pageId,slot⟩ = none) ∧
          ids' = ids.erase rid.pageId ∧ Released transaction s s' rid.pageId)

theorem Inv.refines (h : Inv t s ids m) (hp : Proper t.schema) : Refines t s m where
  finite := by
    refine ((ids.flatMap (pageRows m s)).map Prod.fst).finite_toSet.subset fun rid hrid => ?_
    obtain ⟨row,hm⟩ := Option.ne_none_iff_exists'.mp hrid
    exact List.mem_map.mpr ⟨(rid,row),h.mem_scan.mpr hm,rfl⟩
  shows := fun _ _ => h.getRow
  scan := ⟨_,h.scan,h.scan_nodup,fun _ _ => h.mem_scan⟩
  insert := by
    intro transaction fresh row hf
    rcases h.insertRow hp hf transaction row with ⟨hn,he⟩ | ⟨hs,rid,ids',hok,hm,hinv,-⟩
    · exact Or.inl ⟨hn,he⟩
    · exact Or.inr ⟨hs,rid,_,Prod.ext hok rfl,hm,fun _ _ => hinv.getRow⟩
  delete := by
    intro transaction rid
    rcases h.deleteRow transaction rid with hn | ⟨hm,s',ids',hok,hinv,-,-⟩
    · exact Or.inl hn
    · exact Or.inr ⟨hm,s',hok,fun _ _ => hinv.getRow⟩
  chain := by
    refine ⟨ids,h.toChained,h.chain.nodup,fun transaction rid s' hok => ?_⟩
    rcases h.deleteRow transaction rid with ⟨-,message,he⟩ | ⟨-,s₁,ids',hok',hinv,hframe,hpages⟩
    · rw [he] at hok
      simp [fail] at hok
    · obtain rfl : s₁ = s' := (Prod.mk.inj (hok'.symm.trans hok)).2
      exact ⟨ids',hinv.toChained,hframe,hpages⟩

/-- `HeapTable` refines a finite map from RIDs to rows along every run. -/
theorem refines_rowMap (ht : t.Valid) (h : Reached t s m) : Refines t s m := by
  obtain ⟨ids,hinv⟩ := h.inv ht
  exact hinv.refines ht.proper

/-- A new table of one INT column takes its first row. -/
theorem refines_rowMap_first : ∃ rid s',
    insertRow ⟨[⟨"id",.int,none,false⟩],1⟩ false 2 [.int 7]
      ⟨fun i => if i = 1 then some (initializePage (fun _ => 0) noPage).1 else none,[]⟩ =
        (.ok rid,s') ∧ getRow ⟨[⟨"id",.int,none,false⟩],1⟩ s' rid = .ok [.int 7] := by
  have ht : TableMetadata.Valid ⟨[⟨"id",.int,none,false⟩],1⟩ :=
    ⟨by simp [Proper],by decide,by decide⟩
  have hstart : Reached ⟨[⟨"id",.int,none,false⟩],1⟩
      ⟨fun i => if i = 1 then some (initializePage (fun _ => 0) noPage).1 else none,[]⟩
      fun _ => none := .create rfl List.not_mem_nil
  rcases (refines_rowMap ht hstart).insert false 2 [.int 7]
      ⟨by decide,by decide,rfl,List.not_mem_nil⟩ with ⟨hn,-⟩ | ⟨-,rid,s',hok,-,hshows⟩
  · exact absurd ⟨_,rfl,by decide⟩ hn
  · exact ⟨rid,s',hok,(hshows rid [.int 7]).mpr (Function.update_self ..)⟩

end Storage.HeapTable
end OurSql
