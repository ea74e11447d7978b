import OurSql.Storage.Allocate
import OurSql.Lib.Transition

/-! Opening and closing the disk manager, and its runs: whatever sequence of
allocations, releases, page writes and reopenings it goes through, the free list in
memory, the one on the file and the pages handed out agree. -/
namespace OurSql
namespace Storage

open Crash Chain Transition

/-- `CloseUnlocked` on an open manager. -/
def DiskManager.closed (d : DiskManager) : DiskManager :=
  { d with
    isOpen := false
    pageCount := 1
    freeListHead := invalidPageId
    catalogHead := invalidPageId
    freePages := ∅ }

def closeDisk : Prog Store Status := do
  let s ← get
  if !s.disk.isOpen then return .ok ()
  else
    modify (Store.mapDisk DiskManager.closed)
    return .ok ()

/-- The file is truncated to no bytes as it is opened. -/
def DiskManager.truncated (d : DiskManager) : DiskManager :=
  { d.closed with isOpen := true, file := fun _ => Page.zero, fileSize := 0 }

def openNewFile : Prog Store Status := do
  modify (Store.mapDisk DiskManager.truncated)
  match ← persistSuperblock with
  | .error e =>
    let _ ← closeDisk
    return .error e
  | .ok () => return .ok ()

/-- `DiskManager::Open`. A file that is not there has no bytes. -/
def openDisk : Prog Store Status := do
  let _ ← closeDisk
  let s ← get
  if s.disk.fileSize = 0 then openNewFile
  else match openExistingFile s.disk with
    | .error e =>
      modify (Store.mapDisk DiskManager.closed)
      return .error e
    | .ok d =>
      modify (Store.mapDisk fun _ => d)
      return .ok ()

/-- The pages in use, the superblock apart. -/
def DiskManager.allocated (d : DiskManager) : Finset PageId :=
  (Finset.range d.pageCount).erase 0 \ d.freePages

theorem DiskManager.mem_allocated {d : DiskManager} {p : PageId} :
    p ∈ d.allocated ↔ (0 < p ∧ p < d.pageCount) ∧ p ∉ d.freePages := by
  simp [DiskManager.allocated,Nat.pos_iff_ne_zero]

section open_close

variable {s : Store} {free : List PageId} {R : Store → Prop}

theorem spec_closeDisk :
    Spec (· = s) closeDisk
      (fun r t => r = .ok () ∧
        t = if s.disk.isOpen then s.mapDisk DiskManager.closed else s) R := by
  unfold closeDisk
  refine Spec.get_bind ?_
  by_cases h : s.disk.isOpen = true
  · rw [h,if_neg (by simp),if_pos rfl]
    exact Spec.modify_bind Spec.pure_eq
  · have hf : s.disk.isOpen = false := by simpa using h
    rw [hf,if_pos (by simp),if_neg (by simp)]
    exact Spec.pure_eq

/-- Closing forgets what was in memory; the file stays. -/
theorem closed_onFile {d : DiskManager} {count : ℕ} {head catalog : PageId}
    (h : OnFile d count head catalog free) : OnFile d.closed count head catalog free :=
  h.of_file rfl rfl

/-- What opening a file reads into memory. -/
def DiskManager.opened (d : DiskManager) (count : ℕ) (head catalog : PageId)
    (free : List PageId) : DiskManager :=
  ⟨true,count,head,catalog,free.toFinset,d.file,d.fileSize⟩

theorem OnFile.mounted {d : DiskManager} {count : ℕ} {head catalog : PageId}
    (h : OnFile d count head catalog free) : Mounted (d.opened count head catalog free) free where
  isOpen := rfl
  onFile := h.of_file rfl rfl
  freePages := rfl

theorem spec_openDisk_existing {count : ℕ} {head catalog : PageId}
    (h : OnFile s.disk count head catalog free) :
    Spec (· = s) openDisk
      (fun r t => r = .ok () ∧
        t = s.mapDisk fun d => d.opened count head catalog free) R := by
  have hopen : ∀ u : Store, OnFile u.disk count head catalog free →
      u.disk.file = s.disk.file → u.disk.fileSize = s.disk.fileSize → u.log = s.log →
      Spec (· = u) (do
        let s ← get
        if s.disk.fileSize = 0 then openNewFile
        else match openExistingFile s.disk with
          | .error e =>
            modify (Store.mapDisk DiskManager.closed)
            return .error e
          | .ok d =>
            modify (Store.mapDisk fun _ => d)
            return .ok () : Prog Store Status)
        (fun r t => r = .ok () ∧ t = s.mapDisk fun d => d.opened count head catalog free) R := by
    intro u hu hfile hsize hlog
    have hne : u.disk.fileSize ≠ 0 := by
      rw [hu.size]
      exact Nat.pos_iff_ne_zero.mp hu.pos
    refine Spec.get_bind ?_
    simp only [if_neg hne,openExistingFile_onFile hu]
    refine Spec.modify_bind (Spec.conseq Spec.pure_eq (fun _ h => h) ?_ fun _ h => h)
    intro a t hat
    obtain ⟨rfl,rfl⟩ := hat
    refine ⟨rfl,?_⟩
    simp only [Store.mapDisk,DiskManager.opened,hfile,hsize,hlog]
  unfold openDisk
  refine Spec.step spec_closeDisk ?_
  by_cases ho : s.disk.isOpen = true
  · rw [if_pos ho]
    exact hopen _ (closed_onFile h) rfl rfl rfl
  · rw [if_neg ho]
    exact hopen s h rfl rfl rfl

/-- The superblock of a new database. -/
def DiskManager.fresh (d : DiskManager) : DiskManager :=
  d.truncated.writePage 0 (superblock 1 invalidPageId invalidPageId)

theorem fresh_mounted (d : DiskManager) : Mounted d.fresh [] where
  isOpen := rfl
  freePages := rfl
  onFile :=
    { superblock := by
        change Function.update (fun _ => Page.zero) 0
          (superblock 1 invalidPageId invalidPageId) 0 = _
        rw [Function.update_self]
        rfl
      size := rfl
      pos := Nat.one_pos
      bound := (by decide : 1 ≤ 4294967295)
      catalog := .inl rfl
      chain := rfl
      range := by simp }

theorem spec_openDisk_new (ho : s.disk.isOpen = false) (hs : s.disk.fileSize = 0)
    (hR : R (s.mapDisk DiskManager.truncated)) :
    Spec (· = s) openDisk (fun r t => r = .ok () ∧ t = s.mapDisk DiskManager.fresh) R := by
  unfold openDisk
  refine Spec.step spec_closeDisk ?_
  rw [ho,if_neg (by simp)]
  refine Spec.get_bind ?_
  rw [if_pos hs]
  unfold openNewFile
  refine Spec.modify_bind ?_
  have hpersist := spec_persistSuperblock rfl Nat.one_pos hR
  exact Spec.step hpersist Spec.pure_eq

end open_close

/-! A database in use. `allocated` is what its callers were given and have not
returned. -/

structure Session where
  store : Store
  allocated : Finset PageId

inductive Operation
  | allocate
  | deallocate (p : PageId)
  | write (p : PageId) (page : Page)
  | reopen

/-- `Close`, then `Open` on the same file. -/
def reopen : Prog Store Status := do
  let _ ← closeDisk
  openDisk

/-- One call, all of its writes successful. A write goes to a page in use, and no page
is asked for once `2^32 - 1` pages exist. -/
def Session.step (s : Session) : Operation → Option Session
  | .allocate =>
    if s.store.disk.pageCount < 4294967295 then
      match allocatePage.run s.store with
      | (some (.ok p),t) => some ⟨t,insert p s.allocated⟩
      | (some (.error _),t) => some ⟨t,s.allocated⟩
      | (none,_) => none
    else none
  | .deallocate p =>
    match (deallocatePage p).run s.store with
    | (some (.ok ()),t) => some ⟨t,s.allocated.erase p⟩
    | (some (.error _),t) => some ⟨t,s.allocated⟩
    | (none,_) => none
  | .write p page =>
    if p ∈ s.allocated then
      match (writePage p page).run s.store with
      | (some _,t) => some ⟨t,s.allocated⟩
      | (none,_) => none
    else none
  | .reopen =>
    match reopen.run s.store with
    | (some _,t) => some ⟨t,s.allocated⟩
    | (none,_) => none

/-- A database just created. -/
def Session.Fresh (s : Session) : Prop :=
  ∃ u : Store, u.disk.isOpen = false ∧ u.disk.fileSize = 0 ∧
    openDisk.run u = (some (.ok ()),s.store) ∧ s.allocated = ∅

/-- Memory, file and callers agree. -/
structure Session.Agrees (s : Session) (free : List PageId) : Prop where
  mounted : Mounted s.store.disk free
  allocated : s.allocated = s.store.disk.allocated

variable {s s' : Session} {free : List PageId} {p : PageId}

theorem Session.Fresh.agrees (h : s.Fresh) : s.Agrees [] := by
  obtain ⟨u,ho,hs,hrun,ha⟩ := h
  obtain ⟨r,t,hr,-,rfl⟩ := Spec.run (spec_openDisk_new (R := fun _ => True) ho hs trivial) rfl
  obtain ⟨-,ht⟩ : r = .ok () ∧ u.mapDisk DiskManager.fresh = s.store := by
    simpa using hr.symm.trans hrun
  have hm : Mounted s.store.disk [] := ht ▸ fresh_mounted u.disk
  refine ⟨hm,?_⟩
  rw [ha,← ht]
  rfl

theorem exists_fresh : ∃ s : Session, s.Fresh ∧ s.store.disk.pageCount = 1 := by
  let u : Store := ⟨⟨false,1,invalidPageId,invalidPageId,∅,fun _ => Page.zero,0⟩,⟨[],0⟩⟩
  obtain ⟨r,v,hr,rfl,rfl⟩ := Spec.run (spec_openDisk_new (s := u) (R := fun _ => True) rfl rfl
    trivial) rfl
  exact ⟨⟨u.mapDisk DiskManager.fresh,∅⟩,⟨u,rfl,rfl,hr,rfl⟩,rfl⟩

theorem Session.Agrees.mem_allocated (h : s.Agrees free) :
    p ∈ s.allocated ↔ (0 < p ∧ p < s.store.disk.pageCount) ∧ p ∉ free := by
  rw [h.allocated,DiskManager.mem_allocated,h.mounted.freePages,List.mem_toFinset]

theorem pop_allocated {d : DiskManager} (h : Mounted d (p :: free)) :
    (d.pop p).allocated = insert p d.allocated := by
  have hp := h.onFile.range p (by simp)
  ext q
  simp only [DiskManager.mem_allocated,Finset.mem_insert,pop_pageCount,pop_freePages,
    Finset.mem_erase]
  by_cases hq : q = p
  · simp [hq,hp]
  · simp [hq]

theorem grow_allocated {d : DiskManager} (h : Mounted d []) :
    d.grow.allocated = insert d.pageCount d.allocated := by
  have hpos := h.onFile.pos
  ext q
  simp only [DiskManager.mem_allocated,Finset.mem_insert,grow_pageCount,grow_freePages,
    h.freePages]
  simp only [List.toFinset_nil,Finset.notMem_empty,not_false_eq_true,and_true]
  rw [Nat.lt_succ_iff_lt_or_eq]
  constructor
  · rintro ⟨hq,hlt | rfl⟩
    · exact .inr ⟨hq,hlt⟩
    · exact .inl rfl
  · rintro (rfl | ⟨hq,hlt⟩)
    · exact ⟨hpos,.inr rfl⟩
    · exact ⟨hq,.inl hlt⟩

theorem release_allocated {d : DiskManager} :
    (d.release p).allocated = d.allocated.erase p := by
  ext q
  simp only [DiskManager.mem_allocated,Finset.mem_erase,release_pageCount,release_freePages,
    Finset.mem_insert]
  tauto

/-- `AllocatePage` succeeds with the first free page, or with a new one at the end. -/
theorem Session.Agrees.allocate (h : s.Agrees free) (hb : s.store.disk.pageCount < 4294967295) :
    ∃ p t free', allocatePage.run s.store = (some (.ok p),t) ∧
      (0 < p ∧ p < 4294967295) ∧ p ∉ s.allocated ∧
      (⟨t,insert p s.allocated⟩ : Session).Agrees free' := by
  have hm := h.mounted
  cases free with
  | nil =>
    obtain ⟨r,t,hr,rfl,rfl⟩ := Spec.run (spec_allocatePage_grow (R := fun _ => True) hm hb trivial
      trivial) rfl
    refine ⟨_,_,[],hr,⟨hm.onFile.pos,hb⟩,?_,hm.grow hb,?_⟩
    · simp [h.mem_allocated]
    · exact (congrArg _ h.allocated).trans (grow_allocated hm).symm
  | cons p free =>
    obtain ⟨r,t,hr,rfl,rfl⟩ := Spec.run (spec_allocatePage_pop (R := fun _ => True) hm trivial) rfl
    have hp := hm.onFile.range p (by simp)
    refine ⟨p,_,free,hr,⟨hp.1,lt_trans hp.2 hb⟩,?_,hm.pop,?_⟩
    · simp [h.mem_allocated]
    · exact (congrArg _ h.allocated).trans (pop_allocated hm).symm

theorem spec_deallocatePage_refused {u : Store} {R : Store → Prop} (ho : u.disk.isOpen = true)
    (hp : ¬(0 < p ∧ p < u.disk.pageCount)) :
    Spec (· = u) (deallocatePage p)
      (fun r t => r = fail .invalidArgument "释放的页面编号非法" ∧ t = u) R := by
  have hbad : (p = 0 || p = invalidPageId || u.disk.pageCount ≤ p) = true := by
    simp only [Bool.or_eq_true,decide_eq_true_eq]
    rcases Nat.eq_zero_or_pos p with hz | hpos
    · exact .inl (.inl hz)
    · exact .inr (not_lt.mp fun hlt => hp ⟨hpos,hlt⟩)
  unfold deallocatePage pushFreePage
  refine Spec.get_bind ?_
  rw [ho,if_neg (by simp),if_pos hbad]
  exact Spec.pure_eq

/-- A release hands the page back, and a refused one changes nothing. -/
theorem Session.Agrees.deallocate (h : s.Agrees free) (p : PageId) :
    (∃ t, (deallocatePage p).run s.store = (some (.ok ()),t) ∧
      (⟨t,s.allocated.erase p⟩ : Session).Agrees (p :: free)) ∨
    ∃ e, (deallocatePage p).run s.store = (some (.error e),s.store) := by
  have hm := h.mounted
  by_cases hp : 0 < p ∧ p < s.store.disk.pageCount
  · by_cases hfree : p ∈ s.store.disk.freePages
    · obtain ⟨r,t,hr,rfl,rfl⟩ := Spec.run (spec_deallocatePage_free (R := fun _ => True) hm.isOpen
        hp hm.onFile.bound hfree) rfl
      exact .inr ⟨_,hr⟩
    · obtain ⟨r,t,hr,rfl,rfl⟩ := Spec.run (spec_deallocatePage (R := fun _ => True) hm.isOpen
        hp hm.onFile.bound hfree trivial trivial) rfl
      have hlist : p ∉ free := by
        rw [hm.freePages,List.mem_toFinset] at hfree
        exact hfree
      refine .inl ⟨_,hr,hm.release hp hlist,?_⟩
      exact (congrArg (·.erase p) h.allocated).trans release_allocated.symm
  · obtain ⟨r,t,hr,rfl,rfl⟩ := Spec.run (spec_deallocatePage_refused (R := fun _ => True)
      hm.isOpen hp) rfl
    exact .inr ⟨_,hr⟩

theorem Session.Agrees.write (h : s.Agrees free) (hp : p ∈ s.allocated) (page : Page) :
    ∃ t, (writePage p page).run s.store = (some (.ok ()),t) ∧
      (⟨t,s.allocated⟩ : Session).Agrees free := by
  obtain ⟨hrange,hfree⟩ := h.mem_allocated.mp hp
  obtain ⟨r,t,hr,rfl,rfl⟩ := Spec.run (@spec_writePage _ _ page (fun _ => True)
    h.mounted.isOpen hrange.2 trivial) rfl
  exact ⟨_,hr,h.mounted.write hrange hfree,h.allocated⟩

/-- Reopening reads back what was in memory. -/
theorem Session.Agrees.reopen (h : s.Agrees free) :
    reopen.run s.store = (some (.ok ()),s.store) := by
  have hm := h.mounted
  have hback : s.store.mapDisk (fun d => d.opened s.store.disk.pageCount
      s.store.disk.freeListHead s.store.disk.catalogHead free) = s.store := by
    have ho := hm.isOpen
    have hf := hm.freePages
    revert ho hf
    obtain ⟨⟨isOpen,count,head,catalog,freePages,file,size⟩,log⟩ := s.store
    rintro rfl rfl
    rfl
  have hspec : Spec (· = s.store) Storage.reopen
      (fun r t => r = .ok () ∧ t = s.store) (fun _ => True) := by
    unfold Storage.reopen
    refine Spec.step spec_closeDisk ?_
    rw [if_pos hm.isOpen]
    have hopen := spec_openDisk_existing (s := s.store.mapDisk DiskManager.closed)
      (R := fun _ => True) (closed_onFile hm.onFile)
    refine Spec.conseq hopen (fun _ h => h) ?_ fun _ h => h
    rintro r t ⟨rfl,rfl⟩
    exact ⟨rfl,hback⟩
  obtain ⟨r,t,hr,rfl,rfl⟩ := Spec.run hspec rfl
  exact hr

/-- Every call keeps memory, file and callers in agreement. -/
theorem Session.Agrees.step {op : Operation} (h : s.Agrees free) (hs : s.step op = some s') :
    ∃ free', s'.Agrees free' := by
  cases op with
  | allocate =>
    simp only [Session.step] at hs
    split at hs
    · rename_i hb
      obtain ⟨p,t,free',hrun,-,-,hag⟩ := h.allocate hb
      rw [hrun] at hs
      obtain rfl : _ = s' := Option.some.inj hs
      exact ⟨free',hag⟩
    · cases hs
  | deallocate p =>
    simp only [Session.step] at hs
    rcases h.deallocate p with ⟨t,hrun,hag⟩ | ⟨e,hrun⟩
    · rw [hrun] at hs
      obtain rfl : _ = s' := Option.some.inj hs
      exact ⟨_,hag⟩
    · rw [hrun] at hs
      obtain rfl : _ = s' := Option.some.inj hs
      exact ⟨free,h⟩
  | write p page =>
    simp only [Session.step] at hs
    split at hs
    · rename_i hp
      obtain ⟨t,hrun,hag⟩ := h.write hp page
      rw [hrun] at hs
      obtain rfl : _ = s' := Option.some.inj hs
      exact ⟨free,hag⟩
    · cases hs
  | reopen =>
    simp only [Session.step] at hs
    rw [h.reopen] at hs
    obtain rfl : _ = s' := Option.some.inj hs
    exact ⟨free,h⟩

theorem agrees_of_reach (h : Reach Session.Fresh (StepOf Session.step) s) :
    ∃ free, s.Agrees free := by
  refine h.invariant (P := fun s => ∃ free, s.Agrees free) (fun _ h => ⟨[],h.agrees⟩) ?_
  rintro s op s' ⟨free,h⟩ hs
  exact h.step hs

end Storage
end OurSql
