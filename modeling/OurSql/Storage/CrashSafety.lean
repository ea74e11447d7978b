import OurSql.Storage.Lifetime

/-! The power failing inside an allocation or a release: which of the files left so
can be opened again, and what they still hold. -/
namespace OurSql
namespace Storage

open Crash Chain Transition

/-- The call the power failure interrupts. -/
inductive Interrupted
  | allocatePage
  | deallocatePage (p : PageId)

/-- The power fails after `k` writes and file extensions of the call. -/
def Interrupted.cut (s : Store) (k : ℕ) : Interrupted → Store
  | .allocatePage => (Storage.allocatePage.cut k s).2
  | .deallocatePage p => ((Storage.deallocatePage p).cut k s).2

/-- Only the file is left. -/
def Store.crash (s : Store) : Store := s.mapDisk DiskManager.closed

/-- The file opens, its free list is sound, each page is free or in use, and the pages
in use before are so still, with their bytes; the page being released may be lost. -/
def Recovers (s : Session) (op : Interrupted) (k : ℕ) : Prop :=
  ∃ t, openDisk.run (op.cut s.store k).crash = (some (.ok ()),t) ∧
    (∃ free, IsChain t.disk.link invalidPageId t.disk.freeListHead free ∧
      (∀ p, p ∈ free ↔ p ∈ t.disk.freePages) ∧
      ∀ p, 0 < p → p < t.disk.pageCount → (p ∈ t.disk.allocated ↔ p ∉ free)) ∧
    ∀ p ∈ s.allocated, op ≠ .deallocatePage p →
      p ∈ t.disk.allocated ∧ t.disk.file p = s.store.disk.file p

/-- The file has been extended and the superblock not yet written. -/
def Torn (s : Session) (op : Interrupted) (k : ℕ) : Prop :=
  op = .allocatePage ∧ s.store.disk.freeListHead = invalidPageId ∧
    s.store.disk.pageCount < 4294967295 ∧ k = 1

/-- A file that opens and has kept the pages in use. -/
def Sound (s : Session) (op : Interrupted) (d : DiskManager) : Prop :=
  ∃ count head catalog free, OnFile d count head catalog free ∧
    ∀ p ∈ s.allocated, op ≠ .deallocatePage p →
      (p < count ∧ p ∉ free) ∧ d.file p = s.store.disk.file p

variable {s : Session} {op : Interrupted} {free : List PageId} {p : PageId} {k : ℕ}

/-- What was in memory does not matter. -/
theorem Sound.of_file {d d' : DiskManager} (h : Sound s op d) (hfile : d'.file = d.file)
    (hsize : d'.fileSize = d.fileSize) : Sound s op d' := by
  obtain ⟨count,head,catalog,free,honfile,hkept⟩ := h
  exact ⟨count,head,catalog,free,honfile.of_file hfile hsize,fun p hp hne => hfile ▸ hkept p hp hne⟩

theorem recovers_of_sound (hs : s.Agrees free) (h : Sound s op (op.cut s.store k).disk) :
    Recovers s op k := by
  obtain ⟨count,head,catalog,chain,hfile,hkept⟩ := h
  obtain ⟨r,t,hr,rfl,rfl⟩ := Spec.run (spec_openDisk_existing (R := fun _ => True)
    (s := (op.cut s.store k).crash) (closed_onFile hfile)) rfl
  refine ⟨_,hr,⟨chain,hfile.chain,fun p => List.mem_toFinset.symm,fun p h0 hlt => ?_⟩,
    fun p hp hne => ?_⟩
  · have hmem : p ∈ chain.toFinset ↔ p ∈ chain := List.mem_toFinset
    rw [DiskManager.mem_allocated,← hmem]
    exact ⟨fun h => h.2,fun h => ⟨⟨h0,hlt⟩,h⟩⟩
  · obtain ⟨⟨hlt,hfree⟩,hsame⟩ := hkept p hp hne
    have hpos := (hs.mem_allocated.mp hp).1.1
    exact ⟨DiskManager.mem_allocated.mpr ⟨⟨hpos,hlt⟩,fun h => hfree (List.mem_toFinset.mp h)⟩,
      hsame⟩

/-- Before its first write a call has changed nothing. -/
theorem Session.Agrees.sound (h : s.Agrees free) : Sound s op s.store.disk :=
  ⟨_,_,_,free,h.mounted.onFile,fun _ hp _ =>
    ⟨⟨(h.mem_allocated.mp hp).1.2,(h.mem_allocated.mp hp).2⟩,rfl⟩⟩

/-- The link of a page being released is written and no list leads to it yet. -/
theorem sound_linkPage (h : s.Agrees free) (hp : 0 < p ∧ p < s.store.disk.pageCount)
    (hfree : p ∉ free) : Sound s (.deallocatePage p) (s.store.disk.linkPage p) := by
  refine ⟨_,_,_,free,h.mounted.onFile.write hp hfree,fun q hq hne => ?_⟩
  have hqp : q ≠ p := fun he => hne (he ▸ rfl)
  obtain ⟨hrange,hqfree⟩ := h.mem_allocated.mp hq
  refine ⟨⟨hrange.2,hqfree⟩,?_⟩
  rw [linkPage_file,Function.update_of_ne hqp]

theorem sound_release (h : s.Agrees free) (hp : 0 < p ∧ p < s.store.disk.pageCount)
    (hfree : p ∉ free) : Sound s (.deallocatePage p) (s.store.disk.release p) := by
  refine ⟨_,_,_,_,(h.mounted.release hp hfree).onFile,fun q hq hne => ?_⟩
  have hqp : q ≠ p := fun he => hne (he ▸ rfl)
  obtain ⟨hrange,hqfree⟩ := h.mem_allocated.mp hq
  refine ⟨⟨hrange.2,by simp [hqp,hqfree]⟩,?_⟩
  rw [release_file,Function.update_of_ne (Nat.pos_iff_ne_zero.mp hrange.1),linkPage_file,
    Function.update_of_ne hqp]

theorem sound_deallocatePage (h : s.Agrees free) :
    Sound s (.deallocatePage p) (Interrupted.cut s.store k (.deallocatePage p)).disk := by
  have hm := h.mounted
  by_cases hp : 0 < p ∧ p < s.store.disk.pageCount
  · by_cases hfree : p ∈ s.store.disk.freePages
    · have hspec := spec_deallocatePage_free (R := fun _ => False) hm.isOpen hp hm.onFile.bound
        hfree
      rcases hspec.cut rfl k with ⟨r,t,hr,rfl,rfl⟩ | ⟨t,-,hbad⟩
      · simp only [Interrupted.cut,hr]
        exact h.sound
      · exact hbad.elim
    · have hlist : p ∉ free := by
        rw [hm.freePages,List.mem_toFinset] at hfree
        exact hfree
      have hspec := spec_deallocatePage
        (R := fun t => Sound s (.deallocatePage p) t.disk) hm.isOpen hp hm.onFile.bound hfree
        h.sound ((sound_linkPage h hp hlist).of_file rfl rfl)
      rcases hspec.cut rfl k with ⟨r,t,hr,rfl,rfl⟩ | ⟨t,hr,ht⟩
      · simp only [Interrupted.cut,hr]
        exact sound_release h hp hlist
      · simp only [Interrupted.cut,hr]
        exact ht
  · rcases (spec_deallocatePage_refused (R := fun _ => False) hm.isOpen hp).cut rfl k with
      ⟨r,t,hr,rfl,rfl⟩ | ⟨t,-,hbad⟩
    · simp only [Interrupted.cut,hr]
      exact h.sound
    · exact hbad.elim

/-- Taking a page off the free list is one write, and it changes the superblock only. -/
theorem sound_pop (h : s.Agrees (p :: free)) :
    Sound s .allocatePage (s.store.disk.pop p) := by
  refine ⟨_,_,_,free,h.mounted.pop.onFile,fun q hq _ => ?_⟩
  obtain ⟨hrange,hfree⟩ := h.mem_allocated.mp hq
  refine ⟨⟨hrange.2,fun hin => hfree (List.mem_cons_of_mem _ hin)⟩,?_⟩
  rw [pop_file,Function.update_of_ne (Nat.pos_iff_ne_zero.mp hrange.1)]

theorem sound_grow (h : s.Agrees []) (hb : s.store.disk.pageCount < 4294967295) :
    Sound s .allocatePage s.store.disk.grow := by
  refine ⟨_,_,_,[],(h.mounted.grow hb).onFile,fun q hq _ => ?_⟩
  obtain ⟨hrange,-⟩ := h.mem_allocated.mp hq
  exact ⟨⟨Nat.lt_succ_of_lt hrange.2,by simp⟩,grow_file_of_lt h.mounted hrange⟩

theorem sound_allocatePage_free (h : s.Agrees (p :: free)) :
    Sound s .allocatePage (Interrupted.cut s.store k .allocatePage).disk := by
  have hspec := spec_allocatePage_pop (R := fun t => Sound s .allocatePage t.disk) h.mounted
    (h.sound.of_file rfl rfl)
  rcases hspec.cut rfl k with ⟨r,t,hr,rfl,rfl⟩ | ⟨t,hr,ht⟩
  · simp only [Interrupted.cut,hr]
    exact sound_pop h
  · simp only [Interrupted.cut,hr]
    exact ht

section grow

variable {u : Store} {n : ℕ} {page : Page} {count : ℕ}

theorem writePhysicalPage_none (ho : u.disk.isOpen = true) (hp : p < u.disk.pageCount) :
    writePhysicalPage p page ⟨u,some 0⟩ = (none,⟨u,some 0⟩) := by
  refine (bind_of_some rfl).trans ?_
  rw [ho,if_neg (by simp),if_neg (not_le.mpr hp)]
  exact bind_of_none rfl

theorem writePhysicalPage_some (ho : u.disk.isOpen = true) (hp : p < u.disk.pageCount) :
    writePhysicalPage p page ⟨u,some (n+1)⟩ =
      (some (.ok ()),⟨u.mapDisk (·.writePage p page),some n⟩) := by
  refine (bind_of_some rfl).trans ?_
  rw [ho,if_neg (by simp),if_neg (not_le.mpr hp)]
  exact bind_of_some rfl

theorem persistSuperblock_none (ho : u.disk.isOpen = true) (hp : 0 < u.disk.pageCount) :
    persistSuperblock ⟨u,some 0⟩ = (none,⟨u,some 0⟩) := by
  refine (bind_of_some rfl).trans ?_
  rw [ho,if_neg (by simp)]
  exact writePhysicalPage_none ho hp

theorem persistSuperblock_some (ho : u.disk.isOpen = true) (hp : 0 < u.disk.pageCount) :
    persistSuperblock ⟨u,some (n+1)⟩ = (some (.ok ()),⟨u.mapDisk (·.writePage 0
      (superblock u.disk.pageCount u.disk.freeListHead u.disk.catalogHead)),some n⟩) := by
  refine (bind_of_some rfl).trans ?_
  rw [ho,if_neg (by simp)]
  exact writePhysicalPage_some ho hp

theorem ensureFileSize_none (h : ¬count ≤ u.disk.fileSize) :
    ensureFileSize count ⟨u,some 0⟩ = (none,⟨u,some 0⟩) := by
  refine (bind_of_some rfl).trans ?_
  rw [if_neg h]
  exact bind_of_none rfl

theorem ensureFileSize_some (h : ¬count ≤ u.disk.fileSize) :
    ensureFileSize count ⟨u,some (n+1)⟩ =
      (some (.ok ()),⟨u.mapDisk (·.extend count),some n⟩) := by
  refine (bind_of_some rfl).trans ?_
  rw [if_neg h]
  exact bind_of_some rfl

/-- The file after the extension, the superblock still the old one. -/
def DiskManager.extended (d : DiskManager) : DiskManager :=
  { d.extend (d.pageCount+1) with pageCount := d.pageCount+1 }

/-- `AllocatePage` where the free list is empty and the next page count fits. -/
def growFile (pageCount : PageId) : Prog Store (Result PageId) := do
  match ← ensureFileSize (pageCount+1) with
  | .error e => return .error e
  | .ok () =>
    modify (Store.mapDisk fun d => { d with pageCount := pageCount+1 })
    match ← persistSuperblock with
    | .error e =>
      modify (Store.mapDisk fun d => { d with pageCount := pageCount })
      return .error e
    | .ok () => return .ok pageCount

/-- An allocation at the end of the file, cut after `k` of its two writes. -/
theorem cut_allocatePage_grow (h : Mounted u.disk []) (hb : u.disk.pageCount < 4294967295) :
    (allocatePage.cut k u).2 = match k with
      | 0 => u
      | 1 => u.mapDisk DiskManager.extended
      | _+2 => u.mapDisk DiskManager.grow := by
  have hhead : u.disk.freeListHead = invalidPageId := h.onFile.chain
  have hmod : (u.disk.pageCount + 1) % 4294967296 = u.disk.pageCount + 1 :=
    Nat.mod_eq_of_lt (Nat.succ_lt_succ hb)
  have hsize : ¬u.disk.pageCount + 1 ≤ u.disk.fileSize := by
    rw [h.onFile.size]
    exact Nat.not_succ_le_self _
  unfold Prog.cut
  change (allocatePage ⟨u,some k⟩).2.state = _
  have hbody : allocatePage ⟨u,some k⟩ = growFile u.disk.pageCount ⟨u,some k⟩ := by
    refine (bind_of_some rfl).trans ?_
    rw [h.isOpen,if_neg (by simp),hhead,if_neg (by simp)]
    generalize (u.disk.pageCount+1) % 4294967296 = n at hmod ⊢
    subst hmod
    rfl
  rw [hbody,growFile]
  have hcount : ∀ n, modify (Store.mapDisk fun d => { d with pageCount := u.disk.pageCount+1 })
      ⟨u.mapDisk (·.extend (u.disk.pageCount+1)),some n⟩ =
        (some (),⟨u.mapDisk DiskManager.extended,some n⟩) := fun _ => rfl
  have hopen : (u.mapDisk DiskManager.extended).disk.isOpen = true := h.isOpen
  match k with
  | 0 => rw [bind_of_none (ensureFileSize_none hsize)]
  | 1 =>
    rw [bind_of_some (ensureFileSize_some hsize)]
    dsimp only
    rw [bind_of_some (hcount 0),bind_of_none (persistSuperblock_none hopen (Nat.succ_pos _))]
  | k+2 =>
    rw [bind_of_some (ensureFileSize_some hsize)]
    dsimp only
    rw [bind_of_some (hcount (k+1)),bind_of_some (persistSuperblock_some hopen (Nat.succ_pos _))]
    rfl

/-- With `2^32 - 1` pages the next page count wraps to zero, and nothing is written. -/
theorem allocatePage_full (h : Mounted u.disk []) (hb : ¬u.disk.pageCount < 4294967295) :
    Spec (· = u) allocatePage (fun _ t => t = u) fun _ => False := by
  have hhead : u.disk.freeListHead = invalidPageId := h.onFile.chain
  have hfull : u.disk.pageCount = 4294967295 := le_antisymm h.onFile.bound (not_lt.mp hb)
  have hsame : ({ u.disk with pageCount := 4294967295 } : DiskManager) = u.disk := by
    rw [← hfull]
  unfold allocatePage
  refine Spec.get_bind ?_
  rw [h.isOpen,if_neg (by simp),hhead,if_neg (by simp)]
  simp only [hfull]
  have hensure : Spec (· = u) (ensureFileSize ((4294967295 + 1) % 4294967296))
      (fun r t => r = .ok () ∧ t = u) fun _ => False := by
    unfold ensureFileSize
    refine Spec.get_bind ?_
    rw [if_pos (Nat.zero_le _)]
    exact Spec.pure_eq
  refine Spec.step hensure ?_
  refine Spec.modify_bind ?_
  have hpersist : Spec (· = u.mapDisk fun d => { d with pageCount := 0 }) persistSuperblock
      (fun r t => r = fail .notFound ("页面不存在: " ++ toString 0) ∧
        t = u.mapDisk fun d => { d with pageCount := 0 }) fun _ => False := by
    unfold persistSuperblock
    refine Spec.get_bind ?_
    rw [if_neg (by simp [Store.mapDisk,h.isOpen])]
    unfold writePhysicalPage
    refine Spec.get_bind ?_
    rw [if_neg (by simp [Store.mapDisk,h.isOpen]),if_pos (by simp [Store.mapDisk])]
    exact Spec.pure_eq
  refine Spec.step hpersist ?_
  refine Spec.modify_bind (Spec.pure fun t ht => ht.trans ?_)
  simp only [Store.mapDisk,hsame]

end grow

/-- The check `Open` makes of the size of the file. -/
theorem openExistingFile_size_ne {d : DiskManager} {count : ℕ} {head catalog : PageId}
    (hfile : d.file 0 = superblock count head catalog) (hpos : 0 < count)
    (hbound : count ≤ 4294967295) (hsize : d.fileSize = count + 1) :
    openExistingFile d = fail .ioError "数据库文件大小与页数不一致" := by
  have hread : ({ d with isOpen := true, pageCount := 1 } : DiskManager).readPhysicalPage 0 =
      .ok (superblock count head catalog) := by
    rw [readPhysicalPage_ok rfl Nat.one_pos (by simp [hsize]),hfile]
  unfold openExistingFile
  simp only [hread]
  simp only [sameMagic_superblock,loadU32_superblock_version,loadU32_superblock_pageSize,
    loadPageId_superblock_count hbound,Nat.pos_iff_ne_zero.mp hpos,hsize]
  simp

/-- The superblock of a torn file counts one page less than the file has. -/
theorem openDisk_extended {u : Store} (h : Mounted u.disk []) :
    Spec (· = (u.mapDisk DiskManager.extended).crash) openDisk
      (fun r _ => r = fail .ioError "数据库文件大小与页数不一致") fun _ => False := by
  have hzero : 0 < u.disk.fileSize := h.onFile.size ▸ h.onFile.pos
  have hfile : (u.mapDisk DiskManager.extended).crash.disk.file 0 =
      superblock u.disk.pageCount u.disk.freeListHead u.disk.catalogHead := by
    change (if 0 < u.disk.fileSize then u.disk.file 0 else Page.zero) = _
    rw [if_pos hzero,h.onFile.superblock]
  have herror := openExistingFile_size_ne hfile h.onFile.pos h.onFile.bound rfl
  unfold openDisk
  refine Spec.step spec_closeDisk ?_
  rw [if_neg (by simp [Store.crash,Store.mapDisk,DiskManager.closed])]
  refine Spec.get_bind ?_
  rw [if_neg (by simp [Store.crash,Store.mapDisk,DiskManager.closed,DiskManager.extended,
    DiskManager.extend]),herror]
  exact Spec.modify_bind (Spec.pure fun _ _ => rfl)

theorem not_recovers_torn (h : s.Agrees []) (hb : s.store.disk.pageCount < 4294967295) :
    ¬Recovers s .allocatePage 1 := by
  rintro ⟨t,hrun,-⟩
  rw [Interrupted.cut,cut_allocatePage_grow h.mounted hb] at hrun
  obtain ⟨r,t',hr,hres⟩ := (openDisk_extended h.mounted).run rfl
  have hok : r = .ok () := by
    have he := hr.symm.trans hrun
    simp only [Prod.mk.injEq,Option.some.injEq] at he
    exact he.1
  rw [hok] at hres
  cases hres

end Storage
end OurSql
