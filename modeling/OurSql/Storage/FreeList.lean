import OurSql.Storage.Disk
import Mathlib.Data.Finset.Card

/-! The free list on the file: what the superblock and the links of the freed pages
say, that opening the file reads exactly that back, and what a page write and a
release do to it, also when the power fails in between. -/
namespace OurSql
namespace Storage

open Crash Chain

def DiskManager.link (d : DiskManager) (p : PageId) : PageId := loadPageId (d.file p) 0

/-- The file holds this superblock, and the links of `free` from its head to its end. -/
structure OnFile (d : DiskManager) (count : ℕ) (head catalog : PageId) (free : List PageId) :
    Prop where
  superblock : d.file 0 = superblock count head catalog
  size : d.fileSize = count
  pos : 0 < count
  bound : count ≤ 4294967295
  catalog : catalog = invalidPageId ∨ 0 < catalog ∧ catalog < count
  chain : IsChain d.link invalidPageId head free
  range : ∀ p ∈ free, 0 < p ∧ p < count

/-- An open disk manager that agrees with its file. -/
structure Mounted (d : DiskManager) (free : List PageId) : Prop where
  isOpen : d.isOpen = true
  onFile : OnFile d d.pageCount d.freeListHead d.catalogHead free
  freePages : d.freePages = free.toFinset

theorem OnFile.head_le {d : DiskManager} {count : ℕ} {head catalog : PageId} {free : List PageId}
    (h : OnFile d count head catalog free) : head ≤ invalidPageId := by
  cases free with
  | nil => exact le_of_eq h.chain
  | cons p free =>
    have hp := (h.range p (by simp)).2
    have hb := h.bound
    have he : head = p := h.chain.1
    rw [he]
    exact le_trans (le_of_lt hp) hb

section superblock

variable {count : ℕ} {head catalog : PageId}

theorem loadU32_superblock_other {offset : ℕ} (h : offset + 4 ≤ kFreeListHeadOffset) :
    loadU32 (superblock count head catalog) offset =
      loadU32 (storePageId (storeU32 (storeU32 (storeMagic Page.zero) kFormatVersionOffset
        kFormatVersion) kPageSizeOffset pageSize) kPageCountOffset count) offset := by
  have hk : kFreeListHeadOffset = 20 := rfl
  have hs : pageSize = 4096 := rfl
  unfold superblock storePageId
  simp only
  rw [loadU32_storeU32_of_disjoint (by omega) (.inl (by simp only [kCatalogHeadOffset]; omega)),
    loadU32_storeU32_of_disjoint (by omega) (.inl (by omega))]

theorem loadPageId_superblock_count (hc : count ≤ invalidPageId) :
    loadPageId (superblock count head catalog) kPageCountOffset = count := by
  have hk : kPageCountOffset + 4 ≤ kFreeListHeadOffset := by decide
  rw [loadPageId,loadU32_superblock_other hk]
  exact loadPageId_storePageId (by decide) hc

theorem loadPageId_superblock_head (hh : head ≤ invalidPageId) :
    loadPageId (superblock count head catalog) kFreeListHeadOffset = head := by
  unfold superblock
  simp only
  rw [loadPageId,storePageId,loadU32_storeU32_of_disjoint (by decide) (.inl (by decide))]
  exact loadPageId_storePageId (by decide) hh

theorem loadPageId_superblock_catalog (hc : catalog ≤ invalidPageId) :
    loadPageId (superblock count head catalog) kCatalogHeadOffset = catalog :=
  loadPageId_storePageId (by decide) hc

theorem loadU32_superblock_version :
    loadU32 (superblock count head catalog) kFormatVersionOffset = kFormatVersion := by
  rw [loadU32_superblock_other (by decide),storePageId,
    loadU32_storeU32_of_disjoint (by decide) (.inl (by decide)),
    loadU32_storeU32_of_disjoint (by decide) (.inl (by decide))]
  exact loadU32_storeU32 (by decide) (by decide)

theorem loadU32_superblock_pageSize :
    loadU32 (superblock count head catalog) kPageSizeOffset = pageSize := by
  rw [loadU32_superblock_other (by decide),storePageId,
    loadU32_storeU32_of_disjoint (by decide) (.inl (by decide))]
  exact loadU32_storeU32 (by decide) (by decide)

theorem sameMagic_superblock : sameMagic (superblock count head catalog) = true := by
  have hb : ∀ i, i < 8 → (superblock count head catalog).byte i = (kMagic.getD i 0).toNat := by
    intro i hi
    have hs : pageSize = 4096 := rfl
    have hskip : ∀ (page : Page) (offset value : ℕ), 8 ≤ offset →
        (storeU32 page offset value).byte i = page.byte i := by
      intro page offset value ho
      rw [byte_storeU32 page offset value i (by omega),if_neg (by omega)]
    unfold superblock storePageId
    simp only
    rw [hskip _ _ _ (by decide),hskip _ _ _ (by decide),hskip _ _ _ (by decide),
      hskip _ _ _ (by decide),hskip _ _ _ (by decide)]
    have hin : i < pageSize := by omega
    simp only [Page.byte,hin,dite_true,storeMagic,Page.zero]
  simp only [sameMagic,List.all_eq_true,List.mem_range,decide_eq_true_eq]
  exact hb

end superblock

theorem readPhysicalPage_ok {d : DiskManager} {p : PageId} (ho : d.isOpen = true)
    (hc : p < d.pageCount) (hs : p < d.fileSize) : d.readPhysicalPage p = .ok (d.file p) := by
  unfold DiskManager.readPhysicalPage
  rw [ho,if_neg (by simp),if_neg (not_le.mpr hc),if_neg (not_le.mpr hs)]

/-- The walk collects the nodes of the chain. The fuel covers them because they are
distinct pages of the file. -/
theorem walkFreeList_chain {d : DiskManager} {current : PageId} {free : List PageId} (fuel : ℕ)
    (seen : Finset PageId) (ho : d.isOpen = true) (hsize : d.pageCount ≤ d.fileSize)
    (hchain : IsChain d.link invalidPageId current free)
    (hrange : ∀ p ∈ free, 0 < p ∧ p < d.pageCount) (hseen : ∀ p ∈ free, p ∉ seen)
    (hfuel : free.length < fuel) :
    walkFreeList d fuel current seen = .ok (seen ∪ free.toFinset) := by
  induction free generalizing fuel current seen with
  | nil =>
    obtain ⟨fuel,rfl⟩ : ∃ k, fuel = k+1 := ⟨fuel-1,by simp at hfuel; omega⟩
    have he : current = invalidPageId := hchain
    simp [walkFreeList,he]
  | cons p free ih =>
    obtain ⟨fuel,rfl⟩ : ∃ k, fuel = k+1 := ⟨fuel-1,by simp at hfuel; omega⟩
    have hnodup := hchain.nodup
    obtain ⟨rfl,hne,htail⟩ := hchain
    obtain ⟨hpos,hlt⟩ := hrange current (by simp)
    have hread := readPhysicalPage_ok ho hlt (lt_of_lt_of_le hlt hsize)
    have hz : current ≠ 0 := Nat.pos_iff_ne_zero.mp hpos
    have hstep : walkFreeList d (fuel+1) current seen =
        walkFreeList d fuel (d.link current) (insert current seen) := by
      rw [walkFreeList,if_neg hne,if_neg (by simp [hz,hlt]),if_neg (hseen current (by simp)),hread]
      rfl
    have hrec := ih fuel (insert current seen) htail
      (fun q hq => hrange q (by simp [hq])) (fun q hq => by
        have hqne : q ≠ current := fun h => (List.nodup_cons.mp hnodup).1 (h ▸ hq)
        simp [hqne,hseen q (by simp [hq])]) (by simp at hfuel; omega)
    rw [hstep,hrec]
    congr 1
    ext q
    simp only [Finset.mem_union,Finset.mem_insert,List.mem_toFinset,List.mem_cons]
    tauto

theorem OnFile.length_lt {d : DiskManager} {count : ℕ} {head catalog : PageId}
    {free : List PageId} (h : OnFile d count head catalog free) : free.length < count + 1 := by
  have hsub : free.toFinset ⊆ Finset.range count := by
    intro p hp
    exact Finset.mem_range.mpr (h.range p (List.mem_toFinset.mp hp)).2
  have hcard := Finset.card_le_card hsub
  rw [List.toFinset_card_of_nodup h.chain.nodup,Finset.card_range] at hcard
  omega

/-- Opening a file reads its superblock and its free list back. -/
theorem openExistingFile_onFile {d : DiskManager} {count : ℕ} {head catalog : PageId}
    {free : List PageId} (h : OnFile d count head catalog free) :
    openExistingFile d = .ok ⟨true,count,head,catalog,free.toFinset,d.file,d.fileSize⟩ := by
  have hcat : catalog ≤ invalidPageId := by
    rcases h.catalog with hc | ⟨-,hc⟩
    · exact le_of_eq hc
    · exact le_trans (le_of_lt hc) h.bound
  have hread : ({ d with isOpen := true, pageCount := 1 } : DiskManager).readPhysicalPage 0 =
      .ok (superblock count head catalog) := by
    rw [readPhysicalPage_ok rfl Nat.one_pos (by simp [h.size,h.pos]),h.superblock]
  have hhead : (head ≠ invalidPageId && (head = 0 || count ≤ head)) = false := by
    cases hf : free with
    | nil =>
      have hc := h.chain
      rw [hf] at hc
      have he : head = invalidPageId := hc
      simp [he]
    | cons p rest =>
      have hc := h.chain
      rw [hf] at hc
      have he : head = p := hc.1
      have hr := h.range p (by simp [hf])
      have hz : p ≠ 0 := Nat.pos_iff_ne_zero.mp hr.1
      simp [he,hz,hr.2]
  have hcatalog : (catalog ≠ invalidPageId && (catalog = 0 || count ≤ catalog)) = false := by
    rcases h.catalog with hc | ⟨hp,hc⟩
    · simp [hc]
    · have hz : catalog ≠ 0 := Nat.pos_iff_ne_zero.mp hp
      simp [hz,hc]
  have hwalk := walkFreeList_chain (d := ⟨true,count,head,catalog,∅,d.file,d.fileSize⟩)
    (count+1) ∅ rfl (le_of_eq h.size.symm) h.chain h.range (by simp) h.length_lt
  rw [Finset.empty_union] at hwalk
  have hzero : count ≠ 0 := Nat.pos_iff_ne_zero.mp h.pos
  unfold openExistingFile
  simp only [hread]
  simp only [sameMagic_superblock,loadU32_superblock_version,loadU32_superblock_pageSize,
    loadPageId_superblock_count h.bound,loadPageId_superblock_head h.head_le,
    loadPageId_superblock_catalog hcat,h.size,hzero]
  unfold validateMetadata
  simp only [hhead,hcatalog]
  rw [h.size] at hwalk
  simp [hwalk]

section specs

variable {s : Store} {p : PageId} {page : Page} {R : Store → Prop}

theorem spec_writePage (ho : s.disk.isOpen = true) (hp : p < s.disk.pageCount) (hR : R s) :
    Spec (· = s) (writePage p page)
      (fun r t => r = .ok () ∧ t = s.mapDisk (·.writePage p page)) R := by
  unfold writePage writePhysicalPage
  refine Spec.get_bind ?_
  rw [ho,if_neg (by simp),if_neg (not_le.mpr hp)]
  exact Spec.effect_bind hR Spec.pure_eq

theorem spec_persistSuperblock (ho : s.disk.isOpen = true) (hp : 0 < s.disk.pageCount) (hR : R s) :
    Spec (· = s) persistSuperblock
      (fun r t => r = .ok () ∧ t = s.mapDisk (·.writePage 0
        (superblock s.disk.pageCount s.disk.freeListHead s.disk.catalogHead))) R := by
  unfold persistSuperblock
  refine Spec.get_bind ?_
  rw [ho,if_neg (by simp)]
  exact spec_writePage ho hp hR

/-- The first of the two writes of a release. -/
def DiskManager.linkPage (d : DiskManager) (p : PageId) : DiskManager :=
  d.writePage p (storePageId Page.zero 0 d.freeListHead)

/-- What a release leaves. -/
def DiskManager.release (d : DiskManager) (p : PageId) : DiskManager :=
  { (d.linkPage p).writePage 0 (superblock d.pageCount p d.catalogHead) with
    freeListHead := p
    freePages := insert p d.freePages }

theorem spec_deallocatePage_free (ho : s.disk.isOpen = true) (hp : 0 < p ∧ p < s.disk.pageCount)
    (hb : s.disk.pageCount ≤ 4294967295) (hfree : p ∈ s.disk.freePages) :
    Spec (· = s) (deallocatePage p)
      (fun r t => r = fail .alreadyExists ("页面已经释放: " ++ toString p) ∧ t = s) R := by
  have hz : p ≠ 0 := Nat.pos_iff_ne_zero.mp hp.1
  have hne : p ≠ invalidPageId := Nat.ne_of_lt (lt_of_lt_of_le hp.2 hb)
  unfold deallocatePage pushFreePage
  refine Spec.get_bind ?_
  rw [ho,if_neg (by simp),if_neg (by simp [hz,hne,hp.2]),if_pos hfree]
  exact Spec.pure_eq

theorem spec_deallocatePage (ho : s.disk.isOpen = true) (hp : 0 < p ∧ p < s.disk.pageCount)
    (hb : s.disk.pageCount ≤ 4294967295) (hfree : p ∉ s.disk.freePages) (hR : R s)
    (hR' : R (s.mapDisk fun d => { d.linkPage p with freeListHead := p })) :
    Spec (· = s) (deallocatePage p) (fun r t => r = .ok () ∧ t = s.mapDisk (·.release p)) R := by
  have hz : p ≠ 0 := Nat.pos_iff_ne_zero.mp hp.1
  have hne : p ≠ invalidPageId := Nat.ne_of_lt (lt_of_lt_of_le hp.2 hb)
  unfold deallocatePage pushFreePage
  refine Spec.get_bind ?_
  rw [ho,if_neg (by simp),if_neg (by simp [hz,hne,hp.2]),if_neg hfree]
  refine Spec.step (spec_writePage ho hp.2 hR) ?_
  refine Spec.modify_bind ?_
  refine Spec.step (spec_persistSuperblock ho (lt_trans hp.1 hp.2) hR') ?_
  exact Spec.modify_bind Spec.pure_eq

end specs

section frame

theorem stays_log_writePhysicalPage (p : PageId) (page : Page) :
    Stays Store.log (writePhysicalPage p page) := by
  refine Stays.bind Stays.get fun s => ?_
  split
  · exact Stays.pure _
  split
  · exact Stays.pure _
  · exact Stays.bind (Stays.effect fun _ => rfl) fun _ => Stays.pure _

theorem stays_log_persistSuperblock : Stays Store.log persistSuperblock := by
  refine Stays.bind Stays.get fun s => ?_
  split
  · exact Stays.pure _
  · exact stays_log_writePhysicalPage _ _

/-- A release does not touch the log. -/
theorem stays_log_deallocatePage (p : PageId) : Stays Store.log (deallocatePage p) := by
  refine Stays.bind Stays.get fun s => ?_
  split
  · exact Stays.pure _
  split
  · exact Stays.pure _
  split
  · exact Stays.pure _
  refine Stays.bind (stays_log_writePhysicalPage _ _) fun r => ?_
  split
  · exact Stays.pure _
  refine Stays.bind (Stays.modify fun _ => rfl) fun _ => ?_
  refine Stays.bind stays_log_persistSuperblock fun r => ?_
  split
  · exact Stays.bind (Stays.modify fun _ => rfl) fun _ => Stays.pure _
  · exact Stays.bind (Stays.modify fun _ => rfl) fun _ => Stays.pure _

theorem keeps_log_deallocatePage (p : PageId) : Keeps Store.log (deallocatePage p) :=
  (stays_log_deallocatePage p).keeps

end frame

section preservation

variable {d d' : DiskManager} {count : ℕ} {head catalog : PageId} {free : List PageId} {p : PageId}
  {page : Page}

@[simp] theorem writePage_file (d : DiskManager) (p : PageId) (page : Page) :
    (d.writePage p page).file = Function.update d.file p page := rfl
@[simp] theorem writePage_fileSize (d : DiskManager) (p : PageId) (page : Page) :
    (d.writePage p page).fileSize = max d.fileSize (p+1) := rfl
@[simp] theorem linkPage_file (d : DiskManager) (p : PageId) : (d.linkPage p).file =
    Function.update d.file p (storePageId Page.zero 0 d.freeListHead) := rfl
@[simp] theorem release_file (d : DiskManager) (p : PageId) :
    (d.release p).file = Function.update (d.linkPage p).file 0
      (superblock d.pageCount p d.catalogHead) := rfl
@[simp] theorem release_pageCount (d : DiskManager) (p : PageId) :
    (d.release p).pageCount = d.pageCount := rfl
@[simp] theorem release_freePages (d : DiskManager) (p : PageId) :
    (d.release p).freePages = insert p d.freePages := rfl

/-- The memory of the manager does not matter. -/
theorem OnFile.of_file (h : OnFile d count head catalog free) (hfile : d'.file = d.file)
    (hsize : d'.fileSize = d.fileSize) : OnFile d' count head catalog free where
  superblock := hfile ▸ h.superblock
  size := hsize.trans h.size
  pos := h.pos
  bound := h.bound
  catalog := h.catalog
  chain := h.chain.congr fun q _ => by simp only [DiskManager.link,hfile]
  range := h.range

/-- A write to a page off the free list. -/
theorem OnFile.write (h : OnFile d count head catalog free) (hp : 0 < p ∧ p < count)
    (hfree : p ∉ free) : OnFile (d.writePage p page) count head catalog free where
  superblock := by
    rw [writePage_file,Function.update_of_ne (Nat.ne_of_lt hp.1)]
    exact h.superblock
  size := by
    rw [writePage_fileSize,h.size]
    exact max_eq_left hp.2
  pos := h.pos
  bound := h.bound
  catalog := h.catalog
  chain := h.chain.congr fun q hq => by
    have hne : q ≠ p := fun he => hfree (he ▸ hq)
    simp only [DiskManager.link,writePage_file,Function.update_of_ne hne]
  range := h.range

theorem Mounted.write (h : Mounted d free) (hp : 0 < p ∧ p < d.pageCount) (hfree : p ∉ free) :
    Mounted (d.writePage p page) free :=
  ⟨h.isOpen,h.onFile.write hp hfree,h.freePages⟩

/-- A release puts the page in front of the free list. -/
theorem Mounted.release (h : Mounted d free) (hp : 0 < p ∧ p < d.pageCount) (hfree : p ∉ free) :
    Mounted (d.release p) (p :: free) where
  isOpen := h.isOpen
  freePages := by
    rw [release_freePages,h.freePages,List.toFinset_cons]
  onFile := by
    have hpz : p ≠ 0 := Nat.pos_iff_ne_zero.mp hp.1
    have hlink : (d.release p).link p = d.freeListHead := by
      rw [DiskManager.link,release_file,Function.update_of_ne hpz,linkPage_file,
        Function.update_self]
      exact loadPageId_storePageId (by decide) h.onFile.head_le
    have hother : ∀ q ∈ free, d.link q = (d.release p).link q := by
      intro q hq
      have hqp : q ≠ p := fun he => hfree (he ▸ hq)
      have hqz : q ≠ 0 := Nat.pos_iff_ne_zero.mp (h.onFile.range q hq).1
      simp only [DiskManager.link,release_file,linkPage_file,Function.update_of_ne hqz,
        Function.update_of_ne hqp]
    have hrange : ∀ q ∈ p :: free, 0 < q ∧ q < d.pageCount := by
      intro q hq
      rcases List.mem_cons.mp hq with rfl | hq
      · exact hp
      · exact h.onFile.range q hq
    have hne : p ≠ invalidPageId := Nat.ne_of_lt (lt_of_lt_of_le hp.2 h.onFile.bound)
    have hsize : (d.release p).fileSize = d.pageCount := by
      change max (max d.fileSize (p+1)) (0+1) = d.pageCount
      have hwrite : max d.pageCount (p+1) = d.pageCount := max_eq_left hp.2
      rw [h.onFile.size,hwrite]
      exact max_eq_left h.onFile.pos
    refine ⟨?_,hsize,h.onFile.pos,h.onFile.bound,h.onFile.catalog,?_,hrange⟩
    · rw [release_file,Function.update_self]
      rfl
    · exact ⟨rfl,hne,hlink ▸ h.onFile.chain.congr hother⟩

end preservation

end Storage
end OurSql
