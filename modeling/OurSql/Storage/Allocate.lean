import OurSql.Storage.FreeList

/-! Allocation takes the first free page, or grows the file by one when there is none. -/
namespace OurSql
namespace Storage

open Crash Chain

/-- What an allocation from the free list leaves. -/
def DiskManager.pop (d : DiskManager) (p : PageId) : DiskManager :=
  { d.writePage 0 (superblock d.pageCount (d.link p) d.catalogHead) with
    freeListHead := d.link p
    freePages := d.freePages.erase p }

/-- What an allocation at the end of the file leaves. -/
def DiskManager.grow (d : DiskManager) : DiskManager :=
  { (d.extend (d.pageCount+1)).writePage 0
      (superblock (d.pageCount+1) d.freeListHead d.catalogHead) with
    pageCount := d.pageCount+1 }

variable {d : DiskManager} {p : PageId} {free : List PageId}

@[simp] theorem pop_file (d : DiskManager) (p : PageId) : (d.pop p).file =
    Function.update d.file 0 (superblock d.pageCount (d.link p) d.catalogHead) := rfl
@[simp] theorem pop_pageCount (d : DiskManager) (p : PageId) :
    (d.pop p).pageCount = d.pageCount := rfl
@[simp] theorem pop_freePages (d : DiskManager) (p : PageId) :
    (d.pop p).freePages = d.freePages.erase p := rfl
@[simp] theorem grow_pageCount (d : DiskManager) : d.grow.pageCount = d.pageCount + 1 := rfl
@[simp] theorem grow_freePages (d : DiskManager) : d.grow.freePages = d.freePages := rfl
@[simp] theorem grow_file (d : DiskManager) : d.grow.file =
    Function.update (d.extend (d.pageCount+1)).file 0
      (superblock (d.pageCount+1) d.freeListHead d.catalogHead) := rfl

theorem Mounted.pop (h : Mounted d (p :: free)) : Mounted (d.pop p) free where
  isOpen := h.isOpen
  freePages := by
    have hp : p ∉ free := (List.nodup_cons.mp h.onFile.chain.nodup).1
    rw [pop_freePages,h.freePages,List.toFinset_cons]
    exact Finset.erase_insert (by simpa using hp)
  onFile := by
    have hlinks : ∀ q ∈ free, d.link q = (d.pop p).link q := by
      intro q hq
      have hq0 : q ≠ 0 := Nat.pos_iff_ne_zero.mp (h.onFile.range q (by simp [hq])).1
      simp only [DiskManager.link,pop_file,Function.update_of_ne hq0]
    have hsize : (d.pop p).fileSize = d.pageCount := by
      have hwrite : max d.pageCount (0+1) = d.pageCount := max_eq_left h.onFile.pos
      change max d.fileSize (0+1) = d.pageCount
      rw [h.onFile.size,hwrite]
    exact ⟨by rw [pop_file,Function.update_self]; rfl,hsize,h.onFile.pos,h.onFile.bound,
      h.onFile.catalog,h.onFile.chain.2.2.congr hlinks,
      fun q hq => h.onFile.range q (by simp [hq])⟩

theorem grow_file_of_lt (h : Mounted d free) {q : PageId} (hq : 0 < q ∧ q < d.pageCount) :
    d.grow.file q = d.file q := by
  have hq0 : q ≠ 0 := Nat.pos_iff_ne_zero.mp hq.1
  have hlt : q < d.fileSize := h.onFile.size ▸ hq.2
  simp only [grow_file,Function.update_of_ne hq0,DiskManager.extend,if_pos hlt]

theorem Mounted.grow (h : Mounted d free) (hb : d.pageCount < 4294967295) :
    Mounted d.grow free where
  isOpen := h.isOpen
  freePages := h.freePages
  onFile := by
    have hlinks : ∀ q ∈ free, d.link q = d.grow.link q := by
      intro q hq
      simp only [DiskManager.link,grow_file_of_lt h (h.onFile.range q hq)]
    have hsize : d.grow.fileSize = d.pageCount + 1 :=
      max_eq_left (Nat.succ_le_succ (Nat.zero_le _))
    have hcat : d.catalogHead = invalidPageId ∨ 0 < d.catalogHead ∧
        d.catalogHead < d.pageCount + 1 := by
      rcases h.onFile.catalog with hc | ⟨hc,hlt⟩
      · exact .inl hc
      · exact .inr ⟨hc,Nat.lt_succ_of_lt hlt⟩
    exact ⟨by rw [grow_file,Function.update_self]; rfl,hsize,Nat.succ_pos _,hb,hcat,
      h.onFile.chain.congr hlinks,
      fun q hq => ⟨(h.onFile.range q hq).1,Nat.lt_succ_of_lt (h.onFile.range q hq).2⟩⟩

section specs

variable {s : Store} {R : Store → Prop}

theorem spec_allocatePage_pop (h : Mounted s.disk (p :: free))
    (hR' : R (s.mapDisk fun d => { d with freeListHead := d.link p })) :
    Spec (· = s) allocatePage (fun r t => r = .ok p ∧ t = s.mapDisk (·.pop p)) R := by
  have hp := h.onFile.range p (by simp)
  have hhead : s.disk.freeListHead = p := h.onFile.chain.1
  have hne : p ≠ invalidPageId := h.onFile.chain.2.1
  have hfree : p ∈ s.disk.freePages := by simp [h.freePages]
  have hread : s.disk.readPhysicalPage p = .ok (s.disk.file p) :=
    readPhysicalPage_ok h.isOpen hp.2 (h.onFile.size ▸ hp.2)
  -- the link is the next free page or the end of the list
  have hnext : s.disk.link p = invalidPageId ∨
      (s.disk.link p ≠ 0 ∧ s.disk.link p < s.disk.pageCount) := by
    have htail := h.onFile.chain.2.2
    cases hf : free with
    | nil =>
      rw [hf] at htail
      exact .inl htail
    | cons q rest =>
      rw [hf] at htail
      have hq := h.onFile.range q (by simp [hf])
      exact .inr (htail.1 ▸ ⟨Nat.pos_iff_ne_zero.mp hq.1,hq.2⟩)
  have hrange : (s.disk.link p ≠ invalidPageId && s.disk.pageCount ≤ s.disk.link p) = false := by
    rcases hnext with hn | ⟨-,hn⟩ <;> simp [hn]
  have hzero : (s.disk.link p ≠ invalidPageId && s.disk.link p = 0) = false := by
    rcases hnext with hn | ⟨hn,-⟩ <;> simp [hn]
  have hlink : loadPageId (s.disk.file p) 0 = s.disk.link p := rfl
  unfold allocatePage
  refine Spec.get_bind ?_
  rw [h.isOpen,if_neg (by simp),hhead,if_pos hne]
  unfold popFreePage
  refine Spec.get_bind ?_
  simp only [hhead,hread]
  rw [if_neg hne,if_neg (not_not.mpr hfree),hlink,if_neg (by simpa using hrange),
    if_neg (by simpa using hzero)]
  refine Spec.modify_bind ?_
  refine Spec.step (spec_persistSuperblock h.isOpen h.onFile.pos hR') ?_
  exact Spec.modify_bind Spec.pure_eq

theorem spec_allocatePage_grow (h : Mounted s.disk []) (hb : s.disk.pageCount < 4294967295)
    (hR : R s)
    (hR' : R (s.mapDisk fun d => { d.extend (d.pageCount+1) with pageCount := d.pageCount+1 })) :
    Spec (· = s) allocatePage
      (fun r t => r = .ok s.disk.pageCount ∧ t = s.mapDisk (·.grow)) R := by
  have hhead : s.disk.freeListHead = invalidPageId := h.onFile.chain
  have hmod : (s.disk.pageCount + 1) % 4294967296 = s.disk.pageCount + 1 :=
    Nat.mod_eq_of_lt (Nat.succ_lt_succ hb)
  have hsize : ¬s.disk.pageCount + 1 ≤ s.disk.fileSize := by
    rw [h.onFile.size]
    exact Nat.not_succ_le_self _
  have hgrow : Spec (· = s) (ensureFileSize (s.disk.pageCount+1)) (fun r t => r = .ok () ∧
      t = s.mapDisk (·.extend (s.disk.pageCount+1))) R := by
    unfold ensureFileSize
    refine Spec.get_bind ?_
    rw [if_neg hsize]
    exact Spec.effect_bind hR Spec.pure_eq
  unfold allocatePage
  refine Spec.get_bind ?_
  rw [h.isOpen,if_neg (by simp),hhead,if_neg (by simp)]
  simp only [hmod]
  refine Spec.step hgrow ?_
  refine Spec.modify_bind ?_
  refine Spec.step (spec_persistSuperblock h.isOpen (Nat.succ_pos _) hR') ?_
  exact Spec.pure_eq

end specs

theorem keeps_log_allocatePage : Keeps Store.log allocatePage := by
  have hpop : Keeps Store.log popFreePage := by
    refine Keeps.bind Keeps.get fun s => ?_
    dsimp only
    split
    · exact Keeps.pure _
    split
    · exact Keeps.pure _
    split
    · exact Keeps.pure _
    split
    · exact Keeps.pure _
    split
    · exact Keeps.pure _
    refine Keeps.bind (Keeps.modify fun _ => rfl) fun _ => ?_
    refine Keeps.bind stays_log_persistSuperblock.keeps fun r => ?_
    split
    · exact Keeps.bind (Keeps.modify fun _ => rfl) fun _ => Keeps.pure _
    · exact Keeps.bind (Keeps.modify fun _ => rfl) fun _ => Keeps.pure _
  have hsize : ∀ count, Keeps Store.log (ensureFileSize count) := by
    intro count
    refine Keeps.bind Keeps.get fun s => ?_
    split
    · exact Keeps.pure _
    · exact Keeps.bind (Keeps.effect fun _ => rfl) fun _ => Keeps.pure _
  refine Keeps.bind Keeps.get fun s => ?_
  dsimp only
  split
  · exact Keeps.pure _
  split
  · exact hpop
  refine Keeps.bind (hsize _) fun r => ?_
  split
  · exact Keeps.pure _
  refine Keeps.bind (Keeps.modify fun _ => rfl) fun _ => ?_
  refine Keeps.bind stays_log_persistSuperblock.keeps fun r => ?_
  split
  · exact Keeps.bind (Keeps.modify fun _ => rfl) fun _ => Keeps.pure _
  · exact Keeps.pure _

/-- What an allocation does to the rest of the file. -/
structure Allocated (s t : Store) (p : PageId) : Prop where
  mounted : ∃ free, Mounted t.disk free
  log : t.log = s.log
  count : s.disk.pageCount ≤ t.disk.pageCount
  range : 0 < p ∧ p < t.disk.pageCount
  fresh : p ∉ t.disk.freePages
  shrinks : t.disk.freePages ⊆ s.disk.freePages
  origin : p ∈ s.disk.freePages ∨ s.disk.pageCount ≤ p
  others : ∀ q, 0 < q → q < s.disk.pageCount → t.disk.file q = s.disk.file q

/-- The two ways an allocation succeeds. -/
theorem allocatePage_taken {s t : Store} (h : ∃ free, Mounted s.disk free)
    (hb : s.disk.pageCount < 4294967295) (hrun : allocatePage.run s = (some (.ok p),t)) :
    (∃ free, Mounted s.disk (p::free) ∧ t = s.mapDisk (·.pop p)) ∨
      (Mounted s.disk [] ∧ p = s.disk.pageCount ∧ t = s.mapDisk (·.grow)) := by
  obtain ⟨free,h⟩ := h
  cases free with
  | nil =>
    obtain ⟨r,u,hr,rfl,rfl⟩ := Spec.run (spec_allocatePage_grow (R := fun _ => True) h hb trivial
      trivial) rfl
    obtain ⟨hp,ht⟩ : s.disk.pageCount = p ∧ s.mapDisk (·.grow) = t := by
      simpa using hr.symm.trans hrun
    exact .inr ⟨h,hp.symm,ht.symm⟩
  | cons q free =>
    obtain ⟨r,u,hr,rfl,rfl⟩ := Spec.run (spec_allocatePage_pop (R := fun _ => True) h trivial) rfl
    obtain ⟨hp,ht⟩ : q = p ∧ s.mapDisk (·.pop q) = t := by
      simpa using hr.symm.trans hrun
    exact .inl ⟨free,hp ▸ h,hp ▸ ht.symm⟩

theorem allocatePage_run {s t : Store} (h : ∃ free, Mounted s.disk free)
    (hb : s.disk.pageCount < 4294967295) (hrun : allocatePage.run s = (some (.ok p),t)) :
    Allocated s t p := by
  rcases allocatePage_taken h hb hrun with ⟨free,h,rfl⟩ | ⟨h,rfl,rfl⟩
  · refine ⟨⟨free,h.pop⟩,rfl,le_rfl,h.onFile.range p (by simp),?_,?_,.inl (by simp [h.freePages]),
      fun x h0 _ => ?_⟩
    · change p ∉ s.disk.freePages.erase p
      simp
    · exact Finset.erase_subset _ _
    · change Function.update s.disk.file 0 _ x = _
      exact Function.update_of_ne (Nat.pos_iff_ne_zero.mp h0) _ _
  · refine ⟨⟨[],h.grow hb⟩,rfl,Nat.le_succ _,⟨h.onFile.pos,Nat.lt_succ_self _⟩,?_,
      Finset.Subset.refl _,.inr le_rfl,fun q h0 hq => grow_file_of_lt h ⟨h0,hq⟩⟩
    change s.disk.pageCount ∉ s.disk.freePages
    simp [h.freePages]

end Storage
end OurSql
