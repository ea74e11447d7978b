import OurSql.Storage.Allocate
import OurSql.Storage.Deallocate

/-! What a rollback calls in the buffer pool: whole pages are restored, reserved pages are
deleted, and reservations are cancelled, with an I/O fault possible at each write. -/
namespace OurSql
namespace Rollback

open Storage

inductive FrameState
  | valid | deletePending
  deriving DecidableEq, Repr

structure Frame where
  page : Page
  state : FrameState := .valid
  pins : ℕ := 0
  isDirty : Bool := false

/-- `pending` is `delete_pending_pages_`. -/
structure Pool where
  disk : DiskManager
  frames : PageId → Option Frame
  pending : Finset PageId

/-- The faults of the writes that one record of the log causes. -/
structure Faults where
  wal : Bool := false
  flush : Option Fault := none
  page : Option Fault := none
  superblock : Option Fault := none

namespace Pool

variable (s : Pool)

def setFrame (p : PageId) (frame : Option Frame) : Pool :=
  { s with frames := Function.update s.frames p frame }

/-- What a reader of the page sees. -/
def content (p : PageId) : Page :=
  match s.frames p with
  | some frame => frame.page
  | none => s.disk.file p

/-- A frame that need not be written back holds the page of the file. -/
def Clean (p : PageId) : Prop :=
  ∀ frame, s.frames p = some frame → frame.isDirty = false → frame.page = s.disk.file p

/-- `RestorePage` with `write_disk`. -/
def restorePage (fault : Option Fault) (p : PageId) (page : Page) : Status × Pool :=
  if p = invalidPageId ∨ p = 0 then
    (fail .invalidArgument "RestorePage requires a data page id",s)
  else
    match s.frames p with
    | none =>
      let (answer,d) := s.disk.writePhysicalPage fault p page
      (answer,{ s with disk := d })
    | some frame =>
      if frame.state ≠ .valid ∨ frame.pins ≠ 0 then
        (fail .invalidArgument "RestorePage requires an unpinned valid frame",s)
      else
        match s.disk.writePhysicalPage fault p page with
        | (.ok (),d) =>
          (.ok (),{ s with disk := d }.setFrame p
            (some { frame with page := page,isDirty := false }))
        | (.error e,d) => (.error e,{ s with disk := d })

def beginPageDeletion (p : PageId) : Status × Pool :=
  if p = invalidPageId ∨ p = 0 then
    (fail .invalidArgument ("缓冲池不能操作该页面编号: " ++ toString p),s)
  else if p ∈ s.pending then
    (fail .alreadyExists ("页面已经处于删除预留状态: " ++ toString p),s)
  else
    match s.frames p with
    | none => (.ok (),{ s with pending := insert p s.pending })
    | some frame =>
      if frame.state ≠ .valid ∨ frame.pins ≠ 0 then
        (fail .invalidArgument ("被 pin 的页面不能删除: " ++ toString p),s)
      else
        (.ok (),{ s with pending := insert p s.pending }.setFrame p
          (some { frame with state := .deletePending }))

/-- `FlushFrameToDisk`, asked for only if the frame is dirty. -/
def flushFrame (f : Faults) (p : PageId) (frame : Frame) : Status × DiskManager :=
  if !frame.isDirty then (.ok (),s.disk)
  else if f.wal then (fail .ioError "WAL-before-data failed: ",s.disk)
  else s.disk.writePhysicalPage f.flush p frame.page

/-- The free page of the file stands for one that has been freed just now. -/
def freed (answer : Status) : Bool :=
  match answer with
  | .ok () => true
  | .error e => e.code = .alreadyExists

def finalizePageDeletion (f : Faults) (p : PageId) : Status × Pool :=
  if p ∉ s.pending then (fail .notFound ("页面没有删除预留: " ++ toString p),s)
  else
    match s.frames p with
    | none =>
      let (answer,d) := s.disk.deallocatePage f.page f.superblock p
      if freed answer then (.ok (),{ s with disk := d,pending := s.pending.erase p })
      else (answer,{ s with disk := d })
    | some frame =>
      if frame.state ≠ .deletePending ∨ frame.pins ≠ 0 then
        (fail .invalidArgument ("页面删除预留仍有引用: " ++ toString p),s)
      else
        match s.flushFrame f p frame with
        | (.error e,d) => (.error e,{ s with disk := d })
        | (.ok (),d) =>
          let (answer,d) := d.deallocatePage f.page f.superblock p
          if freed answer then
            (.ok (),{ s with disk := d,pending := s.pending.erase p }.setFrame p none)
          else (answer,{ s with disk := d })

/-- `DeletePage` without a transaction. -/
def deletePage (f : Faults) (p : PageId) : Status × Pool :=
  match s.beginPageDeletion p with
  | (.error e,s) => (.error e,s)
  | (.ok (),s) => s.finalizePageDeletion f p

def cancelPageDeletion (p : PageId) : Status × Pool :=
  if p ∉ s.pending then (fail .notFound ("页面没有删除预留: " ++ toString p),s)
  else
    match s.frames p with
    | none => (.ok (),{ s with pending := s.pending.erase p })
    | some frame =>
      if frame.state ≠ .deletePending ∨ frame.pins ≠ 0 then
        (fail .invalidArgument ("页面删除预留正在使用: " ++ toString p),s)
      else
        (.ok (),{ s with pending := s.pending.erase p }.setFrame p
          (some { frame with state := .valid }))

end Pool

/-! ### What the calls keep -/

/-- The free list is in order, and freed pages are neither cached nor reserved. -/
structure Sound (s : Pool) : Prop where
  mounted : ∃ free, Mounted s.disk free
  cached : ∀ {p frame}, s.frames p = some frame →
    p ∉ s.disk.freePages ∧ (frame.state = .deletePending ↔ p ∈ s.pending)
  pending : ∀ {p}, p ∈ s.pending → p ∉ s.disk.freePages

/-- Page 0 apart, only the page `p` may have changed. -/
structure Leaves (s s' : Pool) (p : PageId) : Prop where
  frames : ∀ {q}, q ≠ p → s'.frames q = s.frames q
  file : ∀ {q}, q ≠ p → q ≠ 0 → s'.disk.file q = s.disk.file q
  pending : ∀ {q}, q ≠ p → (q ∈ s'.pending ↔ q ∈ s.pending)
  free : ∀ {q}, q ≠ p → (q ∈ s'.disk.freePages ↔ q ∈ s.disk.freePages)
  count : s'.disk.pageCount = s.disk.pageCount

variable {s s' : Pool} {p q : PageId} {d : DiskManager} {free : List PageId}

theorem Leaves.refl (s : Pool) (p : PageId) : Leaves s s p :=
  ⟨fun _ => rfl,fun _ _ => rfl,fun _ => Iff.rfl,fun _ => Iff.rfl,rfl⟩

theorem Leaves.content (h : Leaves s s' p) (hq : q ≠ p) (h0 : q ≠ 0) :
    s'.content q = s.content q := by
  simp only [Pool.content,h.frames hq,h.file hq h0]

theorem Leaves.clean (h : Leaves s s' p) (hq : q ≠ p) (h0 : q ≠ 0) (hc : s.Clean q) :
    s'.Clean q := by
  intro frame hf hd
  rw [h.file hq h0]
  exact hc frame ((h.frames hq).symm.trans hf) hd

theorem writePage_eq_of_lt (hp : p < d.fileSize) (page : Page) :
    d.writePage p page = { d with file := Function.update d.file p page } := by
  simp only [DiskManager.writePage,max_eq_left (Nat.succ_le_of_lt hp)]

/-- Whether it fails or not, a page write changes one page of the file. -/
theorem writePhysicalPage_run (h : Mounted d free) (hp : p < d.pageCount) (fault : Option Fault)
    (page : Page) : ∃ page', (d.writePhysicalPage fault p page).2 = d.writePage p page' ∧
      ((d.writePhysicalPage fault p page).1 = .ok () → page' = page) := by
  cases fault with
  | none =>
    rw [writePhysicalPage_good h.isOpen hp]
    exact ⟨page,rfl,fun _ => rfl⟩
  | some f =>
    rw [writePhysicalPage_fault h.isOpen hp]
    refine ⟨fun i => if i.val < f.written then page i else d.file p i,?_,fun he => by cases he⟩
    rw [writePage_eq_of_lt (h.onFile.size ▸ hp)]
    rfl

theorem writePhysicalPage_code (h : Mounted d free) (hp : p < d.pageCount) {fault : Option Fault}
    {page : Page} {e : Failure} (he : (d.writePhysicalPage fault p page).1 = .error e) :
    e.code = .ioError := by
  cases fault with
  | none =>
    rw [writePhysicalPage_good h.isOpen hp] at he
    cases he
  | some f =>
    rw [writePhysicalPage_fault h.isOpen hp] at he
    cases he
    rfl

/-- A page write to a page in use, with a new frame for it that is no reserved one if the old
one was none. -/
theorem Sound.write (h : Sound s) (hp : 0 < p ∧ p < s.disk.pageCount) (hfree : p ∉ s.disk.freePages)
    (page : Page) : Sound { s with disk := s.disk.writePage p page } where
  mounted := by
    obtain ⟨free,hm⟩ := h.mounted
    exact ⟨free,hm.write hp (by rwa [hm.freePages,List.mem_toFinset] at hfree)⟩
  cached := h.cached
  pending := h.pending

theorem Sound.setFrame (h : Sound s) {frame : Option Frame}
    (hf : ∀ f, frame = some f → p ∉ s.disk.freePages ∧ (f.state = .deletePending ↔ p ∈ s.pending)) :
    Sound (s.setFrame p frame) where
  mounted := h.mounted
  cached := by
    intro q f hq
    by_cases he : q = p
    · subst he
      exact hf f (by simpa [Pool.setFrame] using hq)
    · exact h.cached (by simpa [Pool.setFrame,Function.update_of_ne he] using hq)
  pending := h.pending

theorem leaves_write (s : Pool) (p : PageId) (page : Page) :
    Leaves s { s with disk := s.disk.writePage p page } p :=
  ⟨fun _ => rfl,fun hq _ => Function.update_of_ne hq ..,fun _ => Iff.rfl,fun _ => Iff.rfl,rfl⟩

theorem Leaves.setFrame (h : Leaves s s' p) (frame : Option Frame) :
    Leaves s (s'.setFrame p frame) p :=
  ⟨fun hq => (Function.update_of_ne hq ..).trans (h.frames hq),h.file,h.pending,h.free,h.count⟩

theorem not_reserved (h : Sound s) (hp : 0 < p ∧ p < s.disk.pageCount) :
    ¬ (p = invalidPageId ∨ p = 0) := by
  obtain ⟨free,hm⟩ := h.mounted
  rintro (rfl | rfl)
  · exact absurd hp.2 (Nat.not_lt.mpr hm.onFile.bound)
  · exact absurd hp.1 (Nat.lt_irrefl 0)

/-- What a restored page leaves. -/
structure Restored (s s' : Pool) (answer : Status) (p : PageId) (page : Page) : Prop where
  sound : Sound s'
  leaves : Leaves s s' p
  pending : s'.pending = s.pending
  free : s'.disk.freePages = s.disk.freePages
  page : answer = .ok () → s'.content p = page ∧ s'.disk.file p = page

theorem restorePage_spec (h : Sound s) (hp : 0 < p ∧ p < s.disk.pageCount)
    (hfree : p ∉ s.disk.freePages) (fault : Option Fault) (page : Page) :
    Restored s (s.restorePage fault p page).2 (s.restorePage fault p page).1 p page := by
  obtain ⟨free,hm⟩ := h.mounted
  obtain ⟨page',hdisk,hpage⟩ := writePhysicalPage_run hm hp.2 fault page
  have hne := not_reserved h hp
  have hnothing : ∀ e : Failure, Restored s s (.error e) p page :=
    fun e => ⟨h,.refl s p,rfl,rfl,fun he => by cases he⟩
  unfold Pool.restorePage
  rw [if_neg hne]
  rcases hw : s.disk.writePhysicalPage fault p page with ⟨answer,d⟩
  rw [hw] at hdisk hpage
  obtain rfl : d = s.disk.writePage p page' := hdisk
  have hsound := h.write hp hfree page'
  have hleaves := leaves_write s p page'
  cases hf : s.frames p with
  | none =>
    refine ⟨hsound,hleaves,rfl,rfl,fun he => ?_⟩
    have hfile : Function.update s.disk.file p page' p = page := by
      rw [Function.update_self]
      exact hpage he
    refine ⟨?_,hfile⟩
    simp only [Pool.content,hf]
    exact hfile
  | some frame =>
    dsimp only
    split
    · exact hnothing _
    · cases answer with
      | error e => exact ⟨hsound,hleaves,rfl,rfl,fun he => by cases he⟩
      | ok =>
        have hcached := h.cached hf
        refine ⟨hsound.setFrame ?_,hleaves.setFrame _,rfl,rfl,fun he => ⟨?_,?_⟩⟩
        · rintro f ⟨rfl⟩
          exact hcached
        · simp [Pool.content,Pool.setFrame]
        · exact (Function.update_self ..).trans (hpage he)

/-- What a cancelled reservation leaves. -/
structure Cancelled (s s' : Pool) (answer : Status) (p : PageId) : Prop where
  sound : Sound s'
  leaves : Leaves s s' p
  content : s'.content p = s.content p
  clean : s.Clean p → s'.Clean p
  disk : s'.disk = s.disk
  pending : s'.pending ⊆ s.pending
  gone : (∀ e, answer = .error e → e.code = .notFound) → p ∉ s'.pending

theorem cancelPageDeletion_spec (h : Sound s) (p : PageId) :
    Cancelled s (s.cancelPageDeletion p).2 (s.cancelPageDeletion p).1 p := by
  unfold Pool.cancelPageDeletion
  by_cases hp : p ∈ s.pending
  swap
  · rw [if_pos hp]
    exact ⟨h,.refl s p,rfl,id,rfl,Finset.Subset.refl _,fun _ => hp⟩
  rw [if_neg (not_not.mpr hp)]
  have hleaves : Leaves s { s with pending := s.pending.erase p } p :=
    ⟨fun _ => rfl,fun _ _ => rfl,fun hq => by simp [hq],fun _ => Iff.rfl,rfl⟩
  have hpending : ∀ {q}, q ∈ s.pending.erase p → q ∉ s.disk.freePages :=
    fun hq => h.pending (Finset.mem_of_mem_erase hq)
  cases hf : s.frames p with
  | none =>
    refine ⟨⟨h.mounted,fun {q frame} hq => ?_,hpending⟩,hleaves,rfl,id,rfl,
      Finset.erase_subset _ _,?_⟩
    · have hne : q ≠ p := by
        rintro rfl
        cases hf.symm.trans hq
      simpa [hne] using h.cached hq
    · exact fun _ => Finset.notMem_erase p s.pending
  | some frame =>
    dsimp only
    split
    next =>
      refine ⟨h,.refl s p,rfl,id,rfl,Finset.Subset.refl _,fun hcode => ?_⟩
      exact absurd (hcode _ rfl) (by simp)
    next =>
      refine ⟨⟨h.mounted,fun {q f} hq => ?_,hpending⟩,hleaves.setFrame _,?_,?_,rfl,
        Finset.erase_subset _ _,fun _ => Finset.notMem_erase p s.pending⟩
      · by_cases he : q = p
        · subst he
          obtain rfl : { frame with state := .valid } = f := by simpa [Pool.setFrame] using hq
          exact ⟨h.pending hp,by simp [Pool.setFrame]⟩
        · simp only [Pool.setFrame,Function.update_of_ne he] at hq
          simpa [Pool.setFrame,he] using h.cached hq
      · simp [Pool.content,Pool.setFrame,hf]
      · intro hc f hq hd
        obtain rfl : { frame with state := .valid } = f := by simpa [Pool.setFrame] using hq
        exact hc frame hf hd

/-- Page 0 apart, the file has changed at the page `p` only. -/
structure Elsewhere (d d' : DiskManager) (p : PageId) : Prop where
  file : ∀ {q}, q ≠ p → q ≠ 0 → d'.file q = d.file q
  free : ∀ {q}, q ≠ p → (q ∈ d'.freePages ↔ q ∈ d.freePages)
  count : d'.pageCount = d.pageCount

theorem Elsewhere.trans {d₁ d₂ : DiskManager} (h : Elsewhere d d₁ p) (h' : Elsewhere d₁ d₂ p) :
    Elsewhere d d₂ p :=
  ⟨fun hq h0 => (h'.file hq h0).trans (h.file hq h0),fun hq => (h'.free hq).trans (h.free hq),
    h'.count.trans h.count⟩

theorem deallocatePage_run (hm : Mounted d free) (hp : 0 < p ∧ p < d.pageCount) (hfree : p ∉ free)
    (f : Faults) : Elsewhere d (d.deallocatePage f.page f.superblock p).2 p ∧
      (((d.deallocatePage f.page f.superblock p).1 = .ok () ∧
        Mounted (d.deallocatePage f.page f.superblock p).2 (p::free)) ∨
      ∃ e, (d.deallocatePage f.page f.superblock p).1 = .error e ∧ e.code = .ioError ∧
        p ∉ (d.deallocatePage f.page f.superblock p).2.freePages) := by
  have hmem : p ∉ d.freePages := by rwa [hm.freePages,List.mem_toFinset]
  cases hpage : f.page with
  | some fault =>
    rw [deallocatePage_pageFault hm hp hfree]
    exact ⟨⟨fun hq _ => Function.update_of_ne hq ..,fun _ => Iff.rfl,rfl⟩,.inr ⟨_,rfl,rfl,hmem⟩⟩
  | none =>
    cases hsuper : f.superblock with
    | some fault =>
      rw [deallocatePage_superblockFault hm hp hfree]
      refine ⟨⟨fun {q} hq h0 => ?_,fun _ => Iff.rfl,rfl⟩,.inr ⟨_,rfl,rfl,hmem⟩⟩
      exact (Function.update_of_ne h0 ..).trans (Function.update_of_ne hq ..)
    | none =>
      rw [deallocatePage_ok hm hp hfree]
      refine ⟨⟨fun {q} hq h0 => ?_,fun hq => by simp [hq],rfl⟩,.inl ⟨rfl,hm.release hp hfree⟩⟩
      exact (Function.update_of_ne h0 ..).trans (Function.update_of_ne hq ..)

theorem deallocatePage_free (hm : Mounted d free) (hp : 0 < p ∧ p < d.pageCount)
    (hfree : p ∈ d.freePages) (f : Faults) : d.deallocatePage f.page f.superblock p =
      (fail .alreadyExists ("页面已经释放: " ++ toString p),d) := by
  have hne : p ≠ invalidPageId := Nat.ne_of_lt (Nat.lt_of_lt_of_le hp.2 hm.onFile.bound)
  rw [DiskManager.deallocatePage,hm.isOpen,if_neg (by simp),
    if_neg (by simp [hne,hp.2,Nat.pos_iff_ne_zero.mp hp.1]),if_pos hfree]

/-- How the deletion of a page that is not reserved can end: the page is free, or it could not
be reserved and nothing has changed, or its reservation stays. -/
inductive Deleted (s s' : Pool) (p : PageId) : Status → Prop
  | done : (s.beginPageDeletion p).1 = .ok () → Sound s' → p ∈ s'.disk.freePages →
      Leaves s s' p → Deleted s s' p (.ok ())
  | refused (e : Failure) : e.code ≠ .alreadyExists → (s.beginPageDeletion p).1 = .error e →
      s' = s → Deleted s s' p (.error e)
  | stuck (e : Failure) : e.code ≠ .alreadyExists → (s.beginPageDeletion p).1 = .ok () →
      p ∉ s'.disk.freePages → Leaves s s' p → Deleted s s' p (.error e)

/-- A page that is free already is reserved, found free and left as it is. -/
theorem deletePage_free (h : Sound s) (hp : 0 < p ∧ p < s.disk.pageCount)
    (hfree : p ∈ s.disk.freePages) (f : Faults) :
    (s.beginPageDeletion p).1 = .ok () ∧ s.deletePage f p = (.ok (),s) := by
  obtain ⟨free,hm⟩ := h.mounted
  have hpend : p ∉ s.pending := fun hmem => h.pending hmem hfree
  have hframe : s.frames p = none := by
    rcases hf : s.frames p with - | frame
    · rfl
    · exact absurd hfree (h.cached hf).1
  have hbegin : s.beginPageDeletion p = (.ok (),{ s with pending := insert p s.pending }) := by
    rw [Pool.beginPageDeletion,if_neg (not_reserved h hp),if_neg hpend,hframe]
  refine ⟨congrArg Prod.fst hbegin,?_⟩
  simp only [Pool.deletePage,hbegin,Pool.finalizePageDeletion,hframe]
  rw [if_neg (by simp),deallocatePage_free hm hp hfree]
  simp [Pool.freed,fail,hpend]

/-- The flush of a frame before its page is deallocated. -/
theorem flushFrame_run (hm : Mounted s.disk free) (hp : 0 < p ∧ p < s.disk.pageCount)
    (hfree : p ∉ free) (f : Faults) (frame : Frame) :
    Elsewhere s.disk (s.flushFrame f p frame).2 p ∧ Mounted (s.flushFrame f p frame).2 free ∧
      ∀ e, (s.flushFrame f p frame).1 = .error e → e.code = .ioError := by
  have hsame : Elsewhere s.disk s.disk p := ⟨fun _ _ => rfl,fun _ => Iff.rfl,rfl⟩
  unfold Pool.flushFrame
  split
  · exact ⟨hsame,hm,fun e he => by cases he⟩
  split
  · refine ⟨hsame,hm,fun e he => ?_⟩
    cases he
    rfl
  · obtain ⟨page,hdisk,-⟩ := writePhysicalPage_run hm hp.2 f.flush frame.page
    rw [hdisk]
    refine ⟨⟨fun hq _ => Function.update_of_ne hq ..,fun _ => Iff.rfl,rfl⟩,hm.write hp hfree,?_⟩
    exact fun e he => writePhysicalPage_code hm hp.2 he

/-- The page is off the page table and in front of the free list. -/
theorem Sound.delete (h : Sound s) (hd : Elsewhere s.disk d p) (hm : Mounted d (p::free))
    (hpend : p ∉ s.pending) {frames : PageId → Option Frame} (hnone : frames p = none)
    (hframes : ∀ {q}, q ≠ p → frames q = s.frames q) : Sound ⟨d,frames,s.pending⟩ where
  mounted := ⟨_,hm⟩
  cached := by
    intro q frame hq
    have hne : q ≠ p := by
      rintro rfl
      cases hnone.symm.trans hq
    have hold := h.cached ((hframes hne).symm.trans hq)
    exact ⟨fun hfree => hold.1 ((hd.free hne).mp hfree),hold.2⟩
  pending := by
    intro q hq
    have hne : q ≠ p := fun he => hpend (he ▸ hq)
    exact fun hfree => h.pending hq ((hd.free hne).mp hfree)

theorem Elsewhere.leaves (hd : Elsewhere s.disk d p) {frames : PageId → Option Frame}
    {pending : Finset PageId} (hframes : ∀ {q}, q ≠ p → frames q = s.frames q)
    (hpending : ∀ {q}, q ≠ p → (q ∈ pending ↔ q ∈ s.pending)) :
    Leaves s ⟨d,frames,pending⟩ p :=
  ⟨hframes,hd.file,hpending,hd.free,hd.count⟩

theorem deletePage_spec (h : Sound s) (hp : 0 < p ∧ p < s.disk.pageCount) (hpend : p ∉ s.pending)
    (f : Faults) : Deleted s (s.deletePage f p).2 p (s.deletePage f p).1 := by
  by_cases hfree : p ∈ s.disk.freePages
  · obtain ⟨hbegin,hdone⟩ := deletePage_free h hp hfree f
    rw [hdone]
    exact .done hbegin h hfree (.refl s p)
  obtain ⟨free,hm⟩ := h.mounted
  have hlist : p ∉ free := by rwa [hm.freePages,List.mem_toFinset] at hfree
  have herase : (insert p s.pending).erase p = s.pending := Finset.erase_insert hpend
  have hinsert : ∀ {q}, q ≠ p → (q ∈ insert p s.pending ↔ q ∈ s.pending) := fun hq => by simp [hq]
  cases hf : s.frames p with
  | none =>
    have hbegin : s.beginPageDeletion p = (.ok (),{ s with pending := insert p s.pending }) := by
      rw [Pool.beginPageDeletion,if_neg (not_reserved h hp),if_neg hpend,hf]
    obtain ⟨hd,hcases⟩ := deallocatePage_run hm hp hlist f
    simp only [Pool.deletePage,hbegin,Pool.finalizePageDeletion,hf]
    rw [if_neg (by simp)]
    rcases hw : s.disk.deallocatePage f.page f.superblock p with ⟨answer,d⟩
    rw [hw] at hd hcases
    rcases hcases with ⟨rfl,hmounted⟩ | ⟨e,rfl,hcode,hnot⟩
    · simp only [Pool.freed,if_true,herase]
      refine .done (congrArg Prod.fst hbegin) (h.delete hd hmounted hpend hf fun _ => rfl) ?_ ?_
      · rw [hmounted.freePages]
        simp
      · exact hd.leaves (fun _ => rfl) fun _ => Iff.rfl
    · have hne : e.code ≠ .alreadyExists := by simp [hcode]
      simp only [Pool.freed,hne,decide_false,Bool.false_eq_true,if_false]
      exact .stuck e hne (congrArg Prod.fst hbegin) hnot (hd.leaves (fun _ => rfl) hinsert)
  | some frame =>
    by_cases hbusy : frame.state ≠ .valid ∨ frame.pins ≠ 0
    · have hbegin : s.beginPageDeletion p =
          (fail .invalidArgument ("被 pin 的页面不能删除: " ++ toString p),s) := by
        rw [Pool.beginPageDeletion,if_neg (not_reserved h hp),if_neg hpend,hf]
        exact if_pos hbusy
      simp only [Pool.deletePage,hbegin]
      exact .refused _ (by simp) (congrArg Prod.fst hbegin) rfl
    let reserved : Pool := { s with pending := insert p s.pending }.setFrame p
      (some { frame with state := .deletePending })
    have hbegin : s.beginPageDeletion p = (.ok (),reserved) := by
      rw [Pool.beginPageDeletion,if_neg (not_reserved h hp),if_neg hpend,hf]
      exact if_neg hbusy
    have hstart : (s.beginPageDeletion p).1 = .ok () := congrArg Prod.fst hbegin
    have hpins : frame.pins = 0 := by tauto
    have hframes : ∀ {q}, q ≠ p → reserved.frames q = s.frames q :=
      fun hq => Function.update_of_ne hq ..
    have hframe : reserved.frames p = some { frame with state := .deletePending } :=
      Function.update_self ..
    have hdeletable : ¬ (({ frame with state := .deletePending } : Frame).state ≠ .deletePending ∨
        ({ frame with state := .deletePending } : Frame).pins ≠ 0) := by simp [hpins]
    obtain ⟨hflush,hflushed,hio⟩ := flushFrame_run (s := reserved) hm hp hlist f
      { frame with state := .deletePending }
    have hmem : p ∈ reserved.pending := Finset.mem_insert_self p s.pending
    simp only [Pool.deletePage,hbegin,Pool.finalizePageDeletion,hframe]
    rw [if_neg (not_not.mpr hmem),if_neg hdeletable]
    rcases hw : reserved.flushFrame f p { frame with state := .deletePending } with ⟨answer,d⟩
    rw [hw] at hflush hflushed hio
    have hoff : Elsewhere s.disk d p := hflush
    cases answer with
    | error e =>
      have hcode : e.code ≠ .alreadyExists := by simp [hio e rfl]
      refine .stuck e hcode hstart ?_ (hoff.leaves hframes hinsert)
      have hfree' : d.freePages = free.toFinset := hflushed.freePages
      simpa [hfree'] using hlist
    | ok =>
      have hp' : 0 < p ∧ p < d.pageCount := ⟨hp.1,hflush.count ▸ hp.2⟩
      obtain ⟨hd,hcases⟩ := deallocatePage_run hflushed hp' hlist f
      have hboth := hoff.trans hd
      dsimp only at hcases hboth ⊢
      rcases hw' : d.deallocatePage f.page f.superblock p with ⟨answer,d'⟩
      rw [hw'] at hboth hcases
      rcases hcases with ⟨rfl,hmounted⟩ | ⟨e,rfl,hcode,hnot⟩
      · have hnone : Function.update reserved.frames p none p = none := Function.update_self ..
        have hframes' : ∀ {q}, q ≠ p → Function.update reserved.frames p none q = s.frames q :=
          fun hq => (Function.update_of_ne hq ..).trans (hframes hq)
        have hpending : reserved.pending.erase p = s.pending := herase
        simp only [Pool.freed,if_true,hpending]
        refine .done hstart (h.delete hboth hmounted hpend hnone hframes') ?_ ?_
        · change p ∈ d'.freePages
          rw [hmounted.freePages]
          simp
        · exact hboth.leaves hframes' fun _ => Iff.rfl
      · have hne : e.code ≠ .alreadyExists := by simp [hcode]
        simp only [Pool.freed,hne,decide_false,Bool.false_eq_true,if_false]
        exact .stuck e hne hstart hnot (hboth.leaves hframes hinsert)

end Rollback
end OurSql
