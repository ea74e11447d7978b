import OurSql.Recovery.Actions

/-! What a sequence of actions leaves on the file: the last image written to a page,
the pages released, and a sound free list as long as no image lands on a free page. -/
namespace OurSql
namespace Recovery

open Crash Storage Chain

def applyAll (d : DiskManager) (acts : List Act) : DiskManager := acts.foldl Act.apply d

/-- The redo pass over a log. -/
def redoActs (w : List LogRecord) : List Act := w.filterMap (redoAct (analyze w))

def losersUndo (w : List LogRecord) : List LogRecord :=
  (openRecords (isLoser (analyze w)) w).reverse

/-- What recovery from a log does to the file. -/
def recoverActs (w : List LogRecord) : List Act := redoActs w ++ (losersUndo w).filterMap undoAct

def noteWrite (p : PageId) (image : Option Page) : Act → Option Page
  | .write q page => if q = p then some page else image
  | .release _ => image

/-- The last image that the actions write to a page. -/
def lastWrite (acts : List Act) (p : PageId) : Option Page := acts.foldl (noteWrite p) none

section acts

variable {d : DiskManager} {acts : List Act} {a : Act} {p : PageId}

theorem applyAll_append (d : DiskManager) (acts : List Act) (a : Act) :
    applyAll d (acts ++ [a]) = a.apply (applyAll d acts) := by
  simp [applyAll]

theorem lastWrite_append (acts : List Act) (a : Act) (p : PageId) :
    lastWrite (acts ++ [a]) p = noteWrite p (lastWrite acts p) a := by
  simp [lastWrite]

theorem foldl_noteWrite (acts : List Act) (p : PageId) (image : Option Page) :
    acts.foldl (noteWrite p) image = (lastWrite acts p).or image := by
  induction acts using List.reverseRecOn with
  | nil => simp [lastWrite]
  | append_singleton acts a ih =>
    rw [List.foldl_append,ih,lastWrite_append]
    cases a with
    | write q page => by_cases hq : q = p <;> simp [noteWrite,hq]
    | release q => simp [noteWrite]

theorem lastWrite_append_list (acts acts' : List Act) (p : PageId) :
    lastWrite (acts ++ acts') p = (lastWrite acts' p).or (lastWrite acts p) := by
  rw [lastWrite,List.foldl_append,foldl_noteWrite]
  rfl

theorem lastWrite_eq_none (h : ∀ page, Act.write p page ∉ acts) : lastWrite acts p = none := by
  induction acts using List.reverseRecOn with
  | nil => rfl
  | append_singleton acts a ih =>
    rw [lastWrite_append,ih fun page hm => h page (by simp [hm])]
    cases a with
    | write q page =>
      have hq : q ≠ p := by
        rintro rfl
        exact h page (by simp)
      simp [noteWrite,hq]
    | release q => rfl

theorem mem_of_lastWrite {page : Page} (h : lastWrite acts p = some page) :
    Act.write p page ∈ acts := by
  induction acts using List.reverseRecOn with
  | nil => cases h
  | append_singleton acts a ih =>
    rw [lastWrite_append] at h
    cases a with
    | write q page' =>
      by_cases hq : q = p
      · subst hq
        have he : page' = page := by simpa [noteWrite] using h
        simp [he]
      · have hold : lastWrite acts p = some page := by simpa [noteWrite,hq] using h
        simp [ih hold]
    | release q => simp [ih h]

@[simp] theorem apply_isOpen (d : DiskManager) (a : Act) : (a.apply d).isOpen = d.isOpen := by
  cases a with
  | write p page => rfl
  | release p =>
    simp only [Act.apply]
    split <;> rfl

@[simp] theorem apply_pageCount (d : DiskManager) (a : Act) :
    (a.apply d).pageCount = d.pageCount := by
  cases a with
  | write p page => rfl
  | release p =>
    simp only [Act.apply]
    split <;> rfl

@[simp] theorem applyAll_isOpen (d : DiskManager) (acts : List Act) :
    (applyAll d acts).isOpen = d.isOpen := by
  induction acts using List.reverseRecOn with
  | nil => rfl
  | append_singleton acts a ih => rw [applyAll_append,apply_isOpen,ih]

@[simp] theorem applyAll_pageCount (d : DiskManager) (acts : List Act) :
    (applyAll d acts).pageCount = d.pageCount := by
  induction acts using List.reverseRecOn with
  | nil => rfl
  | append_singleton acts a ih => rw [applyAll_append,apply_pageCount,ih]

theorem mem_apply_freePages (d : DiskManager) (a : Act) (p : PageId) :
    p ∈ (a.apply d).freePages ↔ p ∈ d.freePages ∨ a = .release p := by
  cases a with
  | write q page => simp [Act.apply,DiskManager.writePage]
  | release q =>
    simp only [Act.apply]
    split
    · rename_i hq
      constructor
      · exact .inl
      · rintro (hp | he)
        · exact hp
        · cases he
          exact hq
    · rw [release_freePages,Finset.mem_insert]
      constructor
      · rintro (rfl | hp)
        · exact .inr rfl
        · exact .inl hp
      · rintro (hp | he)
        · exact .inr hp
        · cases he
          exact .inl rfl

theorem mem_applyAll_freePages (d : DiskManager) (acts : List Act) (p : PageId) :
    p ∈ (applyAll d acts).freePages ↔ p ∈ d.freePages ∨ .release p ∈ acts := by
  induction acts using List.reverseRecOn with
  | nil => simp [applyAll]
  | append_singleton acts a ih =>
    rw [applyAll_append,mem_apply_freePages,ih]
    simp only [List.mem_append,List.mem_singleton]
    constructor
    · rintro ((hp | hr) | ha)
      · exact .inl hp
      · exact .inr (.inl hr)
      · exact .inr (.inr ha.symm)
    · rintro (hp | hr | ha)
      · exact .inl (.inl hp)
      · exact .inl (.inr hr)
      · exact .inr ha.symm

/-- Where every page to release is free already, the actions only overwrite pages. -/
theorem applyAll_overwrite (hr : ∀ p, Act.release p ∈ acts → p ∈ d.freePages)
    (hs : ∀ a ∈ acts, a.pageId < d.fileSize) :
    applyAll d acts = { d with file := fun p => (lastWrite acts p).getD (d.file p) } := by
  induction acts using List.reverseRecOn with
  | nil => rfl
  | append_singleton acts a ih =>
    rw [applyAll_append,ih (fun p hp => hr p (by simp [hp])) fun b hb => hs b (by simp [hb])]
    cases a with
    | write q page =>
      have hq : q < d.fileSize := hs (.write q page) (by simp)
      have hsize : max d.fileSize (q+1) = d.fileSize := max_eq_left hq
      simp only [Act.apply,DiskManager.writePage,hsize]
      congr 1
      funext p
      rw [lastWrite_append]
      by_cases hp : p = q
      · subst hp
        simp [noteWrite]
      · have hp' : ¬q = p := fun h => hp h.symm
        simp [noteWrite,hp,hp']
    | release q =>
      have hq : q ∈ d.freePages := hr q (by simp)
      simp only [Act.apply,hq,if_true,lastWrite_append,noteWrite]

end acts

/-- No image of the actions lands on a page that is free or that they release. -/
def Apart (d : DiskManager) (acts : List Act) : Prop :=
  ∀ p page, Act.write p page ∈ acts → p ∉ d.freePages ∧ Act.release p ∉ acts

def InFile (d : DiskManager) (acts : List Act) : Prop :=
  ∀ a ∈ acts, 0 < a.pageId ∧ a.pageId < d.pageCount

section apart

variable {d : DiskManager} {free : List PageId} {acts done : List Act} {a : Act}

theorem Apart.of_isPrefix (h : Apart d acts) (hp : done <+: acts) : Apart d done :=
  fun p page hm => ⟨(h p page (hp.subset hm)).1,fun hr => (h p page (hp.subset hm)).2 (hp.subset hr)⟩

theorem InFile.of_isPrefix (h : InFile d acts) (hp : done <+: acts) : InFile d done :=
  fun a ha => h a (hp.subset ha)

theorem not_mem_of_mounted (h : Mounted d free) {p : PageId} (hp : p ∉ d.freePages) : p ∉ free := by
  rw [h.freePages] at hp
  simpa using hp

/-- Apart actions keep the free list sound, and a page that they do not release ends
with the last image written to it. -/
theorem mounted_applyAll (h : Mounted d free) (hr : InFile d acts) (ha : Apart d acts) :
    (∃ free', Mounted (applyAll d acts) free') ∧
      ∀ p, 0 < p → p ∉ (applyAll d acts).freePages →
        (applyAll d acts).file p = (lastWrite acts p).getD (d.file p) := by
  induction acts using List.reverseRecOn with
  | nil => exact ⟨⟨free,h⟩,fun _ _ _ => rfl⟩
  | append_singleton acts a ih =>
    have hpre : acts <+: acts ++ [a] := List.prefix_append _ _
    obtain ⟨⟨free',hm⟩,hfile⟩ := ih (hr.of_isPrefix hpre) (ha.of_isPrefix hpre)
    have hrange := hr a (by simp)
    rw [← applyAll_pageCount d acts] at hrange
    rw [applyAll_append]
    cases a with
    | write q page =>
      obtain ⟨hq,hrel⟩ := ha q page (by simp)
      have hlive : q ∉ (applyAll d acts).freePages := by
        rw [mem_applyAll_freePages]
        exact fun hc => hc.elim hq fun hc => hrel (by simp [hc])
      refine ⟨⟨free',hm.write hrange (not_mem_of_mounted hm hlive)⟩,fun p hp hfree => ?_⟩
      rw [lastWrite_append]
      by_cases hpq : p = q
      · subst hpq
        simp [Act.apply,noteWrite]
      · have hqp : ¬q = p := fun hc => hpq hc.symm
        have hold := hfile p hp hfree
        simpa [Act.apply,noteWrite,hpq,hqp] using hold
    | release q =>
      by_cases hq : q ∈ (applyAll d acts).freePages
      · simp only [Act.apply,if_pos hq,lastWrite_append]
        exact ⟨⟨free',hm⟩,hfile⟩
      · simp only [Act.apply,if_neg hq,lastWrite_append,noteWrite]
        refine ⟨⟨q :: free',hm.release hrange (not_mem_of_mounted hm hq)⟩,fun p hp hfree => ?_⟩
        rw [release_freePages,Finset.mem_insert,not_or] at hfree
        rw [release_file,Function.update_of_ne (Nat.pos_iff_ne_zero.mp hp),linkPage_file,
          Function.update_of_ne hfree.1]
        exact hfile p hp hfree.2

/-- Opening a mounted file again gives the same manager. -/
theorem openExistingFile_mounted {d : DiskManager} {free : List PageId} (h : Mounted d free) :
    openExistingFile d = .ok d := by
  rw [openExistingFile_onFile h.onFile,← h.isOpen,← h.freePages]

/-- Between the two writes of a release the file is still sound, and opening it drops
what the manager had in memory. -/
theorem mounted_midway {d : DiskManager} {free : List PageId} (h : Mounted d free) {a : Act}
    (hr : 0 < a.pageId ∧ a.pageId < d.pageCount) :
    ∃ d', openExistingFile (a.midway d) = .ok d' ∧ Mounted d' free ∧
      d'.freePages = d.freePages ∧ d'.pageCount = d.pageCount ∧
      ∀ p, a ≠ .release p → d'.file p = d.file p := by
  cases a with
  | write q page => exact ⟨d,openExistingFile_mounted h,h,rfl,rfl,fun _ _ => rfl⟩
  | release q =>
    simp only [Act.midway]
    split
    · exact ⟨d,openExistingFile_mounted h,h,rfl,rfl,fun _ _ => rfl⟩
    · rename_i hq
      have hlink : Mounted (d.linkPage q) free := h.write hr (not_mem_of_mounted h hq)
      refine ⟨d.linkPage q,?_,hlink,rfl,rfl,fun p hp => ?_⟩
      · have honfile : OnFile { d.linkPage q with freeListHead := q } d.pageCount d.freeListHead
            d.catalogHead free := hlink.onFile.of_file rfl rfl
        rw [openExistingFile_onFile honfile]
        congr 1
        simp [DiskManager.linkPage,DiskManager.writePage,← h.freePages,h.isOpen]
      · have hne : p ≠ q := fun hc => hp (hc ▸ rfl)
        rw [linkPage_file,Function.update_of_ne hne]

end apart

end Recovery
end OurSql
