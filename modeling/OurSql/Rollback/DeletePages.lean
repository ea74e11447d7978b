import OurSql.Rollback.Pool

/-! `DeletePages` without a transaction: all pages are reserved before the first one is freed.
When an I/O step fails, the page that it was for keeps its reservation. -/
namespace OurSql
namespace Rollback

open Storage

namespace Pool

def validateDataPageId (p : PageId) : Status :=
  if p = invalidPageId ∨ p = 0 then
    fail .invalidArgument ("缓冲池不能操作该页面编号: " ++ toString p)
  else .ok ()

/-- The first loop of `DeletePages`. -/
def checkPages : List PageId → List PageId → Status
  | _, [] => .ok ()
  | seen, p::ps =>
    match validateDataPageId p with
    | .error e => .error e
    | .ok () =>
      if p ∈ seen then fail .invalidArgument ("批量删除列表包含重复页面: " ++ toString p)
      else checkPages (p::seen) ps

def cancelPages (s : Pool) (ps : List PageId) : Pool :=
  ps.foldl (fun s p => (s.cancelPageDeletion p).2) s

def reservePages : List PageId → List PageId → Pool → Status × Pool
  | _, [], s => (.ok (),s)
  | reserved, p::ps, s =>
    match s.beginPageDeletion p with
    | (.error e,s) => (.error e,s.cancelPages reserved)
    | (.ok (),s) => reservePages (reserved ++ [p]) ps s

/-- The last loop: when a page fails, the reservations of the pages behind it are cancelled. -/
def finalizePages (faults : PageId → Faults) : List PageId → Pool → Status × Pool
  | [], s => (.ok (),s)
  | p::ps, s =>
    match s.finalizePageDeletion (faults p) p with
    | (.error e,s) => (.error e,s.cancelPages ps)
    | (.ok (),s) => finalizePages faults ps s

/-- `DeletePages`; a page is finalized once, with the faults of its own. -/
def deletePages (s : Pool) (faults : PageId → Faults) (ps : List PageId) : Status × Pool :=
  match checkPages [] ps with
  | .error e => (.error e,s)
  | .ok () =>
    match reservePages [] ps s with
    | (.error e,s) => (.error e,s)
    | (.ok (),s) => finalizePages faults ps s

/-- `FetchPage`, when the pool has a frame for the page: what its guard shows. -/
def fetchPage (s : Pool) (p : PageId) : Result Page :=
  match validateDataPageId p with
  | .error e => .error e
  | .ok () =>
    if p ∈ s.pending then fail .notFound ("页面正在删除: " ++ toString p)
    else match s.frames p with
      | none => s.disk.readPhysicalPage p
      | some frame =>
        if frame.state = .deletePending then fail .notFound ("页面正在删除: " ++ toString p)
        else .ok frame.page

def flushPage (s : Pool) (f : Faults) (p : PageId) : Status × Pool :=
  match s.frames p with
  | none => (fail .notFound ("页面不在 BufferPool 中，无法 Flush: " ++ toString p),s)
  | some frame =>
    if frame.state = .deletePending then
      (fail .notFound ("页面正在删除，无法 Flush: " ++ toString p),s)
    else
      match s.flushFrame f p frame with
      | (.error e,d) => (.error e,{ s with disk := d })
      | (.ok (),d) => (.ok (),{ s with disk := d }.setFrame p (some { frame with isDirty := false }))

def flushAllPages (faults : PageId → Faults) : List PageId → Pool → Status × Pool
  | [], s => (.ok (),s)
  | p::ps, s =>
    match s.flushPage (faults p) p with
    | (.ok (),s) => flushAllPages faults ps s
    | (.error e,s) => if e.code = .notFound then flushAllPages faults ps s else (.error e,s)

/-- `Close` of an open pool, whose frames hold the pages `cached`. -/
def close (s : Pool) (faults : PageId → Faults) (cached : List PageId) : Status :=
  match flushAllPages faults cached s with
  | (.error e,_) => .error e
  | (.ok (),s) =>
    if s.pending.Nonempty then fail .invalidArgument "BufferPool 仍有待完成的页面删除" else .ok ()

/-- No I/O step fails that the deletion of the page needs. -/
def Works (s : Pool) (f : Faults) (p : PageId) : Prop :=
  p ∈ s.disk.freePages ∨
    (∀ frame, s.frames p = some frame → frame.isDirty = true → f.wal = false ∧ f.flush = none) ∧
      f.page = none ∧ f.superblock = none

end Pool

/-- What a failed call leaves: each page is free or can be read, the call can be repeated, and
the pool can be closed if it could be before. -/
structure Retryable (s s' : Pool) (ps : List PageId) : Prop where
  accessible : ∀ p ∈ ps, p ∈ s'.disk.freePages ∨ ∃ page, s'.fetchPage p = .ok page
  repeatable : (s'.deletePages (fun _ => {}) ps).1 = .ok ()
  closable : ∀ cached, s.close (fun _ => {}) cached = .ok () → s'.close (fun _ => {}) cached = .ok ()

/-- The pages are reserved and wait for their finalization. -/
structure Ready (s : Pool) (ps : List PageId) : Prop where
  mounted : ∃ free, Mounted s.disk free
  range : ∀ p ∈ ps, 0 < p ∧ p < s.disk.pageCount
  pending : ∀ p ∈ ps, p ∈ s.pending
  idle : ∀ p ∈ ps, ∀ frame, s.frames p = some frame →
    p ∉ s.disk.freePages ∧ frame.state = .deletePending ∧ frame.pins = 0

variable {s s' : Pool} {p q : PageId} {ps : List PageId} {f : Faults} {d : DiskManager}
  {free : List PageId}

/-! ### One finalization -/

theorem Leaves.works (h : Leaves s s' p) (hq : q ≠ p) : s'.Works f q ↔ s.Works f q := by
  rw [Pool.Works,Pool.Works,h.frames hq,h.free hq]

theorem Ready.leaves (h : Ready s (p::ps)) (hn : p ∉ ps) (hl : Leaves s s' p)
    (hm : ∃ free, Mounted s'.disk free) : Ready s' ps where
  mounted := hm
  range := by
    intro q hq
    rw [hl.count]
    exact h.range q (List.mem_cons_of_mem _ hq)
  pending := by
    intro q hq
    have hne : q ≠ p := fun he => hn (he ▸ hq)
    exact (hl.pending hne).mpr (h.pending q (List.mem_cons_of_mem _ hq))
  idle := by
    intro q hq frame hf
    have hne : q ≠ p := fun he => hn (he ▸ hq)
    rw [hl.free hne]
    exact h.idle q (List.mem_cons_of_mem _ hq) frame ((hl.frames hne).symm.trans hf)

/-- The page goes to the free list exactly when the two writes of it succeed. -/
theorem deallocatePage_answer (hm : Mounted d free) (hp : 0 < p ∧ p < d.pageCount)
    (hfree : p ∉ free) (f : Faults) :
    (f.page = none ∧ f.superblock = none → (d.deallocatePage f.page f.superblock p).1 = .ok ()) ∧
    (¬ (f.page = none ∧ f.superblock = none) →
      ∃ e, (d.deallocatePage f.page f.superblock p).1 = .error e) := by
  constructor
  · rintro ⟨hpage,hsuper⟩
    rw [hpage,hsuper,deallocatePage_ok hm hp hfree]
  · intro hfault
    cases hpage : f.page with
    | some fault =>
      rw [deallocatePage_pageFault hm hp hfree]
      exact ⟨_,rfl⟩
    | none =>
      cases hsuper : f.superblock with
      | some fault =>
        rw [deallocatePage_superblockFault hm hp hfree]
        exact ⟨_,rfl⟩
      | none => exact absurd ⟨hpage,hsuper⟩ hfault

theorem flushFrame_answer (hm : Mounted s.disk free) (hp : p < s.disk.pageCount) (f : Faults)
    (frame : Frame) :
    ((frame.isDirty = true → f.wal = false ∧ f.flush = none) →
      (s.flushFrame f p frame).1 = .ok ()) ∧
    (¬ (frame.isDirty = true → f.wal = false ∧ f.flush = none) →
      ∃ e, (s.flushFrame f p frame).1 = .error e) := by
  rw [Pool.flushFrame]
  cases hd : frame.isDirty with
  | false => exact ⟨fun _ => rfl,fun h => absurd (fun h => by cases h) h⟩
  | true =>
    cases hw : f.wal with
    | true => exact ⟨fun h => absurd (h rfl).1 (by simp),fun _ => ⟨_,rfl⟩⟩
    | false =>
      cases hf : f.flush with
      | none =>
        rw [writePhysicalPage_good hm.isOpen hp]
        exact ⟨fun _ => rfl,fun h => absurd (fun _ => ⟨rfl,rfl⟩) h⟩
      | some fault =>
        rw [writePhysicalPage_fault hm.isOpen hp]
        exact ⟨fun h => absurd (h rfl).2 (by simp),fun _ => ⟨_,rfl⟩⟩

/-- The end of a finalization: the page is free, or the call has failed and it is not. -/
inductive Finalized (s : Pool) (p : PageId) : Status × Pool → Prop
  | freed {s' : Pool} : Leaves s s' p → (∃ free, Mounted s'.disk free) → Finalized s p (.ok (),s')
  | failed {s' : Pool} (e : Failure) : p ∈ s'.pending → p ∉ s'.disk.freePages →
      Finalized s p (.error e,s')

/-- `DeallocatePage` and what follows it, on a pool that `s` has become. -/
theorem finalized_deallocate (hm : Mounted d free) (hp : 0 < p ∧ p < d.pageCount) (hfree : p ∉ free)
    (hd : Elsewhere s.disk d p) (hpend : p ∈ s.pending) (f : Faults)
    (frames : PageId → Option Frame) (hframes : ∀ {q}, q ≠ p → frames q = s.frames q) :
    (f.page = none ∧ f.superblock = none →
      ∃ s', Pool.freed (d.deallocatePage f.page f.superblock p).1 = true ∧
        s' = ⟨(d.deallocatePage f.page f.superblock p).2,frames,s.pending.erase p⟩ ∧
        Finalized s p (.ok (),s')) ∧
    (¬ (f.page = none ∧ f.superblock = none) →
      ∃ e, (d.deallocatePage f.page f.superblock p).1 = .error e ∧
        Pool.freed (d.deallocatePage f.page f.superblock p).1 = false ∧
        Finalized s p (.error e,⟨(d.deallocatePage f.page f.superblock p).2,s.frames,s.pending⟩)) := by
  obtain ⟨hrun,hcases⟩ := deallocatePage_run hm hp hfree f
  obtain ⟨hgood,hbad⟩ := deallocatePage_answer hm hp hfree f
  constructor
  · intro hio
    have hok := hgood hio
    refine ⟨_,by rw [hok]; rfl,rfl,.freed ?_ ?_⟩
    · exact (hd.trans hrun).leaves hframes fun hq => by simp [hq]
    · rcases hcases with ⟨-,hmounted⟩ | ⟨e,he,-⟩
      · exact ⟨_,hmounted⟩
      · cases hok.symm.trans he
  · intro hio
    obtain ⟨e,he⟩ := hbad hio
    rcases hcases with ⟨hok,-⟩ | ⟨e',he',hcode,hnot⟩
    · cases he.symm.trans hok
    · obtain rfl : e = e' := Except.error.inj (he.symm.trans he')
      refine ⟨e,he,?_,.failed e hpend hnot⟩
      rw [he,Pool.freed,hcode]
      rfl

/-- A finalization succeeds exactly when its I/O steps do. -/
theorem finalize_spec (h : Ready s (p::ps)) (f : Faults) :
    Finalized s p (s.finalizePageDeletion f p) ∧
      ((s.finalizePageDeletion f p).1 = .ok () ↔ s.Works f p) := by
  have hp := h.range p List.mem_cons_self
  have hpend := h.pending p List.mem_cons_self
  have hidle := h.idle p List.mem_cons_self
  obtain ⟨free,hm⟩ := h.mounted
  have herase : ∀ {q}, q ≠ p → (q ∈ s.pending.erase p ↔ q ∈ s.pending) := fun hq => by simp [hq]
  rw [Pool.finalizePageDeletion,if_neg (not_not.mpr hpend)]
  by_cases hfree : p ∈ s.disk.freePages
  · -- a page that is free already is taken for one freed just now
    have hnone : s.frames p = none := by
      cases hf : s.frames p with
      | none => rfl
      | some frame => exact absurd hfree (hidle frame hf).1
    rw [hnone,deallocatePage_free hm hp hfree]
    refine ⟨.freed ?_ ⟨free,hm⟩,iff_of_true rfl (.inl hfree)⟩
    exact ⟨fun _ => rfl,fun _ _ => rfl,herase,fun _ => Iff.rfl,rfl⟩
  have hlist : p ∉ free := by rwa [hm.freePages,List.mem_toFinset] at hfree
  cases hf : s.frames p with
  | none =>
    have hsame : Elsewhere s.disk s.disk p := ⟨fun _ _ => rfl,fun _ => Iff.rfl,rfl⟩
    obtain ⟨hgood,hbad⟩ :=
      finalized_deallocate hm hp hlist hsame hpend f s.frames fun _ => rfl
    dsimp only
    by_cases hio : f.page = none ∧ f.superblock = none
    · obtain ⟨s',hfreed,rfl,hfin⟩ := hgood hio
      rw [if_pos hfreed]
      refine ⟨hfin,iff_of_true rfl (.inr ⟨fun frame hf' => ?_,hio⟩)⟩
      cases hf.symm.trans hf'
    · obtain ⟨e,he,hfreed,hfin⟩ := hbad hio
      rw [he] at hfreed ⊢
      rw [if_neg (by simp [hfreed])]
      refine ⟨hfin,iff_of_false (by simp) fun hw => hio (hw.resolve_left hfree).2⟩
  | some frame =>
    obtain ⟨-,hstate,hpins⟩ := hidle frame hf
    dsimp only
    rw [if_neg (by simp [hstate,hpins])]
    obtain ⟨hflushed,hmounted,-⟩ := flushFrame_run (s := s) hm hp hlist f frame
    obtain ⟨hclean,hstuck⟩ := flushFrame_answer (s := s) hm hp.2 f frame
    rcases hw : s.flushFrame f p frame with ⟨answer,d⟩
    rw [hw] at hflushed hmounted hclean hstuck
    have hframe (hall : s.Works f p) : frame.isDirty = true → f.wal = false ∧ f.flush = none :=
      (hall.resolve_left hfree).1 frame hf
    by_cases hflush : frame.isDirty = true → f.wal = false ∧ f.flush = none
    · obtain rfl : answer = .ok () := hclean hflush
      have hpd : 0 < p ∧ p < d.pageCount := ⟨hp.1,hflushed.count ▸ hp.2⟩
      obtain ⟨hgood,hbad⟩ := finalized_deallocate hmounted hpd hlist hflushed hpend f
        (Function.update s.frames p none) fun hq => Function.update_of_ne hq ..
      dsimp only at hgood hbad ⊢
      by_cases hio : f.page = none ∧ f.superblock = none
      · obtain ⟨s',hfreed,rfl,hfin⟩ := hgood hio
        rw [if_pos hfreed]
        refine ⟨hfin,iff_of_true rfl (.inr ⟨fun frame' hf' => ?_,hio⟩)⟩
        obtain rfl := Option.some.inj (hf.symm.trans hf')
        exact hflush
      · obtain ⟨e,he,hfreed,hfin⟩ := hbad hio
        rw [he] at hfreed ⊢
        rw [if_neg (by simp [hfreed])]
        exact ⟨hfin,iff_of_false (by simp) fun hall => hio (hall.resolve_left hfree).2⟩
    · obtain ⟨e,rfl⟩ : ∃ e, answer = .error e := hstuck hflush
      refine ⟨.failed e hpend ?_,iff_of_false (by simp) fun hall => hflush (hframe hall)⟩
      have hpages : d.freePages = free.toFinset := hmounted.freePages
      rw [hpages,List.mem_toFinset]
      exact hlist

/-! ### The list -/

theorem cancelPageDeletion_other (s : Pool) (h : p ≠ q) :
    (s.cancelPageDeletion q).2.disk = s.disk ∧
      (p ∈ (s.cancelPageDeletion q).2.pending ↔ p ∈ s.pending) := by
  unfold Pool.cancelPageDeletion
  split
  · exact ⟨rfl,Iff.rfl⟩
  split
  · exact ⟨rfl,by simp [h]⟩
  split
  · exact ⟨rfl,Iff.rfl⟩
  · exact ⟨rfl,by simp [Pool.setFrame,h]⟩

theorem cancelPages_other : ∀ {ps : List PageId} (s : Pool), p ∉ ps →
    (s.cancelPages ps).disk = s.disk ∧ (p ∈ (s.cancelPages ps).pending ↔ p ∈ s.pending)
  | [], _, _ => ⟨rfl,Iff.rfl⟩
  | q::ps, s, h => by
    rw [List.mem_cons,not_or] at h
    obtain ⟨hdisk,hpend⟩ := cancelPageDeletion_other s h.1
    obtain ⟨hdisk',hpend'⟩ := cancelPages_other (s.cancelPageDeletion q).2 h.2
    exact ⟨hdisk'.trans hdisk,hpend'.trans hpend⟩

/-- The last loop succeeds when all its I/O steps do; else a page is left reserved. -/
theorem finalizePages_spec (faults : PageId → Faults) : ∀ {ps : List PageId} {s : Pool}, Ready s ps → ps.Nodup →
    ((∀ p ∈ ps, s.Works (faults p) p) → (Pool.finalizePages faults ps s).1 = .ok ()) ∧
    (¬ (∀ p ∈ ps, s.Works (faults p) p) → (∃ e, (Pool.finalizePages faults ps s).1 = .error e) ∧
      ∃ p ∈ ps, p ∈ (Pool.finalizePages faults ps s).2.pending ∧
        p ∉ (Pool.finalizePages faults ps s).2.disk.freePages)
  | [], s, _, _ => ⟨fun _ => rfl,fun h => absurd (fun _ hp => absurd hp List.not_mem_nil) h⟩
  | p::ps, s, h, hn => by
    obtain ⟨hp,hn⟩ := List.nodup_cons.mp hn
    obtain ⟨hfin,hiff⟩ := finalize_spec h (faults p)
    rw [Pool.finalizePages]
    rcases hw : s.finalizePageDeletion (faults p) p with ⟨answer,s'⟩
    rw [hw] at hfin hiff
    cases hfin with
    | freed hleaves hmounted =>
      have hworks : s.Works (faults p) p := hiff.mp rfl
      have hready := h.leaves hp hleaves hmounted
      obtain ⟨hgood,hbad⟩ := finalizePages_spec faults hready hn
      have hrest : (∀ q ∈ ps, s'.Works (faults q) q) ↔ ∀ q ∈ p::ps, s.Works (faults q) q := by
        rw [List.forall_mem_cons]
        constructor
        · exact fun hall => ⟨hworks,fun q hq => (hleaves.works fun he => hp (he ▸ hq)).mp (hall q hq)⟩
        · exact fun hall q hq => (hleaves.works fun he => hp (he ▸ hq)).mpr (hall.2 q hq)
      dsimp only
      rw [← hrest]
      refine ⟨hgood,fun hnot => ?_⟩
      obtain ⟨he,q,hq,hstays⟩ := hbad hnot
      exact ⟨he,q,List.mem_cons_of_mem _ hq,hstays⟩
    | failed e hpend hfree =>
      have hnot : ¬ s.Works (faults p) p := fun hall => by cases hiff.mpr hall
      obtain ⟨hdisk,hmem⟩ := cancelPages_other s' hp
      refine ⟨fun hall => absurd (hall p List.mem_cons_self) hnot,fun _ => ⟨⟨e,rfl⟩,p,
        List.mem_cons_self,hmem.mpr hpend,?_⟩⟩
      dsimp only
      rwa [hdisk]

theorem checkPages_nodup : ∀ {ps seen : List PageId}, Pool.checkPages seen ps = .ok () →
    ps.Nodup ∧ ∀ p ∈ ps, p ∉ seen ∧ ¬ (p = invalidPageId ∨ p = 0)
  | [], _, _ => ⟨List.nodup_nil,fun _ hp => absurd hp List.not_mem_nil⟩
  | p::ps, seen, h => by
    rw [Pool.checkPages] at h
    split at h
    · cases h
    next hvalid =>
    split at h
    · cases h
    next hseen =>
    obtain ⟨hn,hall⟩ := checkPages_nodup h
    have hid : ¬ (p = invalidPageId ∨ p = 0) := by
      intro hbad
      rw [Pool.validateDataPageId,if_pos hbad] at hvalid
      cases hvalid
    refine ⟨List.nodup_cons.mpr ⟨fun hp => (hall p hp).1 List.mem_cons_self,hn⟩,?_⟩
    rw [List.forall_mem_cons]
    exact ⟨⟨hseen,hid⟩,fun q hq => ⟨fun hm => (hall q hq).1 (List.mem_cons_of_mem _ hm),(hall q hq).2⟩⟩

/-- What a reservation does. -/
structure Reserved (s s' : Pool) (p : PageId) : Prop where
  disk : s'.disk = s.disk
  pending : s'.pending = insert p s.pending
  frame : s'.frames p = (s.frames p).map fun frame => { frame with state := .deletePending }
  others : ∀ q, q ≠ p → s'.frames q = s.frames q
  idle : ∀ frame, s.frames p = some frame → frame.pins = 0

theorem beginPageDeletion_reserved (h : s.beginPageDeletion p = (.ok (),s')) : Reserved s s' p := by
  rw [Pool.beginPageDeletion] at h
  split at h
  · cases h
  split at h
  · cases h
  split at h
  · next hf =>
    obtain rfl := (Prod.mk.inj h).2
    exact ⟨rfl,rfl,by rw [hf]; rfl,fun _ _ => rfl,fun frame hf' => by cases hf.symm.trans hf'⟩
  · next frame hf =>
    split at h
    · cases h
    next hidle =>
    obtain rfl := (Prod.mk.inj h).2
    refine ⟨rfl,rfl,?_,fun q hq => Function.update_of_ne hq ..,fun frame' hf' => ?_⟩
    · rw [hf]
      exact Function.update_self ..
    · obtain rfl := Option.some.inj (hf.symm.trans hf')
      tauto

theorem reservePages_reserved : ∀ {ps reserved : List PageId} {s s' : Pool}, ps.Nodup →
    Pool.reservePages reserved ps s = (.ok (),s') → s'.disk = s.disk ∧
      s.pending ⊆ s'.pending ∧ (∀ q, q ∉ ps → s'.frames q = s.frames q) ∧
      ∀ p ∈ ps, p ∈ s'.pending ∧
        (s'.frames p = (s.frames p).map fun frame => { frame with state := .deletePending }) ∧
        ∀ frame, s.frames p = some frame → frame.pins = 0
  | [], _, s, s', _, h => by
    obtain rfl := (Prod.mk.inj h).2
    exact ⟨rfl,Finset.Subset.refl _,fun _ _ => rfl,fun _ hp => absurd hp List.not_mem_nil⟩
  | p::ps, reserved, s, s', hn, h => by
    obtain ⟨hp,hn⟩ := List.nodup_cons.mp hn
    rw [Pool.reservePages] at h
    split at h
    · cases h
    next s₁ hbegin =>
    have hone := beginPageDeletion_reserved hbegin
    obtain ⟨hdisk,hpend,hothers,hall⟩ := reservePages_reserved hn h
    have hsub : s.pending ⊆ s₁.pending := by
      rw [hone.pending]
      exact Finset.subset_insert _ _
    refine ⟨hdisk.trans hone.disk,hsub.trans hpend,fun q hq => ?_,?_⟩
    · rw [List.mem_cons,not_or] at hq
      exact (hothers q hq.2).trans (hone.others q hq.1)
    · rw [List.forall_mem_cons]
      refine ⟨⟨hpend (hone.pending ▸ Finset.mem_insert_self ..),?_,hone.idle⟩,fun q hq => ?_⟩
      · rw [hothers p hp,hone.frame]
      · have hne : q ≠ p := fun he => hp (he ▸ hq)
        rw [← hone.others q hne]
        exact hall q hq

/-! ### A list that is refused -/

/-- The pages can be reserved. -/
def Idle (s : Pool) (p : PageId) : Prop :=
  p ∉ s.pending ∧ ∀ frame, s.frames p = some frame → frame.state = .valid ∧ frame.pins = 0

/-- The pool with some pages reserved. -/
def Pool.marked (s : Pool) (ps : List PageId) : Pool where
  disk := s.disk
  frames q := if q ∈ ps then (s.frames q).map fun frame => { frame with state := .deletePending }
    else s.frames q
  pending := s.pending ∪ ps.toFinset

theorem marked_nil : s.marked [] = s := by
  simp [Pool.marked]

theorem beginPageDeletion_error {e : Failure} (h : s.beginPageDeletion p = (.error e,s')) :
    s' = s := by
  rw [Pool.beginPageDeletion] at h
  split at h
  · exact (Prod.mk.inj h).2.symm
  split at h
  · exact (Prod.mk.inj h).2.symm
  split at h
  · cases h
  split at h
  · exact (Prod.mk.inj h).2.symm
  · cases h

theorem beginPageDeletion_marked (h : (s.marked ps).beginPageDeletion p = (.ok (),s')) :
    p ∉ ps ∧ Idle s p ∧ s' = s.marked (ps ++ [p]) := by
  have hres := beginPageDeletion_reserved h
  rw [Pool.beginPageDeletion] at h
  split at h
  · cases h
  split at h
  · cases h
  next hpend =>
  simp only [Pool.marked,Finset.mem_union,List.mem_toFinset,not_or] at hpend
  have hframe : (s.marked ps).frames p = s.frames p := if_neg hpend.2
  refine ⟨hpend.2,⟨hpend.1,fun frame hf => ?_⟩,?_⟩
  · rw [hframe,hf] at h
    dsimp only at h
    split at h
    · cases h
    · tauto
  · obtain ⟨d',frames',pending'⟩ := s'
    obtain rfl : d' = s.disk := hres.disk
    obtain rfl : pending' = insert p (s.pending ∪ ps.toFinset) := hres.pending
    have hframes : frames' = (s.marked (ps ++ [p])).frames := by
      funext q
      by_cases hq : q = p
      · subst hq
        have hf := hres.frame
        rw [hframe] at hf
        simpa [Pool.marked] using hf
      · have hf := hres.others q hq
        simpa [Pool.marked,hq] using hf
    rw [hframes]
    simp [Pool.marked,Finset.union_insert]

theorem cancelPageDeletion_marked (hi : Idle s p) (hp : p ∉ ps) :
    (s.marked (p::ps)).cancelPageDeletion p = (.ok (),s.marked ps) := by
  have hmem : p ∈ (s.marked (p::ps)).pending := by simp [Pool.marked]
  have hpending : (s.marked (p::ps)).pending.erase p = (s.marked ps).pending := by
    simp [Pool.marked,Finset.union_insert,Finset.erase_insert_eq_erase,hi.1,hp]
  rw [Pool.cancelPageDeletion,if_neg (not_not.mpr hmem),hpending]
  have hframe : (s.marked (p::ps)).frames p =
      (s.frames p).map fun frame => { frame with state := .deletePending } :=
    if_pos List.mem_cons_self
  have hothers : ∀ q, q ≠ p → (s.marked (p::ps)).frames q = (s.marked ps).frames q := by
    intro q hq
    simp [Pool.marked,hq]
  have hself : (s.marked ps).frames p = s.frames p := if_neg hp
  rw [hframe]
  cases hf : s.frames p with
  | none =>
    have hframes : (s.marked (p::ps)).frames = (s.marked ps).frames := by
      funext q
      by_cases hq : q = p
      · rw [hq,hframe,hself,hf,Option.map_none]
      · exact hothers q hq
    dsimp only [Option.map_none]
    rw [hframes]
    rfl
  | some frame =>
    obtain ⟨hvalid,hpins⟩ := hi.2 frame hf
    have hframes : Function.update (s.marked (p::ps)).frames p
        (some { frame with state := .valid }) = (s.marked ps).frames := by
      funext q
      by_cases hq : q = p
      · rw [hq,Function.update_self,hself,hf,← hvalid]
      · rw [Function.update_of_ne hq,hothers q hq]
    dsimp only [Option.map_some]
    rw [if_neg (by simp [hpins])]
    simp only [Pool.setFrame]
    rw [hframes]
    rfl

theorem cancelPages_marked : ∀ {ps : List PageId}, (∀ p ∈ ps, Idle s p) → ps.Nodup →
    (s.marked ps).cancelPages ps = s
  | [], _, _ => marked_nil
  | p::ps, hi, hn => by
    obtain ⟨hp,hn⟩ := List.nodup_cons.mp hn
    rw [Pool.cancelPages,List.foldl_cons,cancelPageDeletion_marked (hi p List.mem_cons_self) hp]
    exact cancelPages_marked (fun q hq => hi q (List.mem_cons_of_mem _ hq)) hn

theorem reservePages_error {e : Failure} : ∀ {ps reserved : List PageId},
    (∀ p ∈ reserved, Idle s p) → reserved.Nodup →
    Pool.reservePages reserved ps (s.marked reserved) = (.error e,s') → s' = s
  | [], _, _, _, h => by cases h
  | p::ps, reserved, hi, hn, h => by
    rw [Pool.reservePages] at h
    split at h
    · next hbegin =>
      rw [beginPageDeletion_error hbegin,cancelPages_marked hi hn] at h
      exact (Prod.mk.inj h).2.symm
    · next hbegin =>
      obtain ⟨hp,hidle,rfl⟩ := beginPageDeletion_marked hbegin
      refine reservePages_error (fun q hq => ?_) ?_ h
      · rcases List.mem_append.mp hq with hq | hq
        · exact hi q hq
        · rw [List.mem_singleton.mp hq]
          exact hidle
      · rw [List.nodup_append_comm]
        exact List.nodup_cons.mpr ⟨hp,hn⟩

/-- A list that does not pass the two loops before the first I/O step changes nothing. -/
theorem deletePages_refused (faults : PageId → Faults)
    (h : ¬ (Pool.checkPages [] ps = .ok () ∧ (Pool.reservePages [] ps s).1 = .ok ())) :
    (s.deletePages faults ps).2 = s := by
  rw [Pool.deletePages]
  split
  · rfl
  · next hcheck =>
    split
    · next e s' hs =>
      rw [← marked_nil (s := s)] at hs
      exact reservePages_error (fun _ hp => absurd hp List.not_mem_nil) List.nodup_nil hs
    · next s' hs => exact absurd ⟨hcheck,congrArg Prod.fst hs⟩ h

/-! ### The whole call -/

/-- What a list is once it is reserved. -/
theorem reservePages_ready (h : Sound s) (hcheck : Pool.checkPages [] ps = .ok ())
    (hfile : ∀ p ∈ ps, p < s.disk.pageCount) (hs : Pool.reservePages [] ps s = (.ok (),s')) :
    Ready s' ps ∧ ∀ p ∈ ps, ∀ f, s'.Works f p ↔ s.Works f p := by
  obtain ⟨hn,hid⟩ := checkPages_nodup hcheck
  obtain ⟨hdisk,-,-,hall⟩ := reservePages_reserved hn hs
  refine ⟨⟨?_,fun p hp => ?_,fun p hp => (hall p hp).1,fun p hp frame' hf' => ?_⟩,
    fun p hp f => ?_⟩
  · rw [hdisk]
    exact h.mounted
  · rw [hdisk]
    have hne := (hid p hp).2
    exact ⟨Nat.pos_of_ne_zero fun h0 => hne (.inr h0),hfile p hp⟩
  · obtain ⟨-,hframe,hidle⟩ := hall p hp
    rw [hframe] at hf'
    obtain ⟨frame,hf,rfl⟩ := Option.map_eq_some_iff.mp hf'
    rw [hdisk]
    exact ⟨(h.cached hf).1,rfl,hidle frame hf⟩
  · obtain ⟨-,hframe,-⟩ := hall p hp
    rw [Pool.Works,Pool.Works,hdisk,hframe]
    cases s.frames p <;> simp

/-- A page that stays reserved is neither free nor to be read. -/
theorem not_retryable (hp : p ∈ ps) (hpend : p ∈ s'.pending) (hfree : p ∉ s'.disk.freePages) :
    ¬ Retryable s s' ps := by
  intro h
  obtain ⟨page,hpage⟩ := (h.accessible p hp).resolve_left hfree
  rw [Pool.fetchPage] at hpage
  split at hpage
  · cases hpage
  · rw [if_pos hpend] at hpage
    cases hpage

def samplePool : Pool := ⟨sampleDisk,fun _ => none,∅⟩

def sampleFaults (p : PageId) : Faults := if p = 1 then {page := some .seek} else {}

theorem samplePool_sound : Sound samplePool where
  mounted := ⟨[],sampleDisk_mounted⟩
  cached := fun h => by cases h
  pending := fun h => absurd h (Finset.notMem_empty _)

end Rollback
end OurSql
