import OurSql.Recovery.History
import OurSql.Recovery.Run

/-! Recovery of a file that already holds everything the log says: what redo leaves
alone, and the free pages whose links it may overwrite. -/
namespace OurSql
namespace Recovery

open Crash Storage Chain Transition

/-- A record whose redo names a page of the file. -/
theorem redoAct_pageId {transactions : Transactions} {r : LogRecord} {a : Act}
    (h : redoAct transactions r = some a) (hc : r.type ≠ .compensation) :
    a.pageId = r.pageId ∧ (r.type = .pageUpdate ∨ r.type = .pageFree) := by
  unfold redoAct at h
  split at h
  · cases h
  cases ht : r.type with
  | pageUpdate =>
    simp only [ht,Option.map_eq_some_iff] at h
    obtain ⟨page,-,rfl⟩ := h
    exact ⟨rfl,.inl rfl⟩
  | pageFree =>
    simp only [ht,Option.some.injEq] at h
    exact ⟨h ▸ rfl,.inr rfl⟩
  | compensation => exact absurd ht hc
  | begin => simp [ht] at h
  | pageAllocate => simp [ht] at h
  | commit => simp [ht] at h
  | abort => simp [ht] at h
  | checkpoint => simp [ht] at h

/-- A log of winners, each of whose records names pages of the file. -/
structure Winners (s : Store) : Prop where
  wellFormed : WellFormed s.log.records
  mounted : ∃ free, Mounted s.disk free
  committed : ∀ r ∈ s.log.records, r.txnId ≠ invalidTxnId ∧ Committed s.log.records r.txnId
  plain : ∀ r ∈ s.log.records, r.type ≠ .compensation
  range : ∀ r ∈ s.log.records, r.type = .pageUpdate ∨ r.type = .pageFree →
    0 < r.pageId ∧ r.pageId < s.disk.pageCount

section winners

variable {s : Store} {order : List TxnId → List TxnId}

theorem Winners.isWinner (h : Winners s) {r : LogRecord} (hr : r ∈ s.log.records) :
    isWinner (analyze s.log.records) r.txnId = true :=
  (isWinner_iff h.wellFormed.finished _).mpr (h.committed r hr)

theorem Winners.isLoser (h : Winners s) (t : TxnId) :
    isLoser (analyze s.log.records) t = false := by
  by_contra hc
  obtain ⟨-,⟨r,hr,rfl⟩,hopen⟩ := (isLoser_iff t).mp (by simpa using hc)
  exact hopen (h.committed r hr).2.ended

theorem Winners.recoverActs (h : Winners s) :
    recoverActs s.log.records = redoActs s.log.records := by
  have hopen : openRecords (Recovery.isLoser (analyze s.log.records)) s.log.records = [] :=
    List.filter_eq_nil_iff.mpr fun r _ => by simp [remains,h.isLoser]
  simp [Recovery.recoverActs,losersUndo,hopen]

theorem Winners.ready (h : Winners s) : Ready s := by
  obtain ⟨free,hm⟩ := h.mounted
  refine ⟨h.wellFormed,hm.isOpen,hm.onFile.bound,fun a ha => ?_⟩
  rw [h.recoverActs] at ha
  obtain ⟨r,hr,hra⟩ := List.mem_filterMap.mp ha
  obtain ⟨hid,ht⟩ := redoAct_pageId hra (h.plain r hr)
  exact hid ▸ h.range r hr ht

theorem Winners.redoAct (h : Winners s) {r : LogRecord} (hr : r ∈ s.log.records) :
    redoAct (analyze s.log.records) r =
      match r.type with
      | .pageUpdate => r.afterImage.map (.write r.pageId)
      | .pageFree => some (.release r.pageId)
      | _ => none := by
  have hplain := h.plain r hr
  unfold Recovery.redoAct
  rw [h.isWinner hr,if_neg (by simp)]
  cases ht : r.type <;> simp_all

theorem Winners.release_mem (h : Winners s) (p : PageId) :
    Act.release p ∈ redoActs s.log.records ↔ Freed s.log.records p := by
  simp only [redoActs,List.mem_filterMap]
  constructor
  · rintro ⟨r,hr,ha⟩
    rw [h.redoAct hr] at ha
    cases ht : r.type <;> simp [ht] at ha
    exact ⟨r,hr,ht,ha⟩
  · rintro ⟨r,hr,ht,rfl⟩
    exact ⟨r,hr,by rw [h.redoAct hr,ht]⟩

theorem Winners.lastWrite (h : Winners s) (p : PageId) :
    lastWrite (redoActs s.log.records) p =
      lastImage everyone s.log.records p := by
  have hprefix : ∀ w, (∀ r ∈ w, r ∈ s.log.records) →
      Recovery.lastWrite (w.filterMap (Recovery.redoAct (analyze s.log.records))) p = lastImage everyone w p := by
    intro w hw
    induction w using List.reverseRecOn with
    | nil => rfl
    | append_singleton w r ih =>
      have hr : r ∈ s.log.records := hw r (by simp)
      have ih := ih fun x hx => hw x (by simp [hx])
      rw [lastImage_append,← ih]
      simp only [List.filterMap_append,List.filterMap_cons,List.filterMap_nil]
      rw [h.redoAct hr]
      cases ht : r.type with
      | pageUpdate =>
        obtain ⟨b,a,-,ha⟩ := encoded_update (h.wellFormed.encoded r hr) ht
        simp [ha,noteImage,ht,lastWrite_append,noteWrite]
      | pageFree => simp [noteImage,ht,lastWrite_append,noteWrite]
      | compensation => simp [noteImage,ht]
      | begin => simp [noteImage,ht]
      | pageAllocate => simp [noteImage,ht]
      | commit => simp [noteImage,ht]
      | abort => simp [noteImage,ht]
      | checkpoint => simp [noteImage,ht]
  exact hprefix _ fun r hr => hr

end winners

/-- Nothing is under way, and everything has reached the file. -/
structure Settled (e : Engine) : Prop where
  idle : ∀ t, e.phase t = .idle
  clean : ∀ p, e.pageLsn p = invalidLsn

/-- `t` holds what `s` holds: the same content in every page in use, and the same
pages on a sound free list, none of them in use. -/
structure Unchanged (s t : Store) : Prop where
  content : ∀ p, InUse s.disk p → t.disk.file p = s.disk.file p
  freePages : t.disk.freePages = s.disk.freePages
  mounted : ∃ free, Mounted t.disk free
  apart : ∀ p, InUse s.disk p → p ∉ t.disk.freePages

/-- The link of a page once its last logged image lies over it. -/
def redoneLink (e : Engine) (p : PageId) : PageId :=
  loadPageId ((lastImage everyone e.log p).getD (e.store.disk.file p)) 0

theorem Forward.winners {e : Engine} (h : Forward e) (hs : Settled e) : Winners e.store where
  wellFormed := h.logOk.wellFormed
  mounted := h.pages.mounted
  committed r hr := by
    refine ⟨(h.logOk.ids r hr).1,?_⟩
    have hphase := h.logOk.phase r.txnId
    rw [hs.idle] at hphase
    obtain ⟨x,hx,hxt,hterm⟩ := hphase r hr rfl
    have hcommit : x.type = .commit := by
      have ha := (h.types x hx).1
      simpa [isTerminal,ha] using hterm
    exact ⟨x,hx,hxt,hcommit⟩
  plain r hr := (h.types r hr).2
  range := h.pages.range

/-- The run of `Recover`. With nothing left to release, it lays the logged images over
the file. -/
theorem Forward.recover {e : Engine} (h : Forward e) (hs : Settled e)
    {order : List TxnId → List TxnId} (ho : IsOrder order) :
    ∃ t, (recover order).run e.store = (some (.ok ()),t) ∧
      (∀ p, p ∈ t.disk.freePages ↔ p ∈ e.store.disk.freePages ∨ Freed e.log p) ∧
      ((∀ p, Freed e.log p → p ∈ e.store.disk.freePages) → t.disk = { e.store.disk with
        file := fun p => (lastImage everyone e.log p).getD (e.store.disk.file p) }) := by
  have hw := h.winners hs
  obtain ⟨free,hm⟩ := hw.mounted
  obtain ⟨added,t,hrun,hrec⟩ := recover_run hw.ready ho
  have hdisk : t.disk = applyAll e.store.disk (redoActs e.store.log.records) := by
    rw [hrec.disk,hw.recoverActs]
  refine ⟨t,hrun,fun p => ?_,fun hfree => ?_⟩
  · rw [hdisk,mem_applyAll_freePages,hw.release_mem]
    rfl
  · rw [hdisk,applyAll_overwrite]
    · simp only [hw.lastWrite]
      rfl
    · exact fun p hp => hfree p ((hw.release_mem p).mp hp)
    · intro a ha
      obtain ⟨r,hr,hra⟩ := List.mem_filterMap.mp ha
      obtain ⟨hid,ht⟩ := redoAct_pageId hra (hw.plain r hr)
      rw [hid,hm.onFile.size]
      exact (hw.range r hr ht).2

/-- Every page the log frees is still free, and the last logged images of the free
pages spell out a sound free list. -/
structure RedoSafe (e : Engine) : Prop where
  freed : ∀ p, Freed e.log p → p ∈ e.store.disk.freePages
  chain : ∃ xs, IsChain (redoneLink e) invalidPageId e.store.disk.freeListHead xs ∧
    xs.toFinset = e.store.disk.freePages

theorem redoSafe_of_unchanged {e : Engine} (h : Forward e) (hs : Settled e)
    {order : List TxnId → List TxnId} (ho : IsOrder order)
    (hun : ∃ t, (recover order).run e.store = (some (.ok ()),t) ∧ Unchanged e.store t) :
    RedoSafe e := by
  obtain ⟨t,hrun,hmem,hover⟩ := h.recover hs ho
  obtain ⟨t',hrun',hun⟩ := hun
  obtain rfl : t = t' := by simpa [hrun] using hrun'
  have hfree : ∀ p, Freed e.log p → p ∈ e.store.disk.freePages := by
    intro p hp
    rw [← hun.freePages]
    exact (hmem p).mpr (.inr hp)
  have hdisk := hover hfree
  obtain ⟨xs,hxs⟩ := hun.mounted
  have hhead : t.disk.freeListHead = e.store.disk.freeListHead := by rw [hdisk]
  refine ⟨hfree,xs,?_,?_⟩
  · rw [← hhead]
    refine hxs.onFile.chain.congr fun p _ => ?_
    simp only [DiskManager.link,hdisk,redoneLink]
  · rw [← hxs.freePages,hun.freePages]

theorem unchanged_of_redoSafe {e : Engine} (h : Forward e) (hs : Settled e)
    {order : List TxnId → List TxnId} (ho : IsOrder order) (hsafe : RedoSafe e) :
    ∃ t, (recover order).run e.store = (some (.ok ()),t) ∧ Unchanged e.store t := by
  have hw := h.winners hs
  obtain ⟨free,hm⟩ := hw.mounted
  obtain ⟨t,hrun,-,hover⟩ := h.recover hs ho
  obtain ⟨hfree,xs,hchain,hxs⟩ := hsafe
  have hdisk := hover hfree
  have hfreePages : t.disk.freePages = e.store.disk.freePages := by rw [hdisk]
  refine ⟨t,hrun,?_,hfreePages,⟨xs,?_⟩,fun p hp => hfreePages ▸ hp.live⟩
  · intro p hp
    rw [hdisk]
    cases hl : lastImage everyone e.log p with
    | none => simp [hl]
    | some page =>
      have hnot : ¬Freed e.log p := fun hc => hp.live (hfree p hc)
      simpa [hl] using ((h.pages.current p page hl hnot).2.2.2 (hs.clean p)).symm
  · have hzero : lastImage everyone e.log 0 = none := by
      cases hl : lastImage everyone e.log 0 with
      | none => rfl
      | some page =>
        obtain ⟨r,hr,ht,hp,-⟩ := exists_of_lastImage hl
        have hpos := (hw.range r hr (.inl ht)).1
        rw [hp] at hpos
        exact absurd hpos (lt_irrefl 0)
    have hmem : ∀ p ∈ xs, p ∈ free := by
      intro p hp
      have hp' : p ∈ xs.toFinset := List.mem_toFinset.mpr hp
      rw [hxs,hm.freePages] at hp'
      exact List.mem_toFinset.mp hp'
    rw [hdisk]
    refine ⟨hm.isOpen,⟨?_,hm.onFile.size,hm.onFile.pos,hm.onFile.bound,hm.onFile.catalog,hchain,
      fun p hp => hm.onFile.range p (hmem p hp)⟩,hxs.symm⟩
    simp only [hzero,Option.getD_none]
    exact hm.onFile.superblock

/-- Recovery of an up-to-date file changes nothing if and only if redo spares the links
of the free pages. -/
theorem recover_unchanged_iff {e : Engine} (h : Forward e) (hs : Settled e)
    {order : List TxnId → List TxnId} (ho : IsOrder order) :
    (∃ t, (recover order).run e.store = (some (.ok ()),t) ∧ Unchanged e.store t) ↔ RedoSafe e :=
  ⟨redoSafe_of_unchanged h hs ho,unchanged_of_redoSafe h hs ho⟩

/-- A file with nothing but its superblock. -/
def emptyFile : DiskManager where
  isOpen := true
  pageCount := 1
  freeListHead := invalidPageId
  catalogHead := invalidPageId
  freePages := ∅
  file := fun _ => superblock 1 invalidPageId invalidPageId
  fileSize := 1

def ones : Page := fun _ => 1

/-- A transaction has begun, taken page 1 and logged that. -/
def allocated : Engine :=
  let e := Engine.start ⟨emptyFile,.empty⟩ (nextTransactionId [])
  let e := (e.newTransaction.appendFor 1 { type := .begin }).setPhase 1 .active
  let e := { e with store := e.store.mapDisk (·.grow), taken := Function.update e.taken 1 (some 1) }
  { ((e.appendFor 1 { type := .pageAllocate, pageId := 1 }).setFrame 1 (some Page.zero)
      invalidLsn).lock 1 1 with taken := Function.update e.taken 1 none }

/-- It has filled the page. -/
def updated : Engine :=
  ((allocated.appendFor 1 (updateRecord 1 (allocated.image 1) ones)).setFrame 1 (some ones)
    (allocated.store.log.appendLsn + 1)).lock 1 1

theorem mounted_emptyFile : Mounted emptyFile [] where
  isOpen := rfl
  onFile := ⟨rfl,rfl,Nat.one_pos,by decide,.inl rfl,rfl,by simp⟩
  freePages := rfl

theorem forward_allocated : Forward allocated := by
  let e0 := Engine.start ⟨emptyFile,.empty⟩ (nextTransactionId [])
  let e1 := (e0.newTransaction.appendFor 1 { type := .begin }).setPhase 1 .active
  let e2 := { e1 with
    store := e1.store.mapDisk (·.grow), taken := Function.update e1.taken 1 (some 1) }
  have h0 : Forward e0 := .init ⟨emptyFile,[],mounted_emptyFile,rfl⟩
  have h1 : Forward e1 := h0.step (a := .begin) ⟨rfl,.begin⟩
  have hgrow : allocatePage.run e1.store = (some (.ok 1),e1.store.mapDisk (·.grow)) := by
    obtain ⟨r,t,hrun,rfl,rfl⟩ := Spec.run (s := e1.store) (spec_allocatePage_grow
      (R := fun _ => True) mounted_emptyFile (by decide) trivial trivial) rfl
    exact hrun
  have h2 : Forward e2 := h1.step (a := .takePage 1)
    ⟨rfl,.takePage (t := 1) (by simp [e1]) rfl (by decide) hgrow⟩
  exact h2.step (a := .logAllocate 1 1)
    ⟨rfl,.logAllocate (by simp [e2,e1]) (by simp [e2]) (.inl rfl)⟩

theorem usable_allocated : allocated.Usable 1 := by
  refine ⟨Nat.one_pos,by decide,by decide,fun t ht => ?_,fun t ht => ?_⟩
  · change Function.update (Function.update (fun _ => none) 1 (some 1)) 1 none t = some 1 at ht
    by_cases h1 : t = 1 <;> simp [h1] at ht
  · change 1 ∈ ([] : List PageId) at ht
    cases ht

theorem forward_updated : Forward updated :=
  forward_allocated.step (a := .update 1 1 ones) ⟨rfl,.update rfl usable_allocated (.inr rfl)⟩

/-- It has committed, and the page has gone to the file. -/
def kept : Engine :=
  let e := (updated.appendFor 1 { type := .commit }).setPhase 1 (.committing 4)
  let e := (e.setDurable 4).setPhase 1 .committed
  ((e.flushFrame 1 ones).unlockAll 1).setPhase 1 .idle

theorem forward_kept : Forward kept := by
  let e1 := (updated.appendFor 1 { type := .commit }).setPhase 1 (.committing 4)
  let e2 := (e1.setDurable 4).setPhase 1 .committed
  let e3 := e2.flushFrame 1 ones
  have h1 : Forward e1 := forward_updated.step (a := .commit 1) ⟨rfl,.commit rfl rfl⟩
  have h2 : Forward e2 := h1.step (a := .commitFlush 1 4) ⟨rfl,.commitFlush rfl⟩
  have h3 : Forward e3 := h2.step (a := .flushPage 1 ones)
    ⟨rfl,.flushPage rfl (by decide) fun t ht => by cases ht⟩
  exact h3.step (a := .finish 1) ⟨rfl,.finish rfl rfl⟩

theorem settled_kept : Settled kept where
  idle t := by
    have hphase : kept.phase = Function.update (Function.update (Function.update (Function.update
        (fun _ => .idle) 1 .active) 1 (.committing 4)) 1 .committed) 1 .idle := rfl
    by_cases ht : t = 1 <;> simp [hphase,ht]
  clean p := by
    have hlsn : kept.pageLsn = Function.update (Function.update (Function.update
        (fun _ => invalidLsn) 1 invalidLsn) 1 3) 1 invalidLsn := rfl
    by_cases hp : p = 1 <;> simp [hlsn,hp]

theorem recover_unchanged_kept :
    ∃ t, (recover id).run kept.store = (some (.ok ()),t) ∧ Unchanged kept.store t := by
  have hlog : kept.log.map (·.type) = [.begin,.pageAllocate,.pageUpdate,.commit] := rfl
  refine (recover_unchanged_iff forward_kept settled_kept fun ts => List.Perm.refl ts).mpr
    ⟨?_,[],rfl,rfl⟩
  rintro p ⟨r,hr,ht,-⟩
  have hmem : r.type ∈ kept.log.map (·.type) := List.mem_map_of_mem hr
  simp [hlog,ht] at hmem

/-- It frees the page again before it commits. -/
def dropped : Engine :=
  let e := { ((updated.appendFor 1 { type := .pageFree, pageId := 1 }).lock 1 1) with
    deferred := Function.update updated.deferred 1 (updated.deferred 1 ++ [1]) }
  let e := (e.appendFor 1 { type := .commit }).setPhase 1 (.committing 5)
  let e := (e.setDurable 5).setPhase 1 .committed
  let e := { e.deletePage 1 with deferred := Function.update e.deferred 1 [] }
  (e.unlockAll 1).setPhase 1 .idle

theorem forward_dropped : Forward dropped := by
  let e1 := { ((updated.appendFor 1 { type := .pageFree, pageId := 1 }).lock 1 1) with
    deferred := Function.update updated.deferred 1 (updated.deferred 1 ++ [1]) }
  let e2 := (e1.appendFor 1 { type := .commit }).setPhase 1 (.committing 5)
  let e3 := (e2.setDurable 5).setPhase 1 .committed
  let e4 := { e3.deletePage 1 with deferred := Function.update e3.deferred 1 [] }
  have hu : updated.Usable 1 := usable_allocated
  have h1 : Forward e1 := forward_updated.step (a := .free 1 1) ⟨rfl,.free rfl hu (.inr rfl)⟩
  have h2 : Forward e2 := h1.step (a := .commit 1) ⟨rfl,.commit rfl rfl⟩
  have h3 : Forward e3 := h2.step (a := .commitFlush 1 5) ⟨rfl,.commitFlush rfl⟩
  have h4 : Forward e4 := h3.step (a := .cleanup 1 1 []) ⟨rfl,.cleanup rfl rfl⟩
  exact h4.step (a := .finish 1) ⟨rfl,.finish rfl rfl⟩

theorem settled_dropped : Settled dropped where
  idle t := by
    have hphase : dropped.phase = Function.update (Function.update (Function.update (Function.update
        (fun _ => .idle) 1 .active) 1 (.committing 5)) 1 .committed) 1 .idle := rfl
    by_cases ht : t = 1 <;> simp [hphase,ht]
  clean p := by
    have hlsn : dropped.pageLsn = Function.update (Function.update (Function.update (Function.update
        (fun _ => invalidLsn) 1 invalidLsn) 1 3) 1 invalidLsn) 1 invalidLsn := rfl
    by_cases hp : p = 1 <;> simp [hlsn,hp]

theorem image_dropped : lastImage everyone dropped.log 1 = some ones := rfl

theorem freeListHead_dropped : dropped.store.disk.freeListHead = 1 := by
  decide

theorem freePages_dropped : dropped.store.disk.freePages = {1} := by
  decide

/-- The counterexample: redo writes the page's image over its link. -/
theorem recover_damages_free_page :
    ¬∀ (e : Engine), Forward e → Settled e → ∀ order, IsOrder order →
      ∃ t, (recover order).run e.store = (some (.ok ()),t) ∧ Unchanged e.store t := by
  intro h
  have hun := h dropped forward_dropped settled_dropped id fun ts => List.Perm.refl ts
  obtain ⟨xs,hchain,hxs⟩ := (redoSafe_of_unchanged forward_dropped settled_dropped
    (fun ts => List.Perm.refl ts) hun).chain
  rw [freeListHead_dropped] at hchain
  rw [freePages_dropped] at hxs
  have hlink : redoneLink dropped 1 = 16843009 := by
    rw [redoneLink,image_dropped,Option.getD_some]
    decide
  cases xs with
  | nil => cases hchain
  | cons x xs =>
    obtain ⟨rfl,-,htail⟩ := hchain
    rw [hlink] at htail
    cases xs with
    | nil => cases htail
    | cons y xs =>
      obtain ⟨rfl,-,-⟩ := htail
      have hy : (16843009 : PageId) ∈ (1 :: 16843009 :: xs).toFinset := by simp
      rw [hxs] at hy
      cases Finset.mem_singleton.mp hy

end Recovery
end OurSql
