import OurSql.Recovery.Held

/-! Recovery of histories that only update pages: after every crash, and after every
recovery that was itself cut off, it brings back the last committed images. -/
namespace OurSql
namespace Recovery

open Crash Storage Transition

/-- What a crash of such a history leaves. A page that no winner and no loser has
updated holds what it held in the beginning. -/
structure Down (base : PageId → Page) (s : Store) : Prop where
  crashed : Crashed base s
  ids : ∀ r ∈ s.log.records, r.txnId ≠ invalidTxnId
  plain : ∀ r ∈ s.log.records, r.type ≠ .pageAllocate ∧ r.type ≠ .pageFree
  live : ∀ r ∈ s.log.records, isUndoable r = true → r.pageId ∉ s.disk.freePages
  initial : ∀ p, ¬Updated s.log.records p → s.disk.file p = base p

/-- The images that the committed transactions have left. -/
def committedImage (w : List LogRecord) (p : PageId) : Option Page :=
  lastImage (fun t => decide (∃ r ∈ w, r.txnId = t ∧ r.type = .commit)) w p

section down

variable {base : PageId → Page} {s t : Store} {xs : List LogRecord}

theorem committedImage_eq {w : List LogRecord} (hf : Finished w)
    (hid : ∀ r ∈ w, r.txnId ≠ invalidTxnId) (p : PageId) :
    committedImage w p = lastImage (isWinner (analyze w)) w p := by
  refine lastImage_congr fun r hr _ _ => ?_
  rw [Bool.eq_iff_iff,isWinner_iff hf,decide_eq_true_eq]
  exact ⟨fun hc => ⟨hid r hr,hc⟩,fun hc => hc.2⟩

theorem Down.not_released (h : Down base s) (p : PageId) : ¬Released s.log.records p := by
  rintro (⟨t,-,r,hr,-,ht,-⟩ | ⟨t,-,r,hr,-,ht,-⟩)
  · exact (h.plain r hr).2 ht
  · exact (h.plain r hr).1 ht

theorem Down.spared (h : Down base s) : Spared s := by
  rintro p ⟨r,hr,ht,rfl,-⟩
  exact ⟨h.live r hr (isUndoable_update ht),h.not_released _⟩

/-- Recovery only overwrites pages. -/
theorem Down.overwrite (h : Down base s) {done : List Act}
    (hdone : done <+: recoverActs s.log.records) : applyAll s.disk done =
      { s.disk with file := fun p => (lastWrite done p).getD (s.disk.file p) } := by
  obtain ⟨free,hm⟩ := h.crashed.mounted
  refine applyAll_overwrite (fun p hp => ?_) fun a ha => ?_
  · exact absurd (hdone.subset hp) (h.crashed.not_release (h.not_released p))
  · rw [hm.onFile.size]
    exact (h.crashed.inFile a (hdone.subset ha)).2

theorem Down.partway (h : Down base s) {d : DiskManager}
    (hp : Partway s.disk (recoverActs s.log.records) d) :
    ∃ done, done <+: recoverActs s.log.records ∧ d = applyAll s.disk done := by
  obtain ⟨done,hdone,hd | ⟨a,hcons,hd⟩⟩ := hp
  · exact ⟨done,hdone,hd⟩
  · refine ⟨done,hdone,?_⟩
    cases a with
    | write p page => exact hd
    | release p =>
      exact absurd (hcons.subset (by simp)) (h.crashed.not_release (h.not_released p))

/-- After all of its actions, each page holds its last committed image. -/
theorem Down.final (h : Down base s) (p : PageId) :
    (applyAll s.disk (recoverActs s.log.records)).file p =
      (lastImage (isWinner (analyze s.log.records)) s.log.records p).getD (base p) := by
  rw [h.overwrite List.prefix_rfl]
  by_cases hu : Updated s.log.records p
  · simp only [(h.crashed.lastWrite (h.not_released p)).1 hu,Option.getD_some]
  · have hnone : lastImage (isWinner (analyze s.log.records)) s.log.records p = none := by
      rw [Option.eq_none_iff_forall_ne_some]
      intro page hpage
      obtain ⟨r,hr,ht,hp,hwin,-⟩ := exists_of_lastImage hpage
      exact hu ⟨r,hr,ht,hp,.inl hwin⟩
    have hwrite := lastWrite_eq_none ((h.crashed.lastWrite (h.not_released p)).2 hu)
    simp only [hwrite,hnone,Option.getD_none]
    exact h.initial p hu

theorem Later.ids {w : List LogRecord} (h : Later w xs) (hid : ∀ r ∈ w, r.txnId ≠ invalidTxnId) :
    ∀ r ∈ w ++ xs, r.txnId ≠ invalidTxnId := by
  intro r hr
  rcases List.mem_append.mp hr with hr | hr
  · exact hid r hr
  · exact (h.losers r hr).1

theorem Later.plain {w : List LogRecord} (h : Later w xs)
    (hp : ∀ r ∈ w, r.type ≠ .pageAllocate ∧ r.type ≠ .pageFree) :
    ∀ r ∈ w ++ xs, r.type ≠ .pageAllocate ∧ r.type ≠ .pageFree := by
  intro r hr
  rcases List.mem_append.mp hr with hr | hr
  · exact hp r hr
  · rcases h.kinds r hr with hk | hk <;> simp [hk]

/-- A crash in the middle of recovery. -/
theorem Down.again (h : Down base s) (hi : Interrupted s xs t) {k : ℕ}
    (hk : LogManager.Keeps t.log k) :
    openExistingFile t.disk = .ok t.disk ∧ Down base ⟨t.disk,crashLog t.log k⟩ := by
  obtain ⟨ys,⟨zs,rfl⟩,htake⟩ := keeps_take hi.later.wellFormed.linked hi.log
    (le_trans (ge_of_eq h.crashed.durable) hi.durable) hk
  have hl : Later s.log.records ys := hi.later.of_append
  have hlog : crashLog t.log k =
      ⟨s.log.records ++ ys,appendLsnOf (s.log.records ++ ys)⟩ := by
    simp only [crashLog,htake]
  obtain ⟨done,hdone,hdisk,habort⟩ : ∃ done, done <+: recoverActs s.log.records ∧
      t.disk = applyAll s.disk done ∧
      ((∃ x ∈ ys, x.type = .abort) → done = recoverActs s.log.records) := by
    by_cases hab : ∃ x ∈ ys, x.type = .abort
    · obtain ⟨x,hx,ha⟩ := hab
      exact ⟨_,List.prefix_rfl,hi.aborted x (by simp [hx]) ha,fun _ => rfl⟩
    · obtain ⟨done,hdone,hd⟩ := h.partway hi.disk
      exact ⟨done,hdone,hd,fun hc => absurd hc hab⟩
  have hre := h.crashed.reopened h.spared hdone
  rw [← hdisk] at hre
  obtain ⟨free,hm⟩ := hre.mounted
  refine ⟨openExistingFile_mounted hm,?_⟩
  rw [hlog]
  refine ⟨h.crashed.again hl hre,hl.ids h.ids,hl.plain h.plain,?_,fun p hp => ?_⟩
  · intro r hr hu
    change r.pageId ∉ t.disk.freePages
    rw [hdisk,h.overwrite hdone]
    exact h.live r (hl.mem hr hu) hu
  · change t.disk.file p = base p
    by_cases hw : Updated s.log.records p
    · rcases hl.updated_or hw with hc | hab
      · exact absurd hc hp
      · rw [hdisk,habort hab,h.final,← hl.lastImage]
        cases hi : lastImage (isWinner (analyze (s.log.records ++ ys))) (s.log.records ++ ys) p with
        | none => rfl
        | some page =>
          obtain ⟨r,hr,ht,hrp,hwin,-⟩ := exists_of_lastImage hi
          exact absurd ⟨r,hr,ht,hrp,.inl hwin⟩ hp
    · have hnone := (h.crashed.lastWrite (h.not_released p)).2 hw
      rw [hdisk,h.overwrite hdone]
      simp only [lastWrite_eq_none fun page hm => hnone page (hdone.subset hm),Option.getD_none]
      exact h.initial p hw

/-- A recovery that ends hands a sound engine over. -/
theorem Down.held (h : Down base s) (hr : Recovered s xs t) :
    Held base (Engine.start t (nextTransactionId t.log.records)) := by
  have hl := hr.later
  have hids := hl.ids h.ids
  have hlog : (Engine.start t (nextTransactionId t.log.records)).log = s.log.records ++ xs := hr.log
  have hall : ∀ r ∈ s.log.records ++ xs, Ended (s.log.records ++ xs) r.txnId := by
    intro r hrm
    have hunfinished : Unfinished s.log.records r.txnId → Ended (s.log.records ++ xs) r.txnId :=
      fun hu => hr.log ▸ hr.ended _ hu
    rcases List.mem_append.mp hrm with hrw | hrx
    · by_cases hend : Ended s.log.records r.txnId
      · exact ended_append_list.mpr (.inl hend)
      · exact hunfinished ⟨h.ids r hrw,⟨r,hrw,rfl⟩,hend⟩
    · exact hunfinished (hl.losers r hrx)
  have hcounted : ∀ r ∈ s.log.records ++ xs,
      counted (Engine.start t (nextTransactionId t.log.records)) r =
        isWinner (analyze (s.log.records ++ xs)) r.txnId := by
    intro r hrm
    have hlose : isLoser (analyze (s.log.records ++ xs)) r.txnId = false := by
      by_contra hc
      exact ((isLoser_iff _).mp (by simpa using hc)).2.2 (hall r hrm)
    rw [counted_of_not_aborting (by simp [Engine.start]),hlog,hasRole,hlose,Bool.or_false]
  have hpages : ∀ p, t.disk.file p = (lastCounted (counted (Engine.start t
      (nextTransactionId t.log.records))) (s.log.records ++ xs) p).getD (base p) := by
    intro p
    rw [hr.disk,h.final,← hl.lastImage,← lastCounted_txn]
    congr 1
    exact lastCounted_congr fun r hrm _ _ => (hcounted r hrm).symm
  obtain ⟨free,hm⟩ := h.crashed.mounted
  have hre := h.crashed.reopened h.spared List.prefix_rfl
  rw [← hr.disk] at hre
  refine ⟨⟨hlog ▸ hl.wellFormed,?_,Nat.succ_ne_zero _,by simp [Engine.start],by simp [Engine.start],
    ?_⟩,hlog ▸ h.crashed.locked.later hl,hlog ▸ hl.plain h.plain,?_,hre.mounted,?_,?_,?_,?_,
    fun p _ => rfl,by simp [Engine.start],?_⟩
  · intro r hrm
    refine ⟨hids r (hlog ▸ hrm),Nat.lt_succ_of_le ?_⟩
    exact mem_le_foldl_max (List.mem_map_of_mem hrm) _
  · intro u r hrm hru
    rw [hlog] at hrm ⊢
    exact hru ▸ hall r hrm
  · intro r hrm _
    rw [hlog] at hrm ⊢
    exact hall r hrm
  · intro r hrm hu
    have hrw := hl.mem (hlog ▸ hrm) hu
    refine ⟨⟨(h.crashed.within r hrw hu).1,?_⟩,?_⟩
    · change r.pageId < t.disk.pageCount
      rw [hre.pageCount]
      exact (h.crashed.within r hrw hu).2
    · change r.pageId ∉ t.disk.freePages
      rw [hr.disk,h.overwrite List.prefix_rfl]
      exact h.live r hrw hu
  · intro r hrm _ hopen
    rw [hlog] at hrm hopen
    exact absurd (hall r hrm) hopen
  · intro p
    rw [hlog]
    exact hpages p
  · simp [Engine.start]
  · intro v hv hd p hp
    rw [hlog] at hv hd
    have hvall : ∀ r ∈ s.log.records ++ xs, r ∈ v := by
      intro r hrm
      refine hd r hrm (le_trans (le_appendLsnOf ?_) hr.durable)
      rw [hr.log]
      exact hrm
    change t.disk.file p = base p
    rw [hpages p,lastCounted_none]
    · rfl
    intro r hrm ht hrp
    by_contra hc
    have hwin : isWinner (analyze (s.log.records ++ xs)) r.txnId = true := by
      rw [← hcounted r hrm]
      simpa using hc
    obtain ⟨ys,hys⟩ := hv
    have hrole := hasRole_of_append (a := v) (b := ys) (hys ▸ hl.wellFormed.finished) (hvall r hrm)
      (hys ▸ by simp [hasRole,hwin])
    exact hp (updated_iff.mpr ⟨r,hvall r hrm,ht,hrp,hrole⟩)

/-- A crash of a running engine. -/
theorem Held.crash {e : Engine} (h : Held base e) {k : ℕ} (hk : LogManager.Keeps e.store.log k) :
    Down base ⟨e.store.disk,crashLog e.store.log k⟩ := by
  have htake : e.log.take k <+: e.log := List.take_prefix _ _
  have hsplit : e.log.take k ++ e.log.drop k = e.log := List.take_append_drop k _
  have hw : WellFormed (e.log.take k) :=
    WellFormed.of_append (z := e.log.drop k) (hsplit.symm ▸ h.logOk.wellFormed)
  have hl : Locked base (e.log.take k) :=
    Locked.of_append (z := e.log.drop k) (hsplit.symm ▸ h.locked)
  refine ⟨⟨hw,hl,fun r hr hu => (h.within r (htake.subset hr) hu).range,h.mounted,rfl⟩,
    fun r hr => (h.logOk.ids r (htake.subset hr)).1,fun r hr => h.plain r (htake.subset hr),
    fun r hr hu => (h.within r (htake.subset hr) hu).live,fun p hp => ?_⟩
  exact h.initial _ htake hk p hp

end down

/-- The states of all lives in which transactions only update pages. -/
def UpdateOnly (base : PageId → Page) (e : Engine) : Prop :=
  Reach (Began base) (fun e a e' => a.updateOnly = true ∧ Life e a e') e

theorem deletePage_up (e : Engine) (p : PageId) : (e.deletePage p).up = e.up := by
  unfold Engine.deletePage
  split
  · split <;> rfl
  · rfl

theorem undoRecord_up (e : Engine) (t : TxnId) (r : LogRecord) : (e.undoRecord t r).up = e.up := by
  unfold Engine.undoRecord
  split
  · rfl
  · exact deletePage_up _ _
  · rfl
  · rfl

theorem Step.up {e e' : Engine} {a : Action} (h : Step e a e') : e'.up = e.up := by
  cases h with
  | cleanup ht hd => exact deletePage_up _ _
  | undo hr hrt ht => exact undoRecord_up _ _ _
  | _ => rfl

theorem UpdateOnly.invariant {base : PageId → Page} {e : Engine} (h : UpdateOnly base e) :
    (e.up = true → Held base e) ∧
      (e.up = false → openExistingFile e.store.disk = .ok e.store.disk ∧ Down base e.store) := by
  refine Reach.invariant (P := fun e => (e.up = true → Held base e) ∧ (e.up = false →
    openExistingFile e.store.disk = .ok e.store.disk ∧ Down base e.store)) ?_ ?_ h
  · rintro e he
    have hup : e.up = true := by
      obtain ⟨d,free,-,-,rfl⟩ := he
      rfl
    exact ⟨fun _ => he.held,by simp [hup]⟩
  · rintro e a e' ⟨hheld,hdown⟩ ⟨ha,hlife⟩
    cases hlife with
    | step hup hs =>
      refine ⟨fun _ => (hheld hup).step ha hs,fun hdn => ?_⟩
      rw [hs.up,hup] at hdn
      cases hdn
    | crash hup hk =>
      have hd := (hheld hup).crash hk
      obtain ⟨free,hm⟩ := hd.crashed.mounted
      exact ⟨by simp,fun _ => ⟨openExistingFile_mounted hm,hd⟩⟩
    | recoverCut hdn ho hopen hk =>
      obtain ⟨hopen',hd⟩ := hdown hdn
      obtain rfl : e.store.disk = _ := Except.ok.inj (hopen'.symm.trans hopen)
      obtain ⟨xs,hi⟩ := recover_cut hd.crashed.ready ho _
      exact ⟨by simp,fun _ => hd.again hi hk⟩
    | recover hdn ho hopen hrun =>
      obtain ⟨hopen',hd⟩ := hdown hdn
      obtain rfl : e.store.disk = _ := Except.ok.inj (hopen'.symm.trans hopen)
      obtain ⟨xs,t,hrun',hr⟩ := recover_run hd.crashed.ready ho
      obtain ⟨-,rfl⟩ := Prod.mk.inj (hrun'.symm.trans hrun)
      exact ⟨fun _ => hd.held hr,by simp [Engine.start]⟩

/-- Recovery is correct: it ends, and every page holds its last committed image, or what
it held in the beginning. -/
theorem recover_correct {base : PageId → Page} {e : Engine} (h : UpdateOnly base e)
    (hdown : e.up = false) {order : List TxnId → List TxnId} (ho : IsOrder order) :
    ∃ d t, openExistingFile e.store.disk = .ok d ∧
      (recover order).run ⟨d,e.store.log⟩ = (some (.ok ()),t) ∧
      ∀ p, t.disk.file p = (committedImage e.log p).getD (base p) := by
  obtain ⟨hopen,hd⟩ := h.invariant.2 hdown
  obtain ⟨xs,t,hrun,hr⟩ := recover_run hd.crashed.ready ho
  refine ⟨e.store.disk,t,hopen,hrun,fun p => ?_⟩
  rw [hr.disk,hd.final p,← committedImage_eq hd.crashed.wellFormed.finished hd.ids]
  rfl

/-- The crash of `filled`, after which page 1 comes back as it was. -/
theorem recover_correct_filled :
    ∃ d t, openExistingFile filled.store.disk = .ok d ∧
      (recover id).run ⟨d,crashLog filled.store.log 2⟩ = (some (.ok ()),t) ∧
      ∀ p, t.disk.file p = (committedImage (filled.log.take 2) p).getD (emptyFile.grow.file p) := by
  let e0 := Engine.start ⟨emptyFile.grow,.empty⟩ (nextTransactionId [])
  let e1 := (e0.newTransaction.appendFor 1 { type := .begin }).setPhase 1 .active
  have h0 : UpdateOnly emptyFile.grow.file e0 :=
    .init ⟨emptyFile.grow,[],mounted_emptyFile.grow (by decide),rfl,rfl⟩
  have h1 : UpdateOnly emptyFile.grow.file e1 := h0.step (a := .begin) ⟨rfl,.step rfl .begin⟩
  have hu : e1.Usable 1 :=
    ⟨Nat.one_pos,by decide,by decide,fun _ => Option.some_ne_none 1 ∘ Eq.symm,
      fun _ => List.not_mem_nil⟩
  have h2 : UpdateOnly emptyFile.grow.file filled :=
    h1.step (a := .update 1 1 ones) ⟨rfl,.step rfl (.update rfl hu (.inl rfl))⟩
  have hk : LogManager.Keeps filled.store.log 2 := fun r hr _ => by
    rw [List.take_of_length_le (by decide)]
    exact hr
  exact recover_correct (h2.step (a := .crash 2) ⟨rfl,.crash rfl hk⟩) rfl fun ts => List.Perm.refl ts

end Recovery
end OurSql
