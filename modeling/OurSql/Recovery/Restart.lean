import OurSql.Recovery.Locked
import OurSql.Recovery.UpToDate

/-! A recovery that is cut off and started again. The second run meets the records
that the first has appended and a file on which the first has done a part. -/
namespace OurSql
namespace Recovery

open Crash Storage Chain

/-- What a crash leaves: a sound file and the durable part of a log whose pages the
file has. -/
structure Crashed (base : PageId → Page) (s : Store) : Prop where
  wellFormed : WellFormed s.log.records
  locked : Locked base s.log.records
  within : ∀ r ∈ s.log.records, isUndoable r = true → 0 < r.pageId ∧ r.pageId < s.disk.pageCount
  mounted : ∃ free, Mounted s.disk free
  durable : s.log.durableLsn = s.log.appendLsn

/-- A winner or a loser has updated the page. -/
def Updated (w : List LogRecord) (p : PageId) : Prop :=
  ∃ r ∈ w, r.type = .pageUpdate ∧ r.pageId = p ∧
    (isWinner (analyze w) r.txnId = true ∨ isLoser (analyze w) r.txnId = true)

/-- Recovery will find the page on the free list, or put it there. -/
def Released (w : List LogRecord) (p : PageId) : Prop :=
  (∃ t, isWinner (analyze w) t = true ∧ Frees w t p) ∨
    ∃ t, isLoser (analyze w) t = true ∧ Allocates w t p

/-- No page that recovery writes an image to is free or becomes free. -/
def Spared (s : Store) : Prop :=
  ∀ p, Updated s.log.records p → p ∉ s.disk.freePages ∧ ¬Released s.log.records p

structure SameContents (d d' : DiskManager) : Prop where
  freePages : d'.freePages = d.freePages
  mounted : ∃ free, Mounted d' free
  content : ∀ p, InUse d p → d'.file p = d.file p

section later

variable {base : PageId → Page} {w xs : List LogRecord} {p : PageId} {t : TxnId}

theorem Locked.append (h : Locked base w) {x : LogRecord}
    (hx : x.type = .compensation ∨ x.type = .abort) : Locked base (w ++ [x]) := by
  refine h.push (fun hu => ?_) (fun ht => ?_) fun _ _ _ _ => hx
  · rcases hx with hx | hx <;> simp [isUndoable,hx] at hu
  · rcases hx with hx | hx <;> simp [hx] at ht

theorem Locked.later (h : Locked base w) (hl : Later w xs) : Locked base (w ++ xs) := by
  induction xs using List.reverseRecOn with
  | nil => simpa using h
  | append_singleton xs x ih =>
    rw [← List.append_assoc]
    exact (ih hl.of_append).append (hl.kinds x (by simp))

theorem Later.committed_iff (h : Later w xs) : Committed (w ++ xs) t ↔ Committed w t := by
  constructor
  · rintro ⟨r,hr,hrt,hc⟩
    rcases List.mem_append.mp hr with hr | hr
    · exact ⟨r,hr,hrt,hc⟩
    · rcases h.kinds r hr with hk | hk <;> simp [hk] at hc
  · rintro ⟨r,hr,hrest⟩
    exact ⟨r,by simp [hr],hrest⟩

theorem Later.isWinner (h : Later w xs) (t : TxnId) :
    isWinner (analyze (w ++ xs)) t = isWinner (analyze w) t := by
  rw [Bool.eq_iff_iff,isWinner_iff h.wellFormed.finished,
    isWinner_iff h.wellFormed.of_append.finished,h.committed_iff]

theorem Later.isLoser (h : Later w xs) (hl : isLoser (analyze (w ++ xs)) t = true) :
    isLoser (analyze w) t = true := by
  obtain ⟨hid,⟨r,hr,rfl⟩,hopen⟩ := (isLoser_iff t).mp hl
  refine (isLoser_iff _).mpr ?_
  rcases List.mem_append.mp hr with hr | hr
  · exact ⟨hid,⟨r,hr,rfl⟩,fun hc => hopen (ended_append_list.mpr (.inl hc))⟩
  · exact h.losers r hr

/-- A loser is one still, unless its Abort record has been kept. -/
theorem Later.still (h : Later w xs) (hl : Recovery.isLoser (analyze w) t = true) :
    Recovery.isLoser (analyze (w ++ xs)) t = true ∨ ∃ x ∈ xs, x.type = .abort := by
  obtain ⟨hid,⟨r,hr,rfl⟩,hopen⟩ := (isLoser_iff t).mp hl
  by_cases hend : Ended xs r.txnId
  · obtain ⟨x,hx,-,hterm⟩ := hend
    refine .inr ⟨x,hx,?_⟩
    rcases h.kinds x hx with hk | hk
    · simp [isTerminal,hk] at hterm
    · exact hk
  · refine .inl ((isLoser_iff _).mpr ⟨hid,⟨r,by simp [hr],rfl⟩,?_⟩)
    rw [ended_append_list]
    exact fun hc => hc.elim hopen hend

theorem Later.mem (h : Later w xs) {r : LogRecord} (hr : r ∈ w ++ xs) (hu : isUndoable r = true) :
    r ∈ w := by
  rcases List.mem_append.mp hr with hr | hr
  · exact hr
  · rcases h.kinds r hr with hk | hk <;> simp [isUndoable,hk] at hu

theorem Later.updated (h : Later w xs) (hu : Updated (w ++ xs) p) : Updated w p := by
  obtain ⟨r,hr,ht,hp,hrole⟩ := hu
  rw [h.isWinner] at hrole
  exact ⟨r,h.mem hr (isUndoable_update ht),ht,hp,hrole.imp_right h.isLoser⟩

theorem Later.updated_or (h : Later w xs) (hu : Updated w p) :
    Updated (w ++ xs) p ∨ ∃ x ∈ xs, x.type = .abort := by
  obtain ⟨r,hr,ht,hp,hwin | hlose⟩ := hu
  · exact .inl ⟨r,by simp [hr],ht,hp,.inl ((h.isWinner _).trans hwin)⟩
  · exact (h.still hlose).imp_left fun hl => ⟨r,by simp [hr],ht,hp,.inr hl⟩

theorem Later.allocates (h : Later w xs) (ha : Allocates (w ++ xs) t p) : Allocates w t p := by
  obtain ⟨r,hr,hrt,ht,hp⟩ := ha
  exact ⟨r,h.mem hr (by simp [isUndoable,ht]),hrt,ht,hp⟩

theorem Later.released (h : Later w xs) (hr : Released (w ++ xs) p) : Released w p := by
  rcases hr with ⟨t,hwin,r,hr,hrt,ht,hp⟩ | ⟨t,hlose,ha⟩
  · exact .inl ⟨t,(h.isWinner t).symm.trans hwin,r,h.mem hr (by simp [isUndoable,ht]),hrt,ht,hp⟩
  · exact .inr ⟨t,h.isLoser hlose,h.allocates ha⟩

theorem Later.released_or (h : Later w xs) (hr : Released w p) :
    Released (w ++ xs) p ∨ ∃ x ∈ xs, x.type = .abort := by
  rcases hr with ⟨t,hwin,r,hr,hrest⟩ | ⟨t,hlose,r,hr,hrest⟩
  · exact .inl (.inl ⟨t,(h.isWinner t).trans hwin,r,by simp [hr],hrest⟩)
  · exact (h.still hlose).imp_left fun hl => .inr ⟨t,hl,r,by simp [hr],hrest⟩

theorem Later.lastImage (h : Later w xs) (p : PageId) :
    lastImage (Recovery.isWinner (analyze (w ++ xs))) (w ++ xs) p =
      lastImage (Recovery.isWinner (analyze w)) w p := by
  rw [lastImage_append_other fun r hr ht _ => ?_]
  · exact lastImage_congr fun r _ _ _ => h.isWinner _
  · rcases h.kinds r hr with hk | hk <;> simp [hk] at ht

end later

section restart

variable {base : PageId → Page} {s : Store} {acts : List Act} {p : PageId}

theorem Crashed.inFile (h : Crashed base s) : InFile s.disk (recoverActs s.log.records) := by
  intro a ha
  obtain ⟨r,hr,⟨-,ht,hact⟩ | ⟨-,ht,hact⟩ | ⟨-,hact⟩⟩ := act_inv h.wellFormed h.locked ha
  · obtain ⟨img,-,rfl⟩ := Option.map_eq_some_iff.mp hact
    exact h.within r hr (isUndoable_update ht)
  · rw [hact]
    exact h.within r hr (by simp [isUndoable,ht])
  · cases a with
    | write p page =>
      obtain ⟨ht,rfl,-⟩ := undoAct_write hact
      exact h.within r hr (isUndoable_update ht)
    | release p =>
      obtain ⟨ht,rfl⟩ := undoAct_release hact
      exact h.within r hr (by simp [isUndoable,ht])

theorem Crashed.ready (h : Crashed base s) : Ready s := by
  obtain ⟨free,hm⟩ := h.mounted
  exact ⟨h.wellFormed,hm.isOpen,hm.onFile.bound,h.inFile⟩

theorem Crashed.apart (h : Crashed base s) (hs : Spared s) :
    Apart s.disk (recoverActs s.log.records) := by
  intro p page hp
  obtain ⟨hfree,hrel⟩ := hs p (update_of_write h.wellFormed h.locked hp)
  exact ⟨hfree,fun hc => hrel ((release_iff h.wellFormed h.locked).mp hc)⟩

/-- What recovery leaves on a page that it does not find or make free. -/
theorem Crashed.lastWrite (h : Crashed base s) (hr : ¬Released s.log.records p) :
    (Updated s.log.records p → lastWrite (recoverActs s.log.records) p =
      some ((lastImage (isWinner (analyze s.log.records)) s.log.records p).getD (base p))) ∧
    (¬Updated s.log.records p → ∀ page, Act.write p page ∉ recoverActs s.log.records) :=
  ⟨lastWrite_recover h.wellFormed h.locked fun t hl ha => hr (.inr ⟨t,hl,ha⟩),
    fun hu _ hp => hu (update_of_write h.wellFormed h.locked hp)⟩

/-- `d` is the file that a restarted recovery opens: the actions of `done` have been
done on it, and that is all as far as pages count that are not to be released. -/
structure Reopened (s : Store) (done : List Act) (d : DiskManager) : Prop where
  mounted : ∃ free, Mounted d free
  pageCount : d.pageCount = s.disk.pageCount
  sub : done <+: recoverActs s.log.records
  freePages : ∀ p, p ∈ d.freePages ↔ p ∈ s.disk.freePages ∨ .release p ∈ done
  content : ∀ p, 0 < p → p ∉ s.disk.freePages → ¬Released s.log.records p →
    d.file p = (Recovery.lastWrite done p).getD (s.disk.file p)

theorem Crashed.not_release (h : Crashed base s) (hr : ¬Released s.log.records p) :
    .release p ∉ recoverActs s.log.records :=
  fun hc => hr ((release_iff h.wellFormed h.locked).mp hc)

theorem Crashed.reopened (h : Crashed base s) (hs : Spared s) {done : List Act}
    (hdone : done <+: recoverActs s.log.records) : Reopened s done (applyAll s.disk done) := by
  obtain ⟨free,hm⟩ := h.mounted
  obtain ⟨hmounted,hcontent⟩ := mounted_applyAll hm (h.inFile.of_isPrefix hdone)
    ((h.apart hs).of_isPrefix hdone)
  refine ⟨hmounted,applyAll_pageCount _ _,hdone,fun p => mem_applyAll_freePages _ _ p,
    fun p hp hfree hr => hcontent p hp ?_⟩
  rw [mem_applyAll_freePages]
  exact fun hc => hc.elim hfree fun hc => h.not_release hr (hdone.subset hc)

/-- An interrupted file opens again; once an Abort record is in the log, all of the
actions have been done. -/
theorem Interrupted.reopened {xs : List LogRecord} {t : Store} (h : Crashed base s)
    (hs : Spared s) (hi : Interrupted s xs t) :
    ∃ d done, openExistingFile t.disk = .ok d ∧ Reopened s done d ∧
      ((∃ x ∈ xs, x.type = .abort) → done = recoverActs s.log.records) := by
  by_cases hab : ∃ x ∈ xs, x.type = .abort
  · obtain ⟨x,hx,ha⟩ := hab
    have hre := h.reopened hs List.prefix_rfl
    rw [hi.aborted x hx ha]
    obtain ⟨free,hm⟩ := hre.mounted
    exact ⟨_,_,openExistingFile_mounted hm,hre,fun _ => rfl⟩
  obtain ⟨done,hdone,hdisk | ⟨a,hcons,hdisk⟩⟩ := hi.disk
  · have hre := h.reopened hs hdone
    obtain ⟨free,hm⟩ := hre.mounted
    rw [hdisk]
    exact ⟨_,done,openExistingFile_mounted hm,hre,fun hc => absurd hc hab⟩
  · have hre := h.reopened hs hdone
    obtain ⟨free,hm⟩ := hre.mounted
    have hamem : a ∈ recoverActs s.log.records := hcons.subset (by simp)
    have hrange := h.inFile a hamem
    rw [← hre.pageCount] at hrange
    obtain ⟨d,hopen,hmd,hfree,hcount,hsame⟩ := mounted_midway hm hrange
    refine ⟨d,done,hdisk ▸ hopen,⟨⟨free,hmd⟩,hcount.trans hre.pageCount,hdone,?_,?_⟩,
      fun hc => absurd hc hab⟩
    · intro p
      rw [hfree]
      exact hre.freePages p
    · intro p hp hpf hr
      rw [hsame p fun hc => h.not_release hr (hc ▸ hamem)]
      exact hre.content p hp hpf hr

/-- What survives of an interrupted log: all that was there, and some of what
recovery has added. -/
theorem keeps_take {w xs : List LogRecord} {log : LogManager} {k : ℕ} (hl : Linked (w ++ xs))
    (hlog : log.records = w ++ xs) (hd : appendLsnOf w ≤ log.durableLsn)
    (hk : LogManager.Keeps log k) : ∃ ys, ys <+: xs ∧ log.records.take k = w ++ ys := by
  refine ⟨xs.take (k - w.length),List.take_prefix _ _,?_⟩
  rw [hlog,List.take_append]
  congr 1
  refine List.take_of_length_le ?_
  by_contra hlt
  have hlt : k < w.length := not_le.mp hlt
  obtain ⟨r,rest,hdrop⟩ : ∃ r rest, w.drop k = r :: rest := by
    cases hc : w.drop k with
    | nil => simp at hc; omega
    | cons r rest => exact ⟨r,rest,rfl⟩
  have hw : w = w.take k ++ r :: rest := by rw [← hdrop,List.take_append_drop]
  have hr : r ∈ w := by rw [hw]; simp
  have hkeep := hk r (by simp [hlog,hr]) ((le_appendLsnOf hr).trans hd)
  rw [hlog,List.take_append_of_le_length (le_of_lt hlt)] at hkeep
  exact absurd ((hw ▸ hl.of_append : Linked (w.take k ++ r :: rest)).lt hkeep) (lt_irrefl _)

theorem keeps_old {w xs : List LogRecord} {log : LogManager} (hl : Linked (w ++ xs))
    (hlog : log.records = w ++ xs) (hd : log.durableLsn ≤ appendLsnOf w) :
    LogManager.Keeps log w.length := by
  intro r hr hle
  rw [hlog,List.take_left]
  rw [hlog] at hr
  rcases List.mem_append.mp hr with hr | hr
  · exact hr
  · obtain ⟨ys,zs,rfl⟩ := List.append_of_mem hr
    have hlt : appendLsnOf (w ++ ys) < r.lsn :=
      Linked.appendLsnOf_lt (a := zs) (by simpa using hl)
    have hge : appendLsnOf w ≤ appendLsnOf (w ++ ys) := by
      unfold appendLsnOf
      rw [List.map_append,List.foldl_append]
      exact le_foldl_max _ _
    exact absurd ((hle.trans hd).trans hge) (not_le.mpr hlt)

/-- The second run starts from a crashed state again. -/
theorem Crashed.again (h : Crashed base s) {ys : List LogRecord} {acts : List Act}
    {d : DiskManager} (hl : Later s.log.records ys) (hd : Reopened s acts d) :
    Crashed base ⟨d,⟨s.log.records ++ ys,appendLsnOf (s.log.records ++ ys)⟩⟩ where
  wellFormed := hl.wellFormed
  locked := h.locked.later hl
  within r hr hu := hd.pageCount ▸ h.within r (hl.mem hr hu) hu
  mounted := hd.mounted
  durable := rfl

theorem Spared.again (h : Crashed base s) (hs : Spared s) {ys : List LogRecord} {acts : List Act}
    {d : DiskManager} (hl : Later s.log.records ys) (hd : Reopened s acts d) :
    Spared ⟨d,⟨s.log.records ++ ys,appendLsnOf (s.log.records ++ ys)⟩⟩ := by
  intro p hp
  obtain ⟨hfree,hrel⟩ := hs p (hl.updated hp)
  refine ⟨?_,fun hc => hrel (hl.released hc)⟩
  change p ∉ d.freePages
  rw [hd.freePages]
  exact fun hc => hc.elim hfree fun hc => h.not_release hrel (hd.sub.subset hc)

/-- Both runs leave the same free pages. -/
theorem freePages_again (h : Crashed base s) {ys : List LogRecord} {done : List Act}
    {d : DiskManager} (hl : Later s.log.records ys) (hd : Reopened s done d)
    (habort : (∃ x ∈ ys, x.type = .abort) → done = recoverActs s.log.records) :
    (applyAll d (recoverActs (s.log.records ++ ys))).freePages =
      (applyAll s.disk (recoverActs s.log.records)).freePages := by
  ext p
  rw [mem_applyAll_freePages,mem_applyAll_freePages,hd.freePages,
    release_iff hl.wellFormed (h.locked.later hl),release_iff h.wellFormed h.locked]
  constructor
  · rintro ((hp | hp) | hp)
    · exact .inl hp
    · exact .inr ((release_iff h.wellFormed h.locked).mp (hd.sub.subset hp))
    · exact .inr (hl.released hp)
  · rintro (hp | hp)
    · exact .inl (.inl hp)
    · rcases hl.released_or hp with hp' | hab
      · exact .inr hp'
      · refine .inl (.inr ?_)
        rw [habort hab]
        exact (release_iff h.wellFormed h.locked).mpr hp

/-- Both runs leave the same content in a page that is in use in the end. -/
theorem content_again (h : Crashed base s) (hs : Spared s) {ys : List LogRecord} {done : List Act}
    {d : DiskManager} (hl : Later s.log.records ys) (hd : Reopened s done d)
    (habort : (∃ x ∈ ys, x.type = .abort) → done = recoverActs s.log.records) (hp : 0 < p)
    (hfree : p ∉ s.disk.freePages) (hr : ¬Released s.log.records p) :
    (applyAll d (recoverActs (s.log.records ++ ys))).file p =
      (applyAll s.disk (recoverActs s.log.records)).file p := by
  have hagain := h.again hl hd
  have hd₁ := (h.reopened hs List.prefix_rfl).content p hp hfree hr
  have hfree' : p ∉ d.freePages := by
    rw [hd.freePages]
    exact fun hc => hc.elim hfree fun hc => h.not_release hr (hd.sub.subset hc)
  have hr' : ¬Released (s.log.records ++ ys) p := fun hc => hr (hl.released hc)
  have hd₂ := (hagain.reopened (hs.again h hl hd) List.prefix_rfl).content p hp hfree' hr'
  rw [hd₁,hd₂]
  by_cases hu : Updated (s.log.records ++ ys) p
  · rw [(hagain.lastWrite hr').1 hu,(h.lastWrite hr).1 (hl.updated hu),hl.lastImage]
    rfl
  · rw [lastWrite_eq_none ((hagain.lastWrite hr').2 hu),Option.getD_none,hd.content p hp hfree hr]
    by_cases hw : Updated s.log.records p
    · rcases hl.updated_or hw with hc | hab
      · exact absurd hc hu
      · rw [habort hab]
    · have hnone := (h.lastWrite hr).2 hw
      rw [lastWrite_eq_none hnone,lastWrite_eq_none fun page hm => hnone page (hd.sub.subset hm)]

end restart

/-- The log of one transaction with one update. -/
theorem locked_of_single {base : PageId → Page} {w a b : List LogRecord} {u : LogRecord}
    (hl : Linked w) (hu : w = a ++ u :: b) (hone : ∀ r ∈ w, r.txnId = u.txnId)
    (hcomp : ∀ r ∈ w, r.type ≠ .compensation) (honly : ∀ r ∈ w, r.type = .pageUpdate → r = u)
    (hcurrent : ¬Allocates a u.txnId u.pageId → u.beforeImage = some (base u.pageId)) :
    Locked base w where
  exclusive c r d s e he _ _ _ hne := by
    have hr := hone r (by simp [he])
    have hs := hone s (by simp [he])
    exact absurd (hr.trans hs.symm) hne
  current c r d he ht ha := by
    obtain rfl : r = u := honly r (by simp [he]) ht
    obtain rfl : a = c := split_unique hl hu he
    have hnone : lastImage (fun t => isWinner (analyze a) t || t = r.txnId) a r.pageId = none := by
      rw [Option.eq_none_iff_forall_ne_some]
      intro page hpage
      obtain ⟨s,hs,hst,-⟩ := exists_of_lastImage hpage
      have hsr := honly s (by simp [hu,hs]) hst
      have hlt := (hu ▸ hl : Linked (a ++ r :: b)).lt hs
      rw [hsr] at hlt
      exact lt_irrefl _ hlt
    rw [hnone,hcurrent ha]
    rfl
  rollback c x d he hc := absurd hc (hcomp x (by simp [he]))

/-- Page 1 is there from the beginning, and a transaction fills it. -/
def filled : Engine :=
  let e := Engine.start ⟨emptyFile.grow,.empty⟩ (nextTransactionId [])
  let e := (e.newTransaction.appendFor 1 { type := .begin }).setPhase 1 .active
  ((e.appendFor 1 (updateRecord 1 (e.image 1) ones)).setFrame 1 (some ones)
    (e.store.log.appendLsn + 1)).lock 1 1

theorem forward_filled : Forward filled := by
  let e0 := Engine.start ⟨emptyFile.grow,.empty⟩ (nextTransactionId [])
  let e1 := (e0.newTransaction.appendFor 1 { type := .begin }).setPhase 1 .active
  have h0 : Forward e0 := .init ⟨emptyFile.grow,[],mounted_emptyFile.grow (by decide),rfl⟩
  have h1 : Forward e1 := h0.step (a := .begin) ⟨rfl,.begin⟩
  have hu : e1.Usable 1 :=
    ⟨Nat.one_pos,by decide,by decide,fun _ => Option.some_ne_none 1 ∘ Eq.symm,
      fun _ => List.not_mem_nil⟩
  exact h1.step (a := .update 1 1 ones) ⟨rfl,.update rfl hu (.inl rfl)⟩

theorem crashed_filled :
    Crashed emptyFile.grow.file ⟨filled.store.disk,crashLog filled.store.log 2⟩ := by
  have hw : WellFormed filled.log := forward_filled.logOk.wellFormed
  have hlog : filled.log = [{ type := .begin, lsn := 1, txnId := 1 },
    { updateRecord 1 (emptyFile.grow.file 1) ones with lsn := 2, txnId := 1, prevLsn := 1 }] := rfl
  have hall : ∀ P : LogRecord → Prop, P filled.log[0] → P filled.log[1] → ∀ r ∈ filled.log, P r := by
    intro P h0 h1
    rw [hlog]
    simpa using ⟨h0,h1⟩
  refine ⟨hw,locked_of_single (a := [_]) (b := []) hw.linked hlog ?_ ?_ ?_ fun _ => rfl,?_,
    ⟨[],mounted_emptyFile.grow (by decide)⟩,rfl⟩
  · exact hall _ rfl rfl
  · exact hall _ (by decide) (by decide)
  · exact hall _ (fun ht => by cases ht) fun _ => rfl
  · exact hall _ (fun hu => by cases hu) fun _ => ⟨Nat.one_pos,by decide⟩

/-- A crash under a transaction that has allocated a page and filled it. -/
def lost : Store := ⟨updated.store.disk,crashLog updated.store.log 3⟩

theorem crashed_lost : Crashed (fun _ => Page.zero) lost := by
  have hw : WellFormed updated.log := forward_updated.logOk.wellFormed
  have hlog : updated.log = [{ type := .begin, lsn := 1, txnId := 1 },
    { type := .pageAllocate, lsn := 2, txnId := 1, prevLsn := 1, pageId := 1 },
    { updateRecord 1 Page.zero ones with lsn := 3, txnId := 1, prevLsn := 2 }] := rfl
  have hall : ∀ P : LogRecord → Prop, P updated.log[0] → P updated.log[1] → P updated.log[2] →
      ∀ r ∈ updated.log, P r := by
    intro P h0 h1 h2
    rw [hlog]
    simpa using ⟨h0,h1,h2⟩
  refine ⟨hw,locked_of_single (a := [_,_]) (b := []) hw.linked hlog ?_ ?_ ?_ fun _ => rfl,?_,
    ⟨[],mounted_emptyFile.grow (by decide)⟩,rfl⟩
  · exact hall _ rfl rfl rfl
  · exact hall _ (by decide) (by decide) (by decide)
  · exact hall _ (fun ht => by cases ht) (fun ht => by cases ht) fun _ => rfl
  · exact hall _ (fun hu => by cases hu) (fun _ => ⟨Nat.one_pos,by decide⟩)
      fun _ => ⟨Nat.one_pos,by decide⟩

end Recovery
end OurSql
