import OurSql.Storage.Log
import OurSql.Lib.Transition

/-! Group commit: any number of threads append records and ask for them to be flushed.
One of them leads and flushes for all; the others wait for its result. A step is one
critical section of the mutex, or the physical flush between two of them. -/
namespace OurSql
namespace Storage

open Transition

/-- Where a thread stands inside `Append` or `Flush`. -/
inductive FlushStage
  | idle
  -- the record is in the file, its number not yet the last one
  | appending
  | waiting (target : Lsn) (generation : ℕ)
  | leading (target : Lsn)
  | flushing (target batchTarget : Lsn) (injectFailure : Bool)
  | flushed (target batchTarget : Lsn) (status : Status)
  | returned (target : Lsn) (status : Status)

/-- The log manager. `file` is what was written, `onDisk` the part of it that a
physical flush has carried to the disk for certain. -/
structure GroupCommit where
  isOpen : Bool
  appendLsn : Lsn
  durableLsn : Lsn
  flushTargetLsn : Lsn
  flushInProgress : Bool
  flushGeneration : ℕ
  lastFlushStatus : Status
  failNextFlush : Bool
  file : List LogRecord
  onDisk : List LogRecord
  appending : Bool
  threads : ℕ → FlushStage

inductive FlushAction
  | write (thread : ℕ) (record : LogRecord)
  | publish (thread : ℕ)
  | failNextFlush
  | flush (thread : ℕ) (target : Lsn)
  | wake (thread : ℕ)
  | readTarget (thread : ℕ)
  | physicalFlush (thread : ℕ) (ok : Bool)
  | finish (thread : ℕ)

def GroupCommit.goto (s : GroupCommit) (thread : ℕ) (stage : FlushStage) : GroupCommit :=
  { s with threads := Function.update s.threads thread stage }

/-- Between calls. -/
def FlushStage.ready : FlushStage → Bool
  | .idle => true
  | .returned .. => true
  | _ => false

def logNotOpen : Failure := ⟨.invalidArgument,"LogManager is not open"⟩

/-- The first critical section of `Flush`. -/
def GroupCommit.enter (s : GroupCommit) (thread : ℕ) (target : Lsn) : GroupCommit :=
  if !s.isOpen then s.goto thread (.returned target (.error logNotOpen))
  else if s.appendLsn < target then
    s.goto thread (.returned target
      (fail .invalidArgument "WAL flush target exceeds append LSN"))
  else if target ≤ s.durableLsn then s.goto thread (.returned target (.ok ()))
  else
    let s := { s with flushTargetLsn := max s.flushTargetLsn target }
    if s.flushInProgress then s.goto thread (.waiting target s.flushGeneration)
    else { s.goto thread (.leading target) with flushInProgress := true }

/-- The leader takes the mutex again after the physical flush. -/
def GroupCommit.report (s : GroupCommit) (thread : ℕ) (target batchTarget : Lsn)
    (status : Status) : GroupCommit :=
  match status with
  | .error e =>
    { s.goto thread (.returned target (.error e)) with
      lastFlushStatus := .error e
      flushInProgress := false
      flushGeneration := s.flushGeneration + 1 }
  | .ok () =>
    let s := { s with durableLsn := max s.durableLsn batchTarget }
    if s.durableLsn < s.flushTargetLsn then s.goto thread (.leading target)
    else
      { s.goto thread (.returned target (.ok ())) with
        lastFlushStatus := .ok ()
        flushInProgress := false
        flushGeneration := s.flushGeneration + 1 }

def GroupCommit.step (s : GroupCommit) : FlushAction → Option GroupCommit
  | .write thread record =>
    if s.appending || !(s.threads thread).ready || !s.isOpen then none
    else match encodeCheck record with
      | .error _ => some s
      | .ok () => some { s.goto thread .appending with
          file := s.file ++ [{ record with lsn := s.appendLsn + 1 }]
          appending := true }
  | .publish thread =>
    match s.threads thread with
    | .appending => some { s.goto thread .idle with
        appendLsn := s.appendLsn + 1
        appending := false }
    | _ => none
  | .failNextFlush => if s.appending then none else some { s with failNextFlush := true }
  | .flush thread target =>
    if s.appending || !(s.threads thread).ready then none else some (s.enter thread target)
  | .wake thread =>
    match s.threads thread with
    | .waiting target generation =>
      if s.appending then none
      else if target ≤ s.durableLsn then some (s.goto thread (.returned target (.ok ())))
      else if !s.flushInProgress && s.flushGeneration ≠ generation then
        some (s.goto thread (.returned target s.lastFlushStatus))
      else none
    | _ => none
  | .readTarget thread =>
    match s.threads thread with
    | .leading target =>
      if s.appending then none
      else some { s.goto thread (.flushing target s.flushTargetLsn s.failNextFlush) with
        failNextFlush := false }
    | _ => none
  | .physicalFlush thread ok =>
    -- only the file mutex is held here, so a record may be half way through `Append`
    match s.threads thread with
    | .flushing target batchTarget injectFailure =>
      if injectFailure then
        some (s.goto thread (.flushed target batchTarget
          (fail .ioError "injected WAL flush failure")))
      else if ok then
        some { s.goto thread (.flushed target batchTarget (.ok ())) with onDisk := s.file }
      else some (s.goto thread (.flushed target batchTarget (fail .ioError "cannot flush WAL")))
    | _ => none
  | .finish thread =>
    match s.threads thread with
    | .flushed target batchTarget status =>
      if s.appending then none else some (s.report thread target batchTarget status)
    | _ => none

/-- The state `Open` leaves: all that was scanned is on the disk. -/
structure GroupCommit.Opened (s : GroupCommit) : Prop where
  durable : s.durableLsn = s.appendLsn
  target : s.flushTargetLsn = s.appendLsn
  quiet : s.flushInProgress = false
  appendLsn : s.appendLsn = appendLsnOf s.file
  onDisk : s.onDisk = s.file
  appending : s.appending = false
  threads : ∀ t, s.threads t = .idle

/-- Every record up to `n` has been physically flushed. -/
def GroupCommit.Covers (s : GroupCommit) (n : Lsn) : Prop :=
  ∀ r ∈ s.file, r.lsn ≤ n → r ∈ s.onDisk

/-- What holds of a thread at each of its stages. -/
def GroupCommit.StageOk (s : GroupCommit) : FlushStage → Prop
  | .idle => True
  | .appending => True
  | .waiting target _ => target ≤ s.flushTargetLsn
  | .leading target => target ≤ s.flushTargetLsn
  | .flushing target batchTarget _ => target ≤ s.flushTargetLsn ∧ batchTarget ≤ s.appendLsn
  | .flushed target batchTarget status => target ≤ s.flushTargetLsn ∧
      batchTarget ≤ s.appendLsn ∧ (status = .ok () → s.Covers batchTarget)
  | .returned target status => status = .ok () → target ≤ s.durableLsn

/-- `flush_target_lsn_` is never behind: with no flush under way and the last one good, all
that was asked for is durable. -/
structure GroupCommit.Inv (s : GroupCommit) : Prop where
  durable : s.durableLsn ≤ s.appendLsn
  covers : s.Covers s.durableLsn
  target : s.flushTargetLsn ≤ s.appendLsn
  settled : s.flushInProgress = false → s.lastFlushStatus = .ok () →
    s.flushTargetLsn ≤ s.durableLsn
  stages : ∀ t, s.StageOk (s.threads t)

variable {s s' : GroupCommit} {stage : FlushStage} {thread t : ℕ} {target n : Lsn}

/-- One state follows another when nothing a stage relies on has been lost. -/
structure GroupCommit.Grows (s s' : GroupCommit) : Prop where
  durable : s.durableLsn ≤ s'.durableLsn
  append : s.appendLsn ≤ s'.appendLsn
  target : s.flushTargetLsn ≤ s'.flushTargetLsn
  covers : ∀ n, n ≤ s.appendLsn → s.Covers n → s'.Covers n

theorem GroupCommit.Covers.congr (h : s.Covers n) (hf : s'.file = s.file)
    (hd : s'.onDisk = s.onDisk) : s'.Covers n := by
  intro r hr hle
  rw [hd]
  exact h r (hf ▸ hr) hle

theorem GroupCommit.Covers.mono {m : Lsn} (h : s.Covers n) (hle : m ≤ n) : s.Covers m :=
  fun r hr hm => h r hr (hm.trans hle)

theorem GroupCommit.StageOk.grows (h : s.StageOk stage) (hg : s.Grows s') :
    s'.StageOk stage := by
  cases stage with
  | idle => trivial
  | appending => trivial
  | waiting target generation => exact le_trans h hg.target
  | leading target => exact le_trans h hg.target
  | flushing target batchTarget inject => exact ⟨h.1.trans hg.target,h.2.trans hg.append⟩
  | flushed target batchTarget status =>
    exact ⟨h.1.trans hg.target,h.2.1.trans hg.append,fun hok => hg.covers _ h.2.1 (h.2.2 hok)⟩
  | returned target status => exact fun hok => (h hok).trans hg.durable

/-- The stages of the other threads stay right while one thread moves on. -/
theorem GroupCommit.Inv.stages_update (h : s.Inv) (hg : s.Grows s')
    (ht : s'.threads = Function.update s.threads thread stage) (hst : s'.StageOk stage) :
    ∀ t, s'.StageOk (s'.threads t) := by
  intro t
  rw [ht]
  by_cases he : t = thread
  · subst he
    rwa [Function.update_self]
  · rw [Function.update_of_ne he]
    exact (h.stages t).grows hg

/-- A change of nothing but the stage of one thread. -/
theorem GroupCommit.Grows.goto (s : GroupCommit) (thread : ℕ) (stage : FlushStage) :
    s.Grows (s.goto thread stage) where
  durable := le_rfl
  append := le_rfl
  target := le_rfl
  covers _ _ h := h

theorem GroupCommit.Inv.goto (h : s.Inv) (hst : s.StageOk stage) : (s.goto thread stage).Inv where
  durable := h.durable
  covers := h.covers
  target := h.target
  settled := h.settled
  stages := by
    have hg := Grows.goto s thread stage
    exact h.stages_update hg rfl (hst.grows hg)

theorem GroupCommit.Opened.inv (h : s.Opened) : s.Inv where
  durable := le_of_eq h.durable
  covers := fun r hr _ => h.onDisk ▸ hr
  target := le_of_eq h.target
  settled := fun _ _ => le_of_eq (h.target.trans h.durable.symm)
  stages := fun t => by rw [h.threads t]; trivial

section steps

variable {record : LogRecord}

/-- The record in the file has a number past every one given out. -/
theorem GroupCommit.Grows.write (s : GroupCommit) (thread : ℕ) (record : LogRecord) :
    s.Grows { s.goto thread .appending with
      file := s.file ++ [{ record with lsn := s.appendLsn + 1 }]
      appending := true } where
  durable := le_rfl
  append := le_rfl
  target := le_rfl
  covers n hn h r hr hle := by
    rcases List.mem_append.mp hr with hr | hr
    · exact h r hr hle
    · rw [List.mem_singleton.mp hr] at hle
      exact absurd (hle.trans hn) (Nat.not_succ_le_self _)

theorem GroupCommit.Inv.enter (h : s.Inv) : (s.enter thread target).Inv := by
  unfold GroupCommit.enter
  split
  · exact h.goto fun hok => by cases hok
  split
  · exact h.goto fun hok => by cases hok
  rename_i happend
  split
  · rename_i hdone
    exact h.goto fun _ => hdone
  have hmax : max s.flushTargetLsn target ≤ s.appendLsn := max_le h.target (not_lt.mp happend)
  dsimp only
  split
  · rename_i hbusy
    have hg : s.Grows ({ s with flushTargetLsn := max s.flushTargetLsn target }.goto thread
        (.waiting target s.flushGeneration)) := ⟨le_rfl,le_rfl,le_max_left _ _,fun _ _ hc => hc⟩
    refine ⟨h.durable,h.covers,hmax,fun hq => ?_,h.stages_update hg rfl (le_max_right _ _)⟩
    exact absurd (hbusy.symm.trans hq) (by simp)
  · have hg : s.Grows { { s with flushTargetLsn := max s.flushTargetLsn target }.goto thread
        (.leading target) with flushInProgress := true } :=
      ⟨le_rfl,le_rfl,le_max_left _ _,fun _ _ hc => hc⟩
    exact ⟨h.durable,h.covers,hmax,fun hq => (by cases hq),
      h.stages_update hg rfl (le_max_right _ _)⟩

theorem GroupCommit.Grows.enter (s : GroupCommit) (thread : ℕ) (target : Lsn) :
    s.Grows (s.enter thread target) := by
  unfold GroupCommit.enter
  split
  · exact .goto s thread _
  split
  · exact .goto s thread _
  split
  · exact .goto s thread _
  dsimp only
  split
  · exact ⟨le_rfl,le_rfl,le_max_left _ _,fun _ _ hc => hc⟩
  · exact ⟨le_rfl,le_rfl,le_max_left _ _,fun _ _ hc => hc⟩

theorem GroupCommit.Grows.report (s : GroupCommit) (thread : ℕ) (target batchTarget : Lsn)
    (status : Status) : s.Grows (s.report thread target batchTarget status) := by
  unfold GroupCommit.report
  split
  · exact ⟨le_rfl,le_rfl,le_rfl,fun _ _ hc => hc⟩
  · dsimp only
    split
    · exact ⟨le_max_left _ _,le_rfl,le_rfl,fun _ _ hc => hc⟩
    · exact ⟨le_max_left _ _,le_rfl,le_rfl,fun _ _ hc => hc⟩

theorem GroupCommit.Inv.report {batchTarget : Lsn} {status : Status} (h : s.Inv)
    (hst : s.StageOk (.flushed target batchTarget status)) :
    (s.report thread target batchTarget status).Inv := by
  obtain ⟨htarget,hbatch,hcovers⟩ := hst
  have hg := Grows.report s thread target batchTarget status
  unfold GroupCommit.report at hg ⊢
  cases status with
  | error e =>
    refine ⟨h.durable,h.covers,h.target,fun _ hok => (by cases hok),?_⟩
    exact h.stages_update hg rfl fun hok => by cases hok
  | ok _ =>
    dsimp only at hg ⊢
    have hdurable : max s.durableLsn batchTarget ≤ s.appendLsn := max_le h.durable hbatch
    have hflushed : s.Covers (max s.durableLsn batchTarget) := by
      rcases max_choice s.durableLsn batchTarget with hm | hm
      · rw [hm]
        exact h.covers
      · rw [hm]
        exact hcovers rfl
    split at hg
    · rename_i hmore
      rw [if_pos hmore]
      refine ⟨hdurable,hflushed,h.target,fun hq hok => ?_,h.stages_update hg rfl htarget⟩
      exact (h.settled hq hok).trans (le_max_left _ _)
    · rename_i hdone
      rw [if_neg hdone]
      have hall : s.flushTargetLsn ≤ max s.durableLsn batchTarget := not_lt.mp hdone
      exact ⟨hdurable,hflushed,h.target,fun _ _ => hall,
        h.stages_update hg rfl fun _ => htarget.trans hall⟩

/-- A waiter is not let go by a good status unless its target is durable. -/
theorem GroupCommit.Inv.wake {generation : ℕ} (h : s.Inv)
    (ht : s.threads thread = .waiting target generation) (hs : s.step (.wake thread) = some s') :
    (target ≤ s.durableLsn ∧ s' = s.goto thread (.returned target (.ok ()))) ∨
    ∃ e, s' = s.goto thread (.returned target (.error e)) := by
  have hwait : s.StageOk (.waiting target generation) := ht ▸ h.stages thread
  simp only [GroupCommit.step,ht] at hs
  split at hs
  · cases hs
  split at hs
  · rename_i hdone
    exact .inl ⟨hdone,(Option.some.inj hs).symm⟩
  rename_i hlate
  split at hs
  · rename_i hwoken
    have hq : s.flushInProgress = false := by
      simp only [Bool.and_eq_true,Bool.not_eq_true'] at hwoken
      exact hwoken.1
    cases hstatus : s.lastFlushStatus with
    | ok _ => exact absurd (le_trans hwait (h.settled hq hstatus)) hlate
    | error e => exact .inr ⟨e,by rw [← hstatus]; exact (Option.some.inj hs).symm⟩
  · cases hs

theorem GroupCommit.Inv.step {a : FlushAction} (h : s.Inv) (hs : s.step a = some s') :
    s'.Inv ∧ s.Grows s' := by
  cases a with
  | write thread record =>
    simp only [GroupCommit.step] at hs
    split at hs
    · cases hs
    split at hs
    · obtain rfl : s = s' := Option.some.inj hs
      exact ⟨h,le_rfl,le_rfl,le_rfl,fun _ _ hc => hc⟩
    · obtain rfl : _ = s' := Option.some.inj hs
      have hg := Grows.write s thread record
      exact ⟨⟨h.durable,hg.covers _ h.durable h.covers,h.target,h.settled,
        h.stages_update hg rfl trivial⟩,hg⟩
  | publish thread =>
    simp only [GroupCommit.step] at hs
    split at hs
    · obtain rfl : _ = s' := Option.some.inj hs
      have hg : s.Grows
          { s.goto thread .idle with appendLsn := s.appendLsn + 1, appending := false } :=
        ⟨le_rfl,Nat.le_succ _,le_rfl,fun _ _ hc => hc⟩
      exact ⟨⟨h.durable.trans (Nat.le_succ _),h.covers,h.target.trans (Nat.le_succ _),h.settled,
        h.stages_update hg rfl trivial⟩,hg⟩
    · cases hs
  | failNextFlush =>
    simp only [GroupCommit.step] at hs
    split at hs
    · cases hs
    · obtain rfl : _ = s' := Option.some.inj hs
      have hg : s.Grows { s with failNextFlush := true } :=
        ⟨le_rfl,le_rfl,le_rfl,fun _ _ hc => hc⟩
      exact ⟨⟨h.durable,h.covers,h.target,h.settled,fun t => (h.stages t).grows hg⟩,hg⟩
  | flush thread target =>
    simp only [GroupCommit.step] at hs
    split at hs
    · cases hs
    · obtain rfl : _ = s' := Option.some.inj hs
      exact ⟨h.enter,.enter s thread target⟩
  | wake thread =>
    cases ht : s.threads thread with
    | waiting target generation =>
      rcases h.wake ht hs with ⟨hdone,rfl⟩ | ⟨e,rfl⟩
      · exact ⟨h.goto fun _ => hdone,.goto s thread _⟩
      · exact ⟨h.goto fun hok => (by cases hok),.goto s thread _⟩
    | _ =>
      simp only [GroupCommit.step,ht] at hs
      cases hs
  | readTarget thread =>
    have hst := h.stages thread
    simp only [GroupCommit.step] at hs
    split at hs
    · rename_i target ht
      rw [ht] at hst
      split at hs
      · cases hs
      · obtain rfl : _ = s' := Option.some.inj hs
        have hg : s.Grows { s.goto thread (.flushing target s.flushTargetLsn s.failNextFlush) with
            failNextFlush := false } := ⟨le_rfl,le_rfl,le_rfl,fun _ _ hc => hc⟩
        exact ⟨⟨h.durable,h.covers,h.target,h.settled,h.stages_update hg rfl ⟨hst,h.target⟩⟩,hg⟩
    · cases hs
  | physicalFlush thread ok =>
    have hst := h.stages thread
    simp only [GroupCommit.step] at hs
    split at hs
    · rename_i target batchTarget inject ht
      rw [ht] at hst
      split at hs
      · obtain rfl : _ = s' := Option.some.inj hs
        exact ⟨h.goto ⟨hst.1,hst.2,fun hok => (by cases hok)⟩,.goto s thread _⟩
      split at hs
      · obtain rfl : _ = s' := Option.some.inj hs
        have hg : s.Grows { s.goto thread (.flushed target batchTarget (.ok ())) with
            onDisk := s.file } := ⟨le_rfl,le_rfl,le_rfl,fun _ _ _ r hr _ => hr⟩
        exact ⟨⟨h.durable,fun r hr _ => hr,h.target,h.settled,
          h.stages_update hg rfl ⟨hst.1,hst.2,fun _ r hr _ => hr⟩⟩,hg⟩
      · obtain rfl : _ = s' := Option.some.inj hs
        exact ⟨h.goto ⟨hst.1,hst.2,fun hok => (by cases hok)⟩,.goto s thread _⟩
    · cases hs
  | finish thread =>
    have hst := h.stages thread
    simp only [GroupCommit.step] at hs
    split at hs
    · rename_i target batchTarget status ht
      rw [ht] at hst
      split at hs
      · cases hs
      · obtain rfl : _ = s' := Option.some.inj hs
        exact ⟨h.report hst,.report s thread _ _ _⟩
    · cases hs

end steps

theorem GroupCommit.inv_of_reach (h : Reach GroupCommit.Opened (StepOf GroupCommit.step) s) :
    s.Inv :=
  h.invariant (P := GroupCommit.Inv) (fun _ h => h.inv) fun _ _ _ h hs => (h.step hs).1

/-- A flush that answers Ok has every record up to its target on the disk; what is durable
never shrinks and never passes the last record; and a waiter is answered Ok only when its
target is durable. -/
theorem group_commit_sound (h : Reach GroupCommit.Opened (StepOf GroupCommit.step) s) :
    (∀ t target, s.threads t = .returned target (.ok ()) →
      ∀ r ∈ s.file, r.lsn ≤ target → r ∈ s.onDisk) ∧
    s.durableLsn ≤ s.appendLsn ∧
    (∀ a s', s.step a = some s' → s.durableLsn ≤ s'.durableLsn) ∧
    ∀ t target generation s', s.threads t = .waiting target generation →
      s.step (.wake t) = some s' →
        target ≤ s.durableLsn ∧ s'.threads t = .returned target (.ok ()) ∨
        ∃ e, s'.threads t = .returned target (.error e) := by
  have hinv := GroupCommit.inv_of_reach h
  refine ⟨fun t target ht => ?_,hinv.durable,fun a s' hs => (hinv.step hs).2.durable,
    fun t target generation s' ht hs => ?_⟩
  · have hst := hinv.stages t
    rw [ht] at hst
    exact hinv.covers.mono (hst rfl)
  · rcases hinv.wake ht hs with ⟨hdone,rfl⟩ | ⟨e,rfl⟩
    · exact .inl ⟨hdone,Function.update_self _ _ _⟩
    · exact .inr ⟨e,Function.update_self _ _ _⟩

theorem group_commit_sound_batch : ∃ s : GroupCommit,
    s.threads 0 = .returned 1 (.ok ()) ∧ s.threads 1 = .returned 2 (.ok ()) ∧
      s.durableLsn ≤ s.appendLsn ∧ ∀ r ∈ s.file, r.lsn ≤ 2 → r ∈ s.onDisk := by
  let s₀ : GroupCommit := ⟨true,0,0,0,false,0,.ok (),false,[],[],false,fun _ => .idle⟩
  have hopen : s₀.Opened := ⟨rfl,rfl,rfl,rfl,rfl,rfl,fun _ => rfl⟩
  -- thread 1 arrives before the leader has read the target, and one flush serves both
  obtain ⟨s,hrun,h0,h1⟩ : ∃ s, exec GroupCommit.step s₀
      [.write 0 {},.publish 0,.write 1 {},.publish 1,.flush 0 1,.flush 1 2,.readTarget 0,
        .physicalFlush 0 true,.finish 0,.wake 1] = some s ∧
      s.threads 0 = .returned 1 (.ok ()) ∧ s.threads 1 = .returned 2 (.ok ()) :=
    ⟨_,rfl,rfl,rfl⟩
  have hsound := group_commit_sound (exec_reach (.init hopen) hrun)
  exact ⟨s,h0,h1,hsound.2.1,hsound.1 1 2 h1⟩

end Storage
end OurSql
