import OurSql.Transaction.Outcome

/-! Pages that a transaction reserves for deletion. They are given back behind its durable
Commit record, one after the other under one mutex; the place in the list outlives a
`Commit` that fails half-way. -/
namespace OurSql
namespace Transaction

open Transition Lock Storage

/-- A page of the disk manager. `taken` is out of the free list and not yet in any log. -/
inductive PageUse
  | free | taken | used
  deriving DecidableEq, Repr

/-- Where the thread under `cleanup_mutex_` stands; `freed` is inside
`FinalizePageDeletion`, behind its `DeallocatePage`. -/
inductive CleanupStage
  | page (position : ℕ) | freed (position : ℕ) | unlock | remove
  deriving DecidableEq, Repr

/-- `position` is `committed_cleanup_index_`, `freed` what cleanups have given back, in
order. A page X lock has one `owner`. `released` and `answered` remember that the locks
went and that `Commit` came back with Ok. -/
structure Cleaner where
  threads : Threads
  page : PageId → PageUse
  pending : PageId → Bool
  owner : PageId → Option TxnId
  deferred : TxnId → List PageId
  position : TxnId → ℕ
  mutex : Option (TxnId × CleanupStage)
  freed : List (TxnId × PageId)
  released : TxnId → Bool
  answered : TxnId → Bool

/-- An opened database with these pages in use. -/
def Cleaner.start (page : PageId → PageUse) : Cleaner where
  threads := .initial
  page := page
  pending := fun _ => false
  owner := fun _ => none
  deferred := fun _ => []
  position := fun _ => 0
  mutex := none
  freed := []
  released := fun _ => false
  answered := fun _ => false

def Cleaner.state (x : Cleaner) (t : TxnId) : TransactionState := x.threads.manager.state t

def Cleaner.setPage (x : Cleaner) (p : PageId) (use : PageUse) : Cleaner :=
  { x with page := Function.update x.page p use }

def Cleaner.setPending (x : Cleaner) (p : PageId) (b : Bool) : Cleaner :=
  { x with pending := Function.update x.pending p b }

def Cleaner.enter (x : Cleaner) (t : TxnId) (stage : CleanupStage) : Cleaner :=
  { x with mutex := some (t,stage) }

/-- The page at hand is done with; the next one is up. -/
def Cleaner.proceed (x : Cleaner) (t : TxnId) (i : ℕ) : Cleaner :=
  { x.enter t (.page (i+1)) with position := Function.update x.position t (i+1) }

/-- `UnlockAll`. -/
def Cleaner.release (x : Cleaner) (t : TxnId) : Cleaner :=
  { x with
    owner := fun p => if x.owner p = some t then none else x.owner p
    released := Function.update x.released t true }

def Cleaner.run (x : Cleaner) (v : Event) : Option Cleaner :=
  (x.threads.guarded (.step v)).map fun threads => { x with threads := threads }

/-- The cleanup comes back with an error and gives up the mutex. -/
def Cleaner.giveUp (x : Cleaner) (t : TxnId) (e : Failure) : Option Cleaner :=
  ({ x with mutex := none } : Cleaner).run (.advance t .commitCleanup (.error e))

/-- A `Transaction` in the table that `IsUsableForWork`. -/
def Cleaner.Usable (x : Cleaner) (t : TxnId) : Bool :=
  x.threads.manager.owned t && x.state t = .active

inductive CleanupEvent
  | other (v : GuardEvent)
  | abortUnlock (t : TxnId) (answer : Status)
  | lock (t : TxnId) (p : PageId)
  | allocate (p : PageId)
  | giveBack (p : PageId)
  | newPage (t : TxnId) (p : PageId)
  | beginDeletion (t : TxnId) (p : PageId)
  | cancelDeletion (t : TxnId) (p : PageId)
  | logDeletion (t : TxnId) (p : PageId)
  | undoFree (t : TxnId) (p : PageId)
  | undoAllocate (t : TxnId) (p : PageId) (answer : Status)
  | enterCleanup (t : TxnId)
  | finalize (t : TxnId) (answer : Status)
  | finalized (t : TxnId) (answer : Status)
  | cleaned (t : TxnId)
  | unlockAll (t : TxnId)
  | remove (t : TxnId)

/-- The stages that have their own events here. -/
def GuardEvent.isCleanup : GuardEvent → Bool
  | .step (.advance _ .commitCleanup _) | .step (.advance _ .commitUnlock _) => true
  | .step (.advance _ .commitRemove _) | .step (.advance _ .abortUnlock _) => true
  | _ => false

/-- `FinalizePageDeletion` of the page at hand up to its `DeallocatePage`; an error leaves
the reservation as it is. -/
def Cleaner.finalize (x : Cleaner) (t : TxnId) (i : ℕ) (p : PageId) (answer : Status) :
    Option Cleaner :=
  if x.pending p = false then some (x.proceed t i)
  else
    match answer with
    | .error e => x.giveUp t e
    | .ok () =>
      if x.page p = .free then some (x.enter t (.freed i))
      else some { (x.setPage p .free).enter t (.freed i) with freed := x.freed ++ [(t,p)] }

instance : LawfulBEq (TxnId × Stage) := inferInstance

def Cleaner.next (x : Cleaner) : CleanupEvent → Option Cleaner
  | .other v =>
    if v.isCleanup then none
    else (x.threads.guarded v).map fun threads => { x with threads := threads }
  | .abortUnlock t answer => (x.run (.advance t .abortUnlock answer)).map (·.release t)
  | .lock t p =>
    if x.Usable t && (x.owner p = none || x.owner p = some t) then
      some { x with owner := Function.update x.owner p (some t) }
    else none
  | .allocate p => if x.page p = .free then some (x.setPage p .taken) else none
  | .giveBack p => if x.page p = .taken then some (x.setPage p .free) else none
  | .newPage t p =>
    if x.Usable t && x.owner p = some t && x.page p = .taken then some (x.setPage p .used)
    else none
  | .beginDeletion t p =>
    if x.Usable t && x.owner p = some t && x.page p = .used && x.pending p = false then
      some (x.setPending p true)
    else none
  | .cancelDeletion t p =>
    if x.owner p = some t && p ∉ x.deferred t then some (x.setPending p false) else none
  | .logDeletion t p =>
    if x.Usable t && x.owner p = some t && x.page p = .used && x.pending p &&
        p ∉ x.deferred t then
      (x.run (.work t .pageFree)).map fun x =>
        { x with deferred := Function.update x.deferred t (x.deferred t ++ [p]) }
    else none
  | .undoFree t p =>
    if (t,.abortUndo) ∈ x.threads.jobs && p ∈ x.deferred t then some (x.setPending p false)
    else none
  | .undoAllocate t p answer =>
    if (t,.abortUndo) ∈ x.threads.jobs && x.owner p = some t && x.page p = .used then
      match answer with
      | .ok () => some ((x.setPage p .free).setPending p false)
      | .error _ => some (x.setPending p true)
    else none
  | .enterCleanup t =>
    if x.mutex = none && (t,.commitCleanup) ∈ x.threads.jobs then
      if x.threads.manager.owned t then some (x.enter t (.page (x.position t)))
      else x.run (.advance t .commitCleanup (.ok ()))
    else none
  | .finalize t answer =>
    match x.mutex with
    | some (u,.page i) =>
      match (x.deferred t)[i]? with
      | some p => if u = t then x.finalize t i p answer else none
      | none => none
    | _ => none
  | .finalized t answer =>
    match x.mutex with
    | some (u,.freed i) =>
      match (x.deferred t)[i]? with
      | some p =>
        if u = t then
          match answer with
          | .ok () => some ((x.setPending p false).proceed t i)
          | .error e => (x.setPending p false).giveUp t e
        else none
      | none => none
    | _ => none
  | .cleaned t =>
    match x.mutex with
    | some (u,.page i) =>
      if u = t && (x.deferred t).length ≤ i then
        (x.run (.advance t .commitCleanup (.ok ()))).map (·.enter t .unlock)
      else none
    | _ => none
  | .unlockAll t =>
    if x.mutex = some (t,.unlock) then
      (x.run (.advance t .commitUnlock (.ok ()))).map fun x => (x.release t).enter t .remove
    else none
  | .remove t =>
    if x.mutex = some (t,.remove) then
      (x.run (.advance t .commitRemove (.ok ()))).map fun x =>
        { x with mutex := none, answered := Function.update x.answered t true }
    else none

/-- A transaction that may still commit. -/
def live : TransactionState → Bool
  | .active | .committing | .commitUncertain => true
  | _ => false

/-- How a state may change: an outcome is final, and only what may still commit is
committed. -/
structure Settles (a b : TransactionState) : Prop where
  live : Transaction.live b = true → Transaction.live a = true
  committed : b = .committed → Transaction.live a = true ∨ a = .committed
  stays : a = .committed → b = .committed
  aborted : a = .aborted → b = .aborted

section settles

variable {m : Manager} {t : TxnId}

theorem settles_refl (a : TransactionState) : Settles a a := ⟨id,.inr,id,id⟩

theorem settles_setState {y : TransactionState} (h : Settles (m.state t) y) (u : TxnId) :
    Settles (m.state u) ((m.setState t y).state u) := by
  rw [setState_state]
  by_cases hu : u = t
  · rw [hu,Function.update_self]
    exact h
  · rw [Function.update_of_ne hu]
    exact settles_refl _

theorem settles_failed : Settles .active .failed :=
  ⟨fun h => (by cases h),fun h => (by cases h),fun h => (by cases h),fun h => (by cases h)⟩

/-- One section of `Commit` or `Abort`, at the state its stage stands for. -/
theorem settles_advance {s : Stage} (h : s.fits (m.state t)) (answer : Status) (u : TxnId) :
    Settles (m.state u) ((m.advance t answer s).2.state u) := by
  have hset : ∀ a y, m.state t = a → Settles a y →
      Settles (m.state u) ((m.setState t y).state u) :=
    fun a y ha hs => settles_setState (ha ▸ hs) u
  have hquit : Settles (m.state u) (m.state u) := settles_refl _
  cases s with
  | commitGuards =>
    simp only [Manager.advance]
    split
    · exact hset .committing .active h ⟨fun _ => rfl,by simp,by simp,by simp⟩
    · exact hquit
  | commitAppend =>
    cases answer with
    | error e => exact hset .committing .failed h ⟨by simp [live],by simp,by simp,by simp⟩
    | ok _ => exact hquit
  | commitFlush lsn =>
    cases answer with
    | error e => exact hset .committing .commitUncertain h ⟨fun _ => rfl,by simp,by simp,by simp⟩
    | ok _ => exact hset .committing .committed h ⟨by simp [live],fun _ => .inl rfl,by simp,by simp⟩
  | commitRetry lsn =>
    cases answer with
    | error e => exact hquit
    | ok _ =>
      rcases h with h | h
      · exact hset .commitUncertain .committed h
          ⟨by simp [live],fun _ => .inl rfl,by simp,by simp⟩
      · exact hset .committed .committed h (settles_refl _)
  | commitCleanup =>
    simp only [Manager.advance]
    split
    · exact hquit
    · cases answer <;> exact hquit
  | commitUnlock => exact hquit
  | commitRemove => exact hquit
  | abortUndo =>
    cases answer with
    | error e => exact hset .aborting .failed h ⟨by simp [live],by simp,by simp,by simp⟩
    | ok _ => exact hquit
  | abortAppend =>
    cases answer with
    | error e => exact hset .aborting .failed h ⟨by simp [live],by simp,by simp,by simp⟩
    | ok _ => exact hquit
  | abortFlush lsn =>
    cases answer with
    | error e => exact hset .aborting .failed h ⟨by simp [live],by simp,by simp,by simp⟩
    | ok _ => exact hset .aborting .aborted h ⟨by simp [live],by simp,by simp,by simp⟩
  | abortUnlock => exact hquit
  | abortRemove => exact hquit

theorem spawn_manager (x : Threads) (t : TxnId) (r : Progress × Manager) :
    (x.spawn t r).manager = r.2 := by
  unfold Threads.spawn
  split <;> rfl

theorem settles_commit (m : Manager) (t u : TxnId) :
    Settles (m.state u) ((m.commit t).2.state u) := by
  unfold Manager.commit
  split
  · exact settles_refl _
  split
  · exact settles_refl _
  · split <;> exact settles_refl _
  · exact settles_refl _
  · rename_i ha
    exact settles_setState (ha ▸ ⟨fun _ => rfl,by simp,by simp,by simp⟩) u
  · exact settles_refl _

theorem settles_abort (m : Manager) (t u : TxnId) :
    Settles (m.state u) ((m.abort t).2.state u) := by
  have habort : ∀ a, m.state t = a → a = .active ∨ a = .failed →
      Settles (m.state u) ((m.setState t .aborting).state u) := by
    rintro a ha (rfl | rfl) <;>
      exact settles_setState (ha ▸ ⟨by simp [live],by simp,by simp,by simp⟩) u
  unfold Manager.abort
  split
  · exact settles_refl _
  split
  · exact settles_refl _
  · exact settles_refl _
  · exact settles_refl _
  · split <;> exact settles_refl _
  · split <;> exact settles_refl _
  · rename_i ha
    split
    · exact settles_refl _
    · exact habort _ ha (.inl rfl)
  · rename_i ha
    split
    · exact settles_refl _
    · exact habort _ ha (.inr rfl)

/-- The table of transactions loses at most an entry. -/
structure Shrinks (m m' : Manager) (u : TxnId) : Prop where
  next : m'.nextTxnId = m.nextTxnId
  owned : m'.owned u = true → m.owned u = true

theorem shrinks_remove (m : Manager) (t u : TxnId) :
    Shrinks m { m with owned := Function.update m.owned t false } u := by
  refine ⟨rfl,fun ho => ?_⟩
  by_cases hu : u = t
  · subst hu
    simp at ho
  · simpa [hu] using ho

theorem shrinks_advance (m : Manager) (t u : TxnId) (answer : Status) (s : Stage) :
    Shrinks m (m.advance t answer s).2 u := by
  cases s with
  | commitRemove => exact shrinks_remove m t u
  | abortRemove => exact shrinks_remove m t u
  | _ =>
    simp only [Manager.advance]
    repeat' split
    all_goals exact ⟨rfl,id⟩

theorem shrinks_commit (m : Manager) (t u : TxnId) : Shrinks m (m.commit t).2 u := by
  unfold Manager.commit
  repeat' split
  all_goals exact ⟨rfl,id⟩

theorem shrinks_abort (m : Manager) (t u : TxnId) : Shrinks m (m.abort t).2 u := by
  unfold Manager.abort
  repeat' split
  all_goals exact ⟨rfl,id⟩

theorem settles_lock {x x' : Threads} {a : Lock.Action} (ha : ∀ t y, a ≠ .transition t y)
    (hn : x.lock a = some x') (u : TxnId) :
    Settles (x.manager.state u) (x'.manager.state u) ∧
      Shrinks x.manager x'.manager u := by
  simp only [Threads.lock,Option.map_eq_some_iff] at hn
  obtain ⟨o,ho,rfl⟩ := hn
  have hm : x.manager.lock a = { x.manager with locks := o } := by simp [Manager.lock,ho]
  refine ⟨?_,rfl,id⟩
  change Settles _ (Manager.state { x.manager with locks := o } u)
  rw [← hm]
  rcases Manager.lock_state ha u with hs | ⟨hs,hf⟩
  · rw [hs]
    exact settles_refl _
  · rw [hs,hf]
    exact settles_failed

/-- Every step but `Begin` only settles states. -/
theorem settles_guarded {x x' : Threads} {v : GuardEvent} (h : Good x)
    (hv : ∀ answer, v ≠ .step (.begin answer)) (hn : x.guarded v = some x') (u : TxnId) :
    Settles (x.manager.state u) (x'.manager.state u) ∧ Shrinks x.manager x'.manager u := by
  cases v with
  | fetchPageWrite t =>
    simp only [Threads.guarded] at hn
    split at hn
    · obtain rfl := Option.some.inj hn
      exact ⟨settles_refl _,rfl,id⟩
    · cases hn
  | release t logged =>
    simp only [Threads.guarded] at hn
    split at hn
    · cases hn
    · obtain rfl := Option.some.inj hn
      cases logged <;> exact ⟨settles_refl _,rfl,id⟩
  | step v =>
    cases v with
    | guards t count => cases hn
    | call c => exact settles_lock (by simp) hn u
    | enter c => exact settles_lock (by simp) hn u
    | wake t l => exact settles_lock (by simp) hn u
    | detectDeadlocks order => exact settles_lock (a := .detectDeadlocks order) (by simp) hn u
    | begin answer => exact absurd rfl (hv answer)
    | work t type =>
      simp only [Threads.guarded,Threads.next] at hn
      split at hn
      · obtain rfl := Option.some.inj hn
        exact ⟨settles_refl _,rfl,id⟩
      · cases hn
    | markFailed t =>
      simp only [Threads.guarded,Threads.next] at hn
      split at hn
      · rename_i ha
        obtain rfl := Option.some.inj hn
        exact ⟨settles_setState (ha ▸ settles_failed) u,rfl,id⟩
      · obtain rfl := Option.some.inj hn
        exact ⟨settles_refl _,rfl,id⟩
    | commit t =>
      obtain rfl := Option.some.inj hn
      rw [spawn_manager]
      exact ⟨settles_commit _ _ _,shrinks_commit _ _ _⟩
    | abort t =>
      obtain rfl := Option.some.inj hn
      rw [spawn_manager]
      exact ⟨settles_abort _ _ _,shrinks_abort _ _ _⟩
    | advance t stage answer =>
      simp only [Threads.guarded,Threads.next] at hn
      split at hn
      · rename_i hj
        obtain rfl := Option.some.inj hn
        rw [spawn_manager]
        exact ⟨settles_advance (h.placed.fits _ hj) answer u,shrinks_advance _ _ _ _ _⟩
      · cases hn

end settles

/-- Where a cleanup under the mutex has come to, of `n` pages. -/
def CleanupStage.fits (position n : ℕ) (released : Bool) : CleanupStage → Prop
  | .page i => i = position ∧ released = false
  | .freed i => i = position ∧ i < n ∧ released = false
  | .unlock => n ≤ position ∧ released = false
  | .remove => released = true

/-- A page whose deletion is reserved and which is still the transaction's. -/
def Cleaner.Reserved (x : Cleaner) (p : PageId) : Prop := x.pending p = true ∧ x.page p = .used

/-- A cleanup that has not released the locks: the pages before its place have been given
back once, those behind it not at all. `FinalizePageDeletion` may have failed after it gave
the page at hand back; then the reservation is gone. -/
structure Cleaner.Progress (x : Cleaner) (t : TxnId) : Prop where
  le : x.position t ≤ (x.deferred t).length
  before : ∀ j p, (x.deferred t)[j]? = some p → j < x.position t → x.freed.count (t,p) = 1
  after : ∀ j p, (x.deferred t)[j]? = some p → x.position t < j →
    x.freed.count (t,p) = 0 ∧ x.Reserved p
  here : ∀ p, (x.deferred t)[x.position t]? = some p →
    (x.freed.count (t,p) = 0 ∧ x.Reserved p ∧ x.mutex ≠ some (t,.freed (x.position t))) ∨
      (x.freed.count (t,p) = 1 ∧
        (x.mutex = some (t,.freed (x.position t)) ∨ x.pending p = false))

/-- What holds of one transaction. -/
structure Cleaner.At (x : Cleaner) (t : TxnId) : Prop where
  nodup : (x.deferred t).Nodup
  owner : x.released t = false → ∀ p ∈ x.deferred t, x.owner p = some t
  ended : x.released t = true → x.state t = .committed ∨ x.state t = .aborted
  untouched : x.state t ≠ .committed → ∀ p, x.freed.count (t,p) = 0
  undecided : live (x.state t) = true → x.position t = 0 ∧ ∀ p ∈ x.deferred t, x.Reserved p
  cleanup : x.state t = .committed → x.released t = false → x.Progress t
  done : x.state t = .committed → x.released t = true →
    ∀ p ∈ x.deferred t, x.freed.count (t,p) = 1
  mutex : ∀ s, x.mutex = some (t,s) → x.state t = .committed ∧
    s.fits (x.position t) (x.deferred t).length (x.released t)
  answered : x.answered t = true → x.state t = .committed ∧ x.released t = true
  only : ∀ p, x.freed.count (t,p) ≠ 0 → p ∈ x.deferred t
  kept : x.state t = .committed → x.released t = true → x.threads.manager.owned t = true →
    x.mutex = some (t,.remove)
  fresh : x.threads.manager.nextTxnId ≤ t → x.deferred t = [] ∧ x.position t = 0 ∧
    x.released t = false ∧ x.answered t = false ∧ (∀ s, x.mutex ≠ some (t,s)) ∧
    ∀ p, x.freed.count (t,p) = 0

/-- A step that leaves the reservations of a transaction alone. -/
structure Cleaner.Frame (x x' : Cleaner) (t : TxnId) : Prop where
  deferred : x'.deferred t = x.deferred t
  position : x'.position t = x.position t
  released : x'.released t = x.released t
  answered : x'.answered t = x.answered t
  freed : ∀ p, x'.freed.count (t,p) = x.freed.count (t,p)
  mutex : ∀ s, x'.mutex = some (t,s) ↔ x.mutex = some (t,s)
  state : Settles (x.state t) (x'.state t)
  next : x.threads.manager.nextTxnId ≤ x'.threads.manager.nextTxnId
  owned : x'.threads.manager.owned t = true → x.threads.manager.owned t = true
  owner : ∀ p ∈ x.deferred t, x.owner p = some t → x'.owner p = some t
  reserved : ∀ p ∈ x.deferred t, x.released t = false →
    (live (x.state t) = true ∨ x.state t = .committed) → x.Reserved p → x'.Reserved p
  gone : ∀ p ∈ x.deferred t, x.released t = false → x.state t = .committed →
    x.pending p = false → x'.pending p = false

variable {x x' : Cleaner} {t u : TxnId}

theorem Cleaner.At.not_released (h : x.At t) (hl : live (x.state t) = true) :
    x.released t = false := by
  by_contra hr
  rcases h.ended (by simpa using hr) with hs | hs <;> rw [hs] at hl <;> cases hl

theorem not_committed_of_live {a : TransactionState} (h : live a = true) : a ≠ .committed := by
  rintro rfl
  cases h

/-- The Commit record has just become durable: every page is still to be given back. -/
theorem Cleaner.At.progress (h : x.At t) (hl : live (x.state t) = true) : x.Progress t := by
  obtain ⟨h0,hres⟩ := h.undecided hl
  have hcount := h.untouched (not_committed_of_live hl)
  refine ⟨h0 ▸ Nat.zero_le _,fun j p _ hj => ?_,fun j p hp _ => ?_,fun p hp => .inl ?_⟩
  · rw [h0] at hj
    exact absurd hj (Nat.not_lt_zero j)
  · exact ⟨hcount p,hres p (List.mem_of_getElem? hp)⟩
  · refine ⟨hcount p,hres p (List.mem_of_getElem? hp),fun hm => ?_⟩
    exact not_committed_of_live hl (h.mutex _ hm).1

theorem Cleaner.Progress.frame (h : x.Progress t) (hf : x.Frame x' t)
    (hr : x.released t = false)
    (hs : live (x.state t) = true ∨ x.state t = .committed)
    (hgone : ∀ p ∈ x.deferred t, x.pending p = false → x'.pending p = false) :
    x'.Progress t := by
  refine ⟨by rw [hf.position,hf.deferred]; exact h.le,fun j p hp hj => ?_,fun j p hp hj => ?_,
    fun p hp => ?_⟩
  · rw [hf.deferred] at hp
    rw [hf.position] at hj
    rw [hf.freed]
    exact h.before j p hp hj
  · rw [hf.deferred] at hp
    rw [hf.position] at hj
    rw [hf.freed]
    obtain ⟨hc,hres⟩ := h.after j p hp hj
    exact ⟨hc,hf.reserved p (List.mem_of_getElem? hp) hr hs hres⟩
  · rw [hf.deferred,hf.position] at hp
    have hm := List.mem_of_getElem? hp
    rw [hf.freed,hf.position]
    rcases h.here p hp with ⟨hc,hres,hmutex⟩ | ⟨hc,hmutex | hpend⟩
    · exact .inl ⟨hc,hf.reserved p hm hr hs hres,fun he => hmutex ((hf.mutex _).mp he)⟩
    · exact .inr ⟨hc,.inl ((hf.mutex _).mpr hmutex)⟩
    · exact .inr ⟨hc,.inr (hgone p hm hpend)⟩

theorem Cleaner.At.frame (h : x.At t) (hf : x.Frame x' t) : x'.At t := by
  have hstate := hf.state
  refine ⟨by rw [hf.deferred]; exact h.nodup,fun hr p hp => ?_,fun hr => ?_,fun hs p => ?_,
    fun hl => ?_,fun hs hr => ?_,fun hs hr p hp => ?_,fun s hm => ?_,fun ha => ?_,
    fun p hp => ?_,fun hs hr ho => ?_,fun hle => ?_⟩
  · rw [hf.released] at hr
    rw [hf.deferred] at hp
    exact hf.owner p hp (h.owner hr p hp)
  · rw [hf.released] at hr
    rcases h.ended hr with hs | hs
    · exact .inl (hstate.stays hs)
    · exact .inr (hstate.aborted hs)
  · rw [hf.freed]
    exact h.untouched (fun he => hs (hstate.stays he)) p
  · have hl' := hstate.live hl
    obtain ⟨h0,hres⟩ := h.undecided hl'
    refine ⟨hf.position.trans h0,fun p hp => ?_⟩
    rw [hf.deferred] at hp
    exact hf.reserved p hp (h.not_released hl') (.inl hl') (hres p hp)
  · rw [hf.released] at hr
    rcases hstate.committed hs with hl | hc
    · refine (h.progress hl).frame hf hr (.inl hl) fun p hp hpend => ?_
      rw [((h.undecided hl).2 p hp).1] at hpend
      cases hpend
    · exact (h.cleanup hc hr).frame hf hr (.inr hc) fun p hp => hf.gone p hp hr hc
  · rw [hf.released] at hr
    rw [hf.deferred] at hp
    rw [hf.freed]
    rcases hstate.committed hs with hl | hc
    · rw [h.not_released hl] at hr
      cases hr
    · exact h.done hc hr p hp
  · obtain ⟨hc,hfit⟩ := h.mutex s ((hf.mutex s).mp hm)
    rw [hf.position,hf.deferred,hf.released]
    exact ⟨hstate.stays hc,hfit⟩
  · rw [hf.answered] at ha
    rw [hf.released]
    exact ⟨hstate.stays (h.answered ha).1,(h.answered ha).2⟩
  · rw [hf.freed] at hp
    rw [hf.deferred]
    exact h.only p hp
  · rw [hf.released] at hr
    rcases hstate.committed hs with hl | hc
    · rw [h.not_released hl] at hr
      cases hr
    · exact (hf.mutex _).mpr (h.kept hc hr (hf.owned ho))
  · obtain ⟨hd,hp,hr,ha,hm,hc⟩ := h.fresh (hf.next.trans hle)
    exact ⟨hf.deferred.trans hd,hf.position.trans hp,hf.released.trans hr,hf.answered.trans ha,
      fun s he => hm s ((hf.mutex s).mp he),fun p => (hf.freed p).trans (hc p)⟩

structure Cleaner.Clean (x : Cleaner) : Prop where
  good : Good x.threads
  each : ∀ t, x.At t

/-- A page whose deletion is reserved by a transaction that has not given up its locks. -/
def Cleaner.Holds (x : Cleaner) (t : TxnId) (p : PageId) : Prop :=
  p ∈ x.deferred t ∧ x.released t = false ∧ (live (x.state t) = true ∨ x.state t = .committed)

theorem Cleaner.At.holds (h : x.At t) {p : PageId} (hh : x.Holds t p) : x.owner p = some t :=
  h.owner hh.2.1 p hh.1

/-- A reserved page belongs to one transaction. -/
theorem Cleaner.Clean.holder (h : x.Clean) {p : PageId} (ho : x.owner p = some u)
    (hh : x.Holds t p) : u = t :=
  Option.some.inj (ho.symm.trans ((h.each t).holds hh))

/-- A change of one page that spares the reservations on it. -/
theorem Cleaner.frame_page {page : PageId → PageUse} {pending : PageId → Bool} (p : PageId)
    (hpage : ∀ q, q ≠ p → page q = x.page q) (hpending : ∀ q, q ≠ p → pending q = x.pending q)
    (hp : x.Holds t p → (x.Reserved p → pending p = true ∧ page p = .used) ∧
      (x.state t = .committed → x.pending p = false → pending p = false)) :
    x.Frame { x with page := page, pending := pending } t where
  deferred := rfl
  position := rfl
  released := rfl
  answered := rfl
  freed _ := rfl
  mutex _ := .rfl
  state := settles_refl _
  next := le_rfl
  owned := id
  owner _ _ := id
  reserved q hq hr hs hres := by
    by_cases hqp : q = p
    · subst hqp
      exact (hp ⟨hq,hr,hs⟩).1 hres
    · exact ⟨(hpending q hqp).trans hres.1,(hpage q hqp).trans hres.2⟩
  gone q hq hr hc hpend := by
    by_cases hqp : q = p
    · subst hqp
      exact (hp ⟨hq,hr,.inr hc⟩).2 hc hpend
    · exact (hpending q hqp).trans hpend

/-- Steps of the threads alone. -/
theorem Cleaner.Clean.threads (h : x.Clean) {v : GuardEvent} {threads : Threads}
    (hn : x.threads.guarded v = some threads) :
    ({ x with threads := threads } : Cleaner).Clean := by
  refine ⟨h.good.guarded hn,fun t => ?_⟩
  by_cases hv : ∃ answer, v = .step (.begin answer)
  · obtain ⟨answer,rfl⟩ := hv
    obtain rfl := Option.some.inj hn
    have hstate : (x.threads.manager.begin answer).2.state =
        Function.update x.threads.manager.state x.threads.manager.nextTxnId .active := by
      cases answer <;> rfl
    have hnext : (x.threads.manager.begin answer).2.nextTxnId =
        x.threads.manager.nextTxnId + 1 := by
      cases answer <;> rfl
    have howned : ∀ u, u ≠ x.threads.manager.nextTxnId →
        (x.threads.manager.begin answer).2.owned u = x.threads.manager.owned u := by
      intro u hu
      cases answer with
      | error e => rfl
      | ok _ => exact Function.update_of_ne hu _ _
    by_cases ht : t = x.threads.manager.nextTxnId
    · obtain ⟨hd,hp,hr,ha,hm,hc⟩ := (h.each t).fresh ht.ge
      have hs : (x.threads.manager.begin answer).2.state t = .active := by
        rw [hstate,ht,Function.update_self]
      have hno : ∀ p, p ∉ x.deferred t := fun p => by rw [hd]; exact List.not_mem_nil
      refine ⟨(h.each t).nodup,fun _ p hp => absurd hp (hno p),fun hr' => ?_,fun _ => hc,
        fun _ => ⟨hp,fun p hp => absurd hp (hno p)⟩,fun hs' => ?_,fun hs' => ?_,
        fun s hs' => absurd hs' (hm s),fun ha' => ?_,fun p hp => absurd (hc p) hp,
        fun hs' => ?_,fun hle => ?_⟩
      · exact absurd (hr.symm.trans hr') (by simp)
      · exact absurd (hs.symm.trans hs') (by simp)
      · exact absurd (hs.symm.trans hs') (by simp)
      · exact absurd (ha.symm.trans ha') (by simp)
      · exact absurd (hs.symm.trans hs') (by simp)
      · exact ⟨hd,hp,hr,ha,hm,hc⟩
    · refine (h.each t).frame ⟨rfl,rfl,rfl,rfl,fun _ => rfl,fun _ => .rfl,?_,?_,fun ho => ?_,
        fun _ _ => id,fun _ _ _ _ => id,fun _ _ _ _ => id⟩
      · change Settles (x.threads.manager.state t) ((x.threads.manager.begin answer).2.state t)
        rw [hstate,Function.update_of_ne ht]
        exact settles_refl _
      · exact hnext ▸ Nat.le_succ _
      · exact (howned t ht).symm.trans ho
  · have hv' : ∀ answer, v ≠ .step (.begin answer) := fun answer he => hv ⟨answer,he⟩
    obtain ⟨hs,hnext,howned⟩ := settles_guarded h.good hv' hn t
    exact (h.each t).frame ⟨rfl,rfl,rfl,rfl,fun _ => rfl,fun _ => .rfl,hs,hnext.ge,howned,
      fun _ _ => id,fun _ _ _ _ => id,fun _ _ _ _ => id⟩

/-- A step of the threads, with the state it leaves. -/
structure Cleaner.Ran (x x' : Cleaner) (v : Event) : Prop where
  clean : x'.Clean
  same : x' = { x with threads := x'.threads }
  settles : (∀ answer, v ≠ .begin answer) → ∀ t, Settles (x.state t) (x'.state t)

theorem Cleaner.Clean.run (h : x.Clean) {v : Event} (hn : x.run v = some x') : x.Ran x' v := by
  simp only [Cleaner.run,Option.map_eq_some_iff] at hn
  obtain ⟨threads,hg,rfl⟩ := hn
  refine ⟨h.threads hg,rfl,fun hv t => ?_⟩
  exact (settles_guarded h.good (fun answer he => hv answer (GuardEvent.step.inj he)) hg t).1

/-- A job stands for the state of its transaction. -/
theorem Cleaner.Clean.job (h : x.Clean) {s : Stage} (hj : (t,s) ∈ x.threads.jobs) :
    s.fits (x.state t) :=
  h.good.placed.fits _ hj

/-- The steps that touch neither a list of reservations nor the cleanup. -/
theorem Cleaner.Clean.page_step (h : x.Clean) {page : PageId → PageUse} {pending : PageId → Bool}
    (p : PageId) (hpage : ∀ q, q ≠ p → page q = x.page q)
    (hpending : ∀ q, q ≠ p → pending q = x.pending q)
    (hp : ∀ t, x.Holds t p → (x.Reserved p → pending p = true ∧ page p = .used) ∧
      (x.state t = .committed → x.pending p = false → pending p = false)) :
    ({ x with page := page, pending := pending } : Cleaner).Clean :=
  ⟨h.good,fun t => (h.each t).frame (Cleaner.frame_page p hpage hpending (hp t))⟩

theorem Cleaner.Clean.setPage (h : x.Clean) {p : PageId} {use : PageUse}
    (hp : ∀ t, x.Holds t p → x.page p ≠ .used) : (x.setPage p use).Clean := by
  refine h.page_step p (fun q hq => Function.update_of_ne hq _ _) (fun _ _ => rfl) fun t hh => ?_
  exact ⟨fun hres => absurd hres.2 (hp t hh),fun _ => id⟩

/-- Nobody holds a page that belongs to a transaction that is aborting. -/
theorem Cleaner.Clean.not_held (h : x.Clean) {p : PageId} (ho : x.owner p = some u)
    (hs : x.state u = .aborting) (t : TxnId) : ¬x.Holds t p := by
  intro hh
  obtain rfl := h.holder ho hh
  rcases hh.2.2 with hl | hc
  · rw [hs] at hl
    cases hl
  · rw [hs] at hc
    cases hc

theorem Cleaner.Clean.log_deletion (h : x.Clean) {p : PageId} (ha : x.Usable t = true)
    (ho : x.owner p = some t) (hp : x.Reserved p) (hnew : p ∉ x.deferred t) :
    ({ x with deferred := Function.update x.deferred t (x.deferred t ++ [p]) } :
      Cleaner).Clean := by
  simp only [Cleaner.Usable,Bool.and_eq_true,decide_eq_true_eq] at ha
  obtain ⟨howned,hstate⟩ := ha
  refine ⟨h.good,fun u => ?_⟩
  by_cases hu : u = t
  · subst hu
    have hat := h.each u
    have hlive : live (x.state u) = true := by rw [hstate]; rfl
    obtain ⟨h0,hres⟩ := hat.undecided hlive
    have hd : Function.update x.deferred u (x.deferred u ++ [p]) u = x.deferred u ++ [p] :=
      Function.update_self _ _ _
    have hno : ¬x.threads.manager.nextTxnId ≤ u := fun hle => by
      rw [(h.good.unused u hle).owned] at howned
      cases howned
    have hnot : x.state u ≠ .committed := not_committed_of_live hlive
    refine ⟨?_,fun hr q hq => ?_,hat.ended,hat.untouched,fun hl => ⟨h0,fun q hq => ?_⟩,
      fun hc => absurd hc hnot,fun hc => absurd hc hnot,fun s hm => absurd (hat.mutex s hm).1 hnot,
      hat.answered,fun q hq => absurd (hat.untouched hnot q) hq,fun hc => absurd hc hnot,
      fun hle => absurd hle hno⟩
    · dsimp only
      rw [hd]
      exact List.nodup_append.mpr ⟨hat.nodup,by simp,fun a ha b hb => by
        rw [List.mem_singleton.mp hb]
        rintro rfl
        exact hnew ha⟩
    · dsimp only at hq
      rw [hd] at hq
      rcases List.mem_append.mp hq with hq | hq
      · exact hat.owner hr q hq
      · rw [List.mem_singleton.mp hq]
        exact ho
    · dsimp only at hq
      rw [hd] at hq
      rcases List.mem_append.mp hq with hq | hq
      · exact hres q hq
      · rw [List.mem_singleton.mp hq]
        exact hp
  · have hd : Function.update x.deferred t (x.deferred t ++ [p]) u = x.deferred u :=
      Function.update_of_ne hu _ _
    exact (h.each u).frame ⟨hd,rfl,rfl,rfl,fun _ => rfl,fun _ => .rfl,settles_refl _,le_rfl,id,
      fun _ _ => id,fun _ _ _ _ => id,fun _ _ _ _ => id⟩

/-- A cleanup under the mutex stands at a page of a committed transaction. -/
theorem Cleaner.Clean.standing (h : x.Clean) {s : CleanupStage} {i : ℕ}
    (hm : x.mutex = some (t,s)) (hs : s = .page i ∨ s = .freed i) :
    x.state t = .committed ∧ x.position t = i ∧ x.released t = false := by
  obtain ⟨hc,hfit⟩ := (h.each t).mutex s hm
  rcases hs with rfl | rfl
  · exact ⟨hc,hfit.1.symm,hfit.2⟩
  · exact ⟨hc,hfit.1.symm,hfit.2.2⟩

/-- The other transactions while the cleanup of `t` handles the page `p`. -/
theorem Cleaner.Clean.others (h : x.Clean) {s : CleanupStage} {p : PageId}
    (hm : x.mutex = some (t,s)) (hh : x.Holds t p) (hu : u ≠ t) {page : PageId → PageUse}
    {pending : PageId → Bool} {position : TxnId → ℕ} {mutex : Option (TxnId × CleanupStage)}
    {freed : List (TxnId × PageId)} (hpage : ∀ q, q ≠ p → page q = x.page q)
    (hpending : ∀ q, q ≠ p → pending q = x.pending q) (hposition : position u = x.position u)
    (hmutex : ∀ v r, mutex = some (v,r) → v = t)
    (hfreed : ∀ q, freed.count (u,q) = x.freed.count (u,q)) :
    ({ x with
      page := page
      pending := pending
      position := position
      mutex := mutex
      freed := freed } : Cleaner).At u := by
  have hnot : ¬x.Holds u p := fun hh' => hu (h.holder ((h.each t).holds hh) hh').symm
  have hf := Cleaner.frame_page (x := x) (t := u) p hpage hpending fun hh' => absurd hh' hnot
  refine (h.each u).frame ⟨rfl,hposition,rfl,rfl,hfreed,fun r => ⟨fun he => ?_,fun he => ?_⟩,
    settles_refl _,le_rfl,id,fun _ _ => id,hf.reserved,hf.gone⟩
  · exact absurd (hmutex u r he) hu
  · have hpair := Option.some.inj (hm.symm.trans he)
    exact absurd (congrArg Prod.fst hpair).symm hu

/-- The page at hand has been given back; the next one is up. -/
theorem Cleaner.Clean.proceed (h : x.Clean) {s : CleanupStage} {i : ℕ} {p : PageId}
    {pending : PageId → Bool} (hm : x.mutex = some (t,s)) (hs : s = .page i ∨ s = .freed i)
    (hp : (x.deferred t)[i]? = some p) (hcount : x.freed.count (t,p) = 1)
    (hpending : ∀ q, q ≠ p → pending q = x.pending q) :
    (({ x with pending := pending } : Cleaner).proceed t i).Clean := by
  obtain ⟨hc,hi,hr⟩ := h.standing hm hs
  have hh : x.Holds t p := ⟨List.mem_of_getElem? hp,hr,.inr hc⟩
  refine ⟨h.good,fun u => ?_⟩
  by_cases hu : u = t
  · subst hu
    have hat := h.each u
    have hprog := hat.cleanup hc hr
    have hpos : Function.update x.position u (i+1) u = i + 1 := Function.update_self _ _ _
    have hlt : i < (x.deferred u).length := (List.getElem?_eq_some_iff.mp hp).1
    have hother : ∀ j q, (x.deferred u)[j]? = some q → i < j → q ≠ p := by
      rintro j q hq hij rfl
      have hj := (List.getElem?_eq_some_iff.mp hq).1
      have he := (List.getElem?_inj hlt hat.nodup).mp (hp.trans hq.symm)
      exact absurd he (Nat.ne_of_lt hij)
    refine ⟨hat.nodup,hat.owner,hat.ended,hat.untouched,fun hl => ?_,fun _ _ => ?_,
      fun _ hr' => ?_,fun r hr' => ?_,hat.answered,hat.only,fun _ hr' => ?_,fun hle => ?_⟩
    · exact absurd hc (not_committed_of_live hl)
    · refine ⟨?_,fun j q hq hj => ?_,fun j q hq hj => ?_,fun q hq => .inl ?_⟩
      · exact hpos.le.trans hlt
      · have hj' : j < i + 1 := hpos ▸ hj
        rcases Nat.lt_succ_iff_lt_or_eq.mp hj' with hj' | rfl
        · exact hprog.before j q hq (hi ▸ hj')
        · rw [Option.some.inj (hq.symm.trans hp)]
          exact hcount
      · have hj' : i + 1 < j := hpos ▸ hj
        have hij : i < j := Nat.lt_of_succ_lt hj'
        obtain ⟨h0,hres⟩ := hprog.after j q hq (hi ▸ hij)
        exact ⟨h0,(hpending q (hother j q hq hij)).trans hres.1,hres.2⟩
      · have hq' : (x.deferred u)[i+1]? = some q := hpos ▸ hq
        obtain ⟨h0,hres⟩ := hprog.after (i+1) q hq' (hi ▸ Nat.lt_succ_self i)
        refine ⟨h0,⟨(hpending q (hother _ q hq' (Nat.lt_succ_self i))).trans hres.1,hres.2⟩,?_⟩
        simp [Cleaner.proceed,Cleaner.enter]
    · exact absurd (hr.symm.trans hr') (by simp)
    · obtain rfl : CleanupStage.page (i+1) = r := by
        simpa [Cleaner.proceed,Cleaner.enter] using hr'
      exact ⟨hc,hpos.symm,hr⟩
    · exact absurd (hr.symm.trans hr') (by simp)
    · have hno := (hat.fresh hle).2.2.2.2.1 s
      exact absurd hm hno
  · refine h.others hm hh hu (fun _ _ => rfl) hpending (Function.update_of_ne hu _ _) ?_
      fun _ => rfl
    intro v r hv
    exact (congrArg Prod.fst (Option.some.inj hv)).symm

/-- The cleanup gives up at a page. -/
theorem Cleaner.Clean.dropMutex (h : x.Clean) {s : CleanupStage} {i : ℕ} {p : PageId}
    {pending : PageId → Bool} (hm : x.mutex = some (t,s)) (hs : s = .page i ∨ s = .freed i)
    (hp : (x.deferred t)[i]? = some p) (hkeep : s = .page i → pending = x.pending)
    (hgone : s = .freed i → pending p = false)
    (hpending : ∀ q, q ≠ p → pending q = x.pending q) :
    ({ x with pending := pending, mutex := none } : Cleaner).Clean := by
  obtain ⟨hc,hi,hr⟩ := h.standing hm hs
  have hh : x.Holds t p := ⟨List.mem_of_getElem? hp,hr,.inr hc⟩
  refine ⟨h.good,fun u => ?_⟩
  by_cases hu : u = t
  · subst hu
    have hat := h.each u
    have hprog := hat.cleanup hc hr
    have hlt : i < (x.deferred u).length := (List.getElem?_eq_some_iff.mp hp).1
    refine ⟨hat.nodup,hat.owner,hat.ended,hat.untouched,fun hl => ?_,fun _ _ => ?_,
      fun _ hr' => ?_,fun r hr' => ?_,hat.answered,hat.only,fun _ hr' => ?_,fun hle => ?_⟩
    · exact absurd hc (not_committed_of_live hl)
    · refine ⟨hprog.le,hprog.before,fun j q hq hj => ?_,fun q hq => ?_⟩
      · obtain ⟨h0,hres⟩ := hprog.after j q hq hj
        refine ⟨h0,(hpending q ?_).trans hres.1,hres.2⟩
        rintro rfl
        have he := (List.getElem?_inj hlt hat.nodup).mp (hp.trans hq.symm)
        exact absurd (hi.trans he) (Nat.ne_of_lt hj)
      · have hq' : (x.deferred u)[i]? = some q := hi ▸ hq
        obtain rfl : q = p := Option.some.inj (hq'.symm.trans hp)
        rcases hs with rfl | rfl
        · have hsame := hkeep rfl
          rcases hprog.here q hq with ⟨h0,hres,-⟩ | ⟨h1,hmut | hpend⟩
          · exact .inl ⟨h0,⟨(congrFun hsame q).trans hres.1,hres.2⟩,fun he => (by cases he)⟩
          · rw [hm] at hmut
            cases hmut
          · exact .inr ⟨h1,.inr ((congrFun hsame q).trans hpend)⟩
        · rcases hprog.here q hq with ⟨-,-,hmut⟩ | ⟨h1,-⟩
          · rw [hi] at hmut
            exact absurd hm hmut
          · exact .inr ⟨h1,.inr (hgone rfl)⟩
    · exact absurd (hr.symm.trans hr') (by simp)
    · cases hr'
    · exact absurd (hr.symm.trans hr') (by simp)
    · exact absurd hm ((hat.fresh hle).2.2.2.2.1 s)
  · exact h.others hm hh hu (fun _ _ => rfl) hpending rfl (fun _ _ hv => (by cases hv)) fun _ => rfl

/-- `DeallocatePage` of the page at hand. -/
theorem Cleaner.Clean.deallocate (h : x.Clean) {i : ℕ} {p : PageId}
    (hm : x.mutex = some (t,.page i)) (hp : (x.deferred t)[i]? = some p)
    (hpend : x.pending p = true) :
    ({ (x.setPage p .free).enter t (.freed i) with freed := x.freed ++ [(t,p)] } :
      Cleaner).Clean := by
  obtain ⟨hc,hi,hr⟩ := h.standing hm (.inl rfl)
  have hh : x.Holds t p := ⟨List.mem_of_getElem? hp,hr,.inr hc⟩
  have hpage : ∀ q, q ≠ p → Function.update x.page p .free q = x.page q :=
    fun q hq => Function.update_of_ne hq _ _
  refine ⟨h.good,fun u => ?_⟩
  by_cases hu : u = t
  · subst hu
    have hat := h.each u
    have hprog := hat.cleanup hc hr
    have hlt : i < (x.deferred u).length := (List.getElem?_eq_some_iff.mp hp).1
    have hcount : ∀ q, (x.freed ++ [(u,p)]).count (u,q) =
        x.freed.count (u,q) + if q = p then 1 else 0 := by
      intro q
      rw [List.count_append]
      by_cases hq : q = p
      · subst hq
        simp
      · simp [hq,Ne.symm hq]
    have hother : ∀ j q, (x.deferred u)[j]? = some q → i ≠ j → q ≠ p := by
      rintro j q hq hij rfl
      exact hij ((List.getElem?_inj hlt hat.nodup).mp (hp.trans hq.symm))
    refine ⟨hat.nodup,hat.owner,hat.ended,fun hno => absurd hc hno,fun hl => ?_,fun _ _ => ?_,
      fun _ hr' => ?_,fun r hr' => ?_,hat.answered,fun q hq => ?_,fun _ hr' => ?_,fun hle => ?_⟩
    · exact absurd hc (not_committed_of_live hl)
    · refine ⟨hprog.le,fun j q hq hj => ?_,fun j q hq hj => ?_,fun q hq => .inr ?_⟩
      · have hqp := hother j q hq fun he => Nat.lt_irrefl _ (he ▸ hi ▸ hj)
        exact (hcount q).trans (by rw [if_neg hqp]; exact hprog.before j q hq hj)
      · have hqp := hother j q hq fun he => Nat.lt_irrefl _ (he ▸ hi ▸ hj)
        obtain ⟨h0,hres⟩ := hprog.after j q hq hj
        exact ⟨(hcount q).trans (by rw [if_neg hqp]; exact h0),hres.1,(hpage q hqp).trans hres.2⟩
      · have hq' : (x.deferred u)[i]? = some q := hi ▸ hq
        obtain rfl : q = p := Option.some.inj (hq'.symm.trans hp)
        refine ⟨?_,.inl (congrArg (fun i => some (u,CleanupStage.freed i)) hi.symm)⟩
        rw [hcount,if_pos rfl]
        rcases hprog.here q hq with ⟨h0,-⟩ | ⟨-,hmut | hgone⟩
        · rw [h0]
        · rw [hm] at hmut
          cases hmut
        · rw [hpend] at hgone
          cases hgone
    · exact absurd (hr.symm.trans hr') (by simp)
    · obtain rfl : CleanupStage.freed i = r := by
        simpa [Cleaner.enter] using hr'
      exact ⟨hc,hi.symm,hlt,hr⟩
    · by_cases hqp : q = p
      · have hmem := List.mem_of_getElem? hp
        exact hqp ▸ hmem
      · refine hat.only q fun h0 => hq ?_
        rw [hcount,if_neg hqp,h0]
    · exact absurd (hr.symm.trans hr') (by simp)
    · exact absurd hm ((hat.fresh hle).2.2.2.2.1 _)
  · refine h.others hm hh hu hpage (fun _ _ => rfl) rfl ?_ fun q => ?_
    · intro v r hv
      exact (congrArg Prod.fst (Option.some.inj hv)).symm
    · have hne : (t,p) ≠ (u,q) := fun he => hu (congrArg Prod.fst he).symm
      rw [List.count_append,List.count_singleton]
      simp [hne]

/-- The thread under the mutex goes on without touching a page. -/
theorem Cleaner.Clean.enter (h : x.Clean) {s : CleanupStage}
    (hother : ∀ u r, x.mutex = some (u,r) → u = t) (hc : x.state t = .committed)
    (hs : s.fits (x.position t) (x.deferred t).length (x.released t))
    (hkept : x.released t = true → s = .remove)
    (hprog : x.released t = false → ({ x with mutex := some (t,s) } : Cleaner).Progress t)
    (hfresh : ¬x.threads.manager.nextTxnId ≤ t) : (x.enter t s).Clean := by
  refine ⟨h.good,fun u => ?_⟩
  by_cases hu : u = t
  · subst hu
    have hat := h.each u
    refine ⟨hat.nodup,hat.owner,hat.ended,hat.untouched,hat.undecided,fun _ => hprog,hat.done,
      fun r hr => ?_,hat.answered,hat.only,fun _ hr _ => ?_,fun hle => absurd hle hfresh⟩
    · obtain rfl : s = r := by simpa [Cleaner.enter] using hr
      exact ⟨hc,hs⟩
    · rw [hkept hr]
      rfl
  · refine (h.each u).frame ⟨rfl,rfl,rfl,rfl,fun _ => rfl,fun r => ⟨fun he => ?_,fun he => ?_⟩,
      settles_refl _,le_rfl,id,fun _ _ => id,fun _ _ _ _ => id,fun _ _ _ _ => id⟩
    · exact absurd (congrArg Prod.fst (Option.some.inj he)).symm hu
    · exact absurd (hother u r he) hu

/-- The locks of the others stay when `t` releases its own. -/
theorem Cleaner.Clean.keep_owner (h : x.Clean) (hu : u ≠ t)
    {mutex : Option (TxnId × CleanupStage)}
    (hmutex : ∀ r, mutex = some (u,r) ↔ x.mutex = some (u,r)) :
    ({ x.release t with mutex := mutex } : Cleaner).At u := by
  refine (h.each u).frame ⟨rfl,rfl,Function.update_of_ne hu _ _,rfl,fun _ => rfl,hmutex,
    settles_refl _,le_rfl,id,fun p _ ho => ?_,fun _ _ _ _ => id,fun _ _ _ _ => id⟩
  change (if x.owner p = some t then none else x.owner p) = some u
  rw [if_neg fun he => hu (Option.some.inj (ho.symm.trans he))]
  exact ho

theorem Cleaner.Clean.release_aborted (h : x.Clean) (hs : x.state t = .aborted)
    (hfresh : ¬x.threads.manager.nextTxnId ≤ t) : (x.release t).Clean := by
  refine ⟨h.good,fun u => ?_⟩
  by_cases hu : u = t
  · subst hu
    have hat := h.each u
    have hr : Function.update x.released u true u = true := Function.update_self _ _ _
    have hnot : x.state u ≠ .committed := by simp [hs]
    refine ⟨hat.nodup,fun hr' => ?_,fun _ => .inr hs,hat.untouched,hat.undecided,
      fun hc => absurd hc hnot,fun hc => absurd hc hnot,fun r hm => absurd (hat.mutex r hm).1 hnot,
      fun ha => absurd (hat.answered ha).1 hnot,hat.only,fun hc => absurd hc hnot,
      fun hle => absurd hle hfresh⟩
    exact absurd (hr.symm.trans hr') (by simp)
  · exact h.keep_owner hu fun _ => .rfl

theorem Cleaner.Clean.release_committed (h : x.Clean) (hm : x.mutex = some (t,.unlock)) :
    ((x.release t).enter t .remove).Clean := by
  obtain ⟨hc,hle,hr⟩ := (h.each t).mutex _ hm
  refine ⟨h.good,fun u => ?_⟩
  by_cases hu : u = t
  · subst hu
    have hat := h.each u
    have hprog := hat.cleanup hc hr
    have hr' : Function.update x.released u true u = true := Function.update_self _ _ _
    have hlive : live (x.state u) ≠ true := fun hl => not_committed_of_live hl hc
    refine ⟨hat.nodup,fun hf => absurd (hr'.symm.trans hf) (by simp),fun _ => .inl hc,
      hat.untouched,fun hl => absurd hl hlive,fun _ hf => absurd (hr'.symm.trans hf) (by simp),
      fun _ _ p hp => ?_,fun r hm' => ?_,fun _ => ⟨hc,hr'⟩,hat.only,fun _ _ _ => rfl,fun hle' => ?_⟩
    · obtain ⟨j,hj⟩ := List.mem_iff_getElem?.mp hp
      have hlt : j < (x.deferred u).length := (List.getElem?_eq_some_iff.mp hj).1
      exact hprog.before j p hj (hlt.trans_le hle)
    · obtain rfl : CleanupStage.remove = r := by simpa [Cleaner.enter] using hm'
      exact ⟨hc,hr'⟩
    · exact absurd hm ((hat.fresh hle').2.2.2.2.1 _)
  · refine h.keep_owner hu fun r => ⟨fun he => ?_,fun he => ?_⟩
    · exact absurd (congrArg Prod.fst (Option.some.inj he)).symm hu
    · exact absurd (congrArg Prod.fst (Option.some.inj (hm.symm.trans he))).symm hu

/-- `Commit` comes back with Ok. -/
theorem Cleaner.Clean.answer (h : x.Clean) (hm : x.mutex = some (t,.remove))
    (ho : x.threads.manager.owned t = false) :
    ({ x with mutex := none, answered := Function.update x.answered t true } : Cleaner).Clean := by
  obtain ⟨hc,hr⟩ := (h.each t).mutex _ hm
  refine ⟨h.good,fun u => ?_⟩
  by_cases hu : u = t
  · subst hu
    have hat := h.each u
    refine ⟨hat.nodup,hat.owner,hat.ended,hat.untouched,hat.undecided,fun _ hf => ?_,hat.done,
      fun r hm' => (by cases hm'),fun _ => ⟨hc,hr⟩,hat.only,fun _ _ ho' => ?_,fun hle => ?_⟩
    · exact absurd (hr.symm.trans hf) (by simp)
    · exact absurd (ho.symm.trans ho') (by simp)
    · exact absurd hm ((hat.fresh hle).2.2.2.2.1 _)
  · refine (h.each u).frame ⟨rfl,rfl,rfl,Function.update_of_ne hu _ _,fun _ => rfl,
      fun r => ⟨fun he => (by cases he),fun he => ?_⟩,settles_refl _,le_rfl,id,fun _ _ => id,
      fun _ _ _ _ => id,fun _ _ _ _ => id⟩
    exact absurd (congrArg Prod.fst (Option.some.inj (hm.symm.trans he))).symm hu

theorem Cleaner.Clean.not_fresh (h : x.Clean) {s : Stage} (hj : (t,s) ∈ x.threads.jobs) :
    ¬x.threads.manager.nextTxnId ≤ t :=
  Nat.not_le.mpr (h.good.lt_next hj)

/-- A thread enters the cleanup. -/
theorem Cleaner.Clean.enter_cleanup (h : x.Clean) (hm : x.mutex = none)
    (hj : (t,.commitCleanup) ∈ x.threads.jobs) (ho : x.threads.manager.owned t = true) :
    (x.enter t (.page (x.position t))).Clean := by
  have hat := h.each t
  have hc : x.state t = .committed := h.job hj
  have hr : x.released t = false := by
    by_contra hr
    have hmut := hat.kept hc (by simpa using hr) ho
    rw [hm] at hmut
    cases hmut
  refine h.enter (fun u r hmut => ?_) hc ⟨rfl,hr⟩ (fun hr' => ?_) (fun _ => ?_) (h.not_fresh hj)
  · rw [hm] at hmut
    cases hmut
  · exact absurd (hr.symm.trans hr') (by simp)
  · have hprog := hat.cleanup hc hr
    refine ⟨hprog.le,hprog.before,hprog.after,fun p hp => ?_⟩
    rcases hprog.here p hp with ⟨h0,hres,-⟩ | ⟨h1,hmut | hpend⟩
    · exact .inl ⟨h0,hres,fun he => (by cases he)⟩
    · rw [hm] at hmut
      cases hmut
    · exact .inr ⟨h1,.inr hpend⟩

/-- All pages are given back; the locks are next. -/
theorem Cleaner.Clean.leave (h : x.Clean) {i : ℕ} (hm : x.mutex = some (t,.page i))
    (hle : (x.deferred t).length ≤ i) : (x.enter t .unlock).Clean := by
  obtain ⟨hc,hi,hr⟩ := h.standing hm (.inl rfl)
  have hprog := (h.each t).cleanup hc hr
  have hle' : (x.deferred t).length ≤ x.position t := hi.symm ▸ hle
  refine h.enter (fun u r hmut => ?_) hc ⟨hle',hr⟩ (fun hr' => ?_) (fun _ => ?_) fun hfresh => ?_
  · exact (congrArg Prod.fst (Option.some.inj (hm.symm.trans hmut))).symm
  · exact absurd (hr.symm.trans hr') (by simp)
  · refine ⟨hprog.le,hprog.before,hprog.after,fun p hp => ?_⟩
    have hlt : x.position t < (x.deferred t).length := (List.getElem?_eq_some_iff.mp hp).1
    exact absurd hle' (Nat.not_le.mpr hlt)
  · exact ((h.each t).fresh hfresh).2.2.2.2.1 _ hm

theorem Cleaner.Clean.giveUp (h : x.Clean) {s : CleanupStage} {i : ℕ} {p : PageId}
    {pending : PageId → Bool} {e : Failure} (hm : x.mutex = some (t,s))
    (hs : s = .page i ∨ s = .freed i) (hp : (x.deferred t)[i]? = some p)
    (hkeep : s = .page i → pending = x.pending) (hgone : s = .freed i → pending p = false)
    (hpending : ∀ q, q ≠ p → pending q = x.pending q)
    (hn : ({ x with pending := pending } : Cleaner).giveUp t e = some x') : x'.Clean :=
  ((h.dropMutex hm hs hp hkeep hgone hpending).run hn).clean

/-- The page at hand goes through `FinalizePageDeletion`. -/
theorem Cleaner.Clean.finalize (h : x.Clean) {i : ℕ} {p : PageId} {answer : Status}
    (hm : x.mutex = some (t,.page i)) (hp : (x.deferred t)[i]? = some p)
    (hn : x.finalize t i p answer = some x') : x'.Clean := by
  obtain ⟨hc,hi,hr⟩ := h.standing hm (.inl rfl)
  have hprog := (h.each t).cleanup hc hr
  have hhere := hprog.here p (hi.symm ▸ hp)
  unfold Cleaner.finalize at hn
  split at hn
  · rename_i hpend
    obtain rfl := Option.some.inj hn
    refine h.proceed hm (.inl rfl) hp ?_ fun _ _ => rfl
    rcases hhere with ⟨-,hres,-⟩ | ⟨h1,-⟩
    · rw [hres.1] at hpend
      cases hpend
    · exact h1
  rename_i hpend
  have hpend' : x.pending p = true := by simpa using hpend
  split at hn
  · exact h.giveUp hm (.inl rfl) hp (fun _ => rfl) (fun he => by cases he) (fun _ _ => rfl) hn
  split at hn
  · -- the page at hand is still the transaction's, so it is not free
    rename_i hfree
    rcases hhere with ⟨-,hres,-⟩ | ⟨-,hmut | hgone⟩
    · rw [hres.2] at hfree
      cases hfree
    · rw [hm] at hmut
      cases hmut
    · exact absurd hgone hpend
  · obtain rfl := Option.some.inj hn
    exact h.deallocate hm hp hpend'

/-- `FinalizePageDeletion` comes back. -/
theorem Cleaner.Clean.finalized (h : x.Clean) {i : ℕ} {p : PageId}
    (hm : x.mutex = some (t,.freed i)) (hp : (x.deferred t)[i]? = some p) :
    ((x.setPending p false).proceed t i).Clean := by
  obtain ⟨hc,hi,hr⟩ := h.standing hm (.inr rfl)
  have hhere := ((h.each t).cleanup hc hr).here p (hi.symm ▸ hp)
  refine h.proceed hm (.inr rfl) hp ?_ fun q hq => Function.update_of_ne hq _ _
  rcases hhere with ⟨-,-,hmut⟩ | ⟨h1,-⟩
  · exact absurd (hi.symm ▸ hm) hmut
  · exact h1

/-- An aborted transaction gives its locks back. -/
theorem Cleaner.Clean.abortUnlock {answer : Status} (h : x.Clean)
    (hn : x.next (.abortUnlock t answer) = some x') : x'.Clean := by
  obtain ⟨y,hy,rfl⟩ := Option.map_eq_some_iff.mp hn
  have hran := h.run hy
  have hj : (t,Stage.abortUnlock) ∈ x.threads.jobs := by
    obtain ⟨threads,hg,-⟩ := Option.map_eq_some_iff.mp hy
    simp only [Threads.guarded,Threads.next] at hg
    split at hg
    · assumption
    · cases hg
  have hs : x.state t = .aborted := h.job hj
  have hs' : y.state t = .aborted := (hran.settles (fun a he => (by cases he)) t).aborted hs
  refine hran.clean.release_aborted hs' fun hle => ?_
  obtain ⟨threads,hg,rfl⟩ := Option.map_eq_some_iff.mp hy
  have hnext := (settles_guarded h.good (by simp) hg t).2.next
  exact h.not_fresh hj (hnext ▸ hle)

/-- A page that is locked anew had no owner. -/
theorem Cleaner.Clean.lock {p : PageId} (h : x.Clean)
    (hn : x.next (.lock t p) = some x') : x'.Clean := by
  obtain ⟨hcond,hn⟩ := Option.ite_none_right_eq_some.mp hn
  obtain rfl := Option.some.inj hn
  simp only [Bool.and_eq_true,Bool.or_eq_true,decide_eq_true_eq] at hcond
  refine ⟨h.good,fun u => (h.each u).frame ⟨rfl,rfl,rfl,rfl,fun _ => rfl,fun _ => .rfl,
    settles_refl _,le_rfl,id,fun q _ ho => ?_,fun _ _ _ _ => id,fun _ _ _ _ => id⟩⟩
  change Function.update x.owner p (some t) q = some u
  by_cases hq : q = p
  · subst hq
    rw [Function.update_self]
    rcases hcond.2 with hfree | hown
    · rw [hfree] at ho
      cases ho
    · exact hown.symm.trans ho
  · rw [Function.update_of_ne hq]
    exact ho

theorem Cleaner.Clean.logDeletion {p : PageId} (h : x.Clean)
    (hn : x.next (.logDeletion t p) = some x') : x'.Clean := by
  obtain ⟨hcond,hn⟩ := Option.ite_none_right_eq_some.mp hn
  obtain ⟨y,hy,rfl⟩ := Option.map_eq_some_iff.mp hn
  simp only [Bool.and_eq_true,decide_eq_true_eq] at hcond
  obtain ⟨⟨⟨⟨ha,ho⟩,hused⟩,hpend⟩,hnew⟩ := hcond
  have hran := h.run hy
  obtain ⟨threads,hg,rfl⟩ := Option.map_eq_some_iff.mp hy
  have hsame : threads.manager.owned = x.threads.manager.owned ∧
      threads.manager.state = x.threads.manager.state := by
    simp only [Threads.guarded,Threads.next] at hg
    split at hg
    · obtain rfl := Option.some.inj hg
      exact ⟨rfl,rfl⟩
    · cases hg
  refine hran.clean.log_deletion ?_ ho ⟨hpend,hused⟩ hnew
  simp only [Cleaner.Usable,Cleaner.state,hsame.1,hsame.2] at ha ⊢
  exact ha

theorem Cleaner.Clean.undoFree {p : PageId} (h : x.Clean)
    (hn : x.next (.undoFree t p) = some x') : x'.Clean := by
  obtain ⟨hcond,hn⟩ := Option.ite_none_right_eq_some.mp hn
  obtain rfl := Option.some.inj hn
  simp only [Bool.and_eq_true,decide_eq_true_eq] at hcond
  have hs : x.state t = .aborting := h.job hcond.1
  have ho : x.owner p = some t := by
    refine (h.each t).owner ?_ p hcond.2
    by_contra hr
    rcases (h.each t).ended (by simpa using hr) with he | he <;> rw [hs] at he <;> cases he
  exact h.page_step p (fun _ _ => rfl) (fun q hq => Function.update_of_ne hq _ _)
    fun u hh => absurd hh (h.not_held ho hs u)

theorem Cleaner.Clean.undoAllocate {p : PageId} {answer : Status} (h : x.Clean)
    (hn : x.next (.undoAllocate t p answer) = some x') : x'.Clean := by
  obtain ⟨hcond,hn⟩ := Option.ite_none_right_eq_some.mp hn
  simp only [Bool.and_eq_true,decide_eq_true_eq] at hcond
  have hs : x.state t = .aborting := h.job hcond.1.1
  have hnot := h.not_held hcond.1.2 hs
  cases answer with
  | ok _ =>
    obtain rfl := Option.some.inj hn
    exact h.page_step p (fun q hq => Function.update_of_ne hq _ _)
      (fun q hq => Function.update_of_ne hq _ _) fun u hh => absurd hh (hnot u)
  | error e =>
    obtain rfl := Option.some.inj hn
    exact h.page_step p (fun _ _ => rfl) (fun q hq => Function.update_of_ne hq _ _)
      fun u hh => absurd hh (hnot u)

theorem Cleaner.Clean.next {v : CleanupEvent} (h : x.Clean) (hn : x.next v = some x') :
    x'.Clean := by
  cases v with
  | other v =>
    simp only [Cleaner.next] at hn
    split at hn
    · cases hn
    · obtain ⟨threads,hg,rfl⟩ := Option.map_eq_some_iff.mp hn
      exact h.threads hg
  | abortUnlock t answer => exact h.abortUnlock hn
  | lock t p => exact h.lock hn
  | allocate p =>
    obtain ⟨hp,hn⟩ := Option.ite_none_right_eq_some.mp hn
    obtain rfl := Option.some.inj hn
    exact h.setPage fun _ _ => by simp [hp]
  | giveBack p =>
    obtain ⟨hp,hn⟩ := Option.ite_none_right_eq_some.mp hn
    obtain rfl := Option.some.inj hn
    exact h.setPage fun _ _ => by simp [hp]
  | newPage t p =>
    obtain ⟨hcond,hn⟩ := Option.ite_none_right_eq_some.mp hn
    obtain rfl := Option.some.inj hn
    simp only [Bool.and_eq_true,decide_eq_true_eq] at hcond
    exact h.setPage fun _ _ => by simp [hcond.2]
  | beginDeletion t p =>
    obtain ⟨hcond,hn⟩ := Option.ite_none_right_eq_some.mp hn
    obtain rfl := Option.some.inj hn
    simp only [Cleaner.Usable,Bool.and_eq_true,decide_eq_true_eq] at hcond
    obtain ⟨⟨⟨⟨-,ha⟩,ho⟩,-⟩,hpend⟩ := hcond
    refine h.page_step p (fun _ _ => rfl) (fun q hq => Function.update_of_ne hq _ _) fun u hh => ?_
    obtain rfl := h.holder ho hh
    refine ⟨fun hres => ?_,fun hc => ?_⟩
    · rw [hres.1] at hpend
      cases hpend
    · rw [ha] at hc
      cases hc
  | cancelDeletion t p =>
    obtain ⟨hcond,hn⟩ := Option.ite_none_right_eq_some.mp hn
    obtain rfl := Option.some.inj hn
    simp only [Bool.and_eq_true,decide_eq_true_eq] at hcond
    refine h.page_step p (fun _ _ => rfl) (fun q hq => Function.update_of_ne hq _ _) fun u hh => ?_
    obtain rfl := h.holder hcond.1 hh
    exact absurd hh.1 hcond.2
  | logDeletion t p => exact h.logDeletion hn
  | undoFree t p => exact h.undoFree hn
  | undoAllocate t p answer => exact h.undoAllocate hn
  | enterCleanup t =>
    obtain ⟨hcond,hn⟩ := Option.ite_none_right_eq_some.mp hn
    simp only [Bool.and_eq_true,decide_eq_true_eq] at hcond
    split at hn
    · rename_i ho
      obtain rfl := Option.some.inj hn
      exact h.enter_cleanup hcond.1 hcond.2 ho
    · exact (h.run hn).clean
  | finalize t answer =>
    simp only [Cleaner.next] at hn
    split at hn
    case h_2 => cases hn
    rename_i u i hm
    split at hn
    case h_2 => cases hn
    rename_i p hp
    obtain ⟨rfl,hn⟩ := Option.ite_none_right_eq_some.mp hn
    exact h.finalize hm hp hn
  | finalized t answer =>
    simp only [Cleaner.next] at hn
    split at hn
    case h_2 => cases hn
    rename_i u i hm
    split at hn
    case h_2 => cases hn
    rename_i p hp
    obtain ⟨rfl,hn⟩ := Option.ite_none_right_eq_some.mp hn
    cases answer with
    | ok _ =>
      obtain rfl := Option.some.inj hn
      exact h.finalized hm hp
    | error e =>
      exact h.giveUp hm (.inr rfl) hp (fun he => by cases he)
        (fun _ => Function.update_self _ _ _) (fun q hq => Function.update_of_ne hq _ _) hn
  | cleaned t =>
    simp only [Cleaner.next] at hn
    split at hn
    case h_2 => cases hn
    rename_i u i hm
    obtain ⟨hcond,hn⟩ := Option.ite_none_right_eq_some.mp hn
    simp only [Bool.and_eq_true,decide_eq_true_eq] at hcond
    obtain ⟨rfl,hle⟩ := hcond
    obtain ⟨y,hy,rfl⟩ := Option.map_eq_some_iff.mp hn
    have hran := h.run hy
    rw [hran.same]
    rw [hran.same] at hran
    exact hran.clean.leave hm hle
  | unlockAll t =>
    obtain ⟨hm,hn⟩ := Option.ite_none_right_eq_some.mp hn
    obtain ⟨y,hy,rfl⟩ := Option.map_eq_some_iff.mp hn
    have hran := h.run hy
    refine hran.clean.release_committed ?_
    rw [hran.same]
    exact hm
  | remove t =>
    obtain ⟨hm,hn⟩ := Option.ite_none_right_eq_some.mp hn
    obtain ⟨y,hy,rfl⟩ := Option.map_eq_some_iff.mp hn
    have hran := h.run hy
    refine hran.clean.answer (t := t) ?_ ?_
    · rw [hran.same]
      exact hm
    · obtain ⟨threads,hg,rfl⟩ := Option.map_eq_some_iff.mp hy
      simp only [Threads.guarded,Threads.next] at hg
      split at hg
      · obtain rfl := Option.some.inj hg
        exact Function.update_self _ _ _
      · cases hg

theorem Cleaner.clean_start (page : PageId → PageUse) : (Cleaner.start page).Clean where
  good := good_initial
  each t := ⟨List.nodup_nil,fun _ p hp => (by cases hp),fun hr => (by cases hr),fun _ _ => rfl,
    fun _ => ⟨rfl,fun p hp => (by cases hp)⟩,fun hc => (by cases hc),fun hc => (by cases hc),
    fun s hm => (by cases hm),fun ha => (by cases ha),fun p hp => absurd rfl hp,
    fun hc => (by cases hc),fun _ => ⟨rfl,rfl,rfl,rfl,fun s hm => (by cases hm),fun _ => rfl⟩⟩

theorem Cleaner.clean_of_reach
    (h : Reach (fun x => ∃ page, x = Cleaner.start page) (StepOf Cleaner.next) x) : x.Clean :=
  h.invariant (P := Cleaner.Clean)
    (fun s hs => by obtain ⟨page,rfl⟩ := hs; exact Cleaner.clean_start page)
    fun _ _ _ hc hn => hc.next hn

theorem Cleaner.Clean.count_le (h : x.Clean) (p : PageId) : x.freed.count (t,p) ≤ 1 := by
  have hat := h.each t
  by_cases h0 : x.freed.count (t,p) = 0
  · exact h0 ▸ Nat.zero_le 1
  have hp := hat.only p h0
  have hc : x.state t = .committed := by
    by_contra hc
    exact h0 (hat.untouched hc p)
  cases hr : x.released t with
  | true => exact (hat.done hc hr p hp).le
  | false =>
    have hprog := hat.cleanup hc hr
    obtain ⟨j,hj⟩ := List.mem_iff_getElem?.mp hp
    rcases Nat.lt_trichotomy j (x.position t) with hlt | rfl | hlt
    · exact (hprog.before j p hj hlt).le
    · rcases hprog.here p hj with ⟨hz,-⟩ | ⟨h1,-⟩
      · exact absurd hz h0
      · exact h1.le
    · exact absurd (hprog.after j p hj hlt).1 h0

/-- Deferred frees: while its outcome is open a transaction keeps what it has reserved;
what a cleanup gives back it gives back once, behind the durable Commit record; the locks go
only when every reserved page has been given back, and so does the Ok of `Commit`. -/
theorem deferred_frees
    (h : Reach (fun x => ∃ page, x = Cleaner.start page) (StepOf Cleaner.next) x) (t : TxnId) :
    (live (x.state t) = true → ∀ p ∈ x.deferred t, x.Reserved p) ∧
    (∀ p, (t,p) ∈ x.freed → Durable x.threads.manager t .commit ∧ x.freed.count (t,p) = 1) ∧
    (x.released t = false → ∀ p ∈ x.deferred t, x.owner p = some t) ∧
    (x.state t = .committed → x.released t = true → ∀ p ∈ x.deferred t, x.freed.count (t,p) = 1) ∧
    (x.answered t = true →
      x.released t = true ∧ ∀ p ∈ x.deferred t, x.freed.count (t,p) = 1) := by
  have hclean := Cleaner.clean_of_reach h
  have hat := hclean.each t
  refine ⟨fun hl => (hat.undecided hl).2,fun p hp => ?_,hat.owner,hat.done,fun ha => ?_⟩
  · have hpos : 0 < x.freed.count (t,p) := List.count_pos_iff.mpr hp
    have hc : x.state t = .committed := by
      by_contra hc
      exact absurd (hat.untouched hc p) (Nat.pos_iff_ne_zero.mp hpos)
    exact ⟨hclean.good.inv.facts.committed t hc,Nat.le_antisymm (hclean.count_le p) hpos⟩
  · obtain ⟨hc,hr⟩ := hat.answered ha
    exact ⟨hr,hat.done hc hr⟩

/-- Two pages are reserved; the flush of the Commit record fails once and the second
deallocation fails once before `Commit` comes back with Ok. -/
def retriedRun : List CleanupEvent :=
  [.other (.step (.begin (.ok ()))),.lock 1 5,.lock 1 6,.beginDeletion 1 5,.logDeletion 1 5,
    .beginDeletion 1 6,.logDeletion 1 6,.other (.step (.commit 1)),
    .other (.step (.advance 1 .commitGuards (.ok ()))),
    .other (.step (.advance 1 .commitAppend (.ok ()))),
    .other (.step (.advance 1 (.commitFlush 4) (fail .ioError "cannot flush WAL"))),
    .other (.step (.commit 1)),.other (.step (.advance 1 (.commitRetry 4) (.ok ()))),
    .enterCleanup 1,.finalize 1 (.ok ()),.finalized 1 (.ok ()),
    .finalize 1 (fail .ioError "cannot write page"),
    .other (.step (.commit 1)),.enterCleanup 1,.finalize 1 (.ok ()),.finalized 1 (.ok ()),
    .cleaned 1,.unlockAll 1,.remove 1]

def retried : Cleaner := (exec Cleaner.next (.start fun _ => .used) retriedRun).get rfl

theorem deferred_frees_retried : retried.answered 1 = true ∧ retried.deferred 1 = [5,6] ∧
    retried.freed.count (1,5) = 1 ∧ retried.freed.count (1,6) = 1 := by
  have hr : Reach (fun x => ∃ page, x = Cleaner.start page) (StepOf Cleaner.next) retried :=
    exec_reach (.init ⟨_,rfl⟩) (Option.some_get _).symm
  have ha : retried.answered 1 = true := by decide +kernel
  have hd : retried.deferred 1 = [5,6] := by decide +kernel
  have hcount := ((deferred_frees hr 1).2.2.2.2 ha).2
  exact ⟨ha,hd,hcount 5 (by simp [hd]),hcount 6 (by simp [hd])⟩

end Transaction
end OurSql
