import OurSql.Transaction.Release

/-! Sessions over the transaction manager. A session runs one command at a time;
between the sections of its command the deadlock detector may fail and abort its
transaction. What is asked is whether ROLLBACK or COMMIT always frees a session. -/
namespace OurSql
namespace Transaction

open Transition Lock Storage

abbrev SessionId := ℕ

/-- Who waits for `Commit` or `Abort` to return: a COMMIT, a ROLLBACK or the end
of a session, or the commit of an autocommit statement. -/
inductive Goal
  | command | autocommit
  deriving DecidableEq

/-- What a session is doing under its `execute_mutex`. -/
inductive Phase
  | idle
  | statement (autocommit : Bool)
  | finish (goal : Goal) (stage : Stage)
  deriving DecidableEq

/-- `detector` is the victim at hand and how far its `Abort` has come. -/
structure Engine where
  manager : Manager
  current : SessionId → Option TxnId
  phase : SessionId → Phase
  detector : Option (TxnId × Option Stage)

def Engine.initial : Engine := ⟨.initial,fun _ => none,fun _ => .idle,none⟩

def Engine.setPhase (e : Engine) (i : SessionId) (ph : Phase) : Engine :=
  { e with phase := Function.update e.phase i ph }

def Engine.setManager (e : Engine) (m : Manager) : Engine := { e with manager := m }

def Engine.setDetector (e : Engine) (d : Option (TxnId × Option Stage)) : Engine :=
  { e with detector := d }

def Engine.assign (e : Engine) (i : SessionId) (t : TxnId) : Engine :=
  { e with current := Function.update e.current i (some t) }

/-- `current_transaction.reset()` at the end of a command. -/
def Engine.release (e : Engine) (i : SessionId) : Engine :=
  { e.setPhase i .idle with current := Function.update e.current i none }

/-- A command that waits for `Commit` or `Abort`, after the section `r`. -/
def Engine.settleCommand (e : Engine) (i : SessionId) (r : Progress × Manager) : Engine :=
  match r.1 with
  | .stage s => (e.setManager r.2).setPhase i (.finish .command s)
  | .done (.ok ()) => (e.setManager r.2).release i
  | .done (.error _) => (e.setManager r.2).setPhase i .idle

/-- `FinishSessionTransaction`. -/
def Engine.finishSession (e : Engine) (i : SessionId) (t : TxnId) : Engine :=
  match e.manager.state t with
  | .committed | .commitUncertain => e.settleCommand i (e.manager.commit t)
  | .active | .failed => e.settleCommand i (e.manager.abort t)
  | .aborted => e.release i
  | .committing | .aborting => e.setPhase i .idle

/-- The same for either goal: an autocommit that failed before its Commit record
was written is rolled back. -/
def Engine.settle (e : Engine) (i : SessionId) (t : TxnId) (goal : Goal) (r : Progress × Manager) :
    Engine :=
  match goal, r.1 with
  | .command, _ => e.settleCommand i r
  | .autocommit, .stage s => (e.setManager r.2).setPhase i (.finish .autocommit s)
  | .autocommit, .done (.ok ()) => (e.setManager r.2).release i
  | .autocommit, .done (.error _) =>
    if r.2.state t = .committed || r.2.state t = .commitUncertain then
      (e.setManager r.2).setPhase i .idle
    else (e.setManager r.2).finishSession i t

def Manager.markFailedIfActive (m : Manager) (t : TxnId) : Manager :=
  if m.state t = .active then m.setState t .failed else m

def Manager.setGuards (m : Manager) (t : TxnId) (count : ℕ) : Manager :=
  { m with activeWriteGuards := Function.update m.activeWriteGuards t count }

inductive Command
  | begin (i : SessionId) (answer : Status)
  | commit (i : SessionId)
  | rollback (i : SessionId)
  | finishSession (i : SessionId)
  | parseError (i : SessionId)
  | statement (i : SessionId) (answer : Status)
  | call (i : SessionId) (l : LockId) (mode : Mode)
  | enter (i : SessionId) (l : LockId) (mode : Mode)
  | wake (i : SessionId) (l : LockId)
  | work (i : SessionId) (type : LogRecordType)
  | guards (i : SessionId) (count : ℕ)
  | markFailed (i : SessionId)
  | endStatement (i : SessionId) (ok : Bool)
  | advance (i : SessionId) (answer : Status)
  | detectDeadlocks (order : List LockId)
  | detectorAbort
  | detectorAdvance (answer : Status)

/-- A step of the statement that a session is executing. -/
def Engine.inStatement (e : Engine) (i : SessionId) (f : TxnId → Option Manager) :
    Option Engine :=
  match e.phase i, e.current i with
  | .statement _, some t => (f t).map e.setManager
  | _, _ => none

def Manager.tryLock (m : Manager) (a : Lock.Action) : Option Manager :=
  (m.locks.next a).map fun _ => m.lock a

/-- A command starts in an idle session; its later sections follow one by one. A
statement gives up its page guards before it ends, as they are local to it. -/
def Engine.next (e : Engine) : Command → Option Engine
  | .begin i answer =>
    if e.phase i = .idle then
      match e.current i with
      | some _ => some e
      | none =>
        match e.manager.begin answer with
        | (.ok t,m) => some ((e.setManager m).assign i t)
        | (.error _,m) => some (e.setManager m)
    else none
  | .commit i =>
    if e.phase i = .idle then
      match e.current i with
      | none => some e
      | some t =>
        if e.manager.state t = .failed then some e
        else some (e.settleCommand i (e.manager.commit t))
    else none
  | .rollback i =>
    if e.phase i = .idle then
      match e.current i with
      | none => some e
      | some t =>
        if e.manager.state t = .committed || e.manager.state t = .commitUncertain then some e
        else some (e.settleCommand i (e.manager.abort t))
    else none
  | .finishSession i =>
    if e.phase i = .idle then
      match e.current i with
      | none => some e
      | some t => some (e.finishSession i t)
    else none
  | .parseError i =>
    if e.phase i = .idle then
      match e.current i with
      | none => some e
      | some t => some (e.setManager (e.manager.markFailedIfActive t))
    else none
  | .statement i answer =>
    if e.phase i = .idle then
      match e.current i with
      | some t =>
        if e.manager.state t = .active then some (e.setPhase i (.statement false)) else some e
      | none =>
        match e.manager.begin answer with
        | (.ok t,m) => some (((e.setManager m).setPhase i (.statement true)).assign i t)
        | (.error _,m) => some (e.setManager m)
    else none
  | .call i l mode => e.inStatement i fun t => e.manager.tryLock (.call ⟨t,l,mode⟩)
  | .enter i l mode => e.inStatement i fun t => e.manager.tryLock (.enter ⟨t,l,mode⟩)
  | .wake i l => e.inStatement i fun t => e.manager.tryLock (.wake t l)
  | .work i type => e.inStatement i fun t =>
    if e.manager.state t = .active && isPageRecord type then some (e.manager.appendFor t type)
    else none
  | .guards i count => e.inStatement i fun t => some (e.manager.setGuards t count)
  | .markFailed i => e.inStatement i fun t => some (e.manager.markFailedIfActive t)
  | .endStatement i ok =>
    match e.phase i, e.current i with
    | .statement autocommit, some t =>
      if e.manager.activeWriteGuards t ≠ 0 then none
      else if ok && e.manager.state t = .active then
        if autocommit then some (e.settle i t .autocommit (e.manager.commit t))
        else some (e.setPhase i .idle)
      else
        let e := e.setManager (e.manager.markFailedIfActive t)
        if autocommit then some (e.finishSession i t) else some (e.setPhase i .idle)
    | _, _ => none
  | .advance i answer =>
    match e.phase i, e.current i with
    | .finish goal s, some t => some (e.settle i t goal (e.manager.advance t answer s))
    | _, _ => none
  | .detectDeadlocks order =>
    if e.detector.isSome then none
    else
      let victims := (Lock.detectDeadlocks e.manager.locks.sys.lm order).1
      some ((e.setManager (e.manager.lock (.detectDeadlocks order))).setDetector
        (victims.head?.map (·,none)))
  | .detectorAbort =>
    match e.detector with
    | some (v,none) =>
      let r := e.manager.abort v
      match r.1 with
      | .stage s => some ((e.setManager r.2).setDetector (some (v,some s)))
      | .done _ => some ((e.setManager r.2).setDetector none)
    | _ => none
  | .detectorAdvance answer =>
    match e.detector with
    | some (v,some s) =>
      let r := e.manager.advance v answer s
      match r.1 with
      | .stage s => some ((e.setManager r.2).setDetector (some (v,some s)))
      | .done _ => some ((e.setManager r.2).setDetector none)
    | _ => none

/-- The detector stands inside `Abort` of `t`. -/
def Engine.finishing (e : Engine) (t : TxnId) : Prop := ∃ s, e.detector = some (t,some s)

section Fields

variable (e : Engine) (m : Manager) (i : SessionId) (t : TxnId) (ph : Phase)

@[simp] theorem setManager_manager : (e.setManager m).manager = m := rfl
@[simp] theorem setManager_current : (e.setManager m).current = e.current := rfl
@[simp] theorem setManager_phase : (e.setManager m).phase = e.phase := rfl
@[simp] theorem setManager_finishing : (e.setManager m).finishing = e.finishing := rfl
@[simp] theorem setPhase_manager : (e.setPhase i ph).manager = e.manager := rfl
@[simp] theorem setPhase_current : (e.setPhase i ph).current = e.current := rfl
@[simp] theorem setPhase_phase : (e.setPhase i ph).phase = Function.update e.phase i ph := rfl
@[simp] theorem setPhase_finishing : (e.setPhase i ph).finishing = e.finishing := rfl
@[simp] theorem release_manager : (e.release i).manager = e.manager := rfl
@[simp] theorem release_current :
    (e.release i).current = Function.update e.current i none := rfl
@[simp] theorem release_phase : (e.release i).phase = Function.update e.phase i .idle := rfl
@[simp] theorem release_finishing : (e.release i).finishing = e.finishing := rfl
@[simp] theorem assign_manager : (e.assign i t).manager = e.manager := rfl
@[simp] theorem assign_current :
    (e.assign i t).current = Function.update e.current i (some t) := rfl
@[simp] theorem assign_phase : (e.assign i t).phase = e.phase := rfl
@[simp] theorem assign_finishing : (e.assign i t).finishing = e.finishing := rfl

end Fields

/-- The command, run without disturbance and without failures, frees the session,
and the next BEGIN opens a transaction. -/
def Engine.freedBy (e : Engine) (i : SessionId) (command : Command) : Prop :=
  ∃ n e₁ e₂, exec Engine.next e (command :: List.replicate n (.advance i (.ok ()))) = some e₁ ∧
    e₁.phase i = .idle ∧ e₁.current i = none ∧
    e₁.next (.begin i (.ok ())) = some e₂ ∧ e₂.current i ≠ none

def Engine.Recoverable (e : Engine) (i : SessionId) : Prop :=
  e.freedBy i (.rollback i) ∨ e.freedBy i (.commit i)

/-- The state a transaction is in while a thread stands at the stage. -/
def Stage.state : Stage → TransactionState
  | .commitGuards | .commitAppend | .commitFlush _ => .committing
  | .commitRetry _ => .commitUncertain
  | .commitCleanup | .commitUnlock | .commitRemove => .committed
  | .abortUndo | .abortAppend | .abortFlush _ => .aborting
  | .abortUnlock | .abortRemove => .aborted

def Stage.isAbort (s : Stage) : Bool := s.state = .aborting || s.state = .aborted

/-- How much a session in a phase may rely on for its transaction. -/
def Fine (ph : Phase) (m : Manager) (t : TxnId) (finishing : Prop) : Prop :=
  match ph with
  | .finish _ s => m.state t = s.state ∧ m.owned t = true ∧ m.activeWriteGuards t = 0 ∧
      ¬finishing ∧ ((∃ lsn, s = .commitFlush lsn) ∨ m.state t = .commitUncertain →
        m.commitLsn t ≠ invalidLsn)
  | ph => (ph = .idle → m.activeWriteGuards t = 0) ∧
      (m.state t = .commitUncertain → m.commitLsn t ≠ invalidLsn) ∧
      m.state t ≠ .committing ∧ (m.state t = .aborting → finishing) ∧
      (m.state t ≠ .aborting → m.state t ≠ .aborted → m.owned t = true)

structure Engine.Inv (e : Engine) : Prop where
  unique : ∀ i j t, e.current i = some t → e.current j = some t → i = j
  fresh : ∀ i t, e.current i = some t → t < e.manager.nextTxnId
  owned : ∀ t, e.manager.owned t = true → t < e.manager.nextTxnId
  session : ∀ i t, e.current i = some t → Fine (e.phase i) e.manager t (e.finishing t)
  aborting : ∀ t s, e.detector = some (t,some s) →
    s.isAbort = true ∧ e.manager.state t = s.state ∧ e.manager.owned t = true
  busy : ∀ i, e.current i = none → e.phase i = .idle

/-- Nothing happens to the transaction, or it fails while active. -/
structure Moves (m m' : Manager) (t : TxnId) : Prop where
  state : m'.state t = m.state t ∨ (m.state t = .active ∧ m'.state t = .failed)
  owned : m'.owned t = m.owned t
  guards : m'.activeWriteGuards t = m.activeWriteGuards t
  commitLsn : m'.commitLsn t = m.commitLsn t

theorem Moves.refl (m : Manager) (t : TxnId) : Moves m m t := ⟨.inl rfl,rfl,rfl,rfl⟩

section Fine

variable {m m' : Manager} {t : TxnId} {finishing : Prop}

theorem Stage.state_ne_active (s : Stage) : s.state ≠ .active := by cases s <;> simp [Stage.state]

theorem Moves.state_eq (h : Moves m m' t) (ha : m.state t ≠ .active) : m'.state t = m.state t := by
  rcases h.state with hs | ⟨hs,-⟩
  · exact hs
  · exact absurd hs ha

theorem Fine.moves {ph : Phase} (h : Fine ph m t finishing) (hm : Moves m m' t) :
    Fine ph m' t finishing := by
  cases ph with
  | finish goal s =>
    obtain ⟨hs,ho,hg,hf,hl⟩ := h
    have he := hm.state_eq (hs ▸ s.state_ne_active)
    exact ⟨he.trans hs,hm.owned.trans ho,hm.guards.trans hg,hf,by rw [he,hm.commitLsn]; exact hl⟩
  | _ =>
    obtain ⟨hg,hl,hc,ha,ho⟩ := h
    refine ⟨fun hi => hm.guards.trans (hg hi),?_⟩
    rw [hm.commitLsn,hm.owned]
    rcases hm.state with hs | ⟨hs,hs'⟩
    · rw [hs]
      exact ⟨hl,hc,ha,ho⟩
    · rw [hs']
      exact ⟨by simp,by simp,by simp,fun _ _ => ho (by simp [hs]) (by simp [hs])⟩

theorem Fine.idle (h : Fine (.statement false) m t finishing) (hg : m.activeWriteGuards t = 0) :
    Fine .idle m t finishing := ⟨fun _ => hg,h.2⟩

theorem Fine.statement {ph : Phase} (h : Fine ph m t finishing) (hp : ph = .idle) (a : Bool) :
    Fine (.statement a) m t finishing := by
  subst hp
  exact ⟨by simp,h.2⟩

end Fine

/-- What one section of `Commit` or `Abort` of `t` does to the sessions and the detector. -/
structure Section (e : Engine) (t : TxnId) (r : Progress × Manager) : Prop where
  others : ∀ u, u ≠ t → Moves e.manager r.2 u
  next : r.2.nextTxnId = e.manager.nextTxnId
  owned : r.2.owned t = true → e.manager.owned t = true
  stage : ∀ s goal, r.1 = .stage s → Fine (.finish goal s) r.2 t (e.finishing t)
  error : ∀ f, r.1 = .done (.error f) → Fine .idle r.2 t (e.finishing t)
  detector : ∀ s, e.detector = some (t,some s) → r.2.state t = s.state ∧ r.2.owned t = true

section Steps

variable {e : Engine} {t : TxnId} {i : SessionId}

theorem Engine.Inv.not_finishing (h : e.Inv) (hs : e.manager.state t ≠ .aborting)
    (hs' : e.manager.state t ≠ .aborted) : ¬e.finishing t := by
  rintro ⟨s,hd⟩
  obtain ⟨ha,hst,-⟩ := h.aborting t s hd
  rw [hst] at hs hs'
  simp [Stage.isAbort,hs,hs'] at ha

/-- A section that changes nothing and comes back with an error. -/
theorem Engine.Inv.section_error (h : e.Inv) (hf : Fine .idle e.manager t (e.finishing t))
    (f : Failure) : Section e t (.done (.error f),e.manager) where
  others u _ := .refl _ _
  next := rfl
  owned h := h
  stage s goal hs := by cases hs
  error f _ := hf
  detector s hd := (h.aborting t s hd).2

theorem setState_moves {m : Manager} {x : TransactionState} {u : TxnId} (hu : u ≠ t) :
    Moves m (m.setState t x) u :=
  ⟨.inl (by rw [setState_state,Function.update_of_ne hu]),rfl,rfl,rfl⟩

theorem Engine.Inv.section_commit (h : e.Inv) (hf : Fine .idle e.manager t (e.finishing t)) :
    Section e t (e.manager.commit t) := by
  have hguards := hf.1 rfl
  have hlsn := hf.2.1
  unfold Manager.commit
  split
  · exact h.section_error hf _
  rename_i howned
  have ho : e.manager.owned t = true := by simpa using howned
  split
  · rename_i hs
    have hn := h.not_finishing (t := t) (by simp [hs]) (by simp [hs])
    exact ⟨fun u _ => .refl _ _,rfl,fun h => h,
      fun s goal hst => by cases hst; exact ⟨hs,ho,hguards,hn,by simp [hs]⟩,by simp,
      fun s hd => absurd ⟨s,hd⟩ hn⟩
  · rename_i hs
    have hn := h.not_finishing (t := t) (by simp [hs]) (by simp [hs])
    split
    · exact h.section_error hf _
    · exact ⟨fun u _ => .refl _ _,rfl,fun h => h,
        fun s goal hst => by cases hst; exact ⟨hs,ho,hguards,hn,fun _ => hlsn hs⟩,by simp,
        fun s hd => absurd ⟨s,hd⟩ hn⟩
  · exact h.section_error hf _
  · rename_i hs
    have hn := h.not_finishing (t := t) (by simp [hs]) (by simp [hs])
    refine ⟨fun u hu => setState_moves hu,rfl,fun h => h,fun s goal hst => ?_,by simp,
      fun s hd => absurd ⟨s,hd⟩ hn⟩
    cases hst
    have hst : (e.manager.setState t .committing).state t = .committing := by
      simp [setState_state]
    exact ⟨hst,ho,hguards,hn,by simp [hst]⟩
  · exact h.section_error hf _

theorem Engine.Inv.section_abort (h : e.Inv) (hf : Fine .idle e.manager t (e.finishing t)) :
    Section e t (e.manager.abort t) := by
  have hguards := hf.1 rfl
  have hgo : e.manager.owned t = true → e.manager.state t ≠ .aborting →
      e.manager.state t ≠ .aborted →
      Section e t (.stage .abortUndo,e.manager.setState t .aborting) := by
    intro ho ha hb
    have hn := h.not_finishing ha hb
    refine ⟨fun u hu => setState_moves hu,rfl,fun h => h,fun s goal hst => ?_,by simp,
      fun s hd => absurd ⟨s,hd⟩ hn⟩
    cases hst
    have hst : (e.manager.setState t .aborting).state t = .aborting := by simp [setState_state]
    exact ⟨hst,ho,hguards,hn,by simp [hst]⟩
  unfold Manager.abort
  split
  · exact h.section_error hf _
  rename_i howned
  have ho : e.manager.owned t = true := by simpa using howned
  split
  · exact h.section_error hf _
  · exact h.section_error hf _
  · exact h.section_error hf _
  · split <;> exact h.section_error hf _
  · split <;> exact h.section_error hf _
  · rename_i hs
    split
    · exact h.section_error hf _
    · exact hgo ho (by simp [hs]) (by simp [hs])
  · rename_i hs
    split
    · exact h.section_error hf _
    · exact hgo ho (by simp [hs]) (by simp [hs])

theorem flush_setState_moves {m : Manager} {lsn : Lsn} {x : TransactionState} {u : TxnId}
    (hu : u ≠ t) : Moves m ((m.flush lsn).setState t x) u :=
  ⟨.inl (by rw [setState_state,Function.update_of_ne hu,flush_state]),rfl,rfl,rfl⟩

/-- A section of a thread that has the transaction to itself. -/
theorem section_of_finish {goal : Goal} {s : Stage} {r : Progress × Manager}
    (hf : Fine (.finish goal s) e.manager t (e.finishing t))
    (hothers : ∀ u, u ≠ t → Moves e.manager r.2 u)
    (hnext : r.2.nextTxnId = e.manager.nextTxnId)
    (hguards : r.2.activeWriteGuards = e.manager.activeWriteGuards)
    (hstage : ∀ s', r.1 = .stage s' → r.2.state t = s'.state ∧ r.2.owned t = true ∧
      ((∃ lsn, s' = .commitFlush lsn) ∨ r.2.state t = .commitUncertain →
        r.2.commitLsn t ≠ invalidLsn))
    (herror : ∀ f, r.1 = .done (.error f) → r.2.owned t = true ∧ r.2.state t ≠ .committing ∧
      r.2.state t ≠ .aborting ∧
      (r.2.state t = .commitUncertain → r.2.commitLsn t ≠ invalidLsn)) :
    Section e t r where
  others := hothers
  next := hnext
  owned _ := hf.2.1
  stage s' goal' hs := by
    obtain ⟨h1,h2,h3⟩ := hstage s' hs
    exact ⟨h1,h2,by rw [hguards]; exact hf.2.2.1,hf.2.2.2.1,h3⟩
  error f hs := by
    obtain ⟨h1,h2,h3,h4⟩ := herror f hs
    exact ⟨fun _ => by rw [hguards]; exact hf.2.2.1,h4,h2,fun h => absurd h h3,fun _ _ => h1⟩
  detector s' hd := absurd ⟨s',hd⟩ hf.2.2.2.1

theorem appendFor_moves (m : Manager) (k : LogRecordType) (u : TxnId) :
    Moves m (m.appendFor t k) u := ⟨.inl rfl,rfl,rfl,rfl⟩

/-- A flush that ends in the state of the next stage. -/
theorem section_publish {goal : Goal} {s s' : Stage} {lsn : Lsn} {state : TransactionState}
    (hf : Fine (.finish goal s) e.manager t (e.finishing t)) (hs : state = s'.state)
    (hstate : state = .committed ∨ state = .aborted) (hl : ∀ lsn, s' ≠ .commitFlush lsn) :
    Section e t (.stage s',(e.manager.flush lsn).setState t state) := by
  have hst : ((e.manager.flush lsn).setState t state).state t = state := by
    simp [setState_state]
  refine section_of_finish hf (fun u hu => flush_setState_moves hu) rfl rfl ?_ (by simp)
  intro s'' hs''
  cases hs''
  refine ⟨hst.trans hs,hf.2.1,fun h => ?_⟩
  rcases h with ⟨lsn,h⟩ | h
  · exact absurd h (hl lsn)
  · rcases hstate with rfl | rfl <;> simp [hst] at h

theorem section_advance {goal : Goal} {s : Stage} (answer : Status)
    (hf : Fine (.finish goal s) e.manager t (e.finishing t)) :
    Section e t (e.manager.advance t answer s) := by
  obtain ⟨hs,ho,hg,hn,hl⟩ := id hf
  have hself : ∀ x, (e.manager.setState t x).state t = x := fun x => by simp [setState_state]
  -- the two kinds of exit: give the transaction back as Failed, or return as it is
  have hfailed : ∀ f : Failure,
      Section e t (.done (.error f),e.manager.setState t .failed) := by
    intro f
    refine section_of_finish hf (fun u hu => setState_moves hu) rfl rfl (by simp) ?_
    rintro - -
    exact ⟨ho,by simp [hself],by simp [hself],by simp [hself]⟩
  have hquit : ∀ f : Failure, s.state = .committed ∨ s.state = .commitUncertain →
      Section e t (.done (.error f),e.manager) := by
    intro f hc
    refine section_of_finish hf (fun u _ => .refl _ _) rfl rfl (by simp) ?_
    rintro - -
    rw [hs]
    refine ⟨ho,?_,?_,fun hu => hl (.inr (hs.trans hu))⟩
    · rcases hc with hc | hc <;> simp [hc]
    · rcases hc with hc | hc <;> simp [hc]
  cases s with
  | commitGuards =>
    simp only [Manager.advance]
    rw [if_neg (by simp [hg])]
    refine section_of_finish hf (fun u _ => .refl _ _) rfl rfl ?_ (by simp)
    intro s' hs'
    cases hs'
    exact ⟨hs,ho,by simp [hs,Stage.state]⟩
  | commitAppend =>
    cases answer with
    | error f => exact hfailed f
    | ok _ =>
      refine section_of_finish hf (fun u hu => ?_) rfl rfl ?_ (by simp [Manager.advance])
      · exact ⟨.inl rfl,rfl,rfl,by simp [Manager.advance,hu]; rfl⟩
      · intro s' hs'
        cases hs'
        refine ⟨hs,ho,fun _ => ?_⟩
        have hc : (e.manager.advance t (.ok ()) .commitAppend).2.commitLsn t =
            e.manager.log.appendLsn + 1 := by simp [Manager.advance]
        exact hc ▸ Nat.succ_ne_zero _
  | commitFlush lsn =>
    cases answer with
    | error f =>
      refine section_of_finish hf (fun u hu => setState_moves hu) rfl rfl (by simp [Manager.advance]) ?_
      rintro - -
      refine ⟨ho,?_,?_,fun _ => hl (.inl ⟨lsn,rfl⟩)⟩
      · simp [Manager.advance,hself]
      · simp [Manager.advance,hself]
    | ok _ => exact section_publish hf rfl (.inl rfl) (by simp)
  | commitRetry lsn =>
    cases answer with
    | error f => exact hquit _ (.inr rfl)
    | ok _ => exact section_publish hf rfl (.inl rfl) (by simp)
  | commitCleanup =>
    simp only [Manager.advance]
    split
    · exact hquit _ (.inl rfl)
    cases answer with
    | error f => exact hquit _ (.inl rfl)
    | ok _ =>
      refine section_of_finish hf (fun u _ => .refl _ _) rfl rfl ?_ (by simp)
      intro s' hs'
      cases hs'
      exact ⟨hs,ho,by simp [hs,Stage.state]⟩
  | commitUnlock =>
    refine section_of_finish hf (fun u _ => ⟨.inl rfl,rfl,rfl,rfl⟩) rfl rfl ?_ (by simp [Manager.advance])
    intro s' hs'
    cases hs'
    exact ⟨hs,ho,fun h => hl (.inr (h.resolve_left (by simp)))⟩
  | commitRemove =>
    refine section_of_finish hf (fun u hu => ?_) rfl rfl (by simp [Manager.advance])
      (by simp [Manager.advance])
    exact ⟨.inl rfl,by simp [Manager.advance,hu],rfl,rfl⟩
  | abortUndo =>
    cases answer with
    | error f => exact hfailed _
    | ok _ =>
      refine section_of_finish hf (fun u _ => ⟨.inl rfl,rfl,rfl,rfl⟩) rfl rfl ?_ (by simp [Manager.advance])
      intro s' hs'
      cases hs'
      exact ⟨hs,ho,fun h => hl (.inr (h.resolve_left (by simp)))⟩
  | abortAppend =>
    cases answer with
    | error f => exact hfailed _
    | ok _ =>
      refine section_of_finish hf (fun u _ => appendFor_moves _ _ _) rfl rfl ?_ (by simp [Manager.advance])
      intro s' hs'
      cases hs'
      exact ⟨hs,ho,fun h => hl (.inr (h.resolve_left (by simp)))⟩
  | abortFlush lsn =>
    cases answer with
    | error f => exact hfailed _
    | ok _ => exact section_publish hf rfl (.inr rfl) (by simp)
  | abortUnlock =>
    refine section_of_finish hf (fun u _ => ⟨.inl rfl,rfl,rfl,rfl⟩) rfl rfl ?_ (by simp [Manager.advance])
    intro s' hs'
    cases hs'
    exact ⟨hs,ho,fun h => hl (.inr (h.resolve_left (by simp)))⟩
  | abortRemove =>
    refine section_of_finish hf (fun u hu => ?_) rfl rfl (by simp [Manager.advance])
      (by simp [Manager.advance])
    exact ⟨.inl rfl,by simp [Manager.advance,hu],rfl,rfl⟩

/-- Only the session of `t` moves on; everybody else keeps what they rely on. -/
theorem Engine.Inv.set (h : e.Inv) (hc : e.current i = some t) {m : Manager} {p : Phase}
    (hothers : ∀ u, u ≠ t → Moves e.manager m u) (hnext : m.nextTxnId = e.manager.nextTxnId)
    (howned : m.owned t = true → e.manager.owned t = true)
    (hdet : ∀ s, e.detector = some (t,some s) → m.state t = s.state ∧ m.owned t = true)
    (hfine : Fine p m t (e.finishing t)) : ((e.setManager m).setPhase i p).Inv where
  unique := h.unique
  fresh j u hu := by
    have hf := h.fresh j u hu
    exact hnext ▸ hf
  owned u hu := by
    have hu' : m.owned u = true := hu
    have hold : e.manager.owned u = true := by
      by_cases ht : u = t
      · exact ht ▸ howned (ht ▸ hu')
      · rw [← (hothers u ht).owned]
        exact hu'
    exact hnext ▸ h.owned u hold
  session j u hu := by
    have hu' : e.current j = some u := hu
    by_cases hj : j = i
    · subst hj
      have he : u = t := Option.some.inj (hu'.symm.trans hc)
      subst he
      simpa using hfine
    · have hne : u ≠ t := fun he => hj (h.unique j i t (he ▸ hu') hc)
      have hk := (h.session j u hu').moves (hothers u hne)
      simpa [hj] using hk
  aborting u s hd := by
    obtain ⟨ha,hs,ho⟩ := h.aborting u s hd
    by_cases ht : u = t
    · subst ht
      exact ⟨ha,hdet s hd⟩
    · have hm := hothers u ht
      have hk := hm.state_eq (hs ▸ s.state_ne_active)
      exact ⟨ha,hk.trans hs,hm.owned.trans ho⟩
  busy j hj := by
    have hj' : e.current j = none := hj
    have hne : j ≠ i := by rintro rfl; simp [hc] at hj'
    simpa [hne] using h.busy j hj'

theorem Engine.Inv.set_release (h : e.Inv) (hc : e.current i = some t) {m : Manager}
    (hothers : ∀ u, u ≠ t → Moves e.manager m u) (hnext : m.nextTxnId = e.manager.nextTxnId)
    (howned : m.owned t = true → e.manager.owned t = true)
    (hdet : ∀ s, e.detector = some (t,some s) → m.state t = s.state ∧ m.owned t = true) :
    ((e.setManager m).release i).Inv := by
  have hcur : ∀ j u, ((e.setManager m).release i).current j = some u →
      j ≠ i ∧ e.current j = some u := by
    intro j u hu
    by_cases hj : j = i
    · subst hj
      simp at hu
    · exact ⟨hj,by simpa [hj] using hu⟩
  constructor
  · intro j k u hj hk
    exact h.unique j k u (hcur j u hj).2 (hcur k u hk).2
  · intro j u hu
    have hf := h.fresh j u (hcur j u hu).2
    exact hnext ▸ hf
  · intro u hu
    have hu' : m.owned u = true := hu
    have hold : e.manager.owned u = true := by
      by_cases ht : u = t
      · exact ht ▸ howned (ht ▸ hu')
      · rw [← (hothers u ht).owned]
        exact hu'
    exact hnext ▸ h.owned u hold
  · intro j u hu
    obtain ⟨hj,hu'⟩ := hcur j u hu
    have hne : u ≠ t := fun he => hj (h.unique j i t (he ▸ hu') hc)
    have hk := (h.session j u hu').moves (hothers u hne)
    simpa [hj] using hk
  · intro u s hd
    obtain ⟨ha,hs,ho⟩ := h.aborting u s hd
    by_cases ht : u = t
    · subst ht
      exact ⟨ha,hdet s hd⟩
    · have hm := hothers u ht
      have hk := hm.state_eq (hs ▸ s.state_ne_active)
      exact ⟨ha,hk.trans hs,hm.owned.trans ho⟩
  · intro j hj
    by_cases hji : j = i
    · subst hji
      simp
    · have hj' : e.current j = none := by
        simpa [hji] using hj
      simpa [hji] using h.busy j hj'

theorem Engine.Inv.settleCommand (h : e.Inv) (hc : e.current i = some t)
    {r : Progress × Manager} (hs : Section e t r) : (e.settleCommand i r).Inv := by
  unfold Engine.settleCommand
  split
  · rename_i s hr
    exact h.set hc hs.others hs.next hs.owned hs.detector (hs.stage s _ hr)
  · exact h.set_release hc hs.others hs.next hs.owned hs.detector
  · rename_i f hr
    exact h.set hc hs.others hs.next hs.owned hs.detector (hs.error f hr)

theorem Engine.Inv.finishSession (h : e.Inv) (hc : e.current i = some t)
    (hf : Fine .idle e.manager t (e.finishing t)) : (e.finishSession i t).Inv := by
  have hdet : ∀ s, e.detector = some (t,some s) →
      e.manager.state t = s.state ∧ e.manager.owned t = true := fun s hd => (h.aborting t s hd).2
  unfold Engine.finishSession
  split
  · exact h.settleCommand hc (h.section_commit hf)
  · exact h.settleCommand hc (h.section_commit hf)
  · exact h.settleCommand hc (h.section_abort hf)
  · exact h.settleCommand hc (h.section_abort hf)
  · exact h.set_release (m := e.manager) hc (fun _ _ => .refl _ _) rfl id hdet
  · exact h.set (m := e.manager) hc (fun _ _ => .refl _ _) rfl id hdet hf
  · exact h.set (m := e.manager) hc (fun _ _ => .refl _ _) rfl id hdet hf

/-- Every branch of `FinishSessionTransaction` sets the phase anew. -/
theorem finishSession_setPhase (e : Engine) (i : SessionId) (t : TxnId) (ph : Phase) :
    (e.setPhase i ph).finishSession i t = e.finishSession i t := by
  have hcommand : ∀ r, (e.setPhase i ph).settleCommand i r = e.settleCommand i r := by
    intro r
    unfold Engine.settleCommand
    split <;> simp [Engine.setManager,Engine.setPhase,Engine.release]
  unfold Engine.finishSession
  rw [show (e.setPhase i ph).manager = e.manager from rfl,hcommand,hcommand]
  split <;> simp [Engine.setPhase,Engine.release]

theorem Engine.Inv.settle (h : e.Inv) (hc : e.current i = some t) (goal : Goal)
    {r : Progress × Manager} (hs : Section e t r) : (e.settle i t goal r).Inv := by
  unfold Engine.settle
  split
  · exact h.settleCommand hc hs
  · rename_i s hr
    exact h.set hc hs.others hs.next hs.owned hs.detector (hs.stage s _ hr)
  · exact h.set_release hc hs.others hs.next hs.owned hs.detector
  · rename_i f hr
    have hidle := h.set hc hs.others hs.next hs.owned hs.detector (hs.error f hr)
    split
    · exact hidle
    · rw [← finishSession_setPhase _ i t .idle]
      exact hidle.finishSession hc (by simpa using hs.error f hr)

/-- A change that no session and no detector notices. -/
theorem Engine.Inv.moves (h : e.Inv) {m : Manager} (hm : ∀ u, Moves e.manager m u)
    (hnext : m.nextTxnId = e.manager.nextTxnId) : (e.setManager m).Inv where
  unique := h.unique
  fresh j u hu := hnext ▸ h.fresh j u hu
  owned u hu := hnext ▸ h.owned u ((hm u).owned ▸ hu)
  session j u hu := (h.session j u hu).moves (hm u)
  aborting u s hd := by
    obtain ⟨ha,hs,ho⟩ := h.aborting u s hd
    exact ⟨ha,((hm u).state_eq (hs ▸ s.state_ne_active)).trans hs,(hm u).owned.trans ho⟩
  busy := h.busy

theorem lock_moves {m : Manager} {a : Lock.Action} (ha : ∀ t x, a ≠ .transition t x) (u : TxnId) :
    Moves m (m.lock a) u := ⟨Manager.lock_state ha u,rfl,rfl,rfl⟩

theorem markFailed_moves (m : Manager) (t u : TxnId) : Moves m (m.markFailedIfActive t) u := by
  unfold Manager.markFailedIfActive
  split
  · rename_i ha
    by_cases hu : u = t
    · subst hu
      exact ⟨.inr ⟨ha,by simp [setState_state]⟩,rfl,rfl,rfl⟩
    · exact setState_moves hu
  · exact .refl _ _

theorem begin_moves {m : Manager} {a : Status} {u : TxnId} (hu : u ≠ m.nextTxnId) :
    Moves m (m.begin a).2 u := by
  have hs : (m.begin a).2.state = Function.update m.state m.nextTxnId .active := by
    cases a <;> rfl
  have hg : (m.begin a).2.activeWriteGuards =
      Function.update m.activeWriteGuards m.nextTxnId 0 := by cases a <;> rfl
  have hc : (m.begin a).2.commitLsn =
      Function.update m.commitLsn m.nextTxnId invalidLsn := by cases a <;> rfl
  refine ⟨.inl (by rw [hs,Function.update_of_ne hu]),?_,by rw [hg,Function.update_of_ne hu],
    by rw [hc,Function.update_of_ne hu]⟩
  cases a with
  | error f => rfl
  | ok _ =>
    change Function.update m.owned m.nextTxnId true u = _
    rw [Function.update_of_ne hu]

theorem begin_nextTxnId (m : Manager) (answer : Status) :
    (m.begin answer).2.nextTxnId = m.nextTxnId + 1 := by cases answer <;> rfl

/-- The number of a new transaction belongs to nobody before. -/
theorem Engine.Inv.begin_failed (h : e.Inv) (f : Failure) :
    (e.setManager (e.manager.begin (.error f)).2).Inv where
  unique := h.unique
  fresh j u hu := Nat.lt_succ_of_lt (h.fresh j u hu)
  owned u hu := Nat.lt_succ_of_lt (h.owned u hu)
  session j u hu := (h.session j u hu).moves (begin_moves (Nat.ne_of_lt (h.fresh j u hu)))
  aborting u s hd := by
    obtain ⟨ha,hs,ho⟩ := h.aborting u s hd
    have hm : Moves e.manager (e.manager.begin (.error f)).2 u :=
      begin_moves (Nat.ne_of_lt (h.owned u ho))
    exact ⟨ha,(hm.state_eq (hs ▸ s.state_ne_active)).trans hs,hm.owned.trans ho⟩
  busy := h.busy

theorem Engine.Inv.begin_ok (h : e.Inv) {p : Phase} (hp : p = .idle ∨ p = .statement true) :
    (((e.setManager (e.manager.begin (.ok ())).2).setPhase i p).assign i
      e.manager.nextTxnId).Inv := by
  have hcur : ∀ j u, Function.update e.current i (some e.manager.nextTxnId) j = some u →
      (j = i ∧ u = e.manager.nextTxnId) ∨ (j ≠ i ∧ e.current j = some u) := by
    intro j u hu
    by_cases hj : j = i
    · subst hj
      exact .inl ⟨rfl,by simpa using hu.symm⟩
    · exact .inr ⟨hj,by simpa [hj] using hu⟩
  have hold : ∀ j u, e.current j = some u → u ≠ e.manager.nextTxnId :=
    fun j u hu => Nat.ne_of_lt (h.fresh j u hu)
  have hstate : (e.manager.begin (.ok ())).2.state e.manager.nextTxnId = .active := by
    change Function.update e.manager.state e.manager.nextTxnId .active _ = _
    simp
  have howned : (e.manager.begin (.ok ())).2.owned e.manager.nextTxnId = true := by
    change Function.update e.manager.owned e.manager.nextTxnId true _ = _
    simp
  have hguards : (e.manager.begin (.ok ())).2.activeWriteGuards e.manager.nextTxnId = 0 := by
    change Function.update e.manager.activeWriteGuards e.manager.nextTxnId 0 _ = _
    simp
  constructor
  · intro j k u hj hk
    rcases hcur j u hj with ⟨rfl,rfl⟩ | ⟨hj,hju⟩ <;> rcases hcur k _ hk with ⟨rfl,hu⟩ | ⟨hk,hku⟩
    · rfl
    · exact absurd rfl (hold k _ hku)
    · exact absurd hu (hold j _ hju)
    · exact h.unique j k u hju hku
  · intro j u hu
    change u < e.manager.nextTxnId + 1
    rcases hcur j u hu with ⟨-,rfl⟩ | ⟨-,hju⟩
    · exact Nat.lt_succ_self _
    · exact Nat.lt_succ_of_lt (h.fresh j u hju)
  · intro u hu
    change u < e.manager.nextTxnId + 1
    by_cases hn : u = e.manager.nextTxnId
    · exact hn ▸ Nat.lt_succ_self _
    · have hm : Moves e.manager (e.manager.begin (.ok ())).2 u := begin_moves hn
      exact Nat.lt_succ_of_lt (h.owned u (hm.owned ▸ hu))
  · intro j u hu
    rcases hcur j u hu with ⟨rfl,rfl⟩ | ⟨hj,hju⟩
    · have hfine : Fine .idle (e.manager.begin (.ok ())).2 e.manager.nextTxnId
          (e.finishing e.manager.nextTxnId) :=
        ⟨fun _ => hguards,by simp [hstate],by simp [hstate],by simp [hstate],fun _ _ => howned⟩
      rcases hp with rfl | rfl
      · simpa using hfine
      · simpa using hfine.statement rfl true
    · have hk := (h.session j u hju).moves (begin_moves (a := .ok ()) (hold j u hju))
      simpa [hj] using hk
  · intro u s hd
    obtain ⟨ha,hs,ho⟩ := h.aborting u s hd
    have hm : Moves e.manager (e.manager.begin (.ok ())).2 u :=
      begin_moves (Nat.ne_of_lt (h.owned u ho))
    exact ⟨ha,(hm.state_eq (hs ▸ s.state_ne_active)).trans hs,hm.owned.trans ho⟩
  · intro j hj
    by_cases hji : j = i
    · subst hji
      simp at hj
    · simpa [hji] using h.busy j (by simpa [hji] using hj)

/-- `Abort` either refuses and changes nothing or reserves an active or failed transaction. -/
theorem abort_cases (m : Manager) (t : TxnId) :
    (∃ f, m.abort t = (.done (.error f),m)) ∨
      ((m.state t = .active ∨ m.state t = .failed) ∧ m.owned t = true ∧
        m.activeWriteGuards t = 0 ∧ m.abort t = (.stage .abortUndo,m.setState t .aborting)) := by
  unfold Manager.abort
  split
  · exact .inl ⟨_,rfl⟩
  rename_i howned
  have ho : m.owned t = true := by simpa using howned
  split
  · exact .inl ⟨_,rfl⟩
  · exact .inl ⟨_,rfl⟩
  · exact .inl ⟨_,rfl⟩
  · split <;> exact .inl ⟨_,rfl⟩
  · split <;> exact .inl ⟨_,rfl⟩
  · rename_i hs
    split
    · exact .inl ⟨_,rfl⟩
    · rename_i hg
      exact .inr ⟨.inl hs,ho,by simpa using hg,rfl⟩
  · rename_i hs
    split
    · exact .inl ⟨_,rfl⟩
    · rename_i hg
      exact .inr ⟨.inr hs,ho,by simpa using hg,rfl⟩

/-- The sections of `Abort`, whoever runs them. -/
structure AbortSection (m : Manager) (t : TxnId) (r : Progress × Manager) : Prop where
  others : ∀ u, u ≠ t → Moves m r.2 u
  next : r.2.nextTxnId = m.nextTxnId
  guards : r.2.activeWriteGuards = m.activeWriteGuards
  stage : ∀ s, r.1 = .stage s → s.isAbort = true ∧ r.2.state t = s.state ∧ r.2.owned t = true
  error : ∀ f, r.1 = .done (.error f) → r.2.state t = .failed ∧ r.2.owned t = true
  ok : r.1 = .done (.ok ()) → r.2.state t = .aborted

theorem abortSection_advance {m : Manager} {t : TxnId} {s : Stage} (answer : Status)
    (ha : s.isAbort = true) (hs : m.state t = s.state) (ho : m.owned t = true) :
    AbortSection m t (m.advance t answer s) := by
  have hfailed : ∀ f : Failure, AbortSection m t (.done (.error f),m.setState t .failed) :=
    fun f => ⟨fun u hu => setState_moves hu,rfl,rfl,by simp,
      fun _ _ => ⟨by simp [setState_state],ho⟩,by simp⟩
  cases s with
  | abortUndo =>
    cases answer with
    | error f => exact hfailed _
    | ok _ => exact ⟨fun u _ => ⟨.inl rfl,rfl,rfl,rfl⟩,rfl,rfl,
        fun s h => by cases h; exact ⟨rfl,hs,ho⟩,by simp [Manager.advance],by simp [Manager.advance]⟩
  | abortAppend =>
    cases answer with
    | error f => exact hfailed _
    | ok _ => exact ⟨fun u _ => appendFor_moves _ _ _,rfl,rfl,
        fun s h => by cases h; exact ⟨rfl,hs,ho⟩,by simp [Manager.advance],by simp [Manager.advance]⟩
  | abortFlush lsn =>
    cases answer with
    | error f => exact hfailed _
    | ok _ =>
      have hst : ((m.flush lsn).setState t .aborted).state t = .aborted := by simp [setState_state]
      exact ⟨fun u hu => flush_setState_moves hu,rfl,rfl,
        fun s h => by cases h; exact ⟨rfl,hst,ho⟩,by simp [Manager.advance],by simp [Manager.advance]⟩
  | abortUnlock => exact ⟨fun u _ => ⟨.inl rfl,rfl,rfl,rfl⟩,rfl,rfl,
      fun s h => by cases h; exact ⟨rfl,hs,ho⟩,by simp [Manager.advance],by simp [Manager.advance]⟩
  | abortRemove => exact ⟨fun u hu => ⟨.inl rfl,by simp [Manager.advance,hu],rfl,rfl⟩,rfl,rfl,
      by simp [Manager.advance],by simp [Manager.advance],fun _ => hs⟩
  | _ => simp [Stage.isAbort,Stage.state] at ha

/-- The detector takes its victim one section further. A session that has the
victim as its transaction is not inside `Commit` or `Abort` itself. -/
theorem Engine.Inv.detect (h : e.Inv) {m : Manager} {v : TxnId} {d : Option (TxnId × Option Stage)}
    (hothers : ∀ u, u ≠ v → Moves e.manager m u)
    (hnext : m.nextTxnId = e.manager.nextTxnId) (howned : m.owned v = true → e.manager.owned v = true)
    (hwas : ∀ u s, e.detector = some (u,s) → u = v)
    (hd : ∀ u s, d = some (u,some s) → u = v ∧ s.isAbort = true ∧ m.state v = s.state ∧
      m.owned v = true)
    (hfine : ∀ i, e.current i = some v → Fine (e.phase i) m v (∃ s, d = some (v,some s))) :
    ((e.setManager m).setDetector d).Inv where
  unique := h.unique
  fresh j u hu := by
    have hf := h.fresh j u hu
    exact hnext ▸ hf
  owned u hu := by
    have hu' : m.owned u = true := hu
    have hold : e.manager.owned u = true := by
      by_cases hv : u = v
      · exact hv ▸ howned (hv ▸ hu')
      · rw [← (hothers u hv).owned]
        exact hu'
    exact hnext ▸ h.owned u hold
  session j u hu := by
    have hu' : e.current j = some u := hu
    by_cases hv : u = v
    · subst hv
      exact hfine j hu'
    · have hk := (h.session j u hu').moves (hothers u hv)
      -- neither before nor after is the detector at this transaction
      have hbefore : e.finishing u = False := by
        refine eq_false fun ⟨s,hs⟩ => hv (hwas u _ hs)
      have hafter : ((e.setManager m).setDetector d).finishing u = False := by
        refine eq_false fun ⟨s,hs⟩ => hv (hd u s hs).1
      rw [hafter,← hbefore]
      exact hk
  aborting u s hs := by
    obtain ⟨rfl,ha,hst,ho⟩ := hd u s hs
    exact ⟨ha,hst,ho⟩
  busy := h.busy

theorem Engine.Inv.section_idle (h : e.Inv) (hc : e.current i = some t) (hi : e.phase i = .idle) :
    Fine .idle e.manager t (e.finishing t) := hi ▸ h.session i t hc

/-- A step inside a statement does to its own transaction what the statement may. -/
theorem Engine.Inv.inStatement {e' : Engine} (h : e.Inv) {f : TxnId → Option Manager}
    (hn : e.inStatement i f = some e')
    (hf : ∀ u m, f u = some m → (∀ v, Moves e.manager m v) ∧ m.nextTxnId = e.manager.nextTxnId) :
    e'.Inv := by
  unfold Engine.inStatement at hn
  split at hn
  · rename_i u _ _
    simp only [Option.map_eq_some_iff] at hn
    obtain ⟨m,hm,rfl⟩ := hn
    obtain ⟨hmoves,hnext⟩ := hf u m hm
    exact h.moves hmoves hnext
  · cases hn

theorem tryLock_moves {m m' : Manager} {a : Lock.Action} (ha : ∀ t x, a ≠ .transition t x)
    (h : m.tryLock a = some m') : (∀ u, Moves m m' u) ∧ m'.nextTxnId = m.nextTxnId := by
  simp only [Manager.tryLock,Option.map_eq_some_iff] at h
  obtain ⟨o,-,rfl⟩ := h
  exact ⟨lock_moves ha,rfl⟩

theorem markFailed_nextTxnId (m : Manager) (t : TxnId) :
    (m.markFailedIfActive t).nextTxnId = m.nextTxnId := by
  unfold Manager.markFailedIfActive
  split <;> rfl

theorem setPhase_self (e : Engine) (i : SessionId) : e.setPhase i (e.phase i) = e := by
  simp [Engine.setPhase]

/-- The end of a statement, when nothing of `t` but its guards was left to check. -/
theorem Engine.Inv.endStatement {e' : Engine} (h : e.Inv) {ok : Bool}
    (hn : e.next (.endStatement i ok) = some e') : e'.Inv := by
  simp only [Engine.next] at hn
  split at hn
  · rename_i a u hp hc
    split at hn
    · cases hn
    rename_i hguards
    have hg : e.manager.activeWriteGuards u = 0 := by simpa using hguards
    have hst : Fine (.statement a) e.manager u (e.finishing u) := hp ▸ h.session i u hc
    have hidle : Fine .idle e.manager u (e.finishing u) := ⟨fun _ => hg,hst.2⟩
    have hdet : ∀ s, e.detector = some (u,some s) →
        e.manager.state u = s.state ∧ e.manager.owned u = true := fun s hd => (h.aborting u s hd).2
    have hstop : (e.setPhase i .idle).Inv :=
      h.set (m := e.manager) hc (fun _ _ => .refl _ _) rfl id hdet hidle
    split at hn
    · split at hn
      · cases hn
        exact h.settle hc _ (h.section_commit hidle)
      · cases hn
        exact hstop
    · have hmark := markFailed_moves e.manager u
      have h' := h.moves hmark (markFailed_nextTxnId _ _)
      have hidle' : Fine .idle (e.manager.markFailedIfActive u) u (e.finishing u) :=
        hidle.moves (hmark u)
      split at hn
      · cases hn
        exact h'.finishSession hc hidle'
      · cases hn
        exact h'.set (m := e.manager.markFailedIfActive u) hc (fun _ _ => .refl _ _) rfl id
          (fun s hd => (h'.aborting u s hd).2) hidle'
  · cases hn

/-- Finding a victim leaves every session where it was. -/
theorem Engine.Inv.detectDeadlocks {e' : Engine} {order : List LockId} (h : e.Inv)
    (hn : e.next (.detectDeadlocks order) = some e') : e'.Inv := by
  simp only [Engine.next] at hn
  split at hn
  · cases hn
  rename_i hnone
  have hd : e.detector = none := by simpa using hnone
  cases hn
  have h' := h.moves (lock_moves (a := .detectDeadlocks order) (by simp)) rfl
  refine ⟨h'.unique,h'.fresh,h'.owned,fun j u hu => ?_,fun u s hs => ?_,h'.busy⟩
  · have hbefore : e.finishing u = False := eq_false fun ⟨s,hs⟩ => by simp [hd] at hs
    have hk := h'.session j u hu
    rw [setManager_finishing,hbefore] at hk
    have hafter : ((e.setManager (e.manager.lock (.detectDeadlocks order))).setDetector
        ((Lock.detectDeadlocks e.manager.locks.sys.lm order).1.head?.map (·,none))).finishing u
        = False := eq_false fun ⟨s,hs⟩ => by simp [Engine.setDetector] at hs
    rw [hafter]
    exact hk
  · simp [Engine.setDetector] at hs

/-- A transaction that was just turned to Aborting is not at a stage of its session. -/
theorem Fine.aborting {ph : Phase} {m m' : Manager} (hk : Fine ph m t False)
    (hst : m.state t = .active ∨ m.state t = .failed) (hg : m'.activeWriteGuards t = 0)
    (hs : m'.state t = .aborting) (ho : m'.owned t = true) : Fine ph m' t True := by
  cases ph with
  | finish goal s =>
    have hstage : m.state t = s.state := hk.1
    rcases hst with hst | hst <;> rw [hst] at hstage <;> cases s <;> simp [Stage.state] at hstage
  | idle => exact ⟨fun _ => hg,by simp [hs],by simp [hs],by simp,fun _ _ => ho⟩
  | statement a => exact ⟨by simp,by simp [hs],by simp [hs],by simp,fun _ _ => ho⟩

theorem Engine.Inv.detectorAbort {e' : Engine} (h : e.Inv)
    (hn : e.next .detectorAbort = some e') : e'.Inv := by
  simp only [Engine.next] at hn
  split at hn
  case h_2 => cases hn
  rename_i v hd
  have hwas : ∀ u x, e.detector = some (u,x) → u = v := by
    intro u x hx
    simp only [hd,Option.some.injEq,Prod.mk.injEq] at hx
    exact hx.1.symm
  have hbefore : e.finishing v = False := eq_false fun ⟨s,hs⟩ => by simp [hd] at hs
  rcases abort_cases e.manager v with ⟨f,hf⟩ | ⟨hst,ho,hg,hf⟩
  · rw [hf] at hn
    cases hn
    refine h.detect (v := v) (fun u _ => .refl _ _) rfl id hwas (by simp) fun j hj => ?_
    have hk := h.session j v hj
    rw [hbefore] at hk
    simpa using hk
  · rw [hf] at hn
    cases hn
    have hself : (e.manager.setState v .aborting).state v = .aborting := by
      simp [setState_state]
    refine h.detect (v := v) (fun u hu => setState_moves hu) rfl id hwas ?_ fun j hj => ?_
    · intro u s hs
      simp only [Option.some.injEq,Prod.mk.injEq] at hs
      obtain ⟨rfl,rfl⟩ := hs
      exact ⟨rfl,rfl,hself,ho⟩
    · have hk := h.session j v hj
      rw [hbefore] at hk
      have hfine : Fine (e.phase j) (e.manager.setState v .aborting) v True :=
        hk.aborting hst hg hself ho
      simpa using hfine

/-- While the detector ends a transaction, its session is idle or in a statement. -/
theorem Engine.Inv.fine_detected (h : e.Inv) {j : SessionId} {v : TxnId} {s : Stage}
    (hd : e.detector = some (v,some s)) (hj : e.current j = some v) {m : Manager} {fin : Prop}
    (hg : m.activeWriteGuards = e.manager.activeWriteGuards)
    (hne : m.state v ≠ .committing ∧ m.state v ≠ .commitUncertain)
    (hfin : m.state v = .aborting → fin)
    (hown : m.state v ≠ .aborting → m.state v ≠ .aborted → m.owned v = true) :
    Fine (e.phase j) m v fin := by
  have hk := h.session j v hj
  cases hp : e.phase j with
  | finish goal s' =>
    rw [hp] at hk
    exact absurd ⟨s,hd⟩ hk.2.2.2.1
  | idle =>
    rw [hp] at hk
    exact ⟨fun hi => by rw [hg]; exact hk.1 hi,fun hc => absurd hc hne.2,hne.1,hfin,hown⟩
  | statement a => exact ⟨by simp,fun hc => absurd hc hne.2,hne.1,hfin,hown⟩

theorem Engine.Inv.detectorAdvance {e' : Engine} {answer : Status} (h : e.Inv)
    (hn : e.next (.detectorAdvance answer) = some e') : e'.Inv := by
  simp only [Engine.next] at hn
  split at hn
  case h_2 => cases hn
  rename_i v s hd
  obtain ⟨ha,hst,ho⟩ := h.aborting v s hd
  have hsec := abortSection_advance answer ha hst ho
  have hwas : ∀ u x, e.detector = some (u,x) → u = v := by
    intro u x hx
    simp only [hd,Option.some.injEq,Prod.mk.injEq] at hx
    exact hx.1.symm
  split at hn
  · rename_i s' hr
    cases hn
    obtain ⟨ha',hst',ho'⟩ := hsec.stage s' hr
    refine h.detect (v := v) hsec.others hsec.next (fun _ => ho) hwas ?_ fun j hj => ?_
    · intro u x hx
      simp only [Option.some.injEq,Prod.mk.injEq] at hx
      obtain ⟨rfl,rfl⟩ := hx
      exact ⟨rfl,ha',hst',ho'⟩
    · refine h.fine_detected hd hj hsec.guards ?_ (fun _ => ⟨s',rfl⟩) (fun _ _ => ho')
      rw [hst']
      cases s' <;> simp [Stage.isAbort,Stage.state] at ha' ⊢
  · rename_i st hr
    cases hn
    refine h.detect (v := v) hsec.others hsec.next (fun _ => ho) hwas (by simp) fun j hj => ?_
    cases st with
    | ok _ =>
      have hab := hsec.ok hr
      exact h.fine_detected hd hj hsec.guards (by simp [hab]) (by simp [hab]) (by simp [hab])
    | error f =>
      obtain ⟨hfa,ho'⟩ := hsec.error f hr
      exact h.fine_detected hd hj hsec.guards (by simp [hfa]) (by simp [hfa]) (fun _ _ => ho')

theorem Engine.Inv.next {e' : Engine} (h : e.Inv) {c : Command} (hn : e.next c = some e') :
    e'.Inv := by
  cases c with
  | begin i answer =>
    simp only [Engine.next] at hn
    split at hn
    · rename_i hi
      split at hn
      · cases hn; exact h
      cases answer with
      | error f =>
        cases hn
        exact h.begin_failed f
      | ok _ =>
        cases hn
        have hb := h.begin_ok (i := i) (p := .idle) (.inl rfl)
        have hp : (e.setManager (e.manager.begin (.ok ())).2).setPhase i .idle =
            e.setManager (e.manager.begin (.ok ())).2 := by
          have hs := setPhase_self (e.setManager (e.manager.begin (.ok ())).2) i
          rwa [setManager_phase,hi] at hs
        rw [hp] at hb
        exact hb
    · cases hn
  | commit i =>
    simp only [Engine.next] at hn
    split at hn
    · rename_i hi
      split at hn
      · cases hn; exact h
      rename_i hc
      split at hn
      · cases hn; exact h
      · cases hn
        exact h.settleCommand hc (h.section_commit (h.section_idle hc hi))
    · cases hn
  | rollback i =>
    simp only [Engine.next] at hn
    split at hn
    · rename_i hi
      split at hn
      · cases hn; exact h
      rename_i hc
      split at hn
      · cases hn; exact h
      · cases hn
        exact h.settleCommand hc (h.section_abort (h.section_idle hc hi))
    · cases hn
  | finishSession i =>
    simp only [Engine.next] at hn
    split at hn
    · rename_i hi
      split at hn
      · cases hn; exact h
      rename_i hc
      cases hn
      exact h.finishSession hc (h.section_idle hc hi)
    · cases hn
  | parseError i =>
    simp only [Engine.next] at hn
    split at hn
    · split at hn
      · cases hn; exact h
      cases hn
      exact h.moves (markFailed_moves _ _) (markFailed_nextTxnId _ _)
    · cases hn
  | statement i answer =>
    simp only [Engine.next] at hn
    split at hn
    · rename_i hi
      split at hn
      · rename_i u hc
        split at hn
        · cases hn
          exact h.set (m := e.manager) hc (fun _ _ => .refl _ _) rfl id
            (fun s hd => (h.aborting u s hd).2) ((h.section_idle hc hi).statement rfl false)
        · cases hn; exact h
      cases answer with
      | error f =>
        cases hn
        exact h.begin_failed f
      | ok _ =>
        cases hn
        exact h.begin_ok (.inr rfl)
    · cases hn
  | call i l mode => exact h.inStatement hn fun u m hm => tryLock_moves (by simp) hm
  | enter i l mode => exact h.inStatement hn fun u m hm => tryLock_moves (by simp) hm
  | wake i l => exact h.inStatement hn fun u m hm => tryLock_moves (by simp) hm
  | work i type =>
    refine h.inStatement hn fun u m hm => ?_
    split at hm
    · cases hm
      exact ⟨appendFor_moves _ _,rfl⟩
    · cases hm
  | guards i count =>
    simp only [Engine.next,Engine.inStatement] at hn
    split at hn
    · rename_i a u hp hc
      cases hn
      have hst : Fine (.statement a) e.manager u (e.finishing u) := hp ▸ h.session i u hc
      have hs := h.set (m := e.manager.setGuards u count) (p := .statement a) hc
        (fun v hv => ⟨.inl rfl,rfl,by simp [Manager.setGuards,hv],rfl⟩) rfl id
        (fun s hd => (h.aborting u s hd).2) ⟨by simp,hst.2⟩
      have hself := setPhase_self (e.setManager (e.manager.setGuards u count)) i
      rw [setManager_phase,hp] at hself
      rw [hself] at hs
      exact hs
    · cases hn
  | markFailed i =>
    refine h.inStatement hn fun u m hm => ?_
    cases hm
    exact ⟨markFailed_moves _ _,markFailed_nextTxnId _ _⟩
  | endStatement i ok => exact h.endStatement hn
  | advance i answer =>
    simp only [Engine.next] at hn
    split at hn
    · rename_i goal s u hp hc
      cases hn
      exact h.settle hc goal (section_advance answer (hp ▸ h.session i u hc))
    · cases hn
  | detectDeadlocks order => exact h.detectDeadlocks hn
  | detectorAbort => exact h.detectorAbort hn
  | detectorAdvance answer => exact h.detectorAdvance hn

end Steps

theorem Engine.inv_initial : Engine.initial.Inv :=
  ⟨by simp [Engine.initial],by simp [Engine.initial],
    (fun _ h => by simp [Engine.initial,Manager.initial] at h),by simp [Engine.initial],
    by simp [Engine.initial],fun _ _ => rfl⟩

theorem Engine.inv_of_reach {e : Engine}
    (h : Reach (· = Engine.initial) (StepOf Engine.next) e) : e.Inv :=
  h.invariant (P := Engine.Inv) (fun s (hs : s = Engine.initial) => hs ▸ Engine.inv_initial)
    fun _ _ _ hi hn => hi.next hn

/-- How many sections are left after this one. -/
def Stage.rank : Stage → ℕ
  | .commitGuards => 5
  | .commitAppend => 4
  | .commitFlush _ | .commitRetry _ => 3
  | .commitCleanup => 2
  | .commitUnlock => 1
  | .commitRemove => 0
  | .abortUndo => 4
  | .abortAppend => 3
  | .abortFlush _ => 2
  | .abortUnlock => 1
  | .abortRemove => 0

/-- Without failures a section leads on, and the last one returns Ok. -/
theorem advance_ok {m : Manager} {t : TxnId} {goal : Goal} {s : Stage} {finishing : Prop}
    (hf : Fine (.finish goal s) m t finishing) :
    (∃ s', (m.advance t (.ok ()) s).1 = .stage s' ∧ s'.rank < s.rank) ∨
      (m.advance t (.ok ()) s).1 = .done (.ok ()) := by
  obtain ⟨hs,ho,hg,-,-⟩ := hf
  cases s with
  | commitGuards => exact .inl ⟨.commitAppend,by simp [Manager.advance,hg],by decide⟩
  | commitAppend => exact .inl ⟨_,rfl,Nat.lt_succ_self _⟩
  | commitFlush lsn => exact .inl ⟨_,rfl,Nat.lt_succ_self _⟩
  | commitRetry lsn => exact .inl ⟨_,rfl,Nat.lt_succ_self _⟩
  | commitCleanup =>
    have hc : m.state t = .committed := hs
    exact .inl ⟨.commitUnlock,by simp [Manager.advance,ho,hc],by decide⟩
  | commitUnlock => exact .inl ⟨_,rfl,by decide⟩
  | commitRemove => exact .inr rfl
  | abortUndo => exact .inl ⟨_,rfl,by decide⟩
  | abortAppend => exact .inl ⟨_,rfl,Nat.lt_succ_self _⟩
  | abortFlush lsn => exact .inl ⟨_,rfl,Nat.lt_succ_self _⟩
  | abortUnlock => exact .inl ⟨_,rfl,by decide⟩
  | abortRemove => exact .inr rfl

/-- A session left alone inside `Commit` or `Abort` gets through and is free. -/
theorem Engine.Inv.runs_through {n : ℕ} {e : Engine} (h : e.Inv) {i : SessionId} {t : TxnId}
    {s : Stage} (hc : e.current i = some t) (hp : e.phase i = .finish .command s)
    (hr : s.rank < n) :
    ∃ k e₁, exec Engine.next e (List.replicate k (.advance i (.ok ()))) = some e₁ ∧
      e₁.phase i = .idle ∧ e₁.current i = none := by
  induction n generalizing e s with
  | zero => omega
  | succ n ih =>
    have hf : Fine (.finish .command s) e.manager t (e.finishing t) := hp ▸ h.session i t hc
    have hnext : e.next (.advance i (.ok ())) =
        some (e.settleCommand i (e.manager.advance t (.ok ()) s)) := by
      simp [Engine.next,hp,hc,Engine.settle]
    have h' := h.settleCommand hc (section_advance (.ok ()) hf)
    rcases advance_ok hf with ⟨s',hs,hlt⟩ | hs
    · have he : e.settleCommand i (e.manager.advance t (.ok ()) s) =
          (e.setManager (e.manager.advance t (.ok ()) s).2).setPhase i (.finish .command s') := by
        simp [Engine.settleCommand,hs]
      rw [he] at hnext h'
      obtain ⟨k,e₁,hk,hrest⟩ := ih h' (s := s') hc (by simp) (by omega)
      refine ⟨k+1,e₁,?_,hrest⟩
      rw [List.replicate_succ,exec,hnext]
      exact hk
    · refine ⟨1,e.settleCommand i (e.manager.advance t (.ok ()) s),?_,?_,?_⟩
      · simp [exec,hnext]
      · simp [Engine.settleCommand,hs]
      · simp [Engine.settleCommand,hs]

/-- BEGIN works in a free session. -/
theorem begin_free {e : Engine} {i : SessionId} (hp : e.phase i = .idle)
    (hc : e.current i = none) : ∃ e₂, e.next (.begin i (.ok ())) = some e₂ ∧ e₂.current i ≠ none := by
  refine ⟨(e.setManager (e.manager.begin (.ok ())).2).assign i e.manager.nextTxnId,?_,by simp⟩
  simp [Engine.next,hp,hc,Manager.begin]

theorem Engine.Inv.freed {e : Engine} (h : e.Inv) {i : SessionId} {t : TxnId} {c : Command}
    {r : Progress × Manager} {s : Stage} (hc : e.current i = some t)
    (hn : e.next c = some (e.settleCommand i r)) (hs : Section e t r) (hr : r.1 = .stage s) :
    e.freedBy i c := by
  have h' := h.settleCommand hc hs
  have he : e.settleCommand i r = (e.setManager r.2).setPhase i (.finish .command s) := by
    simp [Engine.settleCommand,hr]
  rw [he] at hn h'
  obtain ⟨k,e₁,hk,hp,hfree⟩ := h'.runs_through (i := i) hc (by simp) (Nat.lt_succ_self s.rank)
  obtain ⟨e₂,hb,hcur⟩ := begin_free hp hfree
  refine ⟨k,e₁,e₂,?_,hp,hfree,hb,hcur⟩
  rw [exec,hn]
  exact hk

/-- A command that is refused leaves the session as it was, and it has no further sections. -/
theorem not_freed {e : Engine} {i : SessionId} {t : TxnId} {c : Command}
    (hp : e.phase i = .idle) (hc : e.current i = some t) (hn : e.next c = some e) :
    ¬e.freedBy i c := by
  rintro ⟨n,e₁,e₂,hx,-,hfree,-⟩
  rw [exec,hn,Option.bind_some] at hx
  cases n with
  | zero =>
    have he : e = e₁ := by simpa [exec] using hx
    rw [← he,hc] at hfree
    cases hfree
  | succ n =>
    have hno : e.next (.advance i (.ok ())) = none := by simp [Engine.next,hp]
    simp [List.replicate_succ,exec,hno] at hx

/-- The manager no longer knows an aborted transaction and refuses both commands. -/
theorem not_recoverable_of_aborted {e : Engine} {i : SessionId} {t : TxnId}
    (hp : e.phase i = .idle) (hc : e.current i = some t) (ha : e.manager.state t = .aborted) :
    ¬e.Recoverable i := by
  have hsame : ∀ r : Progress × Manager, (∃ f, r = (.done (.error f),e.manager)) →
      e.settleCommand i r = e := by
    rintro r ⟨f,rfl⟩
    have hself := setPhase_self e i
    rw [hp] at hself
    simpa [Engine.settleCommand,Engine.setManager] using hself
  have hab : ∃ f, e.manager.abort t = (.done (.error f),e.manager) := by
    rcases abort_cases e.manager t with hab | ⟨hst,-⟩
    · exact hab
    · simp [ha] at hst
  have hco : ∃ f, e.manager.commit t = (.done (.error f),e.manager) := by
    unfold Manager.commit
    split
    · exact ⟨_,rfl⟩
    · rw [ha]
      exact ⟨_,rfl⟩
  rintro (hr | hr)
  · refine not_freed hp hc ?_ hr
    simp [Engine.next,hp,hc,ha,hsame _ hab]
  · refine not_freed hp hc ?_ hr
    simp [Engine.next,hp,hc,ha,hsame _ hco]

/-- Two writers deadlock; the detector aborts the second, whose statement then fails. -/
def deadlockRun : List Command :=
  let write := fun i p => [.statement i (.ok ()),.call i (.page p) (.page .X),
    .enter i (.page p) (.page .X)]
  [.begin 1 (.ok ()),.begin 2 (.ok ())] ++ write 1 1 ++ [.endStatement 1 true] ++
    write 2 2 ++ [.endStatement 2 true] ++ write 1 2 ++ write 2 1 ++
    [.detectDeadlocks [.page 1,.page 2],.detectorAbort] ++
    List.replicate 5 (.detectorAdvance (.ok ())) ++ [.wake 2 (.page 1),.endStatement 2 false]

def deadlock : Engine := (exec Engine.next .initial deadlockRun).get rfl

theorem reach_deadlock : Reach (· = Engine.initial) (StepOf Engine.next) deadlock :=
  exec_reach (.init rfl) (Option.some_get _).symm

theorem not_finishing_deadlock (t : TxnId) : ¬deadlock.finishing t := by
  have hd : deadlock.detector = none := rfl
  rintro ⟨s,hs⟩
  simp [hd] at hs

end Transaction
end OurSql
