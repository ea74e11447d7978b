import OurSql.Lock.Compatibility
import Mathlib.Data.List.Nodup

/-! Two-phase locking: whatever a transaction was granted stays granted until its
locks are released. The one exit that breaks this is an upgrade that gives up
because its transaction stopped being active: it erases the request and the
weaker grant with it. -/
namespace OurSql
namespace Lock

open Transition

theorem Mode.Covers.trans {a b c : Mode} (h : c.Covers b) (h' : b.Covers a) : c.Covers a :=
  fun d hd => h d (h' d hd)

/-- The grant that a step announces: its lock call returns Ok. -/
def grantOf (s : System) : Action → Option (LockId × TxnId × Mode)
  | .enter c =>
    if (enterQueue s.lm c.txnId c.lockId c.mode).1 = .returned (.ok ()) then
      some (c.lockId,c.txnId,c.mode)
    else none
  | .wake t l =>
    match (s.lm.queues l).find? (·.txnId = t), Lock.wake s.lm t l with
    | some r, some res => if res.1 = .returned (.ok ()) then some (l,t,r.mode) else none
    | _, _ => none
  | _ => none

/-- The system with everything each transaction was granted since its last release. -/
structure Owed where
  sys : System
  owed : LockId → TxnId → List Mode

def Owed.initial : Owed := ⟨.initial,fun _ _ => []⟩

def Owed.after (o : Owed) (a : Action) (l : LockId) (t : TxnId) : List Mode :=
  match a with
  | .unlock u k => if k = l ∧ u = t then [] else o.owed l t
  | .unlockAll u => if u = t then [] else o.owed l t
  | a =>
    match grantOf o.sys a with
    | some (k,u,m) => if k = l ∧ u = t then m :: o.owed l t else o.owed l t
    | none => o.owed l t

def Owed.next (o : Owed) (a : Action) : Option Owed :=
  (o.sys.next a).map fun s => ⟨s,o.after a⟩

/-- What the transactions were granted is still granted, and their own records
of granted locks say the same as the queues. -/
structure Kept (o : Owed) : Prop where
  held : ∀ l t m, m ∈ o.owed l t →
    ∃ r ∈ o.sys.lm.queues l, r.txnId = t ∧ r.granted = true ∧ r.mode.Covers m
  recorded : ∀ t l, l ∈ o.sys.lm.grantedLocks t ↔
    ∃ r ∈ o.sys.lm.queues l, r.txnId = t ∧ r.granted = true

/-- The step is an upgrade of a transaction that is no longer active: the call
enters with a legal upgrade, or wakes up with one pending. -/
def Action.losesGrant (s : System) : Action → Prop
  | .enter c => s.lm.isUsableForWork c.txnId = false ∧ ∃ r ∈ s.lm.queues c.lockId,
      r.txnId = c.txnId ∧ r.granted = true ∧ r.upgrading = false ∧
        sameRequestedMode r c.mode = false ∧ canUpgrade r c.mode = true
  | .wake t l => s.lm.isUsableForWork t = false ∧ ∃ r ∈ s.lm.queues l,
      r.txnId = t ∧ r.upgrading = true
  | _ => False

/-- The invariant of one queue, with what is owed on it and who has it on record. -/
structure QueueKept (table : Bool) (owed : TxnId → List Mode) (record : TxnId → Prop)
    (q : LockRequestQueue) : Prop where
  ids : (q.map (·.txnId)).Nodup
  typed : ∀ r ∈ q, r.tableMode = table
  cancelled : ∀ r ∈ q, r.cancelled = true → r.granted = false
  upgrading : ∀ r ∈ q, r.upgrading = true → r.granted = true
  held : ∀ t, ∀ m ∈ owed t, ∃ r ∈ q, r.txnId = t ∧ r.granted = true ∧ r.mode.Covers m
  recorded : ∀ t, record t ↔ ∃ r ∈ q, r.txnId = t ∧ r.granted = true

theorem queueKept_nil (table : Bool) : QueueKept table (fun _ => []) (fun _ => False) [] :=
  ⟨by simp,by simp,by simp,by simp,by simp,by simp⟩

section Queue

variable {table : Bool} {owed owed' : TxnId → List Mode} {record record' : TxnId → Prop}
  {pre post q : LockRequestQueue} {r r' : LockRequest}

/-- A transaction has one request, so what it is owed is owed by that request. -/
theorem QueueKept.owed_self (h : QueueKept table owed record q) (hr : r ∈ q) {m : Mode}
    (hm : m ∈ owed r.txnId) : r.granted = true ∧ r.mode.Covers m := by
  obtain ⟨o,ho,hid,hg,hc⟩ := h.held _ m hm
  have he : o = r := List.inj_on_of_nodup_map h.ids ho hr hid
  exact he ▸ ⟨hg,hc⟩

theorem QueueKept.record_self (h : QueueKept table owed record q) (hr : r ∈ q) :
    record r.txnId ↔ r.granted = true := by
  rw [h.recorded]
  constructor
  · rintro ⟨o,ho,hid,hg⟩
    have he : o = r := List.inj_on_of_nodup_map h.ids ho hr hid
    exact he ▸ hg
  · exact fun hg => ⟨r,hr,rfl,hg⟩

theorem QueueKept.ids_middle (h : QueueKept table owed record (pre ++ r :: post)) :
    ∀ o ∈ pre ++ post, o.txnId ≠ r.txnId := by
  intro o ho hou
  have hp : (pre ++ r :: post).Perm (r :: (pre ++ post)) := List.perm_middle
  have hnd : ((r :: (pre ++ post)).map (·.txnId)).Nodup :=
    (hp.map (·.txnId)).nodup_iff.mp h.ids
  rw [List.map_cons,List.nodup_cons] at hnd
  exact hnd.1 (List.mem_map.mpr ⟨o,ho,hou⟩)

/-- Replace one request by another of its transaction; nobody else's books change. -/
theorem QueueKept.replace (h : QueueKept table owed record (pre ++ r :: post))
    (hid : r'.txnId = r.txnId) (hty : r'.tableMode = r.tableMode)
    (hcan : r'.cancelled = true → r'.granted = false)
    (hup : r'.upgrading = true → r'.granted = true)
    (howed : ∀ m ∈ owed' r.txnId, r'.granted = true ∧ r'.mode.Covers m)
    (hrec : record' r.txnId ↔ r'.granted = true)
    (hother : ∀ u, u ≠ r.txnId → owed' u = owed u ∧ (record' u ↔ record u)) :
    QueueKept table owed' record' (pre ++ r' :: post) := by
  have hmem : ∀ o, o ∈ pre ++ r' :: post ↔ o = r' ∨ o ∈ pre ++ post := by
    intro o; simp only [List.mem_append,List.mem_cons]; tauto
  have hold : ∀ o, o ∈ pre ++ r :: post ↔ o = r ∨ o ∈ pre ++ post := by
    intro o; simp only [List.mem_append,List.mem_cons]; tauto
  have hrest : ∀ o ∈ pre ++ post, o ∈ pre ++ r :: post := fun o ho => (hold o).mpr (.inr ho)
  have hpick : ∀ u, u ≠ r.txnId → ∀ P : LockRequest → Prop,
      (∃ o ∈ pre ++ r :: post, o.txnId = u ∧ P o) ↔ ∃ o ∈ pre ++ r' :: post, o.txnId = u ∧ P o := by
    intro u hu P
    constructor <;> rintro ⟨o,ho,hou,hP⟩
    · rcases (hold o).mp ho with rfl | ho
      · exact absurd hou.symm hu
      · exact ⟨o,(hmem o).mpr (.inr ho),hou,hP⟩
    · rcases (hmem o).mp ho with rfl | ho
      · exact absurd (hou.symm.trans hid) hu
      · exact ⟨o,hrest o ho,hou,hP⟩
  have hself : r' ∈ pre ++ r' :: post := by simp
  refine ⟨by simpa [hid] using h.ids,?_,?_,?_,?_,?_⟩
  · intro o ho
    rcases (hmem o).mp ho with rfl | ho
    · rw [hty]; exact h.typed r (by simp)
    · exact h.typed o (hrest o ho)
  · intro o ho
    rcases (hmem o).mp ho with rfl | ho
    · exact hcan
    · exact h.cancelled o (hrest o ho)
  · intro o ho
    rcases (hmem o).mp ho with rfl | ho
    · exact hup
    · exact h.upgrading o (hrest o ho)
  · intro u m hm
    by_cases hu : u = r.txnId
    · subst hu
      obtain ⟨hg,hc⟩ := howed m hm
      exact ⟨r',hself,hid,hg,hc⟩
    · rw [(hother u hu).1] at hm
      exact (hpick u hu _).mp (h.held u m hm)
  · intro u
    by_cases hu : u = r.txnId
    · subst hu
      rw [hrec]
      constructor
      · exact fun hg => ⟨r',hself,hid,hg⟩
      · rintro ⟨o,ho,hou,hg⟩
        rcases (hmem o).mp ho with rfl | ho
        · exact hg
        · exact absurd hou (h.ids_middle o ho)
    · rw [(hother u hu).2,h.recorded u]
      exact hpick u hu _

/-- Take a request out once its transaction is owed nothing on this resource. -/
theorem QueueKept.remove (h : QueueKept table owed record (pre ++ r :: post))
    (howed : owed' r.txnId = []) (hrec : ¬record' r.txnId)
    (hother : ∀ u, u ≠ r.txnId → owed' u = owed u ∧ (record' u ↔ record u)) :
    QueueKept table owed' record' (pre ++ post) := by
  have hsub : (pre ++ post).Sublist (pre ++ r :: post) :=
    (List.sublist_cons_self _ _).append_left _
  have hin : ∀ u, u ≠ r.txnId → ∀ o ∈ pre ++ r :: post, o.txnId = u → o ∈ pre ++ post := by
    intro u hu o ho hou
    simp only [List.mem_append,List.mem_cons] at ho ⊢
    rcases ho with ho | rfl | ho
    · exact .inl ho
    · exact absurd hou.symm hu
    · exact .inr ho
  have hgone := h.ids_middle
  refine ⟨h.ids.sublist (hsub.map _),fun o ho => h.typed o (hsub.subset ho),
    fun o ho => h.cancelled o (hsub.subset ho),fun o ho => h.upgrading o (hsub.subset ho),?_,?_⟩
  · intro u m hm
    by_cases hu : u = r.txnId
    · simp [hu,howed] at hm
    · rw [(hother u hu).1] at hm
      obtain ⟨o,ho,hou,hrest⟩ := h.held u m hm
      exact ⟨o,hin u hu o ho hou,hou,hrest⟩
  · intro u
    by_cases hu : u = r.txnId
    · subst hu
      refine iff_of_false hrec ?_
      rintro ⟨o,ho,hou,-⟩
      exact hgone o ho hou
    · rw [(hother u hu).2,h.recorded u]
      constructor
      · rintro ⟨o,ho,hou,hg⟩
        exact ⟨o,hin u hu o ho hou,hou,hg⟩
      · rintro ⟨o,ho,hou,hg⟩
        exact ⟨o,hsub.subset ho,hou,hg⟩

/-- A request that was never granted can go without a trace. -/
theorem QueueKept.removeWaiting (h : QueueKept table owed record (pre ++ r :: post))
    (hg : r.granted = false) : QueueKept table owed record (pre ++ post) := by
  have hr : r ∈ pre ++ r :: post := by simp
  refine h.remove ?_ ?_ fun u _ => ⟨rfl,Iff.rfl⟩
  · refine List.eq_nil_iff_forall_not_mem.mpr fun m hm => ?_
    simpa [hg] using (h.owed_self hr hm).1
  · rw [h.record_self hr,hg]
    simp

theorem QueueKept.append (h : QueueKept table owed record q) {t : TxnId} {mode : Mode}
    (hnew : findRequest q t = none) (hty : mode.isTable = table) :
    QueueKept table owed record (q ++ [LockRequest.new t mode]) := by
  have hfresh : ∀ r ∈ q, r.txnId ≠ t := by
    simpa [findRequest,List.findIdx?_eq_none_iff] using hnew
  have ht : (LockRequest.new t mode).txnId = t := by cases mode <;> rfl
  have hg : (LockRequest.new t mode).granted = false := by cases mode <;> rfl
  have hcase : ∀ o ∈ q ++ [LockRequest.new t mode], o ∈ q ∨ o = LockRequest.new t mode := by
    intro o ho; simpa using ho
  have hin : ∀ o ∈ q, o ∈ q ++ [LockRequest.new t mode] := fun o ho => by simp [ho]
  refine ⟨?_,?_,?_,?_,?_,?_⟩
  · rw [List.map_append,List.nodup_append]
    refine ⟨h.ids,by simp,?_⟩
    intro a ha b hb
    obtain ⟨o,ho,rfl⟩ := List.mem_map.mp ha
    have hb' : b = t := by simpa [ht] using hb
    exact hb' ▸ hfresh o ho
  · intro o ho
    rcases hcase o ho with ho | rfl
    · exact h.typed o ho
    · rw [← hty]; cases mode <;> rfl
  · intro o ho
    rcases hcase o ho with ho | rfl
    · exact h.cancelled o ho
    · exact fun _ => hg
  · intro o ho
    rcases hcase o ho with ho | rfl
    · exact h.upgrading o ho
    · cases mode <;> simp [LockRequest.new]
  · intro u m hm
    obtain ⟨o,ho,hrest⟩ := h.held u m hm
    exact ⟨o,hin o ho,hrest⟩
  · intro u
    rw [h.recorded u]
    constructor
    · rintro ⟨o,ho,hrest⟩
      exact ⟨o,hin o ho,hrest⟩
    · rintro ⟨o,ho,hou,hog⟩
      rcases hcase o ho with ho | rfl
      · exact ⟨o,ho,hou,hog⟩
      · simp [hg] at hog

/-- A pending upgrade keeps the grant and asks for a mode that covers it. -/
theorem QueueKept.upgrade {mode : Mode} (h : QueueKept table owed record (pre ++ r :: post))
    (hg : r.granted = true) (hty : mode.isTable = table) (hc : canUpgrade r mode = true) :
    QueueKept table owed record (pre ++ { r.setMode mode with upgrading := true } :: post) := by
  have hr : r ∈ pre ++ r :: post := by simp
  have htr : r.tableMode = mode.isTable := (h.typed r hr).trans hty.symm
  have hgr : (r.setMode mode).granted = true := by cases mode <;> exact hg
  have hm : ({ r.setMode mode with upgrading := true } : LockRequest).mode =
      (r.setMode mode).mode := by cases mode <;> rfl
  refine h.replace (by cases mode <;> rfl) (by cases mode <;> rfl) ?_ (fun _ => hgr) ?_ ?_
    fun u _ => ⟨rfl,Iff.rfl⟩
  · intro hcan
    have hcan' : r.cancelled = true := by cases mode <;> exact hcan
    simp [h.cancelled r hr hcan'] at hg
  · intro m hm'
    exact ⟨hgr,hm ▸ (covers_of_canUpgrade htr hc).trans (h.owed_self hr hm').2⟩
  · rw [h.record_self hr,hg]
    exact ⟨fun _ => hgr,fun _ => rfl⟩

/-- A grant adds its mode to the books of its transaction. -/
theorem QueueKept.grant (h : QueueKept table owed record (pre ++ r :: post))
    (hcan : r.cancelled = false) (howed : owed' r.txnId = r.mode :: owed r.txnId)
    (hrec : record' r.txnId)
    (hother : ∀ u, u ≠ r.txnId → owed' u = owed u ∧ (record' u ↔ record u)) :
    QueueKept table owed' record'
      (pre ++ { r with granted := true, upgrading := false } :: post) := by
  have hr : r ∈ pre ++ r :: post := by simp
  refine h.replace rfl rfl (fun hc => ?_) (by simp) ?_ (by simp [hrec]) hother
  · simp [hcan] at hc
  · intro m hm
    refine ⟨rfl,?_⟩
    rw [howed] at hm
    rcases List.mem_cons.mp hm with rfl | hm
    · exact Mode.Covers.refl _
    · exact (h.owed_self hr hm).2

/-- Releasing one request settles what its transaction was owed. -/
theorem QueueKept.cancel (h : QueueKept table owed record (pre ++ r :: post))
    (howed : owed' r.txnId = []) (hrec : ¬record' r.txnId)
    (hother : ∀ u, u ≠ r.txnId → owed' u = owed u ∧ (record' u ↔ record u)) :
    QueueKept table owed' record' (pre ++ r.cancel :: post) :=
  h.replace rfl rfl (fun _ => rfl) (by simp [LockRequest.cancel]) (by simp [howed])
    (by simp [hrec,LockRequest.cancel]) hother

end Queue

theorem mode_of_sameRequestedMode {r : LockRequest} {mode : Mode}
    (h : sameRequestedMode r mode = true) : r.mode = mode := by
  cases mode <;> simp [sameRequestedMode] at h <;> simp [LockRequest.mode,h]

theorem setMode_mode {r : LockRequest} {mode : Mode} (h : r.tableMode = mode.isTable) :
    (r.setMode mode).mode = mode := by
  cases mode <;> simp [Mode.isTable] at h <;> simp [LockRequest.mode,LockRequest.setMode,h]

theorem new_mode (t : TxnId) (mode : Mode) : (LockRequest.new t mode).mode = mode := by
  cases mode <;> rfl

theorem findRequest_some {q : LockRequestQueue} {t : TxnId} {i : ℕ} {r : LockRequest}
    (hi : findRequest q t = some i) (hr : q[i]? = some r) : r.txnId = t := by
  obtain ⟨hlt,rfl⟩ := List.getElem?_eq_some_iff.mp hr
  have h := List.findIdx?_eq_some_iff_getElem.mp hi
  simpa using h.2.1

/-- What a transaction has on record, resource by resource. -/
def onRecord (s : LockState) (l : LockId) (t : TxnId) : Prop := l ∈ s.grantedLocks t

@[simp] theorem onRecord_setQueue (s : LockState) (l : LockId) (q : LockRequestQueue) :
    onRecord (s.setQueue l q) = onRecord s := rfl
@[simp] theorem onRecord_register (s : LockState) (t : TxnId) (b : Bool) :
    onRecord (s.register t b) = onRecord s := rfl

theorem onRecord_addGrantedLock (s : LockState) (t : TxnId) (l k : LockId) (u : TxnId) :
    onRecord (s.addGrantedLock t l) k u ↔ onRecord s k u ∨ (u = t ∧ k = l) := by
  unfold onRecord LockState.addGrantedLock LockState.setGrantedLocks
  by_cases hu : u = t
  · subst hu
    by_cases hl : l ∈ s.grantedLocks u
    · simp only [Function.update_self,if_pos hl,true_and]
      constructor
      · exact .inl
      · rintro (h | rfl)
        · exact h
        · exact hl
    · simp only [Function.update_self,if_neg hl,List.mem_cons,true_and]
      exact or_comm
  · simp [hu]

theorem onRecord_removeGrantedLock (s : LockState) (t : TxnId) (l k : LockId) (u : TxnId) :
    onRecord (s.removeGrantedLock t l) k u ↔ onRecord s k u ∧ ¬(u = t ∧ k = l) := by
  unfold onRecord LockState.removeGrantedLock LockState.setGrantedLocks
  by_cases hu : u = t
  · subst hu
    simp
  · simp [hu]

/-- The books after one critical section of a call: a call that returned Ok is owed its mode. -/
def credit (owed : TxnId → List Mode) (t : TxnId) (mode : Mode) (o : Outcome) (u : TxnId) :
    List Mode :=
  if o = .returned (.ok ()) ∧ u = t then mode :: owed u else owed u

theorem credit_of_ne {owed : TxnId → List Mode} {t : TxnId} {mode : Mode} {o : Outcome}
    (h : o ≠ .returned (.ok ())) : credit owed t mode o = owed := by
  funext u
  simp [credit,h]

/-- One critical section of a call keeps its queue and leaves the others alone. -/
structure Turn (table : Bool) (owed : TxnId → List Mode) (s : LockState) (l : LockId) (t : TxnId)
    (mode : Mode) (res : Outcome × LockState) : Prop where
  here : QueueKept table (credit owed t mode res.1) (onRecord res.2 l) (res.2.queues l)
  others : ∀ k, k ≠ l → res.2.queues k = s.queues k ∧ ∀ u, onRecord res.2 k u ↔ onRecord s k u

/-- A call that comes back with an error or waits on, and changed nothing. -/
theorem turn_refused {table : Bool} {owed : TxnId → List Mode} {s s' : LockState} {l : LockId}
    {t : TxnId} {mode : Mode} {o : Outcome} (h : QueueKept table owed (onRecord s l) (s.queues l))
    (hs : s'.queues = s.queues ∧ s'.grantedLocks = s.grantedLocks)
    (ho : o ≠ .returned (.ok ())) : Turn table owed s l t mode (o,s') where
  here := by
    rw [credit_of_ne ho]
    have hrec : onRecord s' l = onRecord s l := by unfold onRecord; rw [hs.2]
    rw [hrec]
    simpa [hs.1] using h
  others k _ := by
    unfold onRecord
    simp [hs.1,hs.2]

theorem waitLoop_kept {table : Bool} {owed : TxnId → List Mode} {s : LockState} {l : LockId}
    {t : TxnId} {i : ℕ} {r : LockRequest} (h : QueueKept table owed (onRecord s l) (s.queues l))
    (hr : (s.queues l)[i]? = some r) (ht : r.txnId = t)
    (hw : r.granted = false ∨ r.upgrading = true)
    (hst : r.upgrading = true → s.isUsableForWork t = true) :
    Turn table owed s l t r.mode (waitLoop s t l i r) := by
  obtain ⟨pre,post,hq,hset,herase⟩ := split_of_getElem? hr
  have hmem : r ∈ s.queues l := by rw [hq]; simp
  have hgone : r.granted = false → ∀ e : Failure,
      Turn table owed s l t r.mode (.returned (.error e),s.setQueue l ((s.queues l).eraseIdx i)) := by
    intro hg e
    refine ⟨?_,fun k hk => ⟨by simp [hk],fun u => Iff.rfl⟩⟩
    rw [credit_of_ne (by simp)]
    have hkeep := (hq ▸ h).removeWaiting hg
    simpa [herase] using hkeep
  unfold waitLoop
  simp only
  split
  · rename_i hc
    exact hgone (h.cancelled r hmem hc) _
  rename_i hc
  split
  · rename_i hu
    have hnu : r.upgrading = false := by
      by_contra hup
      have hus := hst (by simpa using hup)
      simp [hus] at hu
    have hg : r.granted = false := by
      rcases hw with hg | hup
      · exact hg
      · simp [hnu] at hup
    exact hgone hg _
  split
  · refine ⟨?_,fun k hk => ⟨by simp [hk],fun u => ?_⟩⟩
    · simp only [addGrantedLock_queues,setQueue_queues,Function.update_self,hset]
      refine (hq ▸ h).grant (by simpa using hc) (by simp [credit,ht]) ?_ ?_
      · rw [onRecord_addGrantedLock]
        exact .inr ⟨ht,rfl⟩
      · intro u hu
        refine ⟨by simp [credit,← ht,hu],?_⟩
        rw [onRecord_addGrantedLock]
        simp only [← ht,hu,false_and,or_false]
        rfl
    · rw [onRecord_addGrantedLock]
      simp only [hk,and_false,or_false]
      rfl
  · exact turn_refused h ⟨rfl,rfl⟩ (by simp)

theorem enterQueue_kept {table : Bool} {owed : TxnId → List Mode} {s : LockState} {l : LockId}
    {t : TxnId} {mode : Mode} (h : QueueKept table owed (onRecord s l) (s.queues l))
    (hty : mode.isTable = table)
    (hst : ¬(s.isUsableForWork t = false ∧ ∃ r ∈ s.queues l, r.txnId = t ∧ r.granted = true ∧
      r.upgrading = false ∧ sameRequestedMode r mode = false ∧ canUpgrade r mode = true)) :
    Turn table owed s l t mode (enterQueue s t l mode) := by
  unfold enterQueue
  simp only [register_queues]
  split
  · rename_i i hi
    split
    · exact turn_refused h ⟨rfl,rfl⟩ (by simp)
    rename_i r hr
    have hmem : r ∈ s.queues l := List.mem_of_getElem? hr
    have ht : r.txnId = t := findRequest_some hi hr
    split
    · -- the same mode again: the grant that is there answers for it
      rename_i hsame
      simp only [Bool.and_eq_true,Bool.not_eq_true'] at hsame
      obtain ⟨pre,post,hq,-,-⟩ := split_of_getElem? hr
      refine ⟨?_,fun k _ => ⟨rfl,fun u => Iff.rfl⟩⟩
      have hm := mode_of_sameRequestedMode hsame.2
      have hkeep : QueueKept table (credit owed t mode (.returned (.ok ()))) (onRecord s l)
          (pre ++ r :: post) := by
        refine (hq ▸ h).replace rfl rfl ((hq ▸ h).cancelled r (by simp))
          ((hq ▸ h).upgrading r (by simp)) ?_ ((hq ▸ h).record_self (by simp)) ?_
        · intro m hm'
          rw [credit,if_pos ⟨rfl,ht⟩] at hm'
          rcases List.mem_cons.mp hm' with rfl | hm'
          · exact ⟨hsame.1.1,hm ▸ Mode.Covers.refl _⟩
          · exact h.owed_self hmem hm'
        · intro u hu
          exact ⟨by simp [credit,← ht,hu],Iff.rfl⟩
      exact hq ▸ hkeep
    rename_i hnsame
    split
    · exact turn_refused h ⟨rfl,rfl⟩ (by simp [fail])
    rename_i hwaiting
    split
    · exact turn_refused h ⟨rfl,rfl⟩ (by simp [fail])
    rename_i hup
    split
    · exact turn_refused h ⟨rfl,rfl⟩ (by simp [fail])
    rename_i hcan
    have hu : r.upgrading = false := by simpa using hup
    have hg : r.granted = true := by simpa [hu] using hwaiting
    have hc : canUpgrade r mode = true := by simpa using hcan
    have hns : sameRequestedMode r mode = false := by simpa [hg,hu] using hnsame
    have hus : s.isUsableForWork t = true := by
      by_contra hno
      exact hst ⟨by simpa using hno,r,hmem,ht,hg,hu,hns,hc⟩
    obtain ⟨pre,post,hq,hset,-⟩ := split_of_getElem? hr
    have hlt : i < (s.queues l).length := (List.getElem?_eq_some_iff.mp hr).1
    have hstep : QueueKept table owed (onRecord s l)
        ((s.queues l).set i { r.setMode mode with upgrading := true }) := by
      rw [hset]
      exact (hq ▸ h).upgrade hg hty hc
    have hturn := waitLoop_kept (s := (s.register t true).setQueue l
      ((s.queues l).set i { r.setMode mode with upgrading := true })) (t := t) (l := l) (i := i)
      (r := { r.setMode mode with upgrading := true })
      (by simpa using hstep) (by simp [hlt]) (by cases mode <;> exact ht) (.inr rfl) (fun _ => hus)
    have hm : ({ r.setMode mode with upgrading := true } : LockRequest).mode = mode := by
      have htr : r.tableMode = mode.isTable := (h.typed r hmem).trans hty.symm
      have hsm : ({ r.setMode mode with upgrading := true } : LockRequest).mode =
        (r.setMode mode).mode := by cases mode <;> rfl
      rw [hsm,setMode_mode htr]
    rw [hm] at hturn
    exact ⟨hturn.here,fun k hk => ⟨(hturn.others k hk).1.trans (by simp [hk]),(hturn.others k hk).2⟩⟩
  · rename_i hnew
    have hstep := h.append hnew hty
    have hturn := waitLoop_kept (s := (s.register t true).setQueue l
      (s.queues l ++ [LockRequest.new t mode])) (t := t) (l := l) (i := (s.queues l).length)
      (r := LockRequest.new t mode) (by simpa using hstep) (by simp) (by cases mode <;> rfl)
      (.inl (by cases mode <;> rfl)) (fun hup => by cases mode <;> simp [LockRequest.new] at hup)
    rw [new_mode] at hturn
    exact ⟨hturn.here,fun k hk => ⟨(hturn.others k hk).1.trans (by simp [hk]),(hturn.others k hk).2⟩⟩

/-- What is owed once `u` has been released. -/
def settle (owed : TxnId → List Mode) (u t : TxnId) : List Mode := if u = t then [] else owed t

theorem releaseAt_kept {table : Bool} {owed : TxnId → List Mode} {record record' : TxnId → Prop}
    {q : LockRequestQueue} {i : ℕ} {r : LockRequest} (h : QueueKept table owed record q)
    (hr : q[i]? = some r) (hrec : ¬record' r.txnId)
    (hother : ∀ u, u ≠ r.txnId → (record' u ↔ record u)) :
    QueueKept table (settle owed r.txnId) record' (releaseAt q i r) := by
  obtain ⟨pre,post,hq,hset,herase⟩ := split_of_getElem? hr
  have hbooks : ∀ u, u ≠ r.txnId → settle owed r.txnId u = owed u ∧ (record' u ↔ record u) :=
    fun u hu => ⟨by simp [settle,hu.symm],hother u hu⟩
  unfold releaseAt
  split
  · rw [hset]
    exact (hq ▸ h).cancel (by simp [settle]) hrec hbooks
  · rw [herase]
    exact (hq ▸ h).remove (by simp [settle]) hrec hbooks

/-- A transaction without a request on the queue is owed nothing there. -/
theorem QueueKept.settled {table : Bool} {owed : TxnId → List Mode} {record : TxnId → Prop}
    {q : LockRequestQueue} {t : TxnId} (h : QueueKept table owed record q)
    (hno : ∀ r ∈ q, r.txnId ≠ t) : owed t = [] ∧ ¬record t := by
  constructor
  · refine List.eq_nil_iff_forall_not_mem.mpr fun m hm => ?_
    obtain ⟨r,hr,ht,-⟩ := h.held t m hm
    exact hno r hr ht
  · rw [h.recorded]
    rintro ⟨r,hr,ht,-⟩
    exact hno r hr ht

theorem QueueKept.congr {table : Bool} {owed owed' : TxnId → List Mode}
    {record record' : TxnId → Prop} {q : LockRequestQueue} (h : QueueKept table owed record q)
    (ho : ∀ u, owed' u = owed u) (hr : ∀ u, record' u ↔ record u) :
    QueueKept table owed' record' q := by
  have ho' : owed' = owed := funext ho
  have hr' : record' = record := funext fun u => propext (hr u)
  rw [ho',hr']
  exact h

theorem unlock_kept {table : Bool} {owed : TxnId → List Mode} {s : LockState} {l : LockId}
    {t : TxnId} (h : QueueKept table owed (onRecord s l) (s.queues l)) :
    QueueKept table (settle owed t) (onRecord (unlock s t l).2 l) ((unlock s t l).2.queues l) ∧
      ∀ k, k ≠ l → (unlock s t l).2.queues k = s.queues k ∧
        ∀ u, onRecord (unlock s t l).2 k u ↔ onRecord s k u := by
  -- a release that finds no request of `t` has nothing to settle
  have hnone : (∀ r ∈ s.queues l, r.txnId ≠ t) →
      QueueKept table (settle owed t) (onRecord s l) (s.queues l) := by
    intro hno
    refine h.congr (fun u => ?_) fun u => Iff.rfl
    by_cases hu : t = u
    · simp [settle,hu,← (hu ▸ h.settled hno).1]
    · simp [settle,hu]
  unfold unlock
  split
  · rename_i hq
    exact ⟨hnone (by simp [hq]),fun _ _ => ⟨rfl,fun _ => Iff.rfl⟩⟩
  split
  · rename_i hi
    have hno : ∀ r ∈ s.queues l, r.txnId ≠ t := by
      simpa [findRequest,List.findIdx?_eq_none_iff] using hi
    exact ⟨hnone hno,fun _ _ => ⟨rfl,fun _ => Iff.rfl⟩⟩
  rename_i i hi
  split
  · rename_i hnil
    have hlt := (List.findIdx?_eq_some_iff_getElem.mp hi).1
    simp [List.getElem?_eq_getElem hlt] at hnil
  rename_i r hr
  have ht : r.txnId = t := findRequest_some hi hr
  refine ⟨?_,fun k hk => ⟨by simp [hk],fun u => ?_⟩⟩
  · simp only [removeGrantedLock_queues,setQueue_queues,Function.update_self]
    rw [← ht]
    refine releaseAt_kept h hr ?_ ?_
    · rw [onRecord_removeGrantedLock]
      simp
    · intro u hu
      rw [onRecord_removeGrantedLock]
      simp [hu]
  · rw [onRecord_removeGrantedLock]
    simp [hk]

theorem releaseAll_kept {table : Bool} {owed : TxnId → List Mode} {record : TxnId → Prop}
    (t : TxnId) {q : LockRequestQueue} (h : QueueKept table owed record q) :
    QueueKept table (settle owed t) (fun u => u ≠ t ∧ record u) (releaseAll t q) := by
  by_cases hex : ∃ r ∈ q, r.txnId = t
  · obtain ⟨r,hr,ht⟩ := hex
    obtain ⟨pre,post,rfl⟩ := List.append_of_mem hr
    have hothers := h.ids_middle
    -- every other request stays as it is
    have hsame : ∀ p : LockRequestQueue, (∀ o ∈ p, o.txnId ≠ t) → releaseAll t p = p := by
      intro p hp
      induction p with
      | nil => rfl
      | cons o p ih =>
        have ho : o.txnId ≠ t := hp o (by simp)
        have hrest := ih fun x hx => hp x (by simp [hx])
        simp only [releaseAll,List.filterMap_cons,if_neg ho] at hrest ⊢
        rw [hrest]
    have hpre := hsame pre fun o ho => ht ▸ hothers o (by simp [ho])
    have hpost := hsame post fun o ho => ht ▸ hothers o (by simp [ho])
    have hsplit : releaseAll t (pre ++ r :: post) =
        pre ++ ((if !r.granted || r.upgrading then [r.cancel] else []) ++ post) := by
      unfold releaseAll at hpre hpost ⊢
      rw [List.filterMap_append,hpre,List.filterMap_cons,hpost,if_pos ht]
      by_cases hw : (!r.granted || r.upgrading) = true
      · rw [if_pos hw,if_pos hw]; rfl
      · rw [if_neg hw,if_neg hw]; rfl
    rw [hsplit]
    have hbooks : ∀ u, u ≠ r.txnId →
        settle owed t u = owed u ∧ ((u ≠ t ∧ record u) ↔ record u) := by
      intro u hu
      rw [ht] at hu
      simp [settle,hu,hu.symm]
    split
    · exact h.cancel (by simp [settle,ht]) (by simp [ht]) hbooks
    · exact h.remove (by simp [settle,ht]) (by simp [ht]) hbooks
  · have hno : ∀ r ∈ q, r.txnId ≠ t := fun r hr ht => hex ⟨r,hr,ht⟩
    have hq : releaseAll t q = q := by
      unfold releaseAll
      calc q.filterMap _ = q.filterMap some := List.filterMap_congr fun r hr => by simp [hno r hr]
        _ = q := List.filterMap_some
    rw [hq]
    refine h.congr (fun u => ?_) fun u => ?_
    · by_cases hu : t = u
      · simp [settle,hu,← (hu ▸ h.settled hno).1]
      · simp [settle,hu]
    · constructor
      · exact fun hu => hu.2
      · intro hu
        refine ⟨?_,hu⟩
        rintro rfl
        exact (h.settled hno).2 hu

theorem detectDeadlocks_grantedLocks (s : LockState) (order : List LockId) :
    (detectDeadlocks s order).2.grantedLocks = s.grantedLocks := by
  unfold detectDeadlocks LockState.markFailed
  split
  · rfl
  split
  · split <;> rfl
  · rfl

structure Owed.Inv (o : Owed) : Prop where
  queue : ∀ l, QueueKept (isTableResource l.type) (o.owed l) (onRecord o.sys.lm l)
    (o.sys.lm.queues l)
  typed : ∀ c ∈ o.sys.pending, c.mode.isTable = isTableResource c.lockId.type

theorem Owed.inv_initial : Owed.initial.Inv where
  queue l := (queueKept_nil _).congr (fun _ => rfl) fun u => by
    simp [onRecord,Owed.initial,System.initial,LockState.initial]
  typed c hc := by simp [Owed.initial,System.initial] at hc

/-- One turn of a lock call, with the books that belong to it. -/
theorem Owed.Inv.turn {o : Owed} (h : o.Inv) {a : Action} {l : LockId} {t : TxnId} {mode : Mode}
    {res : Outcome × LockState}
    (hturn : Turn (isTableResource l.type) (o.owed l) o.sys.lm l t mode res)
    (ha : o.after a = fun k u => if l = k ∧ t = u ∧ res.1 = .returned (.ok ())
      then mode :: o.owed k u else o.owed k u) (k : LockId) :
    QueueKept (isTableResource k.type) (o.after a k) (onRecord res.2 k) (res.2.queues k) := by
  by_cases hk : k = l
  · subst hk
    refine hturn.here.congr (fun u => ?_) fun u => Iff.rfl
    simp only [ha,credit,true_and]
    refine if_congr ?_ rfl rfl
    constructor
    · exact fun hc => ⟨hc.2,hc.1.symm⟩
    · exact fun hc => ⟨hc.2.symm,hc.1⟩
  · obtain ⟨hq,hrec⟩ := hturn.others k hk
    rw [hq]
    refine (h.queue k).congr (fun u => ?_) hrec
    simp [ha,Ne.symm hk]

/-- A step that neither grants nor releases leaves the books as they are. -/
theorem Owed.Inv.same {o : Owed} (h : o.Inv) {a : Action} {s : LockState}
    (hq : s.queues = o.sys.lm.queues) (hg : s.grantedLocks = o.sys.lm.grantedLocks)
    (ha : o.after a = o.owed) (k : LockId) :
    QueueKept (isTableResource k.type) (o.after a k) (onRecord s k) (s.queues k) := by
  rw [hq]
  refine (h.queue k).congr (fun u => by rw [ha]) fun u => ?_
  unfold onRecord
  rw [hg]

theorem Owed.Inv.next {o o' : Owed} (h : o.Inv) {a : Action} (hn : o.next a = some o')
    (hst : ¬a.losesGrant o.sys) : o'.Inv := by
  simp only [Owed.next,Option.map_eq_some_iff] at hn
  obtain ⟨s,hs,rfl⟩ := hn
  cases a with
  | call c =>
    have ha : o.after (.call c) = o.owed := rfl
    simp only [System.next] at hs
    split at hs
    · rename_i hok
      cases hs
      refine ⟨h.same rfl rfl ha,?_⟩
      intro d hd
      rcases List.mem_cons.mp hd with rfl | hd
      · exact validateCall_typed hok
      · exact h.typed d hd
    · cases hs
      exact ⟨h.same rfl rfl ha,h.typed⟩
  | enter c =>
    simp only [System.next] at hs
    split at hs
    · rename_i hc
      cases hs
      have hturn := enterQueue_kept (t := c.txnId) (h.queue c.lockId) (h.typed c hc) hst
      refine ⟨h.turn (a := .enter c) hturn ?_,fun d hd => h.typed d (List.mem_of_mem_erase hd)⟩
      funext k u
      by_cases hok : (enterQueue o.sys.lm c.txnId c.lockId c.mode).1 = .returned (.ok ())
      · simp [Owed.after,grantOf,hok]
      · simp [Owed.after,grantOf,hok]
    · cases hs
  | wake t l =>
    simp only [System.next,Option.map_eq_some_iff] at hs
    obtain ⟨res,hres,rfl⟩ := hs
    have hwake := hres
    unfold Lock.wake at hres
    split at hres
    · cases hres
    rename_i i hi
    split at hres
    · cases hres
    rename_i r hr
    split at hres
    · rename_i hw
      cases hres
      have ht : r.txnId = t := findRequest_some hi hr
      have hmem : r ∈ o.sys.lm.queues l := List.mem_of_getElem? hr
      have hturn := waitLoop_kept (t := t) (h.queue l) hr ht (by simpa using hw)
        (fun hup => by
          by_contra hno
          exact hst ⟨by simpa using hno,r,hmem,ht,hup⟩)
      refine ⟨h.turn (a := .wake t l) hturn ?_,h.typed⟩
      have hfind : (o.sys.lm.queues l).find? (·.txnId = t) = some r := by
        have hf := find?_eq_of_mem (h.queue l).ids hmem
        rwa [ht] at hf
      funext k u
      by_cases hok : (waitLoop o.sys.lm t l i r).1 = .returned (.ok ())
      · simp [Owed.after,grantOf,hwake,hfind,hok]
      · simp [Owed.after,grantOf,hwake,hfind,hok]
    · cases hres
  | unlock t l =>
    cases hs
    obtain ⟨hhere,hothers⟩ := unlock_kept (t := t) (h.queue l)
    refine ⟨fun k => ?_,h.typed⟩
    by_cases hk : k = l
    · subst hk
      refine hhere.congr (fun u => ?_) fun u => Iff.rfl
      simp [Owed.after,settle]
    · obtain ⟨hq,hrec⟩ := hothers k hk
      simp only [hq]
      refine (h.queue k).congr (fun u => ?_) hrec
      simp [Owed.after,Ne.symm hk]
  | unlockAll t =>
    cases hs
    refine ⟨fun k => ?_,h.typed⟩
    refine (releaseAll_kept t (h.queue k)).congr (fun u => rfl) fun u => ?_
    by_cases hu : u = t
    · simp [onRecord,unlockAll,LockState.setGrantedLocks,hu]
    · simp [onRecord,unlockAll,LockState.setGrantedLocks,LockState.register,hu]
  | detectDeadlocks order =>
    cases hs
    exact ⟨h.same (a := .detectDeadlocks order) (detectDeadlocks_queues _ _)
      (detectDeadlocks_grantedLocks _ _) rfl,h.typed⟩
  | transition t x =>
    cases hs
    exact ⟨h.same (a := .transition t x) (s := o.sys.lm.setTxnState t x) rfl rfl rfl,h.typed⟩

theorem Owed.Inv.kept {o : Owed} (h : o.Inv) : Kept o where
  held l t m hm := (h.queue l).held t m hm
  recorded t l := (h.queue l).recorded t

/-- A step of a run in which no upgrade of a lost transaction is tried or resumed. -/
def Owed.SteadyStep (o : Owed) (a : Action) (o' : Owed) : Prop :=
  StepOf Owed.next o a o' ∧ ¬a.losesGrant o.sys

/-- In every state of such a run all grants are kept. -/
theorem kept_of_steady {o : Owed} (h : Reach (· = Owed.initial) Owed.SteadyStep o) : Kept o :=
  (h.invariant (P := Owed.Inv) (fun s (hs : s = Owed.initial) => hs ▸ Owed.inv_initial)
    fun _ _ _ hi hn => hi.next hn.1 hn.2).kept

/-- Two readers of page 7 both ask for `X`; the detector fails the second, whose
call wakes up and gives in. -/
def victimRun : List Action :=
  let ask := fun t m => [.call ⟨t,.page 7,.page m⟩,.enter ⟨t,.page 7,.page m⟩]
  ask 1 .S ++ ask 2 .S ++ ask 1 .X ++ ask 2 .X ++ [.detectDeadlocks [.page 7],.wake 2 (.page 7)]

def victim : Owed := (exec Owed.next .initial victimRun).get rfl

end Lock
end OurSql
