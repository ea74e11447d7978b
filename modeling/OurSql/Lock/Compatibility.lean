import OurSql.Lock.Manager

/-! Whatever the order of calls, wake-ups, releases and deadlock rounds, two
transactions never hold conflicting modes on one resource. An upgrade overwrites
the mode of a granted request in place, so the mode the transaction really holds
meanwhile is remembered beside the queues. -/
namespace OurSql
namespace Lock

open Transition

/-- The mode a request gives its transaction: none before the grant, the
remembered one while an upgrade is pending. -/
def standing (held : TxnId → Option Mode) (r : LockRequest) : Option Mode :=
  if !r.granted then none else if r.upgrading then held r.txnId else some r.mode

/-- What each transaction holds, read off a queue and the holdings before. -/
def observeQueue (held : TxnId → Option Mode) (q : LockRequestQueue) (t : TxnId) : Option Mode :=
  (q.find? (·.txnId = t)).bind (standing held)

/-- The system with the modes held on every resource. -/
structure Observed where
  sys : System
  held : LockId → TxnId → Option Mode

def Observed.initial : Observed := ⟨.initial,fun _ _ => none⟩

def Observed.next (o : Observed) (a : Action) : Option Observed :=
  (o.sys.next a).map fun s => ⟨s,fun l => observeQueue (o.held l) (s.lm.queues l)⟩

/-- The invariant of one queue. -/
structure QueueOk (table : Bool) (held : TxnId → Option Mode) (q : LockRequestQueue) : Prop where
  ids : (q.map (·.txnId)).Nodup
  typed : ∀ r ∈ q, r.tableMode = table
  covered : ∀ r ∈ q, r.granted = true → r.upgrading = true →
    ∃ m, held r.txnId = some m ∧ r.mode.Covers m
  compatible : ∀ r ∈ q, ∀ o ∈ q, r.txnId ≠ o.txnId → ∀ a b,
    standing held r = some a → standing held o = some b → a.conflict b = false

theorem queueOk_nil (table : Bool) (held : TxnId → Option Mode) : QueueOk table held [] :=
  ⟨by simp,by simp,by simp,by simp⟩

theorem QueueOk.sublist {table : Bool} {held : TxnId → Option Mode} {p q : LockRequestQueue}
    (h : QueueOk table held q) (hp : p.Sublist q) : QueueOk table held p where
  ids := h.ids.sublist (hp.map _)
  typed r hr := h.typed r (hp.subset hr)
  covered r hr := h.covered r (hp.subset hr)
  compatible r hr o ho := h.compatible r (hp.subset hr) o (hp.subset ho)

/-- Replace one request by another of the same transaction and kind. -/
theorem QueueOk.replace {table : Bool} {held : TxnId → Option Mode} {pre post : LockRequestQueue}
    {r r' : LockRequest} (h : QueueOk table held (pre ++ r :: post))
    (hid : r'.txnId = r.txnId) (hty : r'.tableMode = r.tableMode)
    (hcov : r'.granted = true → r'.upgrading = true → ∃ m, held r.txnId = some m ∧ r'.mode.Covers m)
    (hcomp : ∀ o ∈ pre ++ r :: post, o.txnId ≠ r.txnId → ∀ a b,
      standing held r' = some a → standing held o = some b → a.conflict b = false) :
    QueueOk table held (pre ++ r' :: post) where
  ids := by simpa [hid] using h.ids
  typed o ho := by
    rcases List.mem_append.mp ho with ho | ho
    · exact h.typed o (by simp [ho])
    · rcases List.mem_cons.mp ho with rfl | ho
      · rw [hty]; exact h.typed r (by simp)
      · exact h.typed o (by simp [ho])
  covered o ho := by
    rcases List.mem_append.mp ho with ho | ho
    · exact h.covered o (by simp [ho])
    · rcases List.mem_cons.mp ho with rfl | ho
      · rw [hid]; exact hcov
      · exact h.covered o (by simp [ho])
  compatible := by
    have hold : ∀ o ∈ pre ++ r' :: post, o = r' ∨ o ∈ pre ++ r :: post := by
      intro o ho
      simp only [List.mem_append,List.mem_cons] at ho ⊢
      tauto
    intro o ho p hp hne a b ha hb
    rcases hold o ho with ho | ho <;> rcases hold p hp with hp | hp
    · exact absurd (by rw [ho,hp]) hne
    · rw [ho] at ha hne
      exact hcomp p hp (by rw [← hid]; exact hne.symm) a b ha hb
    · rw [hp] at hb hne
      rw [Mode.conflict_comm]
      exact hcomp o ho (by rw [← hid]; exact hne) b a hb ha
    · exact h.compatible o ho p hp hne a b ha hb

theorem QueueOk.append {table : Bool} {held : TxnId → Option Mode} {q : LockRequestQueue}
    (h : QueueOk table held q) {t : TxnId} {mode : Mode}
    (hnew : findRequest q t = none) (hty : mode.isTable = table) :
    QueueOk table held (q ++ [LockRequest.new t mode]) where
  ids := by
    have hfresh : ∀ r ∈ q, r.txnId ≠ t := by
      simpa [findRequest,List.findIdx?_eq_none_iff] using hnew
    have ht : (LockRequest.new t mode).txnId = t := by cases mode <;> rfl
    rw [List.map_append,List.nodup_append]
    refine ⟨h.ids,by simp,?_⟩
    intro a ha b hb
    obtain ⟨r,hr,rfl⟩ := List.mem_map.mp ha
    have hb' : b = t := by simpa [ht] using hb
    exact hb' ▸ hfresh r hr
  typed r hr := by
    rcases List.mem_append.mp hr with hr | hr
    · exact h.typed r hr
    · have he : r = LockRequest.new t mode := by simpa using hr
      subst he; rw [← hty]; cases mode <;> rfl
  covered r hr hg hu := by
    rcases List.mem_append.mp hr with hr | hr
    · exact h.covered r hr hg hu
    · have he : r = LockRequest.new t mode := by simpa using hr
      subst he; cases mode <;> simp [LockRequest.new] at hg
  compatible := by
    have hnone : standing held (LockRequest.new t mode) = none := by
      cases mode <;> simp [standing,LockRequest.new]
    intro r hr o ho hne a b ha hb
    rcases List.mem_append.mp hr with hr | hr
    · rcases List.mem_append.mp ho with ho | ho
      · exact h.compatible r hr o ho hne a b ha hb
      · have he : o = LockRequest.new t mode := by simpa using ho
        simp [he,hnone] at hb
    · have he : r = LockRequest.new t mode := by simpa using hr
      simp [he,hnone] at ha

/-- A granted request of another kind of mode cannot occur in a typed queue, so
the mode field that an upgrade compares is the one the request stands for. -/
theorem covers_of_canUpgrade {r : LockRequest} {mode : Mode}
    (hty : r.tableMode = mode.isTable) (h : canUpgrade r mode = true) :
    (r.setMode mode).mode.Covers r.mode := by
  cases mode with
  | table m =>
    have ht : r.tableMode = true := hty
    simpa [LockRequest.mode,LockRequest.setMode,ht] using Mode.covers_of_canUpgradeTable h
  | page m =>
    have ht : r.tableMode = false := hty
    simpa [LockRequest.mode,LockRequest.setMode,ht] using Mode.covers_of_canUpgradePage h

theorem QueueOk.upgrade {table : Bool} {held : TxnId → Option Mode} {pre post : LockRequestQueue}
    {r : LockRequest} {mode : Mode} (h : QueueOk table held (pre ++ r :: post))
    (hg : r.granted = true) (hu : r.upgrading = false) (hh : held r.txnId = some r.mode)
    (hty : mode.isTable = table) (hc : canUpgrade r mode = true) :
    QueueOk table held (pre ++ { r.setMode mode with upgrading := true } :: post) := by
  have htr : r.tableMode = mode.isTable := (h.typed r (by simp)).trans hty.symm
  refine h.replace (by cases mode <;> rfl) (by cases mode <;> rfl) (fun _ _ => ?_) ?_
  · refine ⟨r.mode,hh,?_⟩
    have hm : ({ r.setMode mode with upgrading := true } : LockRequest).mode =
        (r.setMode mode).mode := by cases mode <;> rfl
    exact hm ▸ covers_of_canUpgrade htr hc
  · intro o ho hne a b ha hb
    -- the pending upgrade still stands for the mode held before
    have hs : standing held r = some a := by
      have hsg : (r.setMode mode).granted = true := by cases mode <;> exact hg
      have hsi : (r.setMode mode).txnId = r.txnId := by cases mode <;> rfl
      have ha' : held r.txnId = some a := by simpa [standing,hsg,hsi] using ha
      have he : r.mode = a := Option.some.inj (hh.symm.trans ha')
      simp [standing,hg,hu,he]
    exact h.compatible r (by simp) o ho (Ne.symm hne) a b hs hb

theorem QueueOk.cancel {table : Bool} {held : TxnId → Option Mode} {pre post : LockRequestQueue}
    {r : LockRequest} (h : QueueOk table held (pre ++ r :: post)) :
    QueueOk table held (pre ++ r.cancel :: post) :=
  h.replace rfl rfl (by simp [LockRequest.cancel]) (by simp [standing,LockRequest.cancel])

/-- What the second loop of `CanGrant` found out about the other granted requests. -/
theorem canGrant_conflict {q : LockRequestQueue} {i : ℕ} {r o : LockRequest}
    (h : canGrant q i r = true) (ho : o ∈ q) (hne : o.txnId ≠ r.txnId) (hg : o.granted = true) :
    r.mode.conflict o.mode = false := by
  have hall := (Bool.and_eq_true _ _ ▸ h).2
  have hthis := List.all_eq_true.mp hall o ho
  simpa [hne,hg,requestConflicts_eq] using hthis

theorem QueueOk.grant {table : Bool} {held : TxnId → Option Mode} {pre post : LockRequestQueue}
    {r : LockRequest} {i : ℕ} (h : QueueOk table held (pre ++ r :: post))
    (hc : canGrant (pre ++ r :: post) i r = true) :
    QueueOk table held (pre ++ { r with granted := true, upgrading := false } :: post) := by
  refine h.replace rfl rfl (by simp) ?_
  intro o ho hne a b ha hb
  have ha' : r.mode = a := by simpa [standing,LockRequest.mode] using ha
  have hog : o.granted = true := by
    by_contra hg
    simp [standing,hg] at hb
  have hfree : r.mode.conflict o.mode = false := canGrant_conflict hc ho hne hog
  cases hou : o.upgrading with
  | false =>
    have hb' : o.mode = b := by simpa [standing,hog,hou] using hb
    rw [← ha',← hb']; exact hfree
  | true =>
    -- the mode written in the request excludes more than the one still held
    obtain ⟨m,hm,hcov⟩ := h.covered o ho hog hou
    have hb' : held o.txnId = some b := by simpa [standing,hog,hou] using hb
    have he : m = b := Option.some.inj (hm.symm.trans hb')
    subst he
    rw [← ha',Mode.conflict_comm]
    by_contra hbad
    have hbig := hcov r.mode (by simpa using hbad)
    rw [Mode.conflict_comm] at hbig
    simp [hfree] at hbig

theorem split_of_getElem? {α : Type*} {q : List α} {i : ℕ} {r : α} (h : q[i]? = some r) :
    ∃ pre post, q = pre ++ r :: post ∧ (∀ r', q.set i r' = pre ++ r' :: post) ∧
      q.eraseIdx i = pre ++ post := by
  obtain ⟨hi,rfl⟩ := List.getElem?_eq_some_iff.mp h
  refine ⟨q.take i,q.drop (i+1),?_,?_,List.eraseIdx_eq_take_drop_succ q i⟩
  · rw [← List.drop_eq_getElem_cons hi,List.take_append_drop]
  · intro r'
    rw [List.set_eq_take_append_cons_drop,if_pos hi]

theorem find?_eq_of_mem {q : LockRequestQueue} (hn : (q.map (·.txnId)).Nodup) {r : LockRequest}
    (hr : r ∈ q) : q.find? (·.txnId = r.txnId) = some r := by
  induction q with
  | nil => simp at hr
  | cons o q ih =>
    have hn' := List.nodup_cons.mp (by simpa using hn : (o.txnId :: q.map (·.txnId)).Nodup)
    rcases List.mem_cons.mp hr with rfl | hr
    · simp
    · have hne : o.txnId ≠ r.txnId := fun he => hn'.1 (he ▸ List.mem_map.mpr ⟨r,hr,rfl⟩)
      simpa [hne] using ih hn'.2 hr

/-- The holdings a queue agrees with: reading them again changes nothing. -/
def Agrees (held : TxnId → Option Mode) (q : LockRequestQueue) : Prop :=
  ∀ t, observeQueue held q t = held t

theorem Agrees.held_eq {held : TxnId → Option Mode} {q : LockRequestQueue} (h : Agrees held q)
    (hn : (q.map (·.txnId)).Nodup) {r : LockRequest} (hr : r ∈ q) :
    held r.txnId = standing held r := by
  have ht := h r.txnId
  simpa [observeQueue,find?_eq_of_mem hn hr] using ht.symm

theorem standing_observe {held : TxnId → Option Mode} {q : LockRequestQueue}
    (hn : (q.map (·.txnId)).Nodup) {r : LockRequest} (hr : r ∈ q) :
    standing (observeQueue held q) r = standing held r := by
  have hf := find?_eq_of_mem hn hr
  cases hg : r.granted <;> cases hu : r.upgrading <;> simp [standing,hg,hu,observeQueue,hf]

/-- A queue that is fine with the old holdings is fine with the ones read off it. -/
theorem QueueOk.observe {table : Bool} {held : TxnId → Option Mode} {q : LockRequestQueue}
    (h : QueueOk table held q) : QueueOk table (observeQueue held q) q where
  ids := h.ids
  typed := h.typed
  covered r hr hg hu := by
    obtain ⟨m,hm,hcov⟩ := h.covered r hr hg hu
    exact ⟨m,by simp [observeQueue,find?_eq_of_mem h.ids hr,standing,hg,hu,hm],hcov⟩
  compatible r hr o ho hne a b ha hb := by
    rw [standing_observe h.ids hr] at ha
    rw [standing_observe h.ids ho] at hb
    exact h.compatible r hr o ho hne a b ha hb

theorem agrees_observe {held : TxnId → Option Mode} {q : LockRequestQueue}
    (hn : (q.map (·.txnId)).Nodup) : Agrees (observeQueue held q) q := by
  intro t
  cases hf : q.find? (·.txnId = t) with
  | none => simp [observeQueue,hf]
  | some r =>
    have hrt : r.txnId = t := by simpa using List.find?_some hf
    subst hrt
    have hr := List.mem_of_find?_eq_some hf
    have hs : standing (observeQueue held q) r = standing held r := standing_observe hn hr
    simp only [observeQueue,hf,Option.bind_some] at hs ⊢
    exact hs

/-- One turn of the wait loop keeps its queue and touches no other. -/
theorem waitLoop_ok {s : LockState} {t : TxnId} {l : LockId} {i : ℕ} {r : LockRequest}
    {table : Bool} {held : TxnId → Option Mode} (h : QueueOk table held (s.queues l))
    (hr : (s.queues l)[i]? = some r) :
    QueueOk table held ((waitLoop s t l i r).2.queues l) ∧
      ∀ k, k ≠ l → (waitLoop s t l i r).2.queues k = s.queues k := by
  obtain ⟨pre,post,hq,hset,herase⟩ := split_of_getElem? hr
  have hgone : QueueOk table held ((s.queues l).eraseIdx i) := h.sublist (List.eraseIdx_sublist _ _)
  simp only [waitLoop]
  split
  · exact ⟨by simpa using hgone,fun k hk => by simp [hk]⟩
  split
  · exact ⟨by simpa using hgone,fun k hk => by simp [hk]⟩
  split
  · rename_i hgrant
    refine ⟨?_,fun k hk => by simp [hk]⟩
    rw [hq] at h hgrant
    simpa [hset] using h.grant hgrant
  · exact ⟨h,fun _ _ => rfl⟩

/-- A queue with the holdings read off it before the critical section. -/
structure SectionOk (table : Bool) (held : TxnId → Option Mode) (q : LockRequestQueue) : Prop where
  ok : QueueOk table held q
  agrees : Agrees held q

theorem enterQueue_ok {s : LockState} {t : TxnId} {l : LockId} {mode : Mode} {table : Bool}
    {held : TxnId → Option Mode} (h : SectionOk table held (s.queues l))
    (hty : mode.isTable = table) :
    QueueOk table held ((enterQueue s t l mode).2.queues l) ∧
      ∀ k, k ≠ l → (enterQueue s t l mode).2.queues k = s.queues k := by
  have hsame : QueueOk table held ((s.register t true).queues l) ∧
      ∀ k, k ≠ l → (s.register t true).queues k = s.queues k := ⟨h.ok,fun _ _ => rfl⟩
  unfold enterQueue
  simp only [register_queues]
  split
  · rename_i i hi
    split
    · exact hsame
    rename_i r hr
    split
    · exact hsame
    rename_i hsamemode
    split
    · exact hsame
    rename_i hwaiting
    split
    · exact hsame
    rename_i hup
    split
    · exact hsame
    rename_i hcan
    have hu : r.upgrading = false := by simpa using hup
    have hg : r.granted = true := by simpa [hu] using hwaiting
    obtain ⟨pre,post,hq,hset,-⟩ := split_of_getElem? hr
    have hmem : r ∈ s.queues l := by rw [hq]; simp
    have hheld : held r.txnId = some r.mode := by
      rw [h.agrees.held_eq h.ok.ids hmem]; simp [standing,hg,hu]
    have hstep : QueueOk table held
        ((s.queues l).set i { r.setMode mode with upgrading := true }) := by
      rw [hset]
      exact (hq ▸ h.ok).upgrade hg hu hheld hty (by simpa using hcan)
    have hi' : i < (s.queues l).length := (List.getElem?_eq_some_iff.mp hr).1
    have hw := waitLoop_ok (s := (s.register t true).setQueue l
      ((s.queues l).set i { r.setMode mode with upgrading := true })) (t := t) (l := l) (i := i)
      (r := { r.setMode mode with upgrading := true })
      (by simpa using hstep) (by simp [hi'])
    exact ⟨hw.1,fun k hk => (hw.2 k hk).trans (by simp [hk])⟩
  · rename_i hnew
    have hstep := h.ok.append hnew hty
    have hw := waitLoop_ok (s := (s.register t true).setQueue l
      (s.queues l ++ [LockRequest.new t mode])) (t := t) (l := l) (i := (s.queues l).length)
      (r := LockRequest.new t mode) (by simpa using hstep) (by simp)
    exact ⟨hw.1,fun k hk => (hw.2 k hk).trans (by simp [hk])⟩

theorem unlock_ok {s : LockState} {t : TxnId} {l : LockId} {table : Bool}
    {held : TxnId → Option Mode} (h : QueueOk table held (s.queues l)) :
    QueueOk table held ((unlock s t l).2.queues l) ∧
      ∀ k, k ≠ l → (unlock s t l).2.queues k = s.queues k := by
  have hsame : QueueOk table held (s.queues l) ∧ ∀ k, k ≠ l → s.queues k = s.queues k :=
    ⟨h,fun _ _ => rfl⟩
  unfold unlock
  split
  · exact hsame
  split
  · exact hsame
  split
  · exact hsame
  rename_i i _ r hr
  obtain ⟨pre,post,hq,hset,-⟩ := split_of_getElem? hr
  refine ⟨?_,fun k hk => by simp [hk]⟩
  simp only [removeGrantedLock_queues,setQueue_queues,Function.update_self,releaseAt]
  split
  · rw [hset]
    exact (hq ▸ h).cancel
  · exact h.sublist (List.eraseIdx_sublist _ _)

/-- `UnlockAll` walks over the queue; `pre` is the part it has left behind. -/
theorem QueueOk.releaseAll {table : Bool} {held : TxnId → Option Mode} (t : TxnId)
    (pre : LockRequestQueue) {q : LockRequestQueue} (h : QueueOk table held (pre ++ q)) :
    QueueOk table held (pre ++ releaseAll t q) := by
  induction q generalizing pre with
  | nil => exact h
  | cons r q ih =>
    have hkeep : QueueOk table held (pre ++ r :: Lock.releaseAll t q) := by
      simpa using ih (pre ++ [r]) (by simpa using h)
    by_cases ht : r.txnId = t
    · by_cases hw : (!r.granted || r.upgrading) = true
      · have he : Lock.releaseAll t (r::q) = r.cancel :: Lock.releaseAll t q := by
          simp only [Lock.releaseAll,List.filterMap_cons,if_pos ht,if_pos hw]
        exact he ▸ hkeep.cancel
      · have he : Lock.releaseAll t (r::q) = Lock.releaseAll t q := by
          simp only [Lock.releaseAll,List.filterMap_cons,if_pos ht,if_neg hw]
        rw [he]
        exact hkeep.sublist ((List.sublist_cons_self _ _).append_left _)
    · have he : Lock.releaseAll t (r::q) = r :: Lock.releaseAll t q := by
        simp only [Lock.releaseAll,List.filterMap_cons,if_neg ht]
      exact he ▸ hkeep

theorem detectDeadlocks_queues (s : LockState) (order : List LockId) :
    (detectDeadlocks s order).2.queues = s.queues := by
  unfold detectDeadlocks
  split
  · rfl
  split
  · simp
  · rfl

/-- A call that passed its checks asks for a mode of the kind its resource takes. -/
theorem validateCall_typed {s : LockState} {t : TxnId} {l : LockId} {mode : Mode}
    (h : validateCall s t l mode = .ok ()) : mode.isTable = isTableResource l.type := by
  unfold validateCall at h
  split at h
  · simp [fail] at h
  cases mode with
  | table m =>
    simp only at h
    split at h
    · simp [fail] at h
    rename_i hl
    simpa [Mode.isTable] using hl
  | page m =>
    simp only at h
    split at h
    · simp [fail] at h
    rename_i hl
    simpa [Mode.isTable] using hl

structure Observed.Inv (o : Observed) : Prop where
  section_ok : ∀ l, SectionOk (isTableResource l.type) (o.held l) (o.sys.lm.queues l)
  typed : ∀ c ∈ o.sys.pending, c.mode.isTable = isTableResource c.lockId.type

theorem Observed.inv_initial : Observed.initial.Inv where
  section_ok l := ⟨queueOk_nil _ _,fun _ => rfl⟩
  typed c hc := by simp [Observed.initial,System.initial] at hc

/-- A step that touches the queue of one resource only. -/
theorem Observed.Inv.one {o : Observed} (h : o.Inv) {l : LockId} {lm : LockState}
    (hl : QueueOk (isTableResource l.type) (o.held l) (lm.queues l))
    (hk : ∀ k, k ≠ l → lm.queues k = o.sys.lm.queues k) (k : LockId) :
    QueueOk (isTableResource k.type) (o.held k) (lm.queues k) := by
  by_cases hkl : k = l
  · exact hkl ▸ hl
  · rw [hk k hkl]
    exact (h.section_ok k).ok

/-- What one step of any thread does to the queues and to the validated calls. -/
theorem Observed.Inv.queues_next {o : Observed} (h : o.Inv) {a : Action} {s : System}
    (hs : o.sys.next a = some s) :
    (∀ l, QueueOk (isTableResource l.type) (o.held l) (s.lm.queues l)) ∧
      ∀ c ∈ s.pending, c.mode.isTable = isTableResource c.lockId.type := by
  have hsame : ∀ l, QueueOk (isTableResource l.type) (o.held l) (o.sys.lm.queues l) :=
    fun l => (h.section_ok l).ok
  cases a with
  | call c =>
    simp only [System.next] at hs
    split at hs
    · rename_i hok
      cases hs
      refine ⟨hsame,?_⟩
      intro d hd
      rcases List.mem_cons.mp hd with rfl | hd
      · exact validateCall_typed hok
      · exact h.typed d hd
    · cases hs
      exact ⟨hsame,h.typed⟩
  | enter c =>
    simp only [System.next] at hs
    split at hs
    · rename_i hc
      cases hs
      have he := enterQueue_ok (t := c.txnId) (h.section_ok c.lockId) (h.typed c hc)
      exact ⟨h.one he.1 he.2,fun d hd => h.typed d (List.mem_of_mem_erase hd)⟩
    · cases hs
  | wake t l =>
    simp only [System.next,Option.map_eq_some_iff] at hs
    obtain ⟨r,hr,rfl⟩ := hs
    simp only [wake] at hr
    split at hr
    · cases hr
    split at hr
    · cases hr
    split at hr
    · rename_i hi _
      cases hr
      have hw := waitLoop_ok (t := t) (h.section_ok l).ok hi
      exact ⟨h.one hw.1 hw.2,h.typed⟩
    · cases hr
  | unlock t l =>
    cases hs
    have hu := unlock_ok (t := t) (h.section_ok l).ok
    exact ⟨h.one hu.1 hu.2,h.typed⟩
  | unlockAll t =>
    cases hs
    exact ⟨fun l => (hsame l).releaseAll t [],h.typed⟩
  | detectDeadlocks order =>
    cases hs
    exact ⟨fun l => by simpa only [detectDeadlocks_queues] using hsame l,h.typed⟩
  | transition t x =>
    cases hs
    exact ⟨hsame,h.typed⟩

theorem Observed.Inv.next {o o' : Observed} (h : o.Inv) {a : Action} (hn : o.next a = some o') :
    o'.Inv := by
  simp only [Observed.next,Option.map_eq_some_iff] at hn
  obtain ⟨s,hs,rfl⟩ := hn
  obtain ⟨hq,hp⟩ := h.queues_next hs
  exact ⟨fun l => ⟨(hq l).observe,agrees_observe (hq l).ids⟩,hp⟩

theorem Observed.inv_of_reach {o : Observed}
    (h : Reach (· = Observed.initial) (StepOf Observed.next) o) : o.Inv :=
  h.invariant (fun _ hs => hs ▸ Observed.inv_initial) fun _ _ _ hi hn => hi.next hn

/-- Lock compatibility: what two transactions hold on a resource never conflicts. -/
theorem held_modes_compatible {o : Observed}
    (h : Reach (· = Observed.initial) (StepOf Observed.next) o) {l : LockId} {t u : TxnId}
    (hne : t ≠ u) {a b : Mode} (ha : o.held l t = some a) (hb : o.held l u = some b) :
    a.conflict b = false := by
  obtain ⟨hok,hagrees⟩ := (Observed.inv_of_reach h).section_ok l
  -- a holding is read off the request of its transaction
  have hread : ∀ v m, o.held l v = some m →
      ∃ r ∈ o.sys.lm.queues l, r.txnId = v ∧ standing (o.held l) r = some m := by
    intro v m hm
    rw [← hagrees v,observeQueue,Option.bind_eq_some_iff] at hm
    obtain ⟨r,hf,hs⟩ := hm
    exact ⟨r,List.mem_of_find?_eq_some hf,by simpa using List.find?_some hf,hs⟩
  obtain ⟨r,hr,rfl,hsr⟩ := hread t a ha
  obtain ⟨p,hp,rfl,hsp⟩ := hread u b hb
  exact hok.compatible r hr p hp hne a b hsr hsp

/-- Two readers of page 7, the second of which waits for its upgrade to `X`. -/
def readersRun : List Action :=
  let read := fun t => [.call ⟨t,.page 7,.page .S⟩,.enter ⟨t,.page 7,.page .S⟩]
  read 1 ++ read 2 ++ [.call ⟨2,.page 7,.page .X⟩,.enter ⟨2,.page 7,.page .X⟩]

def readers : Observed := (exec Observed.next .initial readersRun).get rfl

theorem reach_readers : Reach (· = Observed.initial) (StepOf Observed.next) readers :=
  exec_reach (.init rfl) (Option.some_get _).symm

theorem held_modes_compatible_readers :
    readers.held (.page 7) 1 = some (.page .S) ∧ readers.held (.page 7) 2 = some (.page .S) ∧
      (Mode.page .S).conflict (.page .S) = false := by
  have h1 : readers.held (.page 7) 1 = some (.page .S) := by rfl
  have h2 : readers.held (.page 7) 2 = some (.page .S) := by rfl
  exact ⟨h1,h2,held_modes_compatible reach_readers (t := 1) (u := 2) (by decide) h1 h2⟩

end Lock
end OurSql
