import OurSql.Storage.HeapRows

/-! `DeleteRow` without a transaction on a buffer pool that may refuse a call: a page
that cannot be read, a write that fails when a guard is released, a page that
somebody else has pinned, a page that cannot be freed. -/
namespace OurSql
namespace Storage.HeapTable.Faulty

open Memory SlottedPage Data Chain

/-- The calls of `DeleteRow` that may fail, the fetches of a walk by their place in the chain. -/
inductive Site
  | owner (i : ℕ) | target | release | walk (i : ℕ) | predecessor | again | reserve | link | finalize
  deriving DecidableEq

/-- What the pool answers in place of the call. -/
abbrev Faults := Site → Option Failure

def fetchAt (fault : Option Failure) (s : Pool) (id : PageId) : Result Mem :=
  match fault with
  | some e => .error e
  | none => s.fetchPage id

variable (t : TableMetadata) (faults : Faults)

/-- The walk of `ValidateRidPage`; `data` is the page that its guard holds. -/
def ownerWalk (s : Pool) (id : PageId) : ℕ → List PageId → PageId → Mem → Status
  | 0, _, _, _ => damaged
  | n+1, visited, current, data =>
    if current = 0 ∨ current ∈ visited then damaged
    else match nextPageId data with
      | .error e => .error e
      | .ok next =>
        if current = id then .ok ()
        else if next = invalidPageId then
          fail .notFound ("RID 页面不属于当前表: " ++ toString id)
        else match fetchAt (faults (.owner (visited.length + 1))) s next with
          | .error e => .error e
          | .ok data => ownerWalk s id n (current::visited) next data

def validateRidPage (s : Pool) (id : PageId) : Status :=
  if id = 0 ∨ id = invalidPageId then fail .notFound ("RID 页面编号非法: " ++ toString id)
  else if t.firstDataPageId = 0 ∨ t.firstDataPageId = invalidPageId then
    fail .invalidArgument "HeapTable 缺少首数据页"
  else match fetchAt (faults (.owner 0)) s t.firstDataPageId with
    | .error e => .error e
    | .ok data => ownerWalk faults s id pageTurns [] t.firstDataPageId data

/-- The walk to the page before `id`; the end of the chain stands for none. -/
def predecessorWalk (s : Pool) (id : PageId) :
    ℕ → List PageId → PageId → Mem → Result PageId
  | 0, _, _, _ => damaged
  | n+1, visited, current, data =>
    if current = id then .ok invalidPageId
    else if current = 0 ∨ current ∈ visited then damaged
    else match nextPageId data with
      | .error e => .error e
      | .ok next =>
        if next = id then .ok current
        else if next = invalidPageId then .ok invalidPageId
        else match fetchAt (faults (.walk (visited.length + 1))) s next with
          | .error e => .error e
          | .ok data => predecessorWalk s id n (current::visited) next data

/-- The end of `DeleteRow`: page `id` is empty and leaves the chain. A reservation that stays
when the page cannot be freed is what keeps readers from it. -/
def unlink (s : Pool) (id predecessor next : PageId) (data : Mem) : Status × Pool :=
  match faults .reserve with
  | some e => (.error e,s)
  | none =>
    match s.beginPageDeletion id with
    | (.error e,s) => (.error e,s)
    | (.ok (),s) =>
      match setNextPageId data (UInt32.ofNat next) with
      | (_,.error e) => (.error e,(s.cancelPageDeletion id).2)
      | (data,.ok ()) =>
        let s := s.writePage predecessor data
        match faults .link with
        | some e => (.error e,(s.cancelPageDeletion id).2)
        | none =>
          match faults .finalize with
          | some e => (.error e,s)
          | none => s.finalizePageDeletion id

/-- `DeleteRow` after the record is gone from a page other than the first. -/
def releasePage (s : Pool) (id : PageId) : Status × Pool :=
  match fetchAt (faults (.walk 0)) s t.firstDataPageId with
  | .error e => (.error e,s)
  | .ok first =>
    match predecessorWalk faults s id pageTurns [] t.firstDataPageId first with
    | .error e => (.error e,s)
    | .ok predecessor =>
      if predecessor = invalidPageId then
        (fail .internalError ("已确认归属的数据页找不到前驱: " ++ toString id),s)
      else match fetchAt (faults .predecessor) s predecessor with
        | .error e => (.error e,s)
        | .ok before =>
          match nextPageId before with
          | .error e => (.error e,s)
          | .ok next =>
            if next ≠ id then (fail .invalidArgument "删除空数据页时发现链表已变化",s)
            else match fetchAt (faults .again) s id with
              | .error e => (.error e,s)
              | .ok data =>
                match nextPageId data, slotCount data with
                | .error e, _ => (.error e,s)
                | .ok _, .error e => (.error e,s)
                | .ok next, .ok count =>
                  match anyRecord data 0 count with
                  | .error e => (.error e,s)
                  | .ok true => (.ok (),s)
                  | .ok false => unlink faults s id predecessor next before

def deleteRow (rid : RID) (s : Pool) : Status × Pool :=
  match validateRidPage t faults s rid.pageId with
  | .error e => (.error e,s)
  | .ok () =>
    match fetchAt (faults .target) s rid.pageId with
    | .error e => (.error e,s)
    | .ok data =>
      match nextPageId data with
      | .error e => (.error e,s)
      | .ok _ =>
        match deleteRecord data rid.slotId with
        | (data,.error e) => (.error e,s.writePage rid.pageId data)
        | (data,.ok ()) =>
          let s := s.writePage rid.pageId data
          match faults .release with
          | some e => (.error e,s)
          | none =>
            if rid.pageId = t.firstDataPageId then (.ok (),s)
            else releasePage t faults s rid.pageId

/-! ### The walks -/

variable {t faults} {s : Pool} {ids rest pre post visited : List PageId} {id current p : PageId}
  {d : Mem} {n : ℕ} {rid : RID} {row : Row} {m : RID → Option Row}

/-- The call answers with `a` exactly when `quiet` holds, and with an error otherwise. -/
def Answers {α : Type} (quiet : Prop) (answer : Result α) (a : α) : Prop :=
  (quiet → answer = .ok a) ∧ (¬ quiet → ∃ e, answer = .error e)

theorem answers_fetchAt (fault : Option Failure) (hf : s.fetchPage id = .ok d) :
    Answers (fault = none) (fetchAt fault s id) d := by
  cases fault with
  | none => exact ⟨fun _ => hf,fun hq => absurd rfl hq⟩
  | some e => exact ⟨fun hq => absurd hq (by simp),fun _ => ⟨e,rfl⟩⟩

/-- One call after the other: `r` is the rest when the first answers, else the first's error. -/
theorem Answers.bind {α β : Type} {quiet quiet' : Prop} {answer : Result α} {a : α}
    {r rest : Result β} {b : β} (h : Answers quiet answer a) (hok : answer = .ok a → r = rest)
    (herr : ∀ e, answer = .error e → r = .error e) (h' : Answers quiet' rest b) :
    Answers (quiet ∧ quiet') r b := by
  by_cases hq : quiet
  · rw [hok (h.1 hq)]
    exact ⟨fun hboth => h'.1 hboth.2,fun hn => h'.2 fun hq' => hn ⟨hq,hq'⟩⟩
  · obtain ⟨e,he⟩ := h.2 hq
    exact ⟨fun hboth => absurd hboth.1 hq,fun _ => ⟨e,herr e he⟩⟩

/-- The same of a call that may change the pool: where it fails, page `id` is as in `s`. -/
def Ends (quiet : Prop) (s : Pool) (id : PageId) (r : Status × Pool) : Prop :=
  (quiet → r.1 = .ok ()) ∧ (¬ quiet → (∃ e, r.1 = .error e) ∧ r.2.pages id = s.pages id)

theorem Answers.ends {α : Type} {quiet quiet' : Prop} {answer : Result α} {a : α}
    {r rest : Status × Pool} (h : Answers quiet answer a) (hok : answer = .ok a → r = rest)
    (herr : ∀ e, answer = .error e → r = (.error e,s)) (h' : Ends quiet' s id rest) :
    Ends (quiet ∧ quiet') s id r := by
  by_cases hq : quiet
  · rw [hok (h.1 hq)]
    exact ⟨fun hboth => h'.1 hboth.2,fun hn => h'.2 fun hq' => hn ⟨hq,hq'⟩⟩
  · obtain ⟨e,he⟩ := h.2 hq
    rw [herr e he]
    exact ⟨fun hboth => absurd hboth.1 hq,fun _ => ⟨⟨e,rfl⟩,rfl⟩⟩

/-- The walk to a page of the chain gets there unless one of its fetches fails. -/
theorem ownerWalk_run (faults : Faults) (hn : pre.length < n)
    (h : Walk t s ids visited current (pre ++ id::post)) (hf : s.fetchPage current = .ok d) :
    Answers (∀ i < pre.length, faults (.owner (visited.length + 1 + i)) = none)
      (ownerWalk faults s id n visited current d) () := by
  induction pre generalizing n visited current d with
  | nil =>
    obtain ⟨n,rfl⟩ := Nat.exists_eq_succ_of_ne_zero (by omega : n ≠ 0)
    obtain ⟨rfl,hne,d',count,e,hf',-,hl,-⟩ := h.turn
    obtain rfl := Except.ok.inj (hf.symm.trans hf')
    have hok : ownerWalk faults s current (n + 1) visited current d = .ok () := by
      rw [ownerWalk,if_neg (not_or.mpr ⟨hne.1,hne.2.2⟩)]
      simp only [Layout.nextPageId hl,if_true]
    exact ⟨fun _ => hok,fun hq => absurd (fun i hi => absurd hi (Nat.not_lt_zero i)) hq⟩
  | cons i pre ih =>
    obtain ⟨n,rfl⟩ := Nat.exists_eq_succ_of_ne_zero (by omega : n ≠ 0)
    have hnodup := h.chain.nodup
    obtain ⟨rfl,hne,d',count,e,hf',-,hl,hw⟩ := h.turn
    obtain rfl := Except.ok.inj (hf.symm.trans hf')
    have hid : current ≠ id := fun he => (List.nodup_cons.mp hnodup).1 (by simp [he])
    rcases hw.next with ⟨hr,-⟩ | ⟨j,rest',-,-,hnot,d₂,hf₂⟩
    · simp at hr
    have hih := ih (n := n) (by simpa using hn) hw hf₂
    rw [ownerWalk,if_neg (not_or.mpr ⟨hne.1,hne.2.2⟩)]
    simp only [Layout.nextPageId hl,if_neg hid,if_neg hnot]
    rw [List.length_cons,Nat.forall_lt_succ_left]
    refine (answers_fetchAt _ hf₂).bind (fun he => by rw [he]) (fun e he => by rw [he]) ?_
    simpa only [List.length_cons,Nat.add_assoc,Nat.add_comm 1] using hih

theorem predecessorWalk_run (faults : Faults) (hn : pre.length < n)
    (h : Walk t s ids visited current (pre ++ p::id::post)) (hf : s.fetchPage current = .ok d) :
    Answers (∀ i < pre.length, faults (.walk (visited.length + 1 + i)) = none)
      (predecessorWalk faults s id n visited current d) p := by
  induction pre generalizing n visited current d with
  | nil =>
    obtain ⟨n,rfl⟩ := Nat.exists_eq_succ_of_ne_zero (by omega : n ≠ 0)
    have hnodup := h.chain.nodup
    obtain ⟨rfl,hne,d',count,e,hf',-,hl,hw⟩ := h.turn
    obtain rfl := Except.ok.inj (hf.symm.trans hf')
    have hid : current ≠ id := fun he => (List.nodup_cons.mp hnodup).1 (by simp [he])
    have hnext : load d 16 = id := hw.chain.1
    have hok : predecessorWalk faults s id (n + 1) visited current d = .ok current := by
      rw [predecessorWalk,if_neg hid,if_neg (not_or.mpr ⟨hne.1,hne.2.2⟩)]
      simp only [Layout.nextPageId hl,if_pos hnext]
    exact ⟨fun _ => hok,fun hq => absurd (fun i hi => absurd hi (Nat.not_lt_zero i)) hq⟩
  | cons i pre ih =>
    obtain ⟨n,rfl⟩ := Nat.exists_eq_succ_of_ne_zero (by omega : n ≠ 0)
    have hnodup := h.chain.nodup
    obtain ⟨rfl,hne,d',count,e,hf',-,hl,hw⟩ := h.turn
    obtain rfl := Except.ok.inj (hf.symm.trans hf')
    have hid : current ≠ id := fun he => (List.nodup_cons.mp hnodup).1 (by simp [he])
    have hnext : load d 16 ≠ id := by
      have hchain : IsChain (link s.pages) invalidPageId (load d 16) ((pre ++ [p]) ++ id::post) := by
        rw [List.append_assoc]
        exact hw.chain
      exact hchain.head_ne (by simp)
    rcases hw.next with ⟨hr,-⟩ | ⟨j,rest',-,-,hnot,d₂,hf₂⟩
    · simp at hr
    have hih := ih (n := n) (by simpa using hn) hw hf₂
    rw [predecessorWalk,if_neg hid,if_neg (not_or.mpr ⟨hne.1,hne.2.2⟩)]
    simp only [Layout.nextPageId hl,if_neg hnext,if_neg hnot]
    rw [List.length_cons,Nat.forall_lt_succ_left]
    refine (answers_fetchAt _ hf₂).bind (fun he => by rw [he]) (fun e he => by rw [he]) ?_
    simpa only [List.length_cons,Nat.add_assoc,Nat.add_comm 1] using hih

theorem validateRidPage_run (faults : Faults) (h : Inv t s (pre ++ id::post) m) :
    Answers (∀ i ≤ pre.length, faults (.owner i) = none) (validateRidPage t faults s id) () := by
  have hid := h.bounded id (by simp)
  have hfirst := h.bounded _ h.first_mem
  obtain ⟨d,count,e,hd,hl⟩ := h.laid _ h.first_mem
  have hf := h.fetch h.first_mem hd
  have hlen : pre.length < pageTurns := by
    have hlen := h.length_lt
    rw [List.length_append] at hlen
    omega
  have hrun := ownerWalk_run faults hlen h.walk hf
  rw [validateRidPage,if_neg (not_or.mpr ⟨hid.1.ne',hid.2.ne⟩),
    if_neg (not_or.mpr ⟨hfirst.1.ne',hfirst.2.ne⟩)]
  simp only [← Nat.lt_succ_iff]
  rw [Nat.forall_lt_succ_left]
  refine (answers_fetchAt _ hf).bind (fun he => by rw [he]) (fun e he => by rw [he]) ?_
  simpa only [List.length_nil,Nat.zero_add,Nat.add_comm 1] using hrun

/-! ### What a failed call leaves -/

/-- The row is live with its content, the chain is as it was and its pages can be fetched. -/
structure Kept (t : TableMetadata) (s s' : Pool) (ids : List PageId) (rid : RID) (row : Row) :
    Prop where
  live : getRow t s' rid = .ok row
  chain : ∀ i ∈ ids, link s'.pages i = link s.pages i
  fetched : ∀ i ∈ ids, ∃ d, s'.fetchPage i = .ok d

theorem kept_self (h : Inv t s ids m) (hm : m rid = some row) : Kept t s s ids rid row where
  live := h.getRow.mpr hm
  chain := fun _ _ => rfl
  fetched := by
    intro i hi
    obtain ⟨d,count,e,hd,-⟩ := h.laid i hi
    exact ⟨d,h.fetch hi hd⟩

theorem fetchPage_some {s' : Pool} (h : s'.fetchPage id = .ok d) : s'.pages id = some d := by
  rw [Pool.fetchPage] at h
  by_cases hz : id = invalidPageId ∨ id = 0
  · rw [if_pos hz] at h
    simp [fail] at h
  rw [if_neg hz] at h
  by_cases hp : id ∈ s'.deletePending
  · rw [if_pos hp] at h
    simp [fail] at h
  rw [if_neg hp] at h
  cases hd : s'.pages id with
  | none =>
    rw [hd] at h
    simp [fail] at h
  | some d' =>
    rw [hd] at h
    exact congrArg some (Except.ok.inj h)

/-- A page without the record shows no row there, whatever has become of the others. -/
theorem getRow_gone (t : TableMetadata) (row : Row) {s' : Pool} {count e : ℕ} (hd : s'.pages rid.pageId = some d)
    (hl : Layout d count e) (hc : content d rid.slotId = none) :
    getRow t s' rid ≠ .ok row := by
  intro h
  obtain ⟨message,hnone⟩ := (hl.getRecord rid.slotId).2 hc
  rw [getRow] at h
  cases hv : HeapTable.validateRidPage t s' rid.pageId with
  | error e => simp [hv] at h
  | ok u =>
    rw [hv] at h
    dsimp only at h
    cases hf : s'.fetchPage rid.pageId with
    | error e => simp [hf] at h
    | ok d' =>
      obtain rfl := Option.some.inj ((fetchPage_some hf).symm.trans hd)
      rw [hf] at h
      simp [hnone,fail] at h

/-! ### The page leaves the chain -/

/-- What the last calls need once the page is known to be empty. -/
def Unlinks (faults : Faults) : Prop :=
  faults .reserve = none ∧ faults .link = none ∧ faults .finalize = none

theorem unlink_ends (faults : Faults) {next count e : ℕ} (hpid : id ≠ p)
    (hb : 0 < id ∧ id < invalidPageId) (hk : id ∉ s.deletePending) (hl : Layout d count e) (hne : next ≠ 0) (hlt : next < 4294967296) :
    Ends (Unlinks faults) s id (unlink faults s id p next d) := by
  have hpage : ∀ (s' : Pool), s'.pages = (s.writePage p (store d 16 next)).pages →
      s'.pages id = s.pages id := by
    intro s' hs'
    rw [hs',writePage_of_ne hpid]
  have hbegin : s.beginPageDeletion id = (.ok (),{ s with deletePending := id::s.deletePending }) := by
    rw [Pool.beginPageDeletion,if_neg (not_or.mpr ⟨hb.2.ne,hb.1.ne'⟩),if_neg hk]
  rw [unlink]
  cases hr : faults .reserve with
  | some e => exact ⟨fun hq => absurd (hr.symm.trans hq.1) (by simp),fun _ => ⟨⟨e,rfl⟩,rfl⟩⟩
  | none =>
    simp only [hbegin,setNextPageId_eq hl hne hlt]
    cases hlk : faults .link with
    | some e =>
      refine ⟨fun hq => absurd (hlk.symm.trans hq.2.1) (by simp),fun _ => ⟨⟨e,rfl⟩,hpage _ ?_⟩⟩
      rw [Pool.cancelPageDeletion,if_neg (by simp [Pool.writePage])]
      rfl
    | none =>
      cases hfin : faults .finalize with
      | some e =>
        exact ⟨fun hq => absurd (hfin.symm.trans hq.2.2) (by simp),
          fun _ => ⟨⟨e,rfl⟩,hpage _ rfl⟩⟩
      | none =>
        refine ⟨fun _ => ?_,fun hq => absurd ⟨hr,hlk,hfin⟩ hq⟩
        simp only
        rw [Pool.finalizePageDeletion,if_neg (by simp [Pool.writePage])]

/-- What the calls need that come after the record of a page at place `k` of the chain. -/
def Releases (faults : Faults) (m : RID → Option Row) (id : PageId) (k : ℕ) : Prop :=
  (∀ i < k, faults (.walk i) = none) ∧ faults .predecessor = none ∧ faults .again = none ∧
    ((∃ slot, m ⟨id,slot⟩ ≠ none) ∨ Unlinks faults)

theorem releasePage_ends (faults : Faults) (h : Inv t s (pre ++ p::id::post) m) :
    Ends (Releases faults m id (pre.length + 1)) s id (releasePage t faults s id) := by
  have hp : p ∈ pre ++ p::id::post := by simp
  have hid : id ∈ pre ++ p::id::post := by simp
  have hbp := h.bounded p hp
  obtain ⟨d₀,c₀,e₀,hd₀,hl₀⟩ := h.laid _ h.first_mem
  obtain ⟨d₁,c₁,e₁,hd₁,hl₁⟩ := h.laid p hp
  obtain ⟨d₂,c₂,e₂,hd₂,hl₂⟩ := h.laid id hid
  have hlen : pre.length < pageTurns := by
    have hlen := h.length_lt
    rw [List.length_append] at hlen
    omega
  have hpid : id ≠ p := by
    have hnodup := h.chain.nodup
    rw [List.nodup_append] at hnodup
    intro he
    exact (List.nodup_cons.mp hnodup.2.1).1 (by simp [he])
  have hnext : load d₁ 16 = id := by
    rw [← link_of hd₁]
    exact h.chain.of_append.2.2.1
  obtain ⟨b,hb,hiff⟩ := anyRecord_eq hl₂ c₂ 0
  have hrest : Ends ((∃ slot, m ⟨id,slot⟩ ≠ none) ∨ Unlinks faults) s id
      (if b then (.ok (),s) else unlink faults s id p (load d₂ 16) d₁) := by
    cases b with
    | true =>
      obtain ⟨slot,-,-,hlive⟩ := hiff.mp rfl
      refine ⟨fun _ => rfl,fun hq => absurd (Or.inl ⟨slot,?_⟩) hq⟩
      exact fun hm => hlive ((h.content_none hid hd₂ slot).mpr hm)
    | false =>
      have hempty : ¬ ∃ slot, m ⟨id,slot⟩ ≠ none := by
        rintro ⟨slot,hm⟩
        have hlive : content d₂ slot ≠ none := fun hc =>
          hm ((h.content_none hid hd₂ slot).mp hc)
        have hlt : slot < 0 + c₂ := by
          rw [Nat.zero_add]
          by_contra hle
          exact hlive (content_none_of_le hl₂ (not_lt.mp hle))
        exact absurd (hiff.mpr ⟨slot,Nat.zero_le _,hlt,hlive⟩) (by simp)
      have hunlink := unlink_ends faults hpid (h.bounded id hid) (h.kept id hid) hl₁
        hl₂.next (load_lt ..)
      exact ⟨fun hq => hunlink.1 (hq.resolve_left hempty),fun hq => hunlink.2 fun hu => hq (.inr hu)⟩
  have hwalk : (∀ i < pre.length, faults (.walk (([] : List PageId).length + 1 + i)) = none) ↔
      ∀ i < pre.length, faults (.walk (i + 1)) = none := by
    simp only [List.length_nil,Nat.zero_add,Nat.add_comm 1]
  rw [Releases,Nat.forall_lt_succ_left,and_assoc,← hwalk,HeapTable.Faulty.releasePage]
  refine (answers_fetchAt _ (h.fetch h.first_mem hd₀)).ends (fun he => by rw [he])
    (fun e he => by rw [he]) ?_
  dsimp only
  refine (predecessorWalk_run faults hlen h.walk (h.fetch h.first_mem hd₀)).ends (fun he => by rw [he])
    (fun e he => by rw [he]) ?_
  simp only [if_neg hbp.2.ne]
  refine (answers_fetchAt _ (h.fetch hp hd₁)).ends (fun he => by rw [he])
    (fun e he => by rw [he]) ?_
  simp only [Layout.nextPageId hl₁,hnext,ne_eq,not_true,if_false]
  refine (answers_fetchAt _ (h.fetch hid hd₂)).ends (fun he => by rw [he])
    (fun e he => by rw [he]) ?_
  simp only [Layout.nextPageId hl₂,Layout.count_eq hl₂,hb]
  cases b with
  | true => exact hrest
  | false => exact hrest

/-! ### `DeleteRow` -/

/-- A fetch fails while the row is still there: `k` is the place of its page in the chain. -/
def FailsBefore (faults : Faults) (k : ℕ) : Prop :=
  ¬ ((∀ i ≤ k, faults (.owner i) = none) ∧ faults .target = none)

/-- No call fails that comes after the record is gone. -/
def Completes (t : TableMetadata) (faults : Faults) (m : RID → Option Row) (rid : RID) (k : ℕ) :
    Prop :=
  faults .release = none ∧
    (rid.pageId = t.firstDataPageId ∨ Releases faults (Function.update m rid none) rid.pageId k)

theorem deleteRow_run (faults : Faults) (h : Inv t s ids m) (hm : m rid = some row) :
    (FailsBefore faults (ids.idxOf rid.pageId) →
      ∃ e, deleteRow t faults rid s = (.error e,s)) ∧
    (¬ FailsBefore faults (ids.idxOf rid.pageId) → ∃ d count e, Layout d count e ∧
      content d rid.slotId = none ∧
      Ends (Completes t faults m rid (ids.idxOf rid.pageId)) (s.writePage rid.pageId d) rid.pageId
        (deleteRow t faults rid s)) := by
  have hid := h.page_mem hm
  obtain ⟨pre,post,rfl⟩ := List.append_of_mem hid
  have hk : (pre ++ rid.pageId::post).idxOf rid.pageId = pre.length := by
    have hnot : rid.pageId ∉ pre := by
      have hnodup := h.chain.nodup
      rw [List.nodup_append] at hnodup
      exact fun hp => hnodup.2.2 _ hp _ List.mem_cons_self rfl
    rw [List.idxOf_append_of_notMem hnot,List.idxOf_cons_self,Nat.add_zero]
  rw [hk]
  obtain ⟨d,count,e,hd,hl⟩ := h.laid _ hid
  rcases hl.deleteRecord rid.slotId with
    ⟨hnone,-⟩ | ⟨d',hlive,hdel,hlay,hcont,hframe⟩
  · have hgone := (h.content_none hid hd rid.slotId).mp hnone
    exact absurd (hm.symm.trans hgone) (by simp)
  have hnow := h.deleted hd hid hlay hcont hframe
  have hvalid := validateRidPage_run faults h
  have hfetch := answers_fetchAt (faults .target) (h.fetch hid hd)
  have hafter : (∀ i ≤ pre.length, faults (.owner i) = none) → faults .target = none →
      deleteRow t faults rid s =
        match faults .release with
        | some e => (.error e,s.writePage rid.pageId d')
        | none =>
          if rid.pageId = t.firstDataPageId then (.ok (),s.writePage rid.pageId d')
          else releasePage t faults (s.writePage rid.pageId d') rid.pageId := by
    intro hq ht
    rw [deleteRow,hvalid.1 hq]
    simp only [hfetch.1 ht,Layout.nextPageId hl,hdel]
  constructor
  · intro hf
    by_cases hq : ∀ i ≤ pre.length, faults (.owner i) = none
    · obtain ⟨e,he⟩ := hfetch.2 fun ht => hf ⟨hq,ht⟩
      refine ⟨e,?_⟩
      rw [deleteRow,hvalid.1 hq]
      simp only [he]
    · obtain ⟨e,he⟩ := hvalid.2 hq
      refine ⟨e,?_⟩
      rw [deleteRow,he]
  · intro hn
    obtain ⟨hq,ht⟩ := not_not.mp hn
    refine ⟨d',count,e,hlay,by rw [hcont,Function.update_self],?_⟩
    rw [hafter hq ht]
    cases hr : faults .release with
    | some e =>
      exact ⟨fun hc => absurd (hr.symm.trans hc.1) (by simp),fun _ => ⟨⟨e,rfl⟩,rfl⟩⟩
    | none =>
      by_cases hfirst : rid.pageId = t.firstDataPageId
      · simp only [if_pos hfirst]
        exact ⟨fun _ => rfl,fun hc => absurd ⟨hr,.inl hfirst⟩ hc⟩
      · simp only [if_neg hfirst]
        rcases List.eq_nil_or_concat pre with rfl | ⟨pre,p,rfl⟩
        · exact absurd h.chain.1.symm hfirst
        · have hsplit : pre.concat p ++ rid.pageId::post = pre ++ p::rid.pageId::post := by simp
          rw [hsplit] at hnow
          have hends := releasePage_ends faults hnow
          rw [List.length_concat]
          exact ⟨fun hc => hends.1 (hc.2.resolve_left hfirst),
            fun hc => hends.2 fun hrel => hc ⟨hr,.inr hrel⟩⟩

/-- A pool that refuses nothing. -/
def quiet : Faults := fun _ => none

@[simp] theorem fetchAt_quiet (site : Site) (s : Pool) (id : PageId) :
    fetchAt (quiet site) s id = s.fetchPage id := rfl

theorem releasePage_quiet (h : Inv t s (pre ++ p::id::post) m) :
    releasePage t quiet s id = HeapTable.releasePage t false s id := by
  obtain ⟨d₀,c₀,e₀,hd₀,-⟩ := h.laid _ h.first_mem
  have hf := h.fetch h.first_mem hd₀
  have hlen : pre.length < pageTurns := by
    have hlen := h.length_lt
    rw [List.length_append] at hlen
    omega
  have hwalk := (predecessorWalk_run quiet hlen h.walk hf).1 fun _ _ => rfl
  rw [releasePage,HeapTable.releasePage,predecessorWalk_eq hlen h.walk,fetchAt_quiet,hf]
  simp only [hwalk]
  rfl

/-- On such a pool a live row is deleted as `HeapTable.deleteRow` deletes it. -/
theorem deleteRow_quiet (h : Inv t s ids m) (hm : m rid = some row) :
    deleteRow t quiet rid s = HeapTable.deleteRow t false rid s := by
  have hid := h.page_mem hm
  have howner := (h.toChained.validateRidPage h.first rid.pageId).1 hid
  obtain ⟨pre,post,rfl⟩ := List.append_of_mem hid
  have hvalid := (validateRidPage_run quiet h).1 fun _ _ => rfl
  obtain ⟨d,count,e,hd,hl⟩ := h.laid _ hid
  rcases hl.deleteRecord rid.slotId with
    ⟨-,message,hdel⟩ | ⟨d',-,hdel,hlay,hcont,hframe⟩
  · rw [deleteRow,HeapTable.deleteRow,hvalid,howner]
    simp only [fetchAt_quiet,h.fetch hid hd,Layout.nextPageId hl,hdel,fail]
  · rw [deleteRow,HeapTable.deleteRow,hvalid,howner]
    simp only [fetchAt_quiet,h.fetch hid hd,Layout.nextPageId hl,hdel]
    simp only [quiet]
    by_cases hfirst : rid.pageId = t.firstDataPageId
    · rw [if_pos hfirst,if_pos hfirst]
    · rw [if_neg hfirst,if_neg hfirst]
      have hnow := h.deleted hd hid hlay hcont hframe
      rcases List.eq_nil_or_concat pre with rfl | ⟨pre,p,rfl⟩
      · exact absurd h.chain.1.symm hfirst
      · have hsplit : pre.concat p ++ rid.pageId::post = pre ++ p::rid.pageId::post := by simp
        rw [hsplit] at hnow
        exact releasePage_quiet hnow

def idTable : TableMetadata := ⟨[⟨"id",.int,none,false⟩],1⟩

def start : Pool := ⟨fun i => if i = 1 then some (initializePage (fun _ => 0) noPage).1 else none,[]⟩

def seven : List UInt8 := (RowCodec.encode idTable.schema [.int 7]).toOption.getD []

/-- An empty first page and a second one with a row. -/
def twoPages : Pool :=
  (extend noPage false 2 seven start 1 (initializePage (fun _ => 0) noPage).1).2

def pinned : Faults
  | .reserve => some ⟨.invalidArgument,"被 pin 的页面不能删除: 2"⟩
  | _ => none

theorem twoPages_inv :
    Inv idTable twoPages [1,2] (Function.update (fun _ => none) ⟨2,0⟩ (some [.int 7])) := by
  have ht : idTable.Valid := ⟨by simp [idTable,Proper],by decide,by decide⟩
  have hinv : Inv idTable start [1] fun _ => none := inv_create ht rfl List.not_mem_nil
  have hfree : start.Free 2 := ⟨by decide,by decide,rfl,List.not_mem_nil⟩
  have hpage : start.pages 1 = some (initializePage (fun _ => 0) noPage).1 := rfl
  obtain ⟨-,hblank,-⟩ := @layout_initializePage (fun _ => 0) noPage (by decide)
  obtain ⟨page,count,e,slot,hext,hl,hlast,hc⟩ :=
    @extend_eq start 2 1 _ _ _ seven false hfree hblank (by decide)
  have hslot : (extend noPage false 2 seven start 1 (initializePage (fun _ => 0) noPage).1).1.toOption
      = some ⟨2,0⟩ := by decide +kernel
  obtain rfl : slot = 0 := by
    rw [hext] at hslot
    simpa [Except.toOption] using hslot
  have hrow : RowCodec.decode idTable.schema seven = .ok [.int 7] := by decide +kernel
  have hinv : Inv idTable start ([] ++ [1]) fun _ => none := hinv
  have hnew := hinv.extend hfree hpage hl hlast hc hrow
  rw [twoPages,hext]
  exact hnew

end Storage.HeapTable.Faulty
end OurSql
