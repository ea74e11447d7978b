import OurSql.Index.Scan

/-! Insertion without a transaction on a buffer pool that may refuse a call: a page that
cannot be fetched, a page that cannot be allocated. -/
namespace OurSql
namespace Index
namespace Faulty

open Fence Heap

/-- What the pool answers in place of its `i`-th call of the operation. -/
abbrev Faults := ℕ → Option Failure

/-- The tree operations with the number of calls made so far. -/
abbrev FaultM := StateT ℕ TreeM

variable (faults : Faults)

def call : FaultM Unit := do
  let i ← get
  match faults i with
  | some e => throw e
  | none => set (i + 1)

def fetchPage (id : PageId) : FaultM IndexPage := do
  call faults
  Index.fetchPage id

def newPage : FaultM PageId := do
  call faults
  Index.newPage

def readLeaf (id : PageId) : FaultM LeafPage := do ofResult (← fetchPage faults id).toLeaf

def readInternal (id : PageId) : FaultM InternalPage := do
  ofResult (← fetchPage faults id).toInternal

def findLeaf (key : Key) : ℕ → PageId → List PageId → FaultM (PageId × List PageId)
  | 0, _, _ => throw ⟨.internalError,"B+树内部页包含无效子指针"⟩
  | fuel+1, current, path => do
    let page ← fetchPage faults current
    match page.toLeaf with
    | .ok _ => return (current,path)
    | .error _ =>
      let internal ← ofResult page.toInternal
      let child := lookup key internal.entries
      if child = invalidPageId then throw ⟨.internalError,"B+树内部页包含无效子指针"⟩
      else findLeaf key fuel child (current::path)

def persistRootPageId : FaultM Unit := do
  let s ← getThe BPlusTree
  if s.headerPageId = invalidPageId then return ()
  else match ← fetchPage faults s.headerPageId with
    | .header page => writePage s.headerPageId (.header { page with root := s.rootPageId })
    | _ => throw ⟨.internalError,"B+树元数据页损坏，无法更新根页面编号"⟩

def setParent (child parent : PageId) : FaultM Unit := do
  let page ← fetchPage faults child
  match page.toLeaf with
  | .ok leaf => writePage child (.leaf { leaf with parentPageId := parent })
  | .error _ =>
    let internal ← ofResult page.toInternal
    writePage child (.internal { internal with parentPageId := parent })

def setParents (parent : PageId) : List PageId → FaultM Unit
  | [] => return ()
  | child::rest => do
    setParent faults child parent
    setParents parent rest

def insertIntoLeaf (leafPageId : PageId) (key : Key) (rid : RID) : FaultM SplitResult := do
  let oldLeaf ← readLeaf faults leafPageId
  if (fromBound oldLeaf.entries (key,rid)).head? = some (key,rid) then
    throw ⟨.alreadyExists,"B+树中已存在相同的Key/RID"⟩
  else if oldLeaf.entries.length < oldLeaf.maxSize then
    let leaf ← ofResult (oldLeaf.insert key rid)
    writePage leafPageId (.leaf leaf)
    return .none
  else
    let entries := insertEntry oldLeaf.entries (key,rid)
    let newPageId ← newPage faults
    let newLeaf ← ofResult
      (LeafPage.initializePage oldLeaf.maxSize oldLeaf.parentPageId oldLeaf.nextPageId)
    let splitAt := entries.length / 2
    let left ← ofResult (oldLeaf.assign (entries.take splitAt))
    let right ← ofResult (newLeaf.assign (entries.drop splitAt))
    writePage leafPageId (.leaf { left with nextPageId := newPageId })
    writePage newPageId (.leaf right)
    return ⟨firstKey (entries.drop splitAt),newPageId⟩

def insertIntoInternal (pageId leftChild : PageId) (separator : Key) (rightChild : PageId) :
    FaultM (Option SplitResult) := do
  let oldPage ← readInternal faults pageId
  match insertAfter leftChild (separator,rightChild) oldPage.entries with
  | none => throw ⟨.internalError,"B+树父页未包含待分裂的子页"⟩
  | some entries =>
    if entries.length ≤ oldPage.maxSize then
      let page ← ofResult (oldPage.assign entries)
      writePage pageId (.internal page)
      setParent faults rightChild pageId
      return none
    else
      let newPageId ← newPage faults
      let page ← ofResult (InternalPage.initializePage oldPage.maxSize oldPage.parentPageId)
      let splitAt := entries.length / 2
      let promoted := firstKey (entries.drop splitAt)
      let rightEntries := setFirstKey 0 (entries.drop splitAt)
      let left ← ofResult (oldPage.assign (entries.take splitAt))
      let right ← ofResult (page.assign rightEntries)
      writePage pageId (.internal left)
      writePage newPageId (.internal right)
      setParents faults newPageId (rightEntries.map Prod.snd)
      return some ⟨promoted,newPageId⟩

def createNewRoot (leftChild : PageId) (separator : Key) (rightChild : PageId) : FaultM Unit := do
  let newRootId ← newPage faults
  let root ← ofResult
    (InternalPage.initializePage (← getThe BPlusTree).internalMaxSize invalidPageId)
  let root ← ofResult (root.assign [(0,leftChild),(separator,rightChild)])
  writePage newRootId (.internal root)
  setParent faults leftChild newRootId
  setParent faults rightChild newRootId
  setRoot newRootId
  persistRootPageId faults

def insertUp : List PageId → PageId → SplitResult → FaultM Unit
  | [], leftPageId, split => createNewRoot faults leftPageId split.separator split.rightPageId
  | parentPageId::path, leftPageId, split => do
    match ← insertIntoInternal faults parentPageId leftPageId split.separator split.rightPageId with
    | none => return ()
    | some split => insertUp path parentPageId split

def insertFrom (leafPageId : PageId) (path : List PageId) (key : Key) (rid : RID) :
    FaultM Unit := do
  let split ← insertIntoLeaf faults leafPageId key rid
  if split.rightPageId = invalidPageId then return ()
  else insertUp faults path leafPageId split

def startTree (key : Key) (rid : RID) : FaultM Unit := do
  let id ← newPage faults
  let leaf ← ofResult
    (LeafPage.initializePage (← getThe BPlusTree).leafMaxSize invalidPageId invalidPageId)
  let leaf ← ofResult (leaf.insert key rid)
  setRoot id
  writePage id (.leaf leaf)
  persistRootPageId faults

/-- `Insert`. -/
def insert (key : Key) (rid : RID) : FaultM Unit := do
  let s ← getThe BPlusTree
  if s.leafMaxSize < 2 || kPhysicalMaxSize < s.leafMaxSize || s.internalMaxSize < 3 ||
      kPhysicalMaxSize < s.internalMaxSize then
    throw ⟨.invalidArgument,"B+树节点容量配置非法"⟩
  else if s.rootPageId = invalidPageId then startTree faults key rid
  else
    let (leaf,path) ← findLeaf faults key pageTurns s.rootPageId []
    insertFrom faults leaf path key rid

/-! ### Runs -/

variable {faults} {n : ℕ} {c : Capacity} {t : Tree n} {s s' s'' : BPlusTree}
  {α β : Type} {i : ℕ} {id parent next : PageId} {lo hi key : Key}

/-- The outcome of a plain operation, with a number of calls. -/
def counted (j : ℕ) : EStateM.Result Failure BPlusTree α → EStateM.Result Failure BPlusTree (α × ℕ)
  | .ok a s => .ok (a,j) s
  | .error e s => .error e s

theorem run_bind_ok {m : FaultM α} {f : α → FaultM β} {a : α} {j : ℕ}
    (h : (m.run i).run s = .ok (a,j) s') : ((m >>= f).run i).run s = ((f a).run j).run s' := by
  rw [StateT.run_bind,Index.run_bind_ok h]

theorem run_bind_error {m : FaultM α} {f : α → FaultM β} {e : Failure}
    (h : (m.run i).run s = .error e s') : ((m >>= f).run i).run s = .error e s' := by
  rw [StateT.run_bind,Index.run_bind_error h]

theorem run_lift (m : TreeM α) : ((liftM m : FaultM α).run i).run s = counted i (m.run s) := by
  cases h : m.run s with
  | ok a s' => exact Index.run_bind_ok h
  | error e s' => exact Index.run_bind_error h

theorem run_call (h : faults i = none) : ((call faults).run i).run s = .ok ((),i+1) s := by
  simp only [call,StateT.run_bind,StateT.run_get]
  rw [Index.run_bind_ok (rfl : (pure (i,i) : TreeM (ℕ × ℕ)).run s = .ok (i,i) s)]
  simp only [h]
  rfl

theorem run_refused {e : Failure} (h : faults i = some e) :
    ((call faults).run i).run s = .error e s := by
  simp only [call,StateT.run_bind,StateT.run_get]
  rw [Index.run_bind_ok (rfl : (pure (i,i) : TreeM (ℕ × ℕ)).run s = .ok (i,i) s)]
  simp only [h]
  rfl

/-- The operation does what the plain one does, or a refused call ends it in a state that is left
behind. -/
def Tracks (m : FaultM α) (plain : TreeM α) (s : BPlusTree) (Left : BPlusTree → Prop) : Prop :=
  ∀ i, (∃ e s', (m.run i).run s = .error e s' ∧ Left s') ∨
    ∃ j, (m.run i).run s = counted j (plain.run s)

variable {Left Left' : BPlusTree → Prop}

theorem Tracks.mono {m : FaultM α} {plain : TreeM α} (h : Tracks m plain s Left)
    (hl : ∀ s', Left s' → Left' s') : Tracks m plain s Left' := by
  intro i
  rcases h i with ⟨e,s',hr,hs⟩ | hr
  · exact .inl ⟨e,s',hr,hl s' hs⟩
  · exact .inr hr

theorem tracks_lift (m : TreeM α) : Tracks (liftM m) m s Left := fun i => .inr ⟨i,run_lift m⟩

theorem tracks_throw (e : Failure) : Tracks (throw e : FaultM α) (throw e) s Left :=
  fun i => .inr ⟨i,rfl⟩

theorem tracks_pure (a : α) : Tracks (pure a) (pure a) s Left := fun i => .inr ⟨i,rfl⟩

theorem Tracks.bind {m : FaultM α} {plain : TreeM α} {f : α → FaultM β} {g : α → TreeM β}
    (h : Tracks m plain s Left)
    (hf : ∀ a s', plain.run s = .ok a s' → Tracks (f a) (g a) s' Left) :
    Tracks (m >>= f) (plain >>= g) s Left := by
  intro i
  rcases h i with ⟨e,s',hr,hs⟩ | ⟨j,hr⟩
  · exact .inl ⟨e,s',run_bind_error hr,hs⟩
  · cases hp : plain.run s with
    | error e s' =>
      rw [hp] at hr
      exact .inr ⟨j,by rw [run_bind_error hr,Index.run_bind_error hp]; rfl⟩
    | ok a s' =>
      rw [hp] at hr
      rw [run_bind_ok hr,Index.run_bind_ok hp]
      exact hf a s' hp j

theorem Tracks.run {m : FaultM α} {plain : TreeM α} (h : Tracks m plain s fun _ => False) (i : ℕ) :
    ∃ j, (m.run i).run s = counted j (plain.run s) := by
  rcases h i with ⟨_,_,-,hfalse⟩ | hr
  · exact hfalse.elim
  · exact hr

theorem run_answered (m : TreeM α) (h : faults i = none) :
    (((do call faults; liftM m : FaultM α)).run i).run s = counted (i+1) (m.run s) := by
  rw [run_bind_ok (run_call h),run_lift]

/-- A call of the pool. -/
theorem tracks_call (m : TreeM α) (h : Left s) : Tracks (do call faults; liftM m) m s Left := by
  intro i
  cases hf : faults i with
  | some e => exact .inl ⟨e,s,run_bind_error (run_refused hf),h⟩
  | none => exact .inr ⟨i+1,run_answered m hf⟩

theorem fetchPage_tracks (id : PageId) (h : Left s) :
    Tracks (fetchPage faults id) (Index.fetchPage id) s Left := tracks_call _ h

theorem newPage_tracks (h : Left s) : Tracks (newPage faults) Index.newPage s Left :=
  tracks_call _ h

/-! ### Parents -/

/-- The same tree object and pages, but for the parents of the pages. -/
structure Like (s s' : BPlusTree) : Prop where
  pages : ∀ id, (s'.pages id).map IndexPage.orphan = (s.pages id).map IndexPage.orphan
  keeps : Keeps s s'

theorem Like.refl (s : BPlusTree) : Like s s := ⟨fun _ => rfl,Keeps.refl s⟩

theorem Like.trans (h : Like s s') (h' : Like s' s'') : Like s s'' :=
  ⟨fun id => (h'.pages id).trans (h.pages id),h.keeps.trans h'.keeps⟩

theorem Like.symm (h : Like s s') : Like s' s :=
  ⟨fun id => (h.pages id).symm,h.keeps.root.symm,h.keeps.header.symm,h.keeps.leafMax.symm,
    h.keeps.internalMax.symm⟩

theorem Like.shows {xs : List (PageId × IndexPage)} (h : Like s s') (hs : Shows s xs) :
    Shows s' xs := fun x hx => (h.pages x.1).trans (hs x hx)

theorem fetchPage_state {p : IndexPage} (h : (Index.fetchPage id).run s = .ok p s') :
    s' = s ∧ s.pages id = some p := by
  cases hp : s.pages id with
  | none => simp [Index.fetchPage,hp] at h
  | some q => simp_all [Index.fetchPage]

theorem like_write {p q : IndexPage} (hp : s.pages id = some p) (hq : q.orphan = p.orphan)
    (h : (writePage id q).run s = .ok () s') : Like s s' := by
  obtain rfl : { s with pages := Function.update s.pages id (some q) } = s' := by
    simpa [writePage] using h
  refine ⟨fun i => ?_,⟨rfl,rfl,rfl,rfl⟩⟩
  by_cases hi : i = id
  · subst hi
    simp [hp,hq]
  · simp [Function.update_of_ne hi]

theorem eq_of_toLeaf {p : IndexPage} {page : LeafPage} (h : p.toLeaf = .ok page) :
    p = .leaf page := by
  cases p with
  | leaf q =>
    cases hv : q.validate <;> simp [IndexPage.toLeaf,hv] at h
    rw [h]
  | _ => simp [IndexPage.toLeaf,fail] at h

theorem eq_of_toInternal {p : IndexPage} {page : InternalPage} (h : p.toInternal = .ok page) :
    p = .internal page := by
  cases p with
  | internal q =>
    cases hv : q.validate <;> simp [IndexPage.toInternal,hv] at h
    rw [h]
  | _ => simp [IndexPage.toInternal,fail] at h

theorem bind_ok {m : TreeM α} {f : α → TreeM β} {b : β} (h : (m >>= f).run s = .ok b s') :
    ∃ a s₁, m.run s = .ok a s₁ ∧ (f a).run s₁ = .ok b s' := by
  cases hm : m.run s with
  | error e s₁ =>
    rw [Index.run_bind_error hm] at h
    cases h
  | ok a s₁ =>
    rw [Index.run_bind_ok hm] at h
    exact ⟨a,s₁,rfl,h⟩

theorem setParent_like (h : (Index.setParent id parent).run s = .ok () s') : Like s s' := by
  obtain ⟨p,s₁,hf,hrest⟩ := bind_ok h
  obtain ⟨rfl,hp⟩ := fetchPage_state hf
  cases hl : p.toLeaf with
  | ok leaf =>
    obtain rfl := eq_of_toLeaf hl
    simp only [hl] at hrest
    refine like_write hp ?_ hrest
    rfl
  | error e =>
    cases hi : p.toInternal with
    | ok page =>
      obtain rfl := eq_of_toInternal hi
      simp only [hl,hi] at hrest
      rw [Index.run_bind_ok (run_ofResult_ok _)] at hrest
      refine like_write hp ?_ hrest
      rfl
    | error e' =>
      simp only [hl,hi] at hrest
      cases hrest

theorem setParents_like {ids : List PageId} (h : (Index.setParents parent ids).run s = .ok () s') :
    Like s s' := by
  induction ids generalizing s with
  | nil =>
    cases h
    exact Like.refl _
  | cons id ids ih =>
    obtain ⟨_,s₁,hs,h⟩ := bind_ok h
    exact (setParent_like hs).trans (ih h)

theorem bind_error {m : TreeM α} {f : α → TreeM β} {e : Failure}
    (h : (m >>= f).run s = .error e s') :
    m.run s = .error e s' ∨ ∃ a s₁, m.run s = .ok a s₁ ∧ (f a).run s₁ = .error e s' := by
  cases hm : m.run s with
  | error e' s₁ =>
    rw [Index.run_bind_error hm] at h
    cases h
    exact .inl rfl
  | ok a s₁ =>
    rw [Index.run_bind_ok hm] at h
    exact .inr ⟨a,s₁,rfl,h⟩

theorem toInternal_error {p : IndexPage} {e : Failure} (h : p.toInternal = .error e) :
    e.code = .internalError := by
  cases p with
  | internal q =>
    rw [IndexPage.toInternal,InternalPage.validate] at h
    split at h
    · cases h
    · rename_i hv
      obtain rfl := Except.error.inj h
      split at hv
      · exact Except.error.inj hv ▸ rfl
      · split at hv
        · exact Except.error.inj hv ▸ rfl
        · cases hv
  | _ => exact Except.error.inj h ▸ rfl

/-- A page that `SetParent` cannot use is not a failure to allocate one. -/
theorem setParent_error {e : Failure} (h : (Index.setParent id parent).run s = .error e s') :
    e.code ≠ .ioError := by
  rcases bind_error h with hf | ⟨p,s₁,hf,hrest⟩
  · have hcode : (missing id).code ≠ .ioError := by
      rw [missing]
      split <;> simp
    cases hp : s.pages id with
    | none =>
      have heq : missing id = e := by
        simp [Index.fetchPage,hp] at hf
        exact hf.1
      exact heq ▸ hcode
    | some p => simp [Index.fetchPage,hp] at hf
  · cases hl : p.toLeaf with
    | ok leaf => simp [hl,writePage] at hrest
    | error e' =>
      cases hi : p.toInternal with
      | ok page => simp [hl,hi,writePage] at hrest
      | error e'' =>
        simp only [hl,hi] at hrest
        obtain rfl : e'' = e := by
          cases hrest
          rfl
        simp [toInternal_error hi]

theorem setParents_error {ids : List PageId} {e : Failure}
    (h : (Index.setParents parent ids).run s = .error e s') : e.code ≠ .ioError := by
  induction ids generalizing s with
  | nil => cases h
  | cons id ids ih =>
    rcases bind_error h with hs | ⟨_,s₁,-,hrest⟩
    · exact setParent_error hs
    · exact ih hrest

theorem setParent_tracks (id parent : PageId) :
    Tracks (setParent faults id parent) (Index.setParent id parent) s (· = s) := by
  refine Tracks.bind (fetchPage_tracks id rfl) fun p s' hp => ?_
  obtain ⟨rfl,-⟩ := fetchPage_state hp
  cases hl : p.toLeaf with
  | ok leaf => exact tracks_lift _
  | error e => exact (tracks_lift (ofResult p.toInternal)).bind fun page s₁ _ => tracks_lift _

theorem setParents_tracks (parent : PageId) (ids : List PageId) :
    Tracks (setParents faults parent ids) (Index.setParents parent ids) s (Like s) := by
  induction ids generalizing s with
  | nil => exact tracks_pure ()
  | cons id ids ih =>
    refine ((setParent_tracks id parent).mono fun s' hs => ?_).bind fun _ s₁ hs =>
      ih.mono fun s' => (setParent_like hs).trans
    exact hs ▸ Like.refl s

theorem readInternal_state {page : InternalPage}
    (h : (Index.readInternal id).run s = .ok page s') : s' = s := by
  obtain ⟨p,s₁,hf,hrest⟩ := bind_ok h
  obtain ⟨rfl,-⟩ := fetchPage_state hf
  cases hp : p.toInternal with
  | error e =>
    rw [hp] at hrest
    cases hrest
  | ok q =>
    rw [hp] at hrest
    cases hrest
    rfl

/-- But for parents, `s'` is what the plain operation makes of `s`, which is not short of a page. -/
def Unparented (m : TreeM α) (s s' : BPlusTree) : Prop :=
  (∀ r s₁, m.run s = .ok r s₁ → Like s₁ s') ∧ ∀ e s₁, m.run s = .error e s₁ → e.code ≠ .ioError

/-- A refused call leaves the parent as it was, or but for parents as the insertion makes it. -/
theorem insertIntoInternal_tracks (left right : PageId) (sep : Key) :
    Tracks (insertIntoInternal faults id left sep right) (Index.insertIntoInternal id left sep right)
      s fun s' => s' = s ∨ Unparented (Index.insertIntoInternal id left sep right) s s' := by
  refine Tracks.bind (Tracks.bind (fetchPage_tracks id (.inl rfl)) fun p s₁ _ => tracks_lift _) ?_
  intro page s₁ hread
  obtain rfl := readInternal_state hread
  cases hins : insertAfter left (sep,right) page.entries with
  | none => exact tracks_throw _
  | some entries =>
    by_cases hl : entries.length ≤ page.maxSize
    · simp only [if_pos hl]
      refine Tracks.bind (tracks_lift _) fun page' s₂ h₂ => Tracks.bind (tracks_lift _)
        fun _ s₃ h₃ => Tracks.bind ((setParent_tracks right id).mono ?_) fun _ _ _ => tracks_pure none
      rintro s' rfl
      have hrun : (Index.insertIntoInternal id left sep right).run s₁ =
          (Index.setParent right id >>= fun _ => pure none).run s' := by
        rw [Index.insertIntoInternal,Index.run_bind_ok hread]
        simp only [hins,if_pos hl]
        rw [Index.run_bind_ok h₂,Index.run_bind_ok h₃]
      refine .inr ⟨fun r s₄ hr => ?_,fun e s₄ hr => ?_⟩
      · obtain ⟨_,s₅,hs,hr⟩ := bind_ok (hrun.symm.trans hr)
        cases hr
        exact (setParent_like hs).symm
      · rcases bind_error (hrun.symm.trans hr) with hs | ⟨_,s₅,-,hr⟩
        · exact setParent_error hs
        · cases hr
    · simp only [if_neg hl]
      refine Tracks.bind (newPage_tracks (.inl rfl)) fun newId s₂ h₂ => Tracks.bind (tracks_lift _)
        fun page' s₃ h₃ => Tracks.bind (tracks_lift _) fun a s₄ h₄ => Tracks.bind (tracks_lift _)
        fun b s₅ h₅ => Tracks.bind (tracks_lift _) fun _ s₆ h₆ => Tracks.bind (tracks_lift _)
        fun _ s₇ h₇ => Tracks.bind ((setParents_tracks newId _).mono ?_) fun _ _ _ => tracks_pure _
      intro s' hlike
      have hrun : (Index.insertIntoInternal id left sep right).run s₁ =
          (Index.setParents newId ((setFirstKey 0 (entries.drop (entries.length / 2))).map Prod.snd)
            >>= fun _ => pure (some ⟨firstKey (entries.drop (entries.length / 2)),newId⟩)).run s₇ := by
        rw [Index.insertIntoInternal,Index.run_bind_ok hread]
        simp only [hins,if_neg hl]
        rw [Index.run_bind_ok h₂,Index.run_bind_ok h₃,Index.run_bind_ok h₄,Index.run_bind_ok h₅,
          Index.run_bind_ok h₆,Index.run_bind_ok h₇]
      refine .inr ⟨fun r s₈ hr => ?_,fun e s₈ hr => ?_⟩
      · obtain ⟨_,s₉,hs,hr⟩ := bind_ok (hrun.symm.trans hr)
        cases hr
        exact (setParents_like hs).symm.trans hlike
      · rcases bind_error (hrun.symm.trans hr) with hs | ⟨_,s₉,-,hr⟩
        · exact setParents_error hs
        · cases hr

/-! ### A pool that refuses nothing -/

def quiet : Faults := fun _ => none

/-- The plain operation, call for call. -/
abbrev Same (m : FaultM α) (plain : TreeM α) : Prop := ∀ s, Tracks m plain s fun _ => False

theorem Same.bind {m : FaultM α} {plain : TreeM α} {f : α → FaultM β} {g : α → TreeM β}
    (h : Same m plain) (hf : ∀ a, Same (f a) (g a)) : Same (m >>= f) (plain >>= g) :=
  fun s => (h s).bind fun a s' _ => hf a s'

theorem same_lift (m : TreeM α) : Same (liftM m) m := fun _ => tracks_lift m

theorem same_get : Same (getThe BPlusTree) get := fun _ i => .inr ⟨i,rfl⟩

theorem same_pure (a : α) : Same (pure a) (pure a) := fun _ => tracks_pure a

theorem same_throw (e : Failure) : Same (throw e : FaultM α) (throw e) := fun _ => tracks_throw e

theorem same_fetchPage (id : PageId) : Same (fetchPage quiet id) (Index.fetchPage id) :=
  fun _ i => .inr ⟨i+1,run_answered _ rfl⟩

theorem same_newPage : Same (newPage quiet) Index.newPage :=
  fun _ i => .inr ⟨i+1,run_answered _ rfl⟩

theorem same_readLeaf (id : PageId) : Same (readLeaf quiet id) (Index.readLeaf id) :=
  (same_fetchPage id).bind fun _ => same_lift _

theorem same_readInternal (id : PageId) : Same (readInternal quiet id) (Index.readInternal id) :=
  (same_fetchPage id).bind fun _ => same_lift _

theorem same_findLeaf (fuel : ℕ) (id : PageId) (path : List PageId) :
    Same (findLeaf quiet key fuel id path) (Index.findLeaf key fuel id path) := by
  induction fuel generalizing id path with
  | zero => exact same_throw _
  | succ fuel ih =>
    refine (same_fetchPage id).bind fun p => ?_
    cases p.toLeaf with
    | ok leaf => exact same_pure _
    | error e =>
      refine (same_lift _).bind fun page => ?_
      by_cases hc : lookup key page.entries = invalidPageId
      · simp only [if_pos hc]
        exact same_throw _
      · simp only [if_neg hc]
        exact ih _ _

theorem same_setParent (id parent : PageId) :
    Same (setParent quiet id parent) (Index.setParent id parent) := by
  refine (same_fetchPage id).bind fun p => ?_
  cases p.toLeaf with
  | ok leaf => exact same_lift _
  | error e => exact (same_lift _).bind fun _ => same_lift _

theorem same_setParents (parent : PageId) (ids : List PageId) :
    Same (setParents quiet parent ids) (Index.setParents parent ids) := by
  induction ids with
  | nil => exact same_pure ()
  | cons id ids ih => exact (same_setParent id parent).bind fun _ => ih

theorem same_persistRootPageId : Same (persistRootPageId quiet) Index.persistRootPageId := by
  refine same_get.bind fun s => ?_
  by_cases hi : s.headerPageId = invalidPageId
  · simp only [if_pos hi]
    exact same_pure ()
  · simp only [if_neg hi]
    refine (same_fetchPage _).bind fun p => ?_
    cases p with
    | header page => exact same_lift _
    | _ => exact same_throw _

theorem same_insertIntoLeaf (id : PageId) (key : Key) (rid : RID) :
    Same (insertIntoLeaf quiet id key rid) (Index.insertIntoLeaf id key rid) := by
  refine (same_readLeaf id).bind fun leaf => ?_
  by_cases hd : (fromBound leaf.entries (key,rid)).head? = some (key,rid)
  · simp only [if_pos hd]
    exact same_throw _
  · by_cases hl : leaf.entries.length < leaf.maxSize
    · simp only [if_neg hd,if_pos hl]
      exact (same_lift _).bind fun _ => (same_lift _).bind fun _ => same_pure _
    · simp only [if_neg hd,if_neg hl]
      exact same_newPage.bind fun _ => (same_lift _).bind fun _ => (same_lift _).bind fun _ =>
        (same_lift _).bind fun _ => (same_lift _).bind fun _ => (same_lift _).bind fun _ =>
        same_pure _

theorem same_insertIntoInternal (id left right : PageId) (sep : Key) :
    Same (insertIntoInternal quiet id left sep right) (Index.insertIntoInternal id left sep right) := by
  refine (same_readInternal id).bind fun page => ?_
  cases insertAfter left (sep,right) page.entries with
  | none => exact same_throw _
  | some entries =>
    by_cases hl : entries.length ≤ page.maxSize
    · simp only [if_pos hl]
      exact (same_lift _).bind fun _ => (same_lift _).bind fun _ =>
        (same_setParent _ _).bind fun _ => same_pure _
    · simp only [if_neg hl]
      exact same_newPage.bind fun _ => (same_lift _).bind fun _ => (same_lift _).bind fun _ =>
        (same_lift _).bind fun _ => (same_lift _).bind fun _ => (same_lift _).bind fun _ =>
        (same_setParents _ _).bind fun _ => same_pure _

theorem same_createNewRoot (left right : PageId) (sep : Key) :
    Same (createNewRoot quiet left sep right) (Index.createNewRoot left sep right) :=
  same_newPage.bind fun _ => same_get.bind fun _ => (same_lift _).bind fun _ =>
    (same_lift _).bind fun _ => (same_lift _).bind fun _ => (same_setParent _ _).bind fun _ =>
    (same_setParent _ _).bind fun _ => (same_lift _).bind fun _ => same_persistRootPageId

theorem same_insertUp (path : List PageId) (left : PageId) (split : SplitResult) :
    Same (insertUp quiet path left split) (Index.insertUp path left split) := by
  induction path generalizing left split with
  | nil => exact same_createNewRoot _ _ _
  | cons id path ih =>
    refine (same_insertIntoInternal _ _ _ _).bind fun r => ?_
    cases r with
    | none => exact same_pure ()
    | some split => exact ih id split

theorem same_startTree (key : Key) (rid : RID) :
    Same (startTree quiet key rid) (Index.startTree key rid) :=
  same_newPage.bind fun _ => same_get.bind fun _ => (same_lift _).bind fun _ =>
    (same_lift _).bind fun _ => (same_lift _).bind fun _ => (same_lift _).bind fun _ =>
    same_persistRootPageId

/-- On such a pool the insertion is the plain one. -/
theorem insert_quiet (key : Key) (rid : RID) (s : BPlusTree) :
    ∃ j, ((insert quiet key rid).run 0).run s = counted j ((Index.insert key rid).run s) := by
  have hsame : Same (insert quiet key rid) (Index.insert key rid) := by
    refine same_get.bind fun s => ?_
    split
    · exact same_throw _
    · by_cases hr : s.rootPageId = invalidPageId
      · simp only [if_pos hr]
        exact same_startTree key rid
      · simp only [if_neg hr]
        refine (same_findLeaf _ _ _).bind fun found => (same_insertIntoLeaf _ _ _).bind fun split => ?_
        by_cases hs : split.rightPageId = invalidPageId
        · simp only [if_pos hs]
          exact same_pure ()
        · simp only [if_neg hs]
          exact same_insertUp _ _ _
  exact (hsame s).run 0

end Faulty
end Index
end OurSql
