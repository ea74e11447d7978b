import OurSql.Lock.Modes

/-! The page guards of a thread while an operation runs, and the page locks it asks for
meanwhile. What the buffer pool and the lock manager answer may be anything and may change
from call to call, so the runs cover whatever other threads do to the pages. -/
namespace OurSql
namespace Latch
open Lock

/-- The answers to the calls of an operation, by the number of the call. -/
structure World (C : Type) where
  page : ℕ → PageId → Result C
  /-- `none`: the transaction is not usable, so the lock manager is not asked. -/
  lock : ℕ → PageId → LockMode → Option Status
  allocate : ℕ → Result PageId
  status : ℕ → Status

structure Request where
  pageId : PageId
  mode : LockMode
  held : List PageId
  deriving DecidableEq, Repr

/-- What a thread has done: its calls so far, the guards it holds, its lock requests with
the guards held at each. -/
structure Thread (σ : Type) where
  object : σ
  calls : ℕ
  held : List PageId
  requests : List Request

/-- An operation on an object over pages with content `C`. -/
def Op (C σ α : Type) : Type := World C → Thread σ → Result α × Thread σ

variable {C σ α β : Type}

def Op.pure (a : α) : Op C σ α := fun _ s => (.ok a,s)

/-- A failed `Status` is returned at once. -/
def Op.bind (m : Op C σ α) (f : α → Op C σ β) : Op C σ β := fun w s =>
  match m w s with
  | (.ok a,s) => f a w s
  | (.error e,s) => (.error e,s)

instance : Monad (Op C σ) where
  pure := Op.pure
  bind := Op.bind

def ofResult (r : Result α) : Op C σ α := fun _ s => (r,s)

def failWith (code : ErrorCode) (message : String) : Op C σ α := ofResult (fail code message)

def getObject : Op C σ σ := fun _ s => (.ok s.object,s)

def modifyObject (f : σ → σ) : Op C σ Unit := fun _ s => (.ok (),{ s with object := f s.object })

/-- A call of the buffer pool that asks for no lock. -/
def poolCall (answer : World C → ℕ → Result α) : Op C σ α := fun w s =>
  (answer w s.calls,{ s with calls := s.calls + 1 })

/-- The destructors of the guards at the end of a block or at a return out of it. -/
def block (m : Op C σ α) : Op C σ α := fun w s => ((m w s).1,{ (m w s).2 with held := s.held })

/-- A status that the caller looks at, or drops, instead of returning it. -/
def attempt (m : Op C σ α) : Op C σ (Result α) := fun w s => (.ok (m w s).1,(m w s).2)

def hold (p : PageId) : Op C σ Unit := fun _ s => (.ok (),{ s with held := p :: s.held })

def unusable : Failure :=
  ⟨.invalidArgument,"transactional page access requires an Active transaction"⟩

/-- `AcquirePageLock`; without a transaction there is nothing to lock. -/
def acquirePageLock (txn : Bool) (p : PageId) (mode : LockMode) : Op C σ Unit := fun w s =>
  if !txn then (.ok (),s)
  else match w.lock s.calls p mode with
    | none => (.error unusable,{ s with calls := s.calls + 1 })
    | some answer => (answer,{ s with
        calls := s.calls + 1, requests := ⟨p,mode,s.held⟩ :: s.requests })

/-- Both fetches: the lock first, then the page under its guard. -/
def fetchAs (mode : LockMode) (txn : Bool) (p : PageId) : Op C σ C := do
  acquirePageLock txn p mode
  let content ← poolCall fun w n => w.page n p
  hold p
  return content

def fetchPage (txn : Bool) (p : PageId) : Op C σ C := fetchAs .S txn p

def fetchPageWrite (txn : Bool) (p : PageId) : Op C σ C := fetchAs .X txn p

/-- `NewPage`: the lock comes after the frame and the page on disk, the log record after
the lock. -/
def newPage (txn : Bool) : Op C σ PageId := do
  let p ← poolCall fun w n => w.allocate n
  acquirePageLock txn p .X
  poolCall fun w n => w.status n
  hold p
  return p

/-- `Release`, or `FinalizeWrite`, which marks the page before it. -/
def release (p : PageId) : Op C σ Unit := fun w s =>
  (w.status s.calls,{ s with calls := s.calls + 1, held := s.held.erase p })

def deletePage (txn : Bool) (p : PageId) : Op C σ Unit := do
  acquirePageLock txn p .X
  poolCall fun w n => w.status n

/-! ### Requests without a guard -/

/-- No lock was asked for while a guard was held. -/
def Thread.Clean (s : Thread σ) : Prop := ∀ r ∈ s.requests, r.held = []

structure Thread.Idle (s : Thread σ) : Prop where
  held : s.held = []
  clean : s.Clean

/-- The operation asks for no lock, and what it returns satisfies `Q`. -/
def Still (w : World C) (Q : α → Prop) (m : Op C σ α) : Prop :=
  ∀ s, (m w s).2.requests = s.requests ∧ ∀ a, (m w s).1 = .ok a → Q a

/-- From no guard on, the operation asks for locks without a guard. -/
def Tidy (w : World C) (Q : α → Prop) (m : Op C σ α) : Prop :=
  ∀ s, s.Idle → (m w s).2.Clean ∧ ∀ a, (m w s).1 = .ok a → Q a

/-- The same, and it ends without a guard. -/
def Quiet (w : World C) (Q : α → Prop) (m : Op C σ α) : Prop :=
  ∀ s, s.Idle → (m w s).2.Idle ∧ ∀ a, (m w s).1 = .ok a → Q a

/-- With the guard of one page held, no lock is asked for until it is given back. -/
def Under (w : World C) (p : PageId) (Q : α → Prop) (m : Op C σ α) : Prop :=
  ∀ s, s.held = [p] → s.Clean → (m w s).2.Clean ∧ ∀ a, (m w s).1 = .ok a → Q a

section rules

variable {w : World C} {P : α → Prop} {Q : β → Prop} {R : α → Prop} {m : Op C σ α}
  {f : α → Op C σ β} {a : α} {p : PageId} {txn : Bool}

theorem bind_ok {s s' : Thread σ} (h : m w s = (.ok a,s')) : (m >>= f) w s = f a w s' := by
  change Op.bind m f w s = _
  simp only [Op.bind,h]

theorem bind_error {s s' : Thread σ} {e : Failure} (h : m w s = (.error e,s')) :
    (m >>= f) w s = (.error e,s') := by
  change Op.bind m f w s = _
  simp only [Op.bind,h]

theorem Still.pure (h : R a) : Still w R (pure a : Op C σ α) := fun _ =>
  ⟨rfl,fun _ he => by cases he; exact h⟩

theorem Still.ofResult {r : Result α} (h : ∀ a, r = .ok a → R a) :
    Still w R (ofResult r : Op C σ α) := fun _ => ⟨rfl,h⟩

theorem Still.fail {code : ErrorCode} {message : String} :
    Still w R (failWith code message : Op C σ α) := fun _ => ⟨rfl,fun _ he => by cases he⟩

theorem Still.bind (hm : Still w P m) (hf : ∀ a, P a → Still w Q (f a)) : Still w Q (m >>= f) := by
  intro s
  obtain ⟨hr,hp⟩ := hm s
  cases hx : m w s with
  | mk r t =>
    rw [hx] at hr hp
    cases r with
    | error e =>
      rw [bind_error hx]
      exact ⟨hr,fun _ he => by cases he⟩
    | ok a =>
      rw [bind_ok hx]
      obtain ⟨hr',hq⟩ := hf a (hp a rfl) t
      exact ⟨hr'.trans hr,hq⟩

theorem Still.release : Still w (fun _ => True) (release p : Op C σ Unit) := fun _ =>
  ⟨rfl,fun _ _ => trivial⟩

theorem Still.hold : Still w (fun _ => True) (hold p : Op C σ Unit) := fun _ =>
  ⟨rfl,fun _ _ => trivial⟩

theorem Still.poolCall {answer : World C → ℕ → Result α} :
    Still w (fun a => ∃ n, answer w n = .ok a) (poolCall answer : Op C σ α) := fun s =>
  ⟨rfl,fun _ he => ⟨s.calls,he⟩⟩

theorem Still.attempt (hm : Still w P m) : Still w (fun _ => True) (attempt m) := fun s =>
  ⟨(hm s).1,fun _ _ => trivial⟩

theorem Still.weaken (hm : Still w P m) (h : ∀ a, P a → R a) : Still w R m := fun s =>
  ⟨(hm s).1,fun a he => h a ((hm s).2 a he)⟩

theorem Quiet.pure (h : R a) : Quiet w R (pure a : Op C σ α) := fun _ hs =>
  ⟨hs,fun _ he => by cases he; exact h⟩

theorem Quiet.ofResult {r : Result α} (h : ∀ a, r = .ok a → R a) :
    Quiet w R (ofResult r : Op C σ α) := fun _ hs => ⟨hs,h⟩

theorem Quiet.fail {code : ErrorCode} {message : String} :
    Quiet w R (failWith code message : Op C σ α) := fun _ hs => ⟨hs,fun _ he => by cases he⟩

theorem Quiet.bind (hm : Quiet w P m) (hf : ∀ a, P a → Quiet w Q (f a)) : Quiet w Q (m >>= f) := by
  intro s hs
  obtain ⟨hr,hp⟩ := hm s hs
  cases hx : m w s with
  | mk r t =>
    rw [hx] at hr hp
    cases r with
    | error e =>
      rw [bind_error hx]
      exact ⟨hr,fun _ he => by cases he⟩
    | ok a =>
      rw [bind_ok hx]
      exact hf a (hp a rfl) t hr

theorem Quiet.getObject : Quiet w (fun _ => True) (getObject : Op C σ σ) := fun _ hs =>
  ⟨hs,fun _ _ => trivial⟩

theorem Quiet.modifyObject {g : σ → σ} :
    Quiet w (fun _ => True) (modifyObject g : Op C σ Unit) := fun _ hs =>
  ⟨⟨hs.held,hs.clean⟩,fun _ _ => trivial⟩

/-- A call that takes no guard. -/
theorem Quiet.poolCall {answer : World C → ℕ → Result α} :
    Quiet w (fun _ => True) (poolCall answer : Op C σ α) := fun _ hs =>
  ⟨⟨hs.held,hs.clean⟩,fun _ _ => trivial⟩

theorem Quiet.acquire {mode : LockMode} :
    Quiet w (fun _ => True) (acquirePageLock txn p mode : Op C σ Unit) := by
  intro s hs
  refine ⟨?_,fun _ _ => trivial⟩
  unfold acquirePageLock
  split
  · exact hs
  · split
    · exact ⟨hs.held,hs.clean⟩
    · exact ⟨hs.held,List.forall_mem_cons.mpr ⟨hs.held,hs.clean⟩⟩

theorem Quiet.deletePage : Quiet w (fun _ => True) (deletePage txn p : Op C σ Unit) :=
  Quiet.acquire.bind fun _ _ => Quiet.poolCall

theorem Quiet.tidy (hm : Quiet w P m) : Tidy w P m := fun s hs => ⟨(hm s hs).1.clean,(hm s hs).2⟩

/-- What follows a guard may ask for no lock. -/
theorem Tidy.bind (hm : Tidy w P m) (hf : ∀ a, P a → Still w Q (f a)) : Tidy w Q (m >>= f) := by
  intro s hs
  obtain ⟨hr,hp⟩ := hm s hs
  cases hx : m w s with
  | mk r t =>
    rw [hx] at hr hp
    cases r with
    | error e =>
      rw [bind_error hx]
      exact ⟨hr,fun _ he => by cases he⟩
    | ok a =>
      rw [bind_ok hx]
      obtain ⟨hr',hq⟩ := hf a (hp a rfl) t
      exact ⟨fun r hmem => hr r (hr' ▸ hmem),hq⟩

/-- A block gives its guards back however it is left. -/
theorem Tidy.block (hm : Tidy w P m) : Quiet w P (block m) := fun s hs =>
  ⟨⟨hs.held,(hm s hs).1⟩,(hm s hs).2⟩

theorem Still.under (hm : Still w P m) : Under w p P m := fun s _ hs =>
  ⟨fun r hr => hs r ((hm s).1 ▸ hr),(hm s).2⟩

/-- From no guard on, a fetch fails without one or ends under the guard of its page; in a
transaction the page is read by the second call. -/
theorem fetchAs_cases {mode : LockMode} {s : Thread σ} (hs : s.Idle) :
    (∃ e t, (fetchAs mode txn p : Op C σ C) w s = (.error e,t) ∧ t.Idle) ∨
      ∃ c t n, (fetchAs mode txn p : Op C σ C) w s = (.ok c,t) ∧ t.held = [p] ∧ t.Clean ∧
        w.page n p = .ok c ∧ (txn = true → n = s.calls + 1) := by
  have hlock : Quiet w (fun _ => True) (acquirePageLock txn p mode : Op C σ Unit) := Quiet.acquire
  obtain ⟨hidle,-⟩ := hlock s hs
  have hcalls : txn = true →
      ((acquirePageLock txn p mode : Op C σ Unit) w s).2.calls = s.calls + 1 := by
    rintro rfl
    unfold acquirePageLock
    rw [if_neg (by simp)]
    split <;> rfl
  cases hx : (acquirePageLock txn p mode : Op C σ Unit) w s with
  | mk r t =>
    rw [hx] at hidle hcalls
    cases r with
    | error e => exact .inl ⟨e,t,bind_error hx,hidle⟩
    | ok u =>
      cases hpage : w.page t.calls p with
      | error e =>
        have hcall : (poolCall fun w n => w.page n p : Op C σ C) w t =
            (.error e,{ t with calls := t.calls + 1 }) := congrArg (·,_) hpage
        exact .inl ⟨e,_,(bind_ok hx).trans (bind_error hcall),hidle.held,hidle.clean⟩
      | ok c =>
        have hcall : (poolCall fun w n => w.page n p : Op C σ C) w t =
            (.ok c,{ t with calls := t.calls + 1 }) := congrArg (·,_) hpage
        exact .inr ⟨c,_,_,(bind_ok hx).trans ((bind_ok hcall).trans rfl),
          congrArg (p :: ·) hidle.held,hidle.clean,hpage,hcalls⟩

/-- What follows the guard of a fetch may ask for no lock before that guard is back. -/
theorem Under.fetchAs {mode : LockMode} {f : C → Op C σ β}
    (hf : ∀ c n, w.page n p = .ok c → Under w p Q (f c)) :
    Tidy w Q (Latch.fetchAs mode txn p >>= f) := by
  intro s hs
  rcases fetchAs_cases hs with ⟨e,t,he,ht⟩ | ⟨c,t,n,hc,hheld,hclean,hpage,-⟩
  · rw [bind_error he]
    exact ⟨ht.clean,fun _ he => by cases he⟩
  · rw [bind_ok hc]
    exact hf c n hpage t hheld hclean

theorem tidy_newPage : Tidy w (fun _ => True) (newPage txn : Op C σ PageId) := by
  unfold newPage
  intro s hs
  have h : Quiet w (fun _ => True) (poolCall fun w n => w.allocate n : Op C σ PageId) :=
    Quiet.poolCall
  obtain ⟨hr,-⟩ := h s hs
  cases hx : (poolCall fun w n => w.allocate n : Op C σ PageId) w s with
  | mk r t =>
    rw [hx] at hr
    cases r with
    | error e =>
      rw [bind_error hx]
      exact ⟨hr.clean,fun _ _ => trivial⟩
    | ok p =>
      rw [bind_ok hx]
      refine Tidy.bind Quiet.acquire.tidy (fun _ _ => ?_) t hr
      refine Still.bind (Still.poolCall.weaken fun _ _ => trivial) fun _ (_ : True) => ?_
      exact Still.bind Still.hold fun _ _ => Still.pure trivial

/-- Without a transaction a fetch asks for no lock. -/
theorem Still.fetchPage :
    Still w (fun c => ∃ n, w.page n p = .ok c) (fetchPage false p : Op C σ C) := by
  refine Still.bind (P := fun _ => True) (fun s => ⟨rfl,fun _ _ => trivial⟩) fun _ _ => ?_
  refine Still.bind Still.poolCall fun c hc => ?_
  exact Still.bind Still.hold fun _ _ => Still.pure hc

theorem Under.ofResult_bind {r : Result α} (hf : ∀ a, r = .ok a → Under w p Q (f a)) :
    Under w p Q (ofResult r >>= f) := by
  cases r with
  | error e => exact fun s _ hs => ⟨hs,fun _ he => by cases he⟩
  | ok a => exact hf a rfl

/-- The guard is given back before the next lock is asked for. -/
theorem Tidy.handover (hm : Tidy w P m) :
    Under w p P ((Latch.attempt (Latch.release p) : Op C σ (Result Unit)) >>= fun _ => m) :=
  fun s hheld hs =>
    have herase : s.held.erase p = [] := by rw [hheld,List.erase_cons_head]
    hm _ ⟨herase,hs⟩

/-- The usual block: one page under a guard, and no lock below it. -/
theorem Quiet.read {f : C → Op C σ β} (hf : ∀ c n, w.page n p = .ok c → Still w Q (f c)) :
    Quiet w Q (block (fetchPage txn p >>= f)) :=
  (Under.fetchAs fun c n hn => (hf c n hn).under).block

theorem Quiet.write {f : C → Op C σ β} (hf : ∀ c n, w.page n p = .ok c → Still w Q (f c)) :
    Quiet w Q (block (fetchPageWrite txn p >>= f)) :=
  (Under.fetchAs fun c n hn => (hf c n hn).under).block

/-- The same block from one state, where the page is read by the second call. -/
theorem Thread.Idle.write {s : Thread σ} {f : C → Op C σ β} (hs : s.Idle)
    (hf : ∀ c, w.page (s.calls + 1) p = .ok c → Still w Q (f c)) :
    (block (fetchPageWrite true p >>= f) w s).2.Idle ∧
      ∀ b, (block (fetchPageWrite true p >>= f) w s).1 = .ok b → Q b := by
  have hmain : ((fetchPageWrite true p >>= f) w s).2.Clean ∧
      ∀ b, ((fetchPageWrite true p >>= f) w s).1 = .ok b → Q b := by
    unfold fetchPageWrite
    rcases fetchAs_cases hs with ⟨e,t,he,ht⟩ | ⟨c,t,n,hc,hheld,hclean,hpage,hn⟩
    · rw [bind_error he]
      exact ⟨ht.clean,fun _ he => by cases he⟩
    · rw [bind_ok hc]
      exact (hf c (hn rfl ▸ hpage)).under t hheld hclean
  exact ⟨⟨hs.held,hmain.1⟩,hmain.2⟩

theorem Quiet.create {f : PageId → Op C σ β} (hf : ∀ p, Still w Q (f p)) :
    Quiet w Q (block (newPage txn >>= f)) :=
  (tidy_newPage.bind fun p _ => hf p).block

end rules

end Latch
end OurSql
