import OurSql.Latch.BPlusTree
import OurSql.Latch.HeapTable

/-! A thread that works for a transaction, one operation after the other. Page locks are
asked for without a guard as long as no operation has to go on from a full page: `InsertRow`
fetches the next page of the chain, or makes a new one, under the guard of the full page,
`DeleteRow` fetches the emptied page under the guard of the page before it, and a leaf that
splits stays under its guard while the new page is locked. -/
namespace OurSql
namespace Latch
open Index (Key IndexPage)

/-- What the pages of the tables and of the trees answer during one operation. -/
structure Environment where
  heap : World SlottedPage
  index : World IndexPage

/-- The operations that take a transaction. -/
inductive Operation
  | insertRow (table : HeapTable) (encoded : Result (List UInt8))
  | deleteRow (table : HeapTable) (rid : RID)
  | newPage
  | insert (tree : Tree) (key : Key) (rid : RID)
  | remove (tree : Tree) (key : Key) (rid : RID)
  | getValue (tree : Tree) (key : Key)
  | rangeScan (tree : Tree) (lower upper : Key)
  | createPersistent (leafMaxSize internalMaxSize : ℕ)
  | openPersistent (header : PageId)
  | destroy (tree : Tree) (fuel : ℕ)

def Thread.new : Thread Unit := ⟨(),0,[],[]⟩

/-- The thread inside an operation of an object. -/
def Thread.enter {σ : Type} (s : Thread Unit) (object : σ) : Thread σ :=
  ⟨object,s.calls,s.held,s.requests⟩

def Thread.leave {σ : Type} (s : Thread σ) : Thread Unit := ⟨(),s.calls,s.held,s.requests⟩

/-- A tree before it is made or opened. -/
def Tree.unset : Tree := ⟨invalidPageId,invalidPageId,0,0⟩

/-- The guard that `NewPage` returns is given back before the next operation. -/
def Operation.exec (env : Environment) (s : Thread Unit) : Operation → Thread Unit
  | .insertRow table encoded => (table.insertRow true encoded env.heap s).2
  | .deleteRow table rid => (table.deleteRow true rid env.heap s).2
  | .newPage => (block (Latch.newPage true) env.heap s).2
  | .insert tree key rid => (Latch.insert key rid env.index (s.enter tree)).2.leave
  | .remove tree key rid => (Latch.remove key rid env.index (s.enter tree)).2.leave
  | .getValue tree key => (Latch.getValue true key env.index (s.enter tree)).2.leave
  | .rangeScan tree lower upper =>
    (Latch.rangeScan true lower upper env.index (s.enter tree)).2.leave
  | .createPersistent leafMaxSize internalMaxSize =>
    (Latch.createPersistent leafMaxSize internalMaxSize env.index (s.enter Tree.unset)).2.leave
  | .openPersistent header => (Latch.openPersistent header env.index (s.enter Tree.unset)).2.leave
  | .destroy tree fuel => (Latch.destroy fuel env.index (s.enter tree)).2.leave

/-- No operation goes on from a full page: the row has room in the first page, the row to
delete is there or cannot be deleted, the leaf takes the pair or has it. -/
def Operation.Fits (env : Environment) (s : Thread Unit) : Operation → Prop
  | .insertRow table encoded => ∀ record, encoded = .ok record →
    RoomFirst env.heap s table record.length
  | .deleteRow table rid => RowInFirst env.heap s table rid
  | .insert tree key rid => InsertFits env.index (s.enter tree) key rid
  | _ => True

/-- What one thread reaches by operations that fit, each with any answers. -/
inductive Run : Thread Unit → Prop
  | new : Run Thread.new
  | step {s : Thread Unit} {op : Operation} {env : Environment} :
    Run s → op.Fits env s → Run (op.exec env s)

variable {s : Thread Unit} {op : Operation} {env : Environment}

theorem Thread.Idle.enter {σ : Type} {object : σ} (h : s.Idle) : (s.enter object).Idle :=
  ⟨h.held,h.clean⟩

theorem Thread.Idle.leave {σ : Type} {t : Thread σ} (h : t.Idle) : t.leave.Idle := ⟨h.held,h.clean⟩

/-- From no guard on, an operation that fits asks for its locks without a guard and ends
without one. -/
theorem exec_idle (hs : s.Idle) (h : op.Fits env s) : (op.exec env s).Idle := by
  cases op with
  | insertRow table encoded => exact insertRow_idle hs h
  | deleteRow table rid => exact deleteRow_idle hs h
  | newPage => exact (tidy_newPage.block s hs).1
  | insert tree key rid => exact (insert_idle hs.enter h).leave
  | remove tree key rid => exact (calm_remove _ hs.enter).1.leave
  | getValue tree key => exact (calm_getValue _ hs.enter).1.leave
  | rangeScan tree lower upper => exact (calm_rangeScan _ hs.enter).1.leave
  | createPersistent => exact (calm_createPersistent _ hs.enter).1.leave
  | openPersistent header => exact (calm_openPersistent _ hs.enter).1.leave
  | destroy tree fuel => exact (calm_destroy _ hs.enter).1.leave

theorem Run.idle (h : Run s) : s.Idle := by
  induction h with
  | new => exact ⟨rfl,fun _ hr => by cases hr⟩
  | step _ hfits ih => exact exec_idle ih hfits

/-- Page locks are never awaited under a page guard in a run of operations that fit. -/
theorem locks_without_guard (h : Run s) : ∀ r ∈ s.requests, r.held = [] := h.idle.clean

/-- A page with nothing in it, and one with no room for a byte. -/
def emptyPage : SlottedPage := ⟨kPageType,32,4096,invalidPageId,(0,0,0),[]⟩

def fullPage : SlottedPage := ⟨kPageType,44,44,invalidPageId,(0,0,0),[⟨44,4052,kUsedSlot⟩]⟩

/-- Every page has the same content and every lock is granted. -/
def granted {C : Type} (content : C) : World C :=
  ⟨fun _ _ => .ok content,fun _ _ _ => some (.ok ()),fun _ => .ok 2,fun _ => .ok ()⟩

theorem locks_without_guard_insert : ∃ s, Run s ∧ s.requests = [⟨1,.X,[]⟩] ∧
    ∀ r ∈ s.requests, r.held = [] := by
  have hfits : (Operation.insertRow ⟨1⟩ (.ok [0])).Fits
      ⟨granted emptyPage,granted .blank⟩ Thread.new := by
    intro record hr page e hn he
    cases hr
    cases hn
    cases he
  have hrun := Run.new.step hfits
  exact ⟨_,hrun,rfl,locks_without_guard hrun⟩

/-- A table of one full page: the new page's lock is awaited under the guard of that page. -/
theorem insertRow_waits_under_guard : ¬ ∀ (op : Operation) (env : Environment),
    ∀ r ∈ (op.exec env Thread.new).requests, r.held = [] := by
  intro h
  have hrequests : ((Operation.insertRow ⟨1⟩ (.ok [0])).exec
      ⟨granted fullPage,granted .blank⟩ Thread.new).requests =
      [⟨2,.X,[1]⟩,⟨1,.X,[]⟩] := rfl
  have hheld := h (.insertRow ⟨1⟩ (.ok [0])) ⟨granted fullPage,granted .blank⟩ ⟨2,.X,[1]⟩
    (hrequests ▸ List.mem_cons_self)
  cases hheld

end Latch
end OurSql
