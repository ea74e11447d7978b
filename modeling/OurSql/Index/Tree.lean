import OurSql.Index.BPlusTree
import OurSql.Lib.Fence
import OurSql.Lib.Heap

/-! Trees of a fixed height, the pages they stand for, and their invariant: sorted
leaves, bounded sizes, keys between the separators. -/
namespace OurSql
namespace Index

open Fence Heap

structure Leaf where
  id : PageId
  entries : List Entry

structure Node (α : Type) where
  id : PageId
  children : List (Key × α)

/-- Trees with all leaves `n` levels below the root. -/
def Tree : ℕ → Type
  | 0 => Leaf
  | n+1 => Node (Tree n)

structure Capacity where
  leafMax : ℕ
  internalMax : ℕ

/-- The capacities that `Insert` accepts. -/
structure Capacity.Valid (c : Capacity) : Prop where
  leaf_ge : 2 ≤ c.leafMax
  leaf_le : c.leafMax ≤ kPhysicalMaxSize
  internal_ge : 3 ≤ c.internalMax
  internal_le : c.internalMax ≤ kPhysicalMaxSize

namespace Tree

def leaf (id : PageId) (entries : List Entry) : Tree 0 := Leaf.mk id entries

def node {n : ℕ} (id : PageId) (children : List (Key × Tree n)) : Tree (n+1) := Node.mk id children

def id : {n : ℕ} → Tree n → PageId
  | 0, t => Leaf.id t
  | _+1, t => Node.id t

/-- Entries of the page of the root. -/
def size : {n : ℕ} → Tree n → ℕ
  | 0, t => (Leaf.entries t).length
  | _+1, t => (Node.children t).length

def leaves : {n : ℕ} → Tree n → List Leaf
  | 0, t => [t]
  | _+1, t => (Node.children t).flatMap fun x => leaves x.2

/-- All entries, from left to right. -/
def entries {n : ℕ} (t : Tree n) : List Entry := t.leaves.flatMap Leaf.entries

end Tree

variable {n : ℕ}

def leavesOf (cs : List (Key × Tree n)) : List Leaf := cs.flatMap fun x => x.2.leaves

def entriesOf (cs : List (Key × Tree n)) : List Entry := cs.flatMap fun x => x.2.entries

/-- The entries of an internal page with these children. -/
def routes (cs : List (Key × Tree n)) : List (Key × PageId) := cs.map fun x => (x.1,x.2.id)

/-- The page that the leaf before a list of leaves has to name as the next one. -/
def headId (next : PageId) : List Leaf → PageId
  | [] => next
  | l::_ => l.id

def Capacity.maxSize (c : Capacity) : ℕ → ℕ
  | 0 => c.leafMax
  | _+1 => c.internalMax

/-- The least size of a page that is not the root. -/
def Capacity.minSize (c : Capacity) (n : ℕ) : ℕ := (c.maxSize n + 1) / 2

namespace Tree

def page (c : Capacity) : {n : ℕ} → Tree n → PageId → PageId → IndexPage
  | 0, t, parent, next => .leaf ⟨c.leafMax,parent,next,Leaf.entries t⟩
  | _+1, t, parent, _ => .internal ⟨c.internalMax,parent,routes (Node.children t)⟩

end Tree

/-- The cells of neighbouring subtrees; each last leaf names the first leaf behind it. -/
def cellsWith (cells : Tree n → PageId → PageId → List (PageId × IndexPage))
    (parent next : PageId) : List (Key × Tree n) → List (PageId × IndexPage)
  | [] => []
  | x::rest => cells x.2 parent (headId next (leavesOf rest)) ++ cellsWith cells parent next rest

namespace Tree

/-- The pages of a tree whose root has this parent and whose last leaf has this next leaf. -/
def cells (c : Capacity) : {n : ℕ} → Tree n → PageId → PageId → List (PageId × IndexPage)
  | 0, t, parent, next => [(t.id,page c (n := 0) t parent next)]
  | n+1, t, parent, next =>
    (t.id,page c (n := n+1) t parent next) ::
      cellsWith (fun u => cells c u) (Tree.id (n := n+1) t) next (Node.children t)

/-- The invariant of a tree with keys from `lo` to `hi`, the least size of its own
root page left out. -/
def Body (c : Capacity) : {n : ℕ} → Tree n → Key → Key → Prop
  | 0, t, lo, hi => Sorted (Leaf.entries t) ∧ (Leaf.entries t).length ≤ c.leafMax ∧
      ∀ e ∈ Leaf.entries t, lo ≤ e.1 ∧ e.1 ≤ hi
  | n+1, t, lo, hi => (Node.children t).length ≤ c.internalMax ∧
      Fenced (fun (u : Tree n) lo hi => c.minSize n ≤ u.size ∧ Body c u lo hi) hi lo
        (Node.children t)

/-- The invariant of a tree below the root. -/
def Sound (c : Capacity) (t : Tree n) (lo hi : Key) : Prop := c.minSize n ≤ t.size ∧ t.Body c lo hi

end Tree

def cellsOf (c : Capacity) (parent next : PageId) (cs : List (Key × Tree n)) :
    List (PageId × IndexPage) := cellsWith (fun u => u.cells c) parent next cs

section Equations

variable (c) (p nx i : PageId) (es : List Entry) (cs ds : List (Key × Tree n)) (lo hi : Key)

@[simp] theorem id_leaf : (Tree.leaf i es).id = i := rfl

@[simp] theorem id_node : (Tree.node i cs).id = i := rfl

@[simp] theorem size_leaf : (Tree.leaf i es).size = es.length := rfl

@[simp] theorem size_node : (Tree.node i cs).size = cs.length := rfl

@[simp] theorem leaves_leaf : (Tree.leaf i es).leaves = [⟨i,es⟩] := rfl

@[simp] theorem leaves_node : (Tree.node i cs).leaves = leavesOf cs := rfl

@[simp] theorem entries_leaf : (Tree.leaf i es).entries = es := List.append_nil es

@[simp] theorem entries_node : (Tree.node i cs).entries = entriesOf cs := by
  simp [Tree.entries,entriesOf,leavesOf,List.flatMap_assoc]

@[simp] theorem page_leaf : (Tree.leaf i es).page c p nx = .leaf ⟨c.leafMax,p,nx,es⟩ := rfl

@[simp] theorem page_node :
    (Tree.node i cs).page c p nx = .internal ⟨c.internalMax,p,routes cs⟩ := rfl

@[simp] theorem cells_leaf : (Tree.leaf i es).cells c p nx =
    [(i,.leaf ⟨c.leafMax,p,nx,es⟩)] := rfl

@[simp] theorem cells_node : (Tree.node i cs).cells c p nx =
    (i,.internal ⟨c.internalMax,p,routes cs⟩) :: cellsOf c i nx cs := rfl

@[simp] theorem body_leaf : (Tree.leaf i es).Body c lo hi ↔
    Sorted es ∧ es.length ≤ c.leafMax ∧ ∀ e ∈ es, lo ≤ e.1 ∧ e.1 ≤ hi := Iff.rfl

@[simp] theorem body_node : (Tree.node i cs).Body c lo hi ↔
    cs.length ≤ c.internalMax ∧ Fenced (Tree.Sound c) hi lo cs := Iff.rfl

theorem sound_leaf : (Tree.leaf i es).Sound c lo hi ↔ (c.leafMax + 1) / 2 ≤ es.length ∧
    Sorted es ∧ es.length ≤ c.leafMax ∧ ∀ e ∈ es, lo ≤ e.1 ∧ e.1 ≤ hi := Iff.rfl

theorem sound_node : (Tree.node i cs).Sound c lo hi ↔ (c.internalMax + 1) / 2 ≤ cs.length ∧
    cs.length ≤ c.internalMax ∧ Fenced (Tree.Sound c) hi lo cs := Iff.rfl

@[simp] theorem leavesOf_nil : leavesOf ([] : List (Key × Tree n)) = [] := rfl

@[simp] theorem leavesOf_cons (x : Key × Tree n) :
    leavesOf (x::cs) = x.2.leaves ++ leavesOf cs := List.flatMap_cons

@[simp] theorem leavesOf_append : leavesOf (cs ++ ds) = leavesOf cs ++ leavesOf ds :=
  List.flatMap_append

@[simp] theorem entriesOf_nil : entriesOf ([] : List (Key × Tree n)) = [] := rfl

@[simp] theorem entriesOf_cons (x : Key × Tree n) :
    entriesOf (x::cs) = x.2.entries ++ entriesOf cs := List.flatMap_cons

@[simp] theorem entriesOf_append : entriesOf (cs ++ ds) = entriesOf cs ++ entriesOf ds :=
  List.flatMap_append

@[simp] theorem routes_nil : routes ([] : List (Key × Tree n)) = [] := rfl

@[simp] theorem routes_cons (x : Key × Tree n) : routes (x::cs) = (x.1,x.2.id)::routes cs := rfl

@[simp] theorem routes_append : routes (cs ++ ds) = routes cs ++ routes ds := List.map_append

@[simp] theorem length_routes : (routes cs).length = cs.length := List.length_map _

@[simp] theorem headId_nil : headId nx [] = nx := rfl

@[simp] theorem headId_append (ls ms : List Leaf) :
    headId nx (ls ++ ms) = headId (headId nx ms) ls := by
  cases ls <;> rfl

theorem headId_eq {ls : List Leaf} (h : ls ≠ []) (nx nx' : PageId) :
    headId nx ls = headId nx' ls := by
  cases ls with
  | nil => exact absurd rfl h
  | cons l ls => rfl

@[simp] theorem cellsOf_nil : cellsOf c p nx ([] : List (Key × Tree n)) = [] := rfl

@[simp] theorem cellsOf_cons (x : Key × Tree n) : cellsOf c p nx (x::cs) =
    x.2.cells c p (headId nx (leavesOf cs)) ++ cellsOf c p nx cs := rfl

@[simp] theorem cellsOf_append : cellsOf c p nx (cs ++ ds) =
    cellsOf c p (headId nx (leavesOf ds)) cs ++ cellsOf c p nx ds := by
  induction cs with
  | nil => rfl
  | cons x cs ih => simp [ih]

end Equations

theorem Tree.exists_leaf (t : Tree 0) : ∃ i es, t = Tree.leaf i es := ⟨_,_,rfl⟩

theorem Tree.exists_node (t : Tree (n+1)) : ∃ i cs, t = Tree.node i cs := ⟨_,_,rfl⟩

/-- The pages below the root do not depend on its parent. -/
def Tree.under (c : Capacity) (t : Tree n) (next : PageId) : List (PageId × IndexPage) :=
  (t.cells c 0 next).tail

theorem Tree.cells_eq (c : Capacity) (t : Tree n) (parent next : PageId) :
    t.cells c parent next = (t.id,t.page c parent next) :: t.under c next := by
  cases n <;> rfl

end Index
end OurSql
