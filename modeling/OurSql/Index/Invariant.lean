import OurSql.Index.Tree
import Mathlib.Tactic.Ring

/-! What the invariant of a tree gives: its pages pass `Validate`, its entries are in
key order between its bounds, and its leaves are linked in order. -/
namespace OurSql
namespace Index

open Fence Heap

variable {n : ℕ} {c : Capacity} {t : Tree n} {cs : List (Key × Tree n)}
  {parent next i : PageId} {lo hi lo' hi' k : Key} {es : List Entry}

theorem Capacity.Valid.minSize_pos (hc : c.Valid) (n : ℕ) : 0 < c.minSize n := by
  have h1 := hc.leaf_ge
  have h2 := hc.internal_ge
  cases n <;> simp only [Capacity.minSize,Capacity.maxSize] <;> omega

theorem Capacity.Valid.two_le_minSize (hc : c.Valid) (n : ℕ) : 2 ≤ c.minSize (n+1) := by
  have h2 := hc.internal_ge
  simp only [Capacity.minSize,Capacity.maxSize]
  omega

theorem Tree.Body.widen (h : t.Body c lo hi) (hlo : lo' ≤ lo) (hhi : hi ≤ hi') :
    t.Body c lo' hi' := by
  induction n generalizing lo hi lo' hi' with
  | zero =>
    obtain ⟨i,es,rfl⟩ := t.exists_leaf
    exact ⟨h.1,h.2.1,fun e he => ⟨le_trans hlo (h.2.2 e he).1,le_trans (h.2.2 e he).2 hhi⟩⟩
  | succ n ih =>
    obtain ⟨i,cs,rfl⟩ := t.exists_node
    rw [body_node] at h ⊢
    exact ⟨h.1,h.2.widen (fun u _ _ _ _ hu h1 h2 => ⟨hu.1,ih hu.2 h1 h2⟩) hlo hhi⟩

theorem Tree.Sound.widen (h : t.Sound c lo hi) (hlo : lo' ≤ lo) (hhi : hi ≤ hi') :
    t.Sound c lo' hi' := ⟨h.1,h.2.widen hlo hhi⟩

theorem ne_nil_of_size (hc : c.Valid) {n : ℕ} {es : List (Key × Tree n)}
    (h : c.minSize (n+1) ≤ es.length) : es ≠ [] := by
  have hm := hc.minSize_pos (n+1)
  rintro rfl
  simp at h
  omega

/-- The bounds of a tree below the root are in order, as it has an entry. -/
theorem Tree.Sound.le (hc : c.Valid) (h : t.Sound c lo hi) : lo ≤ hi := by
  induction n generalizing lo hi with
  | zero =>
    obtain ⟨i,es,rfl⟩ := t.exists_leaf
    have hm := hc.minSize_pos 0
    obtain ⟨hsize,hbody⟩ := h
    rw [size_leaf] at hsize
    rw [body_leaf] at hbody
    obtain ⟨-,-,hb⟩ := hbody
    cases es with
    | nil => simp at hsize; omega
    | cons e es => exact le_trans (hb e (by simp)).1 (hb e (by simp)).2
  | succ n ih =>
    obtain ⟨i,cs,rfl⟩ := t.exists_node
    exact h.2.2.le (fun _ _ _ => ih) (ne_nil_of_size hc h.1)

theorem Tree.Sound.leaves_ne_nil (hc : c.Valid) (h : t.Sound c lo hi) : t.leaves ≠ [] := by
  induction n generalizing lo hi with
  | zero =>
    obtain ⟨i,es,rfl⟩ := t.exists_leaf
    simp
  | succ n ih =>
    obtain ⟨i,cs,rfl⟩ := t.exists_node
    cases cs with
    | nil => exact absurd rfl (ne_nil_of_size hc h.1)
    | cons x cs =>
      have hx := ih h.2.2.1
      simp [hx]

theorem leavesOf_ne_nil (hc : c.Valid) (h : Fenced (Tree.Sound c) hi lo cs) (hcs : cs ≠ []) :
    leavesOf cs ≠ [] := by
  cases cs with
  | nil => exact absurd rfl hcs
  | cons x cs =>
    have hx := h.1.leaves_ne_nil hc
    simp [hx]

/-- Neighbouring subtrees keep their entries in key order between the bounds. -/
theorem entriesOf_ordered (hP : ∀ (u : Tree n) lo hi, u.Sound c lo hi →
      u.entries.Pairwise (·.1 ≤ ·.1) ∧ ∀ e ∈ u.entries, lo ≤ e.1 ∧ e.1 ≤ hi)
    (hc : c.Valid) (h : Fenced (Tree.Sound c) hi lo cs) :
    (entriesOf cs).Pairwise (·.1 ≤ ·.1) ∧ ∀ e ∈ entriesOf cs, lo ≤ e.1 ∧ e.1 ≤ hi := by
  induction cs generalizing lo with
  | nil => simp
  | cons x cs ih =>
    obtain ⟨hx,hcs⟩ := h
    obtain ⟨hxs,hxb⟩ := hP _ _ _ hx
    obtain ⟨hs,hb⟩ := ih hcs
    have hlo := hx.le hc
    have hu : cs ≠ [] → upper hi cs ≤ hi := fun hne => hcs.le (fun _ _ _ h => h.le hc) hne
    have hu' : upper hi cs ≤ hi := by
      by_cases hne : cs = []
      · rw [hne,upper_nil]
      · exact hu hne
    rw [entriesOf_cons]
    refine ⟨List.pairwise_append.mpr ⟨hxs,hs,fun a ha b hb' => ?_⟩,fun e he => ?_⟩
    · exact le_trans (hxb a ha).2 (hb b hb').1
    · rcases List.mem_append.mp he with he | he
      · exact ⟨(hxb e he).1,le_trans (hxb e he).2 hu'⟩
      · exact ⟨le_trans hlo (hb e he).1,(hb e he).2⟩

theorem Tree.Body.ordered (hc : c.Valid) (h : t.Body c lo hi) :
    t.entries.Pairwise (·.1 ≤ ·.1) ∧ ∀ e ∈ t.entries, lo ≤ e.1 ∧ e.1 ≤ hi := by
  induction n generalizing lo hi with
  | zero =>
    obtain ⟨i,es,rfl⟩ := t.exists_leaf
    rw [entries_leaf]
    exact ⟨h.1.imp entryLe.key_le,h.2.2⟩
  | succ n ih =>
    obtain ⟨i,cs,rfl⟩ := t.exists_node
    rw [entries_node]
    exact entriesOf_ordered (fun u _ _ hu => ih hu.2) hc h.2

theorem fenced_ordered (hc : c.Valid) (h : Fenced (Tree.Sound c) hi lo cs) :
    (entriesOf cs).Pairwise (·.1 ≤ ·.1) ∧ ∀ e ∈ entriesOf cs, lo ≤ e.1 ∧ e.1 ≤ hi :=
  entriesOf_ordered (fun _ _ _ hu => hu.2.ordered hc) hc h

theorem Tree.Sound.entries_ne_nil (hc : c.Valid) (h : t.Sound c lo hi) : t.entries ≠ [] := by
  induction n generalizing lo hi with
  | zero =>
    obtain ⟨i,es,rfl⟩ := t.exists_leaf
    have hm := hc.minSize_pos 0
    have hsize := h.1
    rw [entries_leaf]
    rintro rfl
    simp at hsize
    omega
  | succ n ih =>
    obtain ⟨i,cs,rfl⟩ := t.exists_node
    cases cs with
    | nil => exact absurd rfl (ne_nil_of_size hc h.1)
    | cons x cs =>
      have hx := ih h.2.2.1
      simp [hx]

/-! ### Pages -/

theorem toLeaf_leaf (hc : c.Valid) (hs : Sorted es) (hl : es.length ≤ c.leafMax) :
    (IndexPage.leaf ⟨c.leafMax,parent,next,es⟩).toLeaf = .ok ⟨c.leafMax,parent,next,es⟩ := by
  have h1 := hc.leaf_ge
  have h2 := hc.leaf_le
  have h3 := keysInOrder_of_sorted hs
  have hv : (⟨c.leafMax,parent,next,es⟩ : LeafPage).validate = .ok () := by
    simp only [LeafPage.validate,h3]
    grind
  simp [IndexPage.toLeaf,hv]

theorem toInternal_internal (hc : c.Valid) (hl : cs.length ≤ c.internalMax)
    (hf : Fenced (Tree.Sound c) hi lo cs) :
    (IndexPage.internal ⟨c.internalMax,parent,routes cs⟩).toInternal =
      .ok ⟨c.internalMax,parent,routes cs⟩ := by
  have h1 := hc.internal_ge
  have h2 := hc.internal_le
  have h3 : separatorsInOrder (routes cs).tail = true := by
    apply separatorsInOrder_of_pairwise
    have hp := hf.pairwise_tail fun _ _ _ h => h.le hc
    simpa [routes,← List.map_tail,List.pairwise_map] using hp
  have hv : (⟨c.internalMax,parent,routes cs⟩ : InternalPage).validate = .ok () := by
    simp only [InternalPage.validate,h3,length_routes]
    grind
  simp [IndexPage.toInternal,hv]

@[simp] theorem toLeaf_internal (page : InternalPage) : (IndexPage.internal page).toLeaf =
    fail .internalError "页面不是有效的B+树叶子页" := rfl

theorem Tree.id_mem_cells (c : Capacity) (t : Tree n) (parent next : PageId) :
    t.id ∈ (t.cells c parent next).map Prod.fst := by
  simp [t.cells_eq]

theorem id_mem_cellsOf {x : Key × Tree n} (hx : x ∈ cs) :
    x.2.id ∈ (cellsOf c parent next cs).map Prod.fst := by
  obtain ⟨as,bs,rfl⟩ := List.append_of_mem hx
  simp [Tree.cells_eq]

/-- Where a leaf of a tree stands, its page names the next leaf. -/
theorem leaf_mem_cellsOf (parent next : PageId) {A B : List Leaf} {l : Leaf}
    (hP : ∀ (u : Tree n) (A B : List Leaf) (parent next : PageId), u.leaves = A ++ l::B →
      ∃ p, (l.id,IndexPage.leaf ⟨c.leafMax,p,headId next B,l.entries⟩) ∈ u.cells c parent next)
    (h : leavesOf cs = A ++ l::B) :
    ∃ p, (l.id,IndexPage.leaf ⟨c.leafMax,p,headId next B,l.entries⟩) ∈
      cellsOf c parent next cs := by
  induction cs generalizing A with
  | nil => simp at h
  | cons x cs ih =>
    rw [leavesOf_cons] at h
    rcases List.append_eq_append_iff.mp h with ⟨A',-,h'⟩ | ⟨B',h',hB⟩
    · obtain ⟨p,hp⟩ := ih h'
      exact ⟨p,by simp [hp]⟩
    · cases B' with
      | nil =>
        have h'' : leavesOf cs = [] ++ l::B := by simpa using hB.symm
        obtain ⟨p,hp⟩ := ih h''
        exact ⟨p,by simp [hp]⟩
      | cons m B' =>
        obtain ⟨rfl,rfl⟩ : l = m ∧ B = B' ++ leavesOf cs := by simpa using hB
        obtain ⟨p,hp⟩ := hP x.2 A B' parent (headId next (leavesOf cs)) h'
        exact ⟨p,by simp [hp]⟩

theorem Tree.leaf_mem_cells {A B : List Leaf} {l : Leaf} (h : t.leaves = A ++ l::B) :
    ∃ p, (l.id,IndexPage.leaf ⟨c.leafMax,p,headId next B,l.entries⟩) ∈ t.cells c parent next := by
  induction n generalizing A B parent next with
  | zero =>
    obtain ⟨i,es,rfl⟩ := t.exists_leaf
    rw [leaves_leaf] at h
    cases A with
    | nil =>
      obtain ⟨rfl,rfl⟩ : ⟨i,es⟩ = l ∧ [] = B := by simpa using h
      exact ⟨parent,by simp⟩
    | cons a A => simp at h
  | succ n ih =>
    obtain ⟨i,cs,rfl⟩ := t.exists_node
    obtain ⟨p,hp⟩ := leaf_mem_cellsOf (c := c) i next
      (fun u A B parent next hu => ih hu) (by simpa using h)
    exact ⟨p,by simp [hp]⟩

end Index
end OurSql
