import OurSql.Index.Pool

/-! The descent to a leaf: it passes the first separator that is not smaller than the
key, so it ends in the leftmost leaf that may hold the key. -/
namespace OurSql
namespace Index

open Fence Heap

variable {n : ℕ} {c : Capacity} {t : Tree n} {cs : List (Key × Tree n)}
  {parent next i : PageId} {lo hi key : Key} {s : BPlusTree}
  {F : List (PageId × IndexPage)} {climb path : List PageId} {l : Leaf}

/-- The separators that the descent passes lie below the key, the next one does not. -/
structure Focus (key k : Key) (x : Tree n) (L R : List (Key × Tree n)) : Prop where
  before : ∀ y ∈ (L ++ [(k,x)]).tail, y.1 < key
  after : key ≤ upper key R

theorem Focus.lt {k : Key} {x : Tree n} {L R : List (Key × Tree n)} (h : Focus key k x L R)
    (hL : L ≠ []) : k < key := by
  cases L with
  | nil => exact absurd rfl hL
  | cons y L => exact h.before (k,x) (by simp)

theorem Focus.between {k : Key} {x : Tree n} {L R : List (Key × Tree n)}
    (h : Focus key k x L R) (hlo : lo ≤ key) (hhi : key ≤ hi) :
    lower lo k L ≤ key ∧ key ≤ upper hi R := by
  constructor
  · cases L with
    | nil => exact hlo
    | cons y L => exact le_of_lt (h.lt (by simp))
  · cases R with
    | nil => exact hhi
    | cons y R => exact h.after

theorem exists_focus (key : Key) (hcs : cs ≠ []) :
    ∃ L k x R, cs = L ++ (k,x)::R ∧ Focus key k x L R := by
  induction cs with
  | nil => exact absurd rfl hcs
  | cons y cs ih =>
    obtain ⟨k,y⟩ := y
    cases cs with
    | nil => exact ⟨[],k,y,[],rfl,⟨by simp,le_rfl⟩⟩
    | cons z cs =>
      by_cases hz : z.1 < key
      · obtain ⟨L,k',x,R,hsplit,hf⟩ := ih (by simp)
        refine ⟨(k,y)::L,k',x,R,by simp [hsplit],⟨fun w hw => ?_,hf.after⟩⟩
        cases L with
        | nil =>
          obtain ⟨rfl,rfl⟩ : z = (k',x) ∧ cs = R := by simpa using hsplit
          obtain rfl : w = (k',x) := by simpa using hw
          exact hz
        | cons v L =>
          obtain ⟨rfl,-⟩ : z = v ∧ cs = L ++ (k',x)::R := by simpa using hsplit
          rcases List.mem_cons.mp hw with rfl | hw
          · exact hz
          · exact hf.before w hw
      · exact ⟨[],k,y,z::cs,rfl,⟨by simp,not_lt.mp hz⟩⟩

theorem Focus.lookup {k : Key} {x : Tree n} {L R : List (Key × Tree n)}
    (h : Focus key k x L R) : lookup key (routes (L ++ (k,x)::R)) = x.id := by
  induction L with
  | nil =>
    cases R with
    | nil => rfl
    | cons z R =>
      have hz : ¬ z.1 < key := not_lt.mpr h.after
      simp [Index.lookup,hz]
  | cons y L ih =>
    have htail : ∀ w ∈ L ++ [(k,x)], w.1 < key := h.before
    have ih := ih ⟨fun w hw => htail w (List.mem_of_mem_tail hw),h.after⟩
    cases L with
    | nil =>
      have hk : k < key := htail (k,x) (by simp)
      simpa [Index.lookup,hk] using ih
    | cons z L =>
      have hz : z.1 < key := htail z (by simp)
      simpa [Index.lookup,hz] using ih

/-- The leaf the descent ends in, and the pages it has passed, the last one first. -/
def Route (key : Key) : {n : ℕ} → Tree n → List PageId → Leaf → Prop
  | 0, t, climb, l => climb = [] ∧ t = l
  | _+1, t, climb, l => ∃ L k x R climb', Node.children t = L ++ (k,x)::R ∧ Focus key k x L R ∧
      climb = climb' ++ [Node.id t] ∧ Route key x climb' l

@[simp] theorem route_leaf {es : List Entry} :
    Route key (Tree.leaf i es) climb l ↔ climb = [] ∧ ⟨i,es⟩ = l := Iff.rfl

theorem route_node : Route key (Tree.node i cs) climb l ↔
    ∃ L k x R climb', cs = L ++ (k,x)::R ∧ Focus key k x L R ∧ climb = climb' ++ [i] ∧
      Route key x climb' l := Iff.rfl

theorem exists_route (hc : c.Valid) (h : t.Body c lo hi) (hs : 0 < t.size) (key : Key) :
    ∃ climb l, Route key t climb l := by
  induction n generalizing lo hi with
  | zero => exact ⟨[],t,rfl,rfl⟩
  | succ n ih =>
    obtain ⟨i,cs,rfl⟩ := t.exists_node
    obtain ⟨L,k,x,R,rfl,hf⟩ := exists_focus key (List.ne_nil_of_length_pos hs)
    have hx := (fenced_append.mp h.2).2.1
    obtain ⟨climb,l,hr⟩ := ih hx.2 (lt_of_lt_of_le (hc.minSize_pos n) hx.1)
    exact ⟨climb ++ [i],l,route_node.mpr ⟨L,k,x,R,climb,rfl,hf,rfl,hr⟩⟩

theorem height_lt_cells (hc : c.Valid) (h : t.Body c lo hi) (hs : 0 < t.size) :
    n < (t.cells c parent next).length := by
  induction n generalizing lo hi parent next with
  | zero =>
    obtain ⟨i,es,rfl⟩ := t.exists_leaf
    simp
  | succ n ih =>
    obtain ⟨i,cs,rfl⟩ := t.exists_node
    cases cs with
    | nil => simp at hs
    | cons y cs =>
      have hy := ((body_node ..).mp h).2.1
      have hlt : n < (y.2.cells c i (headId next (leavesOf cs))).length :=
        ih hy.2 (lt_of_lt_of_le (hc.minSize_pos n) hy.1)
      simp only [cells_node,cellsOf_cons,List.length_cons,List.length_append]
      omega

/-- No path is longer than the number of page ids. -/
theorem height_lt (hc : c.Valid) (h : t.Body c lo hi) (hs : 0 < t.size)
    (ho : Owns s (t.cells c parent next ++ F)) : n < pageTurns :=
  (height_lt_cells hc h hs).trans ho.left.length_lt

/-- The cells of a child, and the rest of the cells of its parent. -/
theorem owns_focus {k : Key} {x : Tree n} {L R : List (Key × Tree n)} :
    Owns s ((Tree.node i (L ++ (k,x)::R)).cells c parent next ++ F) ↔
    Owns s (x.cells c i (headId next (leavesOf R)) ++
      ((i,.internal ⟨c.internalMax,parent,routes (L ++ (k,x)::R)⟩) ::
        (cellsOf c i (headId next (x.leaves ++ leavesOf R)) L ++ (cellsOf c i next R ++ F)))) := by
  rw [cells_node,cellsOf_append,cellsOf_cons,leavesOf_cons]
  constructor <;> exact fun h => h.perm (by grind)

/-- `FindLeaf` follows the route. -/
theorem findLeaf_route (path : List PageId) (hc : c.Valid) (h : t.Body c lo hi)
    (ho : Owns s (t.cells c parent next ++ F)) (hr : Route key t climb l) {fuel : ℕ}
    (hf : n < fuel) : (findLeaf key fuel t.id path).run s = .ok (l.id,climb ++ path) s := by
  induction n generalizing lo hi parent next F climb path fuel with
  | zero =>
    obtain ⟨fuel,rfl⟩ : ∃ f, fuel = f + 1 := ⟨fuel-1,by omega⟩
    obtain ⟨i,es,rfl⟩ := t.exists_leaf
    obtain ⟨rfl,rfl⟩ := route_leaf.mp hr
    rw [body_leaf] at h
    rw [findLeaf,run_bind_ok (run_fetchPage ho List.mem_cons_self),page_leaf,
      toLeaf_leaf hc h.1 h.2.1]
    rfl
  | succ n ih =>
    obtain ⟨fuel,rfl⟩ : ∃ f, fuel = f + 1 := ⟨fuel-1,by omega⟩
    obtain ⟨i,cs,rfl⟩ := t.exists_node
    obtain ⟨L,k,x,R,climb,rfl,hfocus,rfl,hroute⟩ := route_node.mp hr
    rw [body_node] at h
    have hx := (fenced_append.mp h.2).2.1
    have hchild := ih (i::path) hx.2 (owns_focus.mp ho) hroute (Nat.lt_of_succ_lt_succ hf)
    have hne : x.id ≠ invalidPageId := by
      have hm := owns_focus.mp ho
      rw [x.cells_eq] at hm
      exact hm.ne_invalid List.mem_cons_self
    rw [findLeaf,run_bind_ok (run_fetchPage ho List.mem_cons_self)]
    simp only [page_node,id_node,toLeaf_internal,fail,toInternal_internal hc h.1 h.2]
    rw [run_bind_ok (run_ofResult_ok _)]
    simp only [hfocus.lookup,if_neg hne,hchild,List.append_assoc,List.singleton_append]

end Index
end OurSql
