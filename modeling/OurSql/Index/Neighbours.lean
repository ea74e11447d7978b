import OurSql.Index.Siblings

/-! Neighbouring internal pages: one lends a child to the other, or both become one
page. A new separator is the least key below the right one. -/
namespace OurSql
namespace Index

open Fence Heap

variable {n : ℕ} {c : Capacity} {t a x d x₀ : Tree n} {cs ca cx : List (Key × Tree n)}
  {parent next i ja jx : PageId} {lo hi k ka kd k₀ m : Key} {s s' : BPlusTree}
  {F : List (PageId × IndexPage)} {P Q : List (Key × PageId)}

/-! ### The least key of a subtree -/

theorem Tree.Body.raise (h : t.Body c lo hi) (hm : ∀ e ∈ t.entries, m ≤ e.1) : t.Body c m hi := by
  induction n generalizing lo hi with
  | zero =>
    obtain ⟨i,es,rfl⟩ := t.exists_leaf
    rw [entries_leaf] at hm
    exact ⟨h.1,h.2.1,fun e he => ⟨hm e he,(h.2.2 e he).2⟩⟩
  | succ n ih =>
    obtain ⟨i,cs,rfl⟩ := t.exists_node
    rw [body_node] at h ⊢
    rw [entries_node] at hm
    refine ⟨h.1,?_⟩
    cases cs with
    | nil => trivial
    | cons y cs => exact ⟨⟨h.2.1.1,ih h.2.1.2 fun e he => hm e (by simp [he])⟩,h.2.2⟩

theorem Tree.Sound.raise (h : t.Sound c lo hi) (hm : ∀ e ∈ t.entries, m ≤ e.1) : t.Sound c m hi :=
  ⟨h.1,h.2.raise hm⟩

/-- The first key of a tree is the least one. -/
theorem Tree.Sound.firstKey_le (hc : c.Valid) (h : t.Sound c lo hi) :
    lo ≤ firstKey t.entries ∧ firstKey t.entries ≤ hi ∧
      ∀ e ∈ t.entries, firstKey t.entries ≤ e.1 := by
  obtain ⟨hs,hb⟩ := h.2.ordered hc
  have hne := h.entries_ne_nil hc
  cases he : t.entries with
  | nil => exact absurd he hne
  | cons e es =>
    rw [he] at hs hb
    refine ⟨(hb e (by simp)).1,(hb e (by simp)).2,fun f hf => ?_⟩
    rcases List.mem_cons.mp hf with rfl | hf
    · exact le_rfl
    · exact List.rel_of_pairwise_cons hs hf

theorem subtreeMinimum_run (hc : c.Valid) (h : t.Sound c lo hi)
    (ho : Owns s (t.cells c parent next ++ F)) {fuel : ℕ} (hf : n < fuel) :
    (subtreeMinimum fuel t.id).run s = .ok (firstKey t.entries) s := by
  induction n generalizing lo hi parent next F fuel with
  | zero =>
    obtain ⟨fuel,rfl⟩ : ∃ f, fuel = f + 1 := ⟨fuel-1,by omega⟩
    obtain ⟨i,es,rfl⟩ := t.exists_leaf
    rw [cells_leaf,List.singleton_append] at ho
    have hi : i ≠ invalidPageId := ho.ne_invalid List.mem_cons_self
    have hne := h.entries_ne_nil hc
    rw [entries_leaf] at hne ⊢
    obtain ⟨-,hs,hl,-⟩ := (sound_leaf ..).mp h
    rw [subtreeMinimum,id_leaf,if_neg hi,run_bind_ok (run_fetchPage ho List.mem_cons_self)]
    simp only [toLeaf_leaf hc hs hl,if_neg hne]
    rfl
  | succ n ih =>
    obtain ⟨fuel,rfl⟩ : ∃ f, fuel = f + 1 := ⟨fuel-1,by omega⟩
    obtain ⟨i,cs,rfl⟩ := t.exists_node
    have hi : i ≠ invalidPageId := ho.ne_invalid List.mem_cons_self
    obtain ⟨hmin,hl,hfen⟩ := (sound_node ..).mp h
    cases cs with
    | nil => exact absurd rfl (ne_nil_of_size hc hmin)
    | cons y cs =>
      have ho' : Owns s ((Tree.node i ([] ++ (y.1,y.2)::cs)).cells c parent next ++ F) := ho
      have hrec := ih hfen.1 (owns_focus.mp ho') (Nat.lt_of_succ_lt_succ hf)
      have hkey : firstKey (entriesOf (y::cs)) = firstKey y.2.entries := by
        have hne := hfen.1.entries_ne_nil hc
        cases he : y.2.entries with
        | nil => exact absurd he hne
        | cons e es => simp [he,firstKey]
      rw [cells_node,List.cons_append] at ho
      rw [subtreeMinimum,id_node,if_neg hi,run_bind_ok (run_fetchPage ho List.mem_cons_self)]
      simp only [toLeaf_internal,fail,toInternal_internal hc hl hfen]
      rw [run_bind_ok (run_ofResult_ok _),entries_node,hkey]
      exact hrec

/-! ### Lending and merging -/

/-- The last child of the left page goes to the right one. -/
theorem borrowInternalLeft_lent (hc : c.Valid)
    (ha : (Tree.node ja (ca ++ [(kd,d)])).Sound c lo k)
    (hx : (Tree.node jx ((k₀,x₀)::cx)).Body c k hi)
    (hxs : ((k₀,x₀)::cx).length + 1 = (c.internalMax + 1) / 2)
    (hlend : (c.internalMax + 1) / 2 < (ca ++ [(kd,d)]).length) :
    Lent c lo (firstKey d.entries) hi (Tree.node ja (ca ++ [(kd,d)]))
      (Tree.node jx ((k₀,x₀)::cx)) (Tree.node ja ca) (Tree.node jx ((0,d)::(k,x₀)::cx)) := by
  have hge := hc.internal_ge
  obtain ⟨-,hal,haf⟩ := (sound_node ..).mp ha
  obtain ⟨hxl,hxf⟩ := (body_node ..).mp hx
  obtain ⟨hfa,hd⟩ := fenced_append.mp haf
  simp only [List.length_append,List.length_cons,List.length_nil] at hal hlend hxs hxl
  have hne : ca ≠ [] := by
    rintro rfl
    simp at hlend
    omega
  rw [lower_of_ne_nil hne] at hd
  obtain ⟨hmin,hmax,hle⟩ := hd.1.firstKey_le hc
  refine ⟨(sound_node ..).mpr ⟨by omega,by omega,?_⟩,(sound_node ..).mpr ⟨?_,?_,?_⟩,rfl,rfl,
    fun f f' => ?_,?_⟩
  · exact hfa.widen (fun _ _ _ _ _ h h1 h2 => h.widen h1 h2) le_rfl hmin
  · simp only [List.length_cons]
    omega
  · simp only [List.length_cons]
    omega
  · exact ⟨hd.1.raise hle,hxf⟩
  · rw [leaves_node,leaves_node,leavesOf_append,headId_append]
    exact headId_eq (leavesOf_ne_nil hc hfa hne) _ _
  · simp

/-- The first child of the right page goes to the left one. -/
theorem borrowInternalRight_lent (hc : c.Valid) (ha : (Tree.node ja ca).Body c lo k)
    (hx : (Tree.node jx ((kd,d)::(k₀,x₀)::cx)).Sound c k hi)
    (has : ca.length + 1 = (c.internalMax + 1) / 2)
    (hlend : (c.internalMax + 1) / 2 < ((kd,d)::(k₀,x₀)::cx).length) :
    Lent c lo (firstKey x₀.entries) hi (Tree.node ja ca) (Tree.node jx ((kd,d)::(k₀,x₀)::cx))
      (Tree.node ja (ca ++ [(k,d)])) (Tree.node jx ((0,x₀)::cx)) := by
  have hge := hc.internal_ge
  obtain ⟨hal,haf⟩ := (body_node ..).mp ha
  obtain ⟨-,hxl,hxf⟩ := (sound_node ..).mp hx
  simp only [List.length_cons] at hlend hxl
  have hne : ca ≠ [] := by
    rintro rfl
    simp at has
    omega
  obtain ⟨hmin,hmax,hle⟩ := hxf.2.1.firstKey_le hc
  refine ⟨(sound_node ..).mpr ⟨?_,?_,?_⟩,(sound_node ..).mpr ⟨?_,?_,?_⟩,rfl,rfl,
    fun f f' => ?_,?_⟩
  · simp only [List.length_append,List.length_cons,List.length_nil]
    omega
  · simp only [List.length_append,List.length_cons,List.length_nil]
    omega
  · refine fenced_append.mpr ⟨haf,?_,trivial⟩
    rw [lower_of_ne_nil hne]
    exact hxf.1.widen le_rfl hmin
  · simp only [List.length_cons]
    omega
  · simp only [List.length_cons]
    omega
  · exact ⟨hxf.2.1.raise hle,hxf.2.2⟩
  · rw [leaves_node,leaves_node,leavesOf_append,headId_append]
    exact headId_eq (leavesOf_ne_nil hc haf hne) _ _
  · simp

theorem merged_node (hc : c.Valid) (ha : (Tree.node ja ca).Body c lo k)
    (hx : (Tree.node jx ((k₀,x₀)::cx)).Body c k hi) (hne : ca ≠ [])
    (hl : (c.internalMax + 1) / 2 ≤ ca.length + (cx.length + 1))
    (hu : ca.length + (cx.length + 1) ≤ c.internalMax) :
    Merged c lo hi (Tree.node ja ca) (Tree.node jx ((k₀,x₀)::cx))
      (Tree.node ja (ca ++ (k,x₀)::cx)) := by
  obtain ⟨hal,haf⟩ := (body_node ..).mp ha
  obtain ⟨hxl,hxf⟩ := (body_node ..).mp hx
  refine ⟨(sound_node ..).mpr ⟨by simpa using hl,by simpa using hu,?_⟩,rfl,fun f f' => ?_,
    by simp⟩
  · refine fenced_append.mpr ⟨haf,?_⟩
    rw [lower_of_ne_nil hne]
    exact hxf
  · rw [leaves_node,leaves_node,leavesOf_append,headId_append]
    exact headId_eq (leavesOf_ne_nil hc haf hne) _ _

/-! ### The operations on the pages -/

theorem owns_pair_node : Owns s (pairCells c i parent next P ka (Tree.node ja ca) k
      (Tree.node jx cx) Q F) ↔
    Owns s ((ja,.internal ⟨c.internalMax,i,routes ca⟩) ::
      (jx,.internal ⟨c.internalMax,i,routes cx⟩) ::
      (i,.internal ⟨c.internalMax,parent,P ++ (ka,ja)::(k,jx)::Q⟩) ::
      (cellsOf c ja (headId next (leavesOf cx)) ca ++ (cellsOf c jx next cx ++ F))) := by
  simp only [pairCells,cells_node,leaves_node,id_node]
  constructor <;> exact fun h => h.perm (by grind)

theorem owns_merged_node : Owns s (mergedCells c i parent next P ka (Tree.node ja ca) Q F) ↔
    Owns s ((ja,.internal ⟨c.internalMax,i,routes ca⟩) ::
      (i,.internal ⟨c.internalMax,parent,P ++ (ka,ja)::Q⟩) :: (cellsOf c ja next ca ++ F)) := by
  simp only [mergedCells,cells_node,id_node]
  constructor <;> exact fun h => h.perm (by grind)

theorem borrowInternalLeft_run (hc : c.Valid) (hd : d.Sound c lo hi)
    (hl : (P ++ (ka,ja)::(k,jx)::Q).length ≤ c.internalMax)
    (hla : (ca ++ [(kd,d)]).length ≤ c.internalMax)
    (hlx : ((k₀,x₀)::cx).length + 1 ≤ c.internalMax)
    (ho : Owns s (pairCells c i parent next P ka (Tree.node ja (ca ++ [(kd,d)])) k
      (Tree.node jx ((k₀,x₀)::cx)) Q F)) :
    ∃ s', (borrowInternalLeft (leftPlace i P ka ja k jx Q) (routes ((k₀,x₀)::cx))).run s =
        .ok () s' ∧
      Owns s' (pairCells c i parent next P ka (Tree.node ja ca) (firstKey d.entries)
        (Tree.node jx ((0,d)::(k,x₀)::cx)) Q F) ∧ Keeps s s' := by
  have ho : Owns s ((ja,.internal ⟨c.internalMax,i,routes (ca ++ [(kd,d)])⟩) ::
      (jx,.internal ⟨c.internalMax,i,routes ((k₀,x₀)::cx)⟩) ::
      (i,.internal ⟨c.internalMax,parent,P ++ (ka,ja)::(k,jx)::Q⟩) ::
      (d.cells c ja (headId next (leavesOf ((k₀,x₀)::cx))) ++
        (cellsOf c ja (headId (headId next (leavesOf ((k₀,x₀)::cx))) d.leaves) ca ++
          (cellsOf c jx next ((k₀,x₀)::cx) ++ F)))) := by
    apply (owns_pair_node.mp ho).perm
    simp only [cellsOf_append,cellsOf_cons,cellsOf_nil,leavesOf_cons,leavesOf_nil,headId_nil,
      List.append_nil]
    grind
  simp only [List.length_append,List.length_cons,List.length_nil] at hl hla hlx
  have hmin := subtreeMinimum_run hc hd ho.lift (height_lt hc hd.2
    (lt_of_lt_of_le (hc.minSize_pos _) hd.1) ho.lift)
  obtain ⟨s1,hr1,ho1,hk1⟩ := assignInternal_spec (r := routes ca) ho (by simp; omega)
  obtain ⟨s2,hr2,ho2,hk2⟩ := assignInternal_spec (r := (0,d.id)::(k,x₀.id)::routes cx) ho1.swap
    (by simp; omega)
  obtain ⟨s3,hr3,ho3,hk3⟩ := assignInternal_spec (r := P ++ (ka,ja)::(firstKey d.entries,jx)::Q)
    ho2.swap.third (by simp; omega)
  obtain ⟨s4,hr4,ho4,hk4⟩ := setParent_spec jx hc hd.2 ho3.unthird.lift
  refine ⟨s4,?_,?_,((hk1.trans hk2).trans hk3).trans hk4⟩
  · rw [borrowInternalLeft,leftPlace_leftId,run_bind_ok (run_fetchInternal ho List.mem_cons_self)]
    simp only [routes_append,routes_cons,routes_nil,List.getLast?_concat,List.dropLast_concat,
      leftPlace,setKeyAt_pair,keyAt_pair,setFirstKey]
    rw [run_bind_ok hmin,run_bind_ok hr1,run_bind_ok hr2,run_bind_ok hr3]
    exact hr4
  · apply owns_pair_node.mpr
    apply ho4.perm
    simp only [cellsOf_cons,leavesOf_cons,headId_append,routes_cons]
    grind

theorem borrowInternalRight_run {lo' hi' : Key} (hc : c.Valid) (hd : d.Body c lo hi)
    (hx₀ : x₀.Sound c lo' hi')
    (hl : (P ++ (ka,ja)::(k,jx)::Q).length ≤ c.internalMax) (hla : ca.length + 1 ≤ c.internalMax)
    (hlx : ((kd,d)::(k₀,x₀)::cx).length ≤ c.internalMax)
    (ho : Owns s (pairCells c i parent next P ka (Tree.node ja ca) k
      (Tree.node jx ((kd,d)::(k₀,x₀)::cx)) Q F)) :
    ∃ s', (borrowInternalRight (rightPlace i P ka ja k jx Q) (routes ca)).run s = .ok () s' ∧
      Owns s' (pairCells c i parent next P ka (Tree.node ja (ca ++ [(k,d)]))
        (firstKey x₀.entries) (Tree.node jx ((0,x₀)::cx)) Q F) ∧ Keeps s s' := by
  have ho : Owns s ((ja,.internal ⟨c.internalMax,i,routes ca⟩) ::
      (jx,.internal ⟨c.internalMax,i,routes ((kd,d)::(k₀,x₀)::cx)⟩) ::
      (i,.internal ⟨c.internalMax,parent,P ++ (ka,ja)::(k,jx)::Q⟩) ::
      (d.cells c jx (headId next (x₀.leaves ++ leavesOf cx)) ++
        (x₀.cells c jx (headId next (leavesOf cx)) ++ (cellsOf c jx next cx ++
          (cellsOf c ja (headId next (d.leaves ++ (x₀.leaves ++ leavesOf cx))) ca ++ F))))) := by
    apply (owns_pair_node.mp ho).perm
    simp only [cellsOf_cons,leavesOf_cons]
    grind
  simp only [List.length_append,List.length_cons] at hl hla hlx
  have hox := ho.tail.tail.tail.right
  have hmin := subtreeMinimum_run hc hx₀ hox (height_lt hc hx₀.2
    (lt_of_lt_of_le (hc.minSize_pos _) hx₀.1) hox)
  obtain ⟨s1,hr1,ho1,hk1⟩ := assignInternal_spec (r := routes ca ++ [(k,d.id)]) ho
    (by simpa using hla)
  obtain ⟨s2,hr2,ho2,hk2⟩ := assignInternal_spec (r := (0,x₀.id)::routes cx) ho1.swap
    (by simp; omega)
  obtain ⟨s3,hr3,ho3,hk3⟩ := assignInternal_spec (r := P ++ (ka,ja)::(firstKey x₀.entries,jx)::Q)
    ho2.swap.third (by simp; omega)
  obtain ⟨s4,hr4,ho4,hk4⟩ := setParent_spec ja hc hd ho3.unthird.lift
  refine ⟨s4,?_,?_,((hk1.trans hk2).trans hk3).trans hk4⟩
  · rw [borrowInternalRight,rightPlace_rightId,
      run_bind_ok (run_fetchInternal ho.swap List.mem_cons_self)]
    simp only [routes_cons,rightPlace,setKeyAt_pair,keyAt_pair,setFirstKey,childAt,
      List.getElem?_cons_zero,Option.map_some,Option.getD_some]
    rw [run_bind_ok hmin,run_bind_ok hr1,run_bind_ok hr2,run_bind_ok hr3]
    exact hr4
  · apply owns_pair_node.mpr
    apply ho4.perm
    simp only [cellsOf_append,cellsOf_cons,cellsOf_nil,leavesOf_cons,leavesOf_nil,routes_append,
      routes_cons,routes_nil,headId_append,headId_nil,List.append_nil]
    grind

/-- Both merges give the children of the right page to the left one. -/
theorem merge_children (hc : c.Valid) (hx : Fenced (Tree.Sound c) hi lo ((k₀,x₀)::cx))
    (hl : (P ++ (ka,ja)::(k,jx)::Q).length ≤ c.internalMax)
    (hlen : ca.length + (cx.length + 1) ≤ c.internalMax)
    (ho : Owns s (pairCells c i parent next P ka (Tree.node ja ca) k
      (Tree.node jx ((k₀,x₀)::cx)) Q F)) :
    ∃ s', (do
      assignInternal ja (routes ca ++ (k,x₀.id)::routes cx)
      assignInternal i (P ++ (ka,ja)::Q)
      deletePage jx
      setParents ja (((k,x₀.id)::routes cx).map Prod.snd) : TreeM Unit).run s = .ok () s' ∧
      Owns s' (mergedCells c i parent next P ka (Tree.node ja (ca ++ (k,x₀)::cx)) Q F) ∧
      Keeps s s' := by
  have ho := owns_pair_node.mp ho
  simp only [List.length_append,List.length_cons] at hl
  obtain ⟨s1,hr1,ho1,hk1⟩ := assignInternal_spec (r := routes ca ++ (k,x₀.id)::routes cx) ho
    (by simpa using hlen)
  obtain ⟨s2,hr2,ho2,hk2⟩ := assignInternal_spec (r := P ++ (ka,ja)::Q) ho1.third
    (by simp; omega)
  obtain ⟨s3,hr3,ho3,hk3⟩ := deletePage_spec ho2.third
  have ho3 : Owns s3 (cellsOf c jx next ((k₀,x₀)::cx) ++
      ((ja,.internal ⟨c.internalMax,i,routes ca ++ (k,x₀.id)::routes cx⟩) ::
        (i,.internal ⟨c.internalMax,parent,P ++ (ka,ja)::Q⟩) ::
          (cellsOf c ja (headId next (leavesOf ((k₀,x₀)::cx))) ca ++ F))) := ho3.perm (by grind)
  obtain ⟨s4,hr4,ho4,hk4⟩ := setParents_spec ja hc hx ho3
  refine ⟨s4,?_,?_,((hk1.trans hk2).trans hk3).trans hk4⟩
  · rw [run_bind_ok hr1,run_bind_ok hr2,run_bind_ok hr3]
    exact hr4
  · apply owns_merged_node.mpr
    apply ho4.perm
    rw [routes_append,routes_cons,cellsOf_append,cellsOf_cons,cellsOf_cons]
    simp only [leavesOf_cons]
    grind

theorem mergeInternalRight_run (hc : c.Valid) (hx : Fenced (Tree.Sound c) hi lo ((k₀,x₀)::cx))
    (hl : (P ++ (ka,ja)::(k,jx)::Q).length ≤ c.internalMax)
    (hlen : ca.length + (cx.length + 1) ≤ c.internalMax)
    (ho : Owns s (pairCells c i parent next P ka (Tree.node ja ca) k
      (Tree.node jx ((k₀,x₀)::cx)) Q F)) :
    ∃ s', (mergeInternalRight (rightPlace i P ka ja k jx Q) (routes ca)).run s = .ok () s' ∧
      Owns s' (mergedCells c i parent next P ka (Tree.node ja (ca ++ (k,x₀)::cx)) Q F) ∧
      Keeps s s' := by
  obtain ⟨s',hr,hs⟩ := merge_children hc hx hl hlen ho
  refine ⟨s',?_,hs⟩
  have hread := run_fetchInternal (owns_pair_node.mp ho).swap List.mem_cons_self
  rw [mergeInternalRight,rightPlace_rightId,run_bind_ok hread]
  simp only [rightPlace,keyAt_pair,eraseIdx_pair,routes_cons,setFirstKey]
  exact hr

theorem mergeInternalLeft_run (hc : c.Valid) (hx : Fenced (Tree.Sound c) hi lo ((k₀,x₀)::cx))
    (hl : (P ++ (ka,ja)::(k,jx)::Q).length ≤ c.internalMax)
    (hlen : ca.length + (cx.length + 1) ≤ c.internalMax)
    (ho : Owns s (pairCells c i parent next P ka (Tree.node ja ca) k
      (Tree.node jx ((k₀,x₀)::cx)) Q F)) :
    ∃ s', (mergeInternalLeft (leftPlace i P ka ja k jx Q) (routes ((k₀,x₀)::cx))).run s =
        .ok () s' ∧
      Owns s' (mergedCells c i parent next P ka (Tree.node ja (ca ++ (k,x₀)::cx)) Q F) ∧
      Keeps s s' := by
  obtain ⟨s',hr,hs⟩ := merge_children hc hx hl hlen ho
  refine ⟨s',?_,hs⟩
  have hread := run_fetchInternal (owns_pair_node.mp ho) List.mem_cons_self
  rw [mergeInternalLeft,leftPlace_leftId,run_bind_ok hread]
  simp only [leftPlace,keyAt_pair,eraseIdx_pair,routes_cons,setFirstKey]
  exact hr

end Index
end OurSql
