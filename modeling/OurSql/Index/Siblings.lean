import OurSql.Index.Insert

/-! Neighbouring leaves: one lends an entry to the other, or both become one page. -/
namespace OurSql
namespace Index

open Fence Heap

variable {n : ℕ} {c : Capacity} {t a x a' x' y : Tree n} {cs L R : List (Key × Tree n)}
  {parent next i ja jx : PageId} {lo hi k ka m : Key} {e d : Entry}
  {es ea ex : List Entry} {s s' : BPlusTree} {F : List (PageId × IndexPage)}

/-! ### The entries of the parent around a child -/

section Entries

variable {P Q : List (Key × PageId)} {j : PageId} {key : Key}

theorem childAt_append : childAt (P ++ (k,i)::Q) P.length = i := by
  simp [childAt]

theorem keyAt_append : keyAt (P ++ (k,i)::Q) P.length = k := by
  simp [keyAt]

theorem setKeyAt_append : setKeyAt (P ++ (k,i)::Q) P.length K = P ++ (K,i)::Q := by
  induction P with
  | nil => rfl
  | cons p P ih =>
    rw [setKeyAt] at ih
    simp [setKeyAt,ih]

theorem eraseIdx_append : (P ++ (k,i)::Q).eraseIdx P.length = P ++ Q := by
  simp [List.eraseIdx_append_of_length_le]

theorem childIndex_append (h : ∀ y ∈ P, y.2 ≠ i) :
    childIndex i (P ++ (k,i)::Q) = some P.length := by
  induction P with
  | nil => simp [childIndex,List.findIdx?_cons]
  | cons y P ih =>
    have hy : y.2 ≠ i := h y (by simp)
    have ih := ih fun z hz => h z (by simp [hz])
    simp only [childIndex] at ih
    simp [childIndex,List.findIdx?_cons,hy,ih]

theorem leftSibling_cons : leftSibling (P ++ (k,i)::Q) (P.length+1) = i := by
  simp [leftSibling,childAt_append]

theorem rightSibling_nil : rightSibling (P ++ [(k,i)]) P.length = invalidPageId := by
  simp [rightSibling]

theorem rightSibling_cons (k' : Key) :
    rightSibling (P ++ (k,i)::(k',j)::Q) P.length = j := by
  rw [rightSibling,if_neg (by simp),List.append_cons]
  have h := childAt_append (P := P ++ [(k,i)]) (k := k') (i := j) (Q := Q)
  rwa [List.length_append] at h

end Entries

/-- Two neighbours after one has lent to the other. -/
structure Lent (c : Capacity) (lo m hi : Key) (a x a' x' : Tree n) : Prop where
  left : a'.Sound c lo m
  right : x'.Sound c m hi
  leftId : a'.id = a.id
  rightId : x'.id = x.id
  head : ∀ d d', headId d a'.leaves = headId d' a.leaves
  entries : (a'.entries ++ x'.entries).Perm (a.entries ++ x.entries)

/-- The page that two neighbours become. -/
structure Merged (c : Capacity) (lo hi : Key) (a x y : Tree n) : Prop where
  sound : y.Sound c lo hi
  id : y.id = a.id
  head : ∀ d d', headId d y.leaves = headId d' a.leaves
  entries : y.entries.Perm (a.entries ++ x.entries)

/-- Sorted entries from two leaves with `k` between them. -/
theorem lent_leaf {es fs : List Entry} {k : Key}
    (hperm : (es ++ fs).Perm (ea ++ ex)) (hs : Sorted es) (hs' : Sorted fs)
    (hl : (c.leafMax + 1) / 2 ≤ es.length) (hl' : (c.leafMax + 1) / 2 ≤ fs.length)
    (hu : es.length ≤ c.leafMax) (hu' : fs.length ≤ c.leafMax) (hfs : fs ≠ [])
    (hcross : ∀ d ∈ es, ∀ f ∈ fs, d.1 ≤ f.1)
    (ha : ∀ d ∈ ea, lo ≤ d.1 ∧ d.1 ≤ k) (hx : ∀ d ∈ ex, k ≤ d.1 ∧ d.1 ≤ hi) (hlo : lo ≤ k)
    (hhi : k ≤ hi) :
    Lent c lo (firstKey fs) hi (Tree.leaf ja ea) (Tree.leaf jx ex) (Tree.leaf ja es)
      (Tree.leaf jx fs) := by
  have hb : ∀ d ∈ es ++ fs, lo ≤ d.1 ∧ d.1 ≤ hi := by
    intro d hd
    rcases List.mem_append.mp (hperm.mem_iff.mp hd) with hd | hd
    · exact ⟨(ha d hd).1,le_trans (ha d hd).2 hhi⟩
    · exact ⟨le_trans hlo (hx d hd).1,(hx d hd).2⟩
  cases fs with
  | nil => exact absurd rfl hfs
  | cons f fs =>
    refine ⟨(sound_leaf ..).mpr ⟨hl,hs,hu,fun d hd => ?_⟩,
      (sound_leaf ..).mpr ⟨hl',hs',hu',fun d hd => ?_⟩,rfl,rfl,fun _ _ => rfl,
      by simpa using hperm⟩
    · exact ⟨(hb d (List.mem_append_left _ hd)).1,hcross d hd f (by simp)⟩
    · refine ⟨?_,(hb d (List.mem_append_right _ hd)).2⟩
      rcases List.mem_cons.mp hd with rfl | hd
      · exact le_rfl
      · exact (List.rel_of_pairwise_cons hs' hd).key_le

/-- The last entry of the left leaf goes to the right one. -/
theorem borrowLeafLeft_lent (ha : (Tree.leaf ja (ea ++ [e])).Sound c lo k)
    (hx : (Tree.leaf jx ex).Body c k hi) (hxs : ex.length + 1 = (c.leafMax + 1) / 2)
    (hlend : (c.leafMax + 1) / 2 < (ea ++ [e]).length) (hc : c.Valid) (hhi : k ≤ hi) :
    Lent c lo (firstKey (sortEntries (e::ex))) hi (Tree.leaf ja (ea ++ [e])) (Tree.leaf jx ex)
      (Tree.leaf ja ea) (Tree.leaf jx (sortEntries (e::ex))) := by
  have hlo := ha.le hc
  obtain ⟨-,hsa,hua,hba⟩ := (sound_leaf ..).mp ha
  obtain ⟨hsx,hux,hbx⟩ := (body_leaf ..).mp hx
  have hge := hc.leaf_ge
  simp only [List.length_append,List.length_singleton] at hlend hua
  refine lent_leaf ?_ (List.pairwise_append.mp hsa).1 (sortEntries_sorted _) (by omega) (by simp; omega)
    (by omega) (by simp; omega) ?_ ?_ hba hbx hlo hhi
  · have h := (sortEntries_perm (e::ex)).append_left ea
    exact h.trans (by simp)
  · rw [← List.length_pos_iff]
    simp
  · intro d hd f hf
    rcases List.mem_cons.mp (mem_sortEntries.mp hf) with rfl | hf
    · exact ((List.pairwise_append.mp hsa).2.2 d hd f (by simp)).key_le
    · exact le_trans (hba d (by simp [hd])).2 (hbx f hf).1

/-- The first entry of the right leaf goes to the left one. -/
theorem borrowLeafRight_lent (ha : (Tree.leaf ja ea).Body c lo k)
    (hx : (Tree.leaf jx (e::ex)).Sound c k hi) (has : ea.length + 1 = (c.leafMax + 1) / 2)
    (hlend : (c.leafMax + 1) / 2 < (e::ex).length) (hc : c.Valid) (hlo : lo ≤ k) :
    Lent c lo (firstKey ex) hi (Tree.leaf ja ea) (Tree.leaf jx (e::ex))
      (Tree.leaf ja (sortEntries (ea ++ [e]))) (Tree.leaf jx ex) := by
  have hhi := hx.le hc
  obtain ⟨-,hsx,hux,hbx⟩ := (sound_leaf ..).mp hx
  obtain ⟨hsa,hua,hba⟩ := (body_leaf ..).mp ha
  have hge := hc.leaf_ge
  simp only [List.length_cons] at hlend hux
  refine lent_leaf ?_ (sortEntries_sorted _) (List.pairwise_cons.mp hsx).2 (by simp; omega)
    (by omega) (by simp; omega) (by omega) ?_ ?_ hba hbx hlo hhi
  · have h := (sortEntries_perm (ea ++ [e])).append_right ex
    exact h.trans (by simp)
  · rw [← List.length_pos_iff]
    omega
  · intro d hd f hf
    rcases List.mem_append.mp (mem_sortEntries.mp hd) with hd | hd
    · exact le_trans (hba d hd).2 (hbx f (by simp [hf])).1
    · obtain rfl := List.mem_singleton.mp hd
      exact ((List.pairwise_cons.mp hsx).1 f hf).key_le

theorem merged_leaf (ha : (Tree.leaf ja ea).Body c lo k) (hx : (Tree.leaf jx ex).Body c k hi)
    (hl : (c.leafMax + 1) / 2 ≤ ea.length + ex.length) (hu : ea.length + ex.length ≤ c.leafMax)
    (hlo : lo ≤ k) (hhi : k ≤ hi) :
    Merged c lo hi (Tree.leaf ja ea) (Tree.leaf jx ex)
      (Tree.leaf ja (sortEntries (ea ++ ex))) := by
  obtain ⟨hsa,hua,hba⟩ := (body_leaf ..).mp ha
  obtain ⟨hsx,hux,hbx⟩ := (body_leaf ..).mp hx
  refine ⟨(sound_leaf ..).mpr ⟨by simpa using hl,sortEntries_sorted _,by simpa using hu,
    fun d hd => ?_⟩,rfl,fun _ _ => rfl,by simpa using sortEntries_perm (ea ++ ex)⟩
  rcases List.mem_append.mp (mem_sortEntries.mp hd) with hd | hd
  · exact ⟨(hba d hd).1,le_trans (hba d hd).2 hhi⟩
  · exact ⟨le_trans hlo (hbx d hd).1,(hbx d hd).2⟩

/-! ### The pages of two neighbours and their parent -/

section Places

variable {P Q : List (Key × PageId)}

/-- The right one of two neighbours, with its left sibling. -/
def leftPlace (i : PageId) (P : List (Key × PageId)) (ka : Key) (ja : PageId) (k : Key)
    (jx : PageId) (Q : List (Key × PageId)) : Place :=
  ⟨jx,i,P ++ (ka,ja)::(k,jx)::Q,P.length+1⟩

/-- The left one of two neighbours, with its right sibling. -/
def rightPlace (i : PageId) (P : List (Key × PageId)) (ka : Key) (ja : PageId) (k : Key)
    (jx : PageId) (Q : List (Key × PageId)) : Place :=
  ⟨ja,i,P ++ (ka,ja)::(k,jx)::Q,P.length⟩

theorem leftPlace_leftId : (leftPlace i P ka ja k jx Q).leftId = ja := leftSibling_cons

theorem rightPlace_rightId : (rightPlace i P ka ja k jx Q).rightId = jx := rightSibling_cons k

theorem keyAt_pair : keyAt (P ++ (ka,ja)::(k,jx)::Q) (P.length+1) = k := by
  have h := keyAt_append (P := P ++ [(ka,ja)]) (k := k) (i := jx) (Q := Q)
  simpa using h

theorem setKeyAt_pair : setKeyAt (P ++ (ka,ja)::(k,jx)::Q) (P.length+1) m =
    P ++ (ka,ja)::(m,jx)::Q := by
  have h := setKeyAt_append (P := P ++ [(ka,ja)]) (k := k) (i := jx) (Q := Q) (K := m)
  simpa using h

theorem eraseIdx_pair : (P ++ (ka,ja)::(k,jx)::Q).eraseIdx (P.length+1) = P ++ (ka,ja)::Q := by
  have h := eraseIdx_append (P := P ++ [(ka,ja)]) (k := k) (i := jx) (Q := Q)
  simpa using h

end Places

/-- The cells of two neighbours, of their parent and of the rest. -/
def pairCells (c : Capacity) (i parent next : PageId) (P : List (Key × PageId)) (ka : Key)
    (a : Tree n) (k : Key) (x : Tree n) (Q : List (Key × PageId))
    (F : List (PageId × IndexPage)) : List (PageId × IndexPage) :=
  a.cells c i (headId next x.leaves) ++ (x.cells c i next ++
    ((i,.internal ⟨c.internalMax,parent,P ++ (ka,a.id)::(k,x.id)::Q⟩) :: F))

/-- The cells of the page they become, of their parent and of the rest. -/
def mergedCells (c : Capacity) (i parent next : PageId) (P : List (Key × PageId)) (ka : Key)
    (y : Tree n) (Q : List (Key × PageId)) (F : List (PageId × IndexPage)) :
    List (PageId × IndexPage) :=
  y.cells c i next ++ ((i,.internal ⟨c.internalMax,parent,P ++ (ka,y.id)::Q⟩) :: F)

section LeafOps

variable {P Q : List (Key × PageId)}

theorem pairCells_leaf : pairCells c i parent next P ka (Tree.leaf ja ea) k (Tree.leaf jx ex) Q F =
    (ja,.leaf ⟨c.leafMax,i,jx,ea⟩) :: (jx,.leaf ⟨c.leafMax,i,next,ex⟩) ::
      (i,.internal ⟨c.internalMax,parent,P ++ (ka,ja)::(k,jx)::Q⟩) :: F := rfl

theorem mergedCells_leaf : mergedCells c i parent next P ka (Tree.leaf ja ea) Q F =
    (ja,.leaf ⟨c.leafMax,i,next,ea⟩) ::
      (i,.internal ⟨c.internalMax,parent,P ++ (ka,ja)::Q⟩) :: F := rfl

theorem borrowLeafLeft_run (hl : (P ++ (ka,ja)::(k,jx)::Q).length ≤ c.internalMax)
    (hea : ea.length ≤ c.leafMax) (hex : ex.length + 1 ≤ c.leafMax)
    (ho : Owns s (pairCells c i parent next P ka (Tree.leaf ja (ea ++ [e])) k (Tree.leaf jx ex) Q F)) :
    ∃ s', (borrowLeafLeft (leftPlace i P ka ja k jx Q) ex).run s = .ok () s' ∧
      Owns s' (pairCells c i parent next P ka (Tree.leaf ja ea) (firstKey (sortEntries (e::ex)))
        (Tree.leaf jx (sortEntries (e::ex))) Q F) ∧ Keeps s s' := by
  rw [pairCells_leaf] at ho ⊢
  obtain ⟨s1,hr1,ho1,hk1⟩ := assignLeaf_spec (e := ea) ho hea
  obtain ⟨s2,hr2,ho2,hk2⟩ := assignLeaf_spec (e := sortEntries (e::ex)) ho1.swap
    (by simpa using hex)
  obtain ⟨s3,hr3,ho3,hk3⟩ := assignInternal_spec
    (r := P ++ (ka,ja)::(firstKey (sortEntries (e::ex)),jx)::Q) ho2.swap.third (by simpa using hl)
  refine ⟨s3,?_,ho3.unthird,(hk1.trans hk2).trans hk3⟩
  rw [borrowLeafLeft,leftPlace_leftId,run_bind_ok (run_fetchLeaf ho List.mem_cons_self)]
  simp only [List.getLast?_concat,List.dropLast_concat,leftPlace,setKeyAt_pair]
  rw [run_bind_ok hr1,run_bind_ok hr2]
  exact hr3

theorem borrowLeafRight_run (hl : (P ++ (ka,ja)::(k,jx)::Q).length ≤ c.internalMax)
    (hea : ea.length + 1 ≤ c.leafMax) (hex : ex.length ≤ c.leafMax)
    (ho : Owns s (pairCells c i parent next P ka (Tree.leaf ja ea) k (Tree.leaf jx (e::ex)) Q F)) :
    ∃ s', (borrowLeafRight (rightPlace i P ka ja k jx Q) ea).run s = .ok () s' ∧
      Owns s' (pairCells c i parent next P ka (Tree.leaf ja (sortEntries (ea ++ [e])))
        (firstKey ex) (Tree.leaf jx ex) Q F) ∧ Keeps s s' := by
  rw [pairCells_leaf] at ho ⊢
  obtain ⟨s1,hr1,ho1,hk1⟩ := assignLeaf_spec (e := sortEntries (ea ++ [e])) ho (by simpa using hea)
  obtain ⟨s2,hr2,ho2,hk2⟩ := assignLeaf_spec (e := ex) ho1.swap hex
  obtain ⟨s3,hr3,ho3,hk3⟩ := assignInternal_spec (r := P ++ (ka,ja)::(firstKey ex,jx)::Q)
    ho2.swap.third (by simpa using hl)
  refine ⟨s3,?_,ho3.unthird,(hk1.trans hk2).trans hk3⟩
  rw [borrowLeafRight,rightPlace_rightId,run_bind_ok (run_fetchLeaf ho.swap List.mem_cons_self)]
  simp only [rightPlace,setKeyAt_pair]
  rw [run_bind_ok hr1,run_bind_ok hr2]
  exact hr3

theorem mergeLeafRight_run (hl : (P ++ (ka,ja)::(k,jx)::Q).length ≤ c.internalMax)
    (hlen : ea.length + ex.length ≤ c.leafMax)
    (ho : Owns s (pairCells c i parent next P ka (Tree.leaf ja ea) k (Tree.leaf jx ex) Q F)) :
    ∃ s', (mergeLeafRight (rightPlace i P ka ja k jx Q) ea).run s = .ok () s' ∧
      Owns s' (mergedCells c i parent next P ka (Tree.leaf ja (sortEntries (ea ++ ex))) Q F) ∧
      Keeps s s' := by
  rw [pairCells_leaf] at ho
  rw [mergedCells_leaf]
  obtain ⟨s1,hr1,ho1,hk1⟩ := assignLeafNext_spec (e := sortEntries (ea ++ ex)) next ho
    (by simpa using hlen)
  obtain ⟨s2,hr2,ho2,hk2⟩ := assignInternal_spec (r := P ++ (ka,ja)::Q) ho1.third
    (by simp at hl ⊢; omega)
  obtain ⟨s3,hr3,ho3,hk3⟩ := deletePage_spec ho2.third
  refine ⟨s3,?_,ho3.swap,(hk1.trans hk2).trans hk3⟩
  rw [mergeLeafRight,rightPlace_rightId,run_bind_ok (run_fetchLeaf ho.swap List.mem_cons_self)]
  simp only [rightPlace,eraseIdx_pair]
  rw [run_bind_ok hr1,run_bind_ok hr2]
  exact hr3

theorem mergeLeafLeft_run (hl : (P ++ (ka,ja)::(k,jx)::Q).length ≤ c.internalMax)
    (hlen : ea.length + ex.length ≤ c.leafMax)
    (ho : Owns s (pairCells c i parent next P ka (Tree.leaf ja ea) k (Tree.leaf jx ex) Q F)) :
    ∃ s', (mergeLeafLeft (leftPlace i P ka ja k jx Q) ex next).run s = .ok () s' ∧
      Owns s' (mergedCells c i parent next P ka (Tree.leaf ja (sortEntries (ea ++ ex))) Q F) ∧
      Keeps s s' := by
  rw [pairCells_leaf] at ho
  rw [mergedCells_leaf]
  obtain ⟨s1,hr1,ho1,hk1⟩ := assignLeafNext_spec (e := sortEntries (ea ++ ex)) next ho
    (by simpa using hlen)
  obtain ⟨s2,hr2,ho2,hk2⟩ := assignInternal_spec (r := P ++ (ka,ja)::Q) ho1.third
    (by simp at hl ⊢; omega)
  obtain ⟨s3,hr3,ho3,hk3⟩ := deletePage_spec ho2.third
  refine ⟨s3,?_,ho3.swap,(hk1.trans hk2).trans hk3⟩
  rw [mergeLeafLeft,leftPlace_leftId,run_bind_ok (run_fetchLeaf ho List.mem_cons_self)]
  simp only [leftPlace,eraseIdx_pair]
  rw [run_bind_ok hr1,run_bind_ok hr2]
  exact hr3

end LeafOps

end Index
end OurSql
