import OurSql.Index.Insert
import OurSql.Index.InsertFaults

/-! What an insertion that stops on its way leaves behind: until the leaf is written the tree
as it was, and from then on pages that still lead to every pair, the new one included. -/
namespace OurSql
namespace Index
namespace Faulty

open Fence Heap

variable {faults : Faults} {n : ℕ} {c : Capacity} {t t' a b : Tree n}
  {cs L R : List (Key × Tree n)} {x : Tree n} {s s' s'' : BPlusTree} {i : PageId}
  {parent parent' next : PageId} {lo hi k key sep : Key} {rid : RID} {e : Entry}
  {F : List (PageId × IndexPage)} {ls : List Leaf} {climb path : List PageId} {l : Leaf}

/-! ### Up to the leaf -/

/-- `NewPage` fails when it is the `i`-th call. -/
def NoPage (faults : Faults) (s : BPlusTree) (i : ℕ) : Prop :=
  faults i ≠ none ∨ ∃ e s', Index.newPage.run s = .error e s'

/-- `InsertIntoLeaf` fails when its first call is the `i`-th one. -/
def LeafStops (faults : Faults) (c : Capacity) (s : BPlusTree) (i : ℕ) (es : List Entry)
    (e : Entry) : Prop :=
  faults i ≠ none ∨ e ∈ es ∨ es.length = c.leafMax ∧ NoPage faults s (i+1)

theorem run_fetchPage {j : ℕ} {p : IndexPage} {xs : List (PageId × IndexPage)} (ho : Owns s xs)
    (hm : (i,p) ∈ xs) (hf : faults j = none) :
    ((fetchPage faults i).run j).run s = .ok (p,j+1) s := by
  rw [fetchPage,run_answered _ hf,Index.run_fetchPage ho hm]
  rfl

theorem run_readLeaf {j : ℕ} {es : List Entry} {xs : List (PageId × IndexPage)} (hc : c.Valid)
    (h : (Tree.leaf i es).Body c lo hi) (ho : Owns s xs)
    (hm : (i,.leaf ⟨c.leafMax,parent,next,es⟩) ∈ xs) (hf : faults j = none) :
    ((readLeaf faults i).run j).run s = .ok (⟨c.leafMax,parent,next,es⟩,j+1) s := by
  rw [body_leaf] at h
  rw [readLeaf,run_bind_ok (run_fetchPage ho hm hf),toLeaf_leaf hc h.1 h.2.1]
  rfl

theorem insertIntoLeaf_run (faults : Faults) (key : Key) (rid : RID) (j : ℕ) {es : List Entry}
    (hc : c.Valid)
    (h : (Tree.leaf i es).Body c lo hi) (ho : Owns s ((Tree.leaf i es).cells c parent next ++ F)) :
    (LeafStops faults c s j es (key,rid) →
      ∃ err, ((insertIntoLeaf faults i key rid).run j).run s = .error err s) ∧
    (¬ LeafStops faults c s j es (key,rid) → ∃ j',
      ((insertIntoLeaf faults i key rid).run j).run s =
        counted j' ((Index.insertIntoLeaf i key rid).run s)) := by
  have hbody := (body_leaf ..).mp h
  have hdup := head_fromBound (e := (key,rid)) hbody.1
  cases hf : faults j with
  | some err =>
    have hr : ((insertIntoLeaf faults i key rid).run j).run s = .error err s :=
      run_bind_error (run_bind_error (run_bind_error (run_refused hf)))
    exact ⟨fun _ => ⟨err,hr⟩,fun hn => absurd (.inl (by simp [hf])) hn⟩
  | none =>
    have hread := run_readLeaf hc h ho List.mem_cons_self hf
    have hplain := Index.run_readLeaf hc h ho List.mem_cons_self
    rw [insertIntoLeaf,Index.insertIntoLeaf,run_bind_ok hread,Index.run_bind_ok hplain]
    simp only [LeafStops,hf,ne_eq,not_true_eq_false,false_or,← hdup]
    by_cases he : (fromBound es (key,rid)).head? = some (key,rid)
    · rw [if_pos he,if_pos he]
      exact ⟨fun _ => ⟨_,rfl⟩,fun hn => absurd (.inl he) hn⟩
    · rw [if_neg he,if_neg he]
      simp only [he,false_or]
      by_cases hl : es.length < c.leafMax
      · rw [if_pos hl,if_pos hl]
        refine ⟨fun hs => absurd hs.1 (Nat.ne_of_lt hl),fun _ => Tracks.run ?_ _⟩
        exact Tracks.bind (tracks_lift _) fun _ _ _ => Tracks.bind (tracks_lift _) fun _ _ _ =>
          tracks_pure _
      · rw [if_neg hl,if_neg hl]
        have hfull : es.length = c.leafMax := le_antisymm hbody.2.1 (not_lt.mp hl)
        cases hf₁ : faults (j+1) with
        | some err =>
          refine ⟨fun _ => ⟨err,run_bind_error (run_bind_error (run_refused hf₁))⟩,fun hn => ?_⟩
          exact absurd ⟨hfull,.inl (by simp [hf₁])⟩ hn
        | none =>
          have hnew : ((newPage faults).run (j+1)).run s = counted (j+1+1) (Index.newPage.run s) :=
            run_answered _ hf₁
          rcases newPage_spec ho with ⟨err,hp,-⟩ | ⟨newId,s₁,hp,-,-⟩
          · rw [hp] at hnew
            exact ⟨fun _ => ⟨err,run_bind_error hnew⟩,fun hn => absurd ⟨hfull,.inr ⟨err,s,hp⟩⟩ hn⟩
          · rw [hp] at hnew
            rw [run_bind_ok hnew,Index.run_bind_ok hp]
            refine ⟨fun hs => ?_,fun _ => Tracks.run ?_ _⟩
            · rcases hs.2 with hs | ⟨err,s₂,hs⟩
              · exact absurd hf₁ hs
              · rw [hp] at hs
                cases hs
            · exact Tracks.bind (tracks_lift _) fun _ _ _ => Tracks.bind (tracks_lift _) fun _ _ _ =>
                Tracks.bind (tracks_lift _) fun _ _ _ => Tracks.bind (tracks_lift _) fun _ _ _ =>
                Tracks.bind (tracks_lift _) fun _ _ _ => tracks_pure _

/-- The descent follows the route, with one call for each level. -/
theorem findLeaf_route (faults : Faults) (path : List PageId) (j : ℕ) (hc : c.Valid) (h : t.Body c lo hi)
    (ho : Owns s (t.cells c parent next ++ F)) (hr : Route key t climb l) {fuel : ℕ}
    (hf : n < fuel) :
    ((∀ m ≤ n, faults (j+m) = none) →
      ((findLeaf faults key fuel t.id path).run j).run s = .ok ((l.id,climb ++ path),j+n+1) s) ∧
    ((∃ m ≤ n, faults (j+m) ≠ none) →
      ∃ e, ((findLeaf faults key fuel t.id path).run j).run s = .error e s) := by
  induction n generalizing lo hi parent next F climb path fuel j with
  | zero =>
    obtain ⟨fuel,rfl⟩ : ∃ f, fuel = f + 1 := ⟨fuel-1,by omega⟩
    obtain ⟨i,es,rfl⟩ := t.exists_leaf
    obtain ⟨rfl,rfl⟩ := route_leaf.mp hr
    have hbody := (body_leaf ..).mp h
    constructor
    · intro hnone
      have hj : faults j = none := hnone 0 le_rfl
      rw [findLeaf,run_bind_ok (run_fetchPage ho List.mem_cons_self hj),page_leaf,
        toLeaf_leaf hc hbody.1 hbody.2.1]
      rfl
    · rintro ⟨m,hm,hne⟩
      obtain rfl : m = 0 := Nat.le_zero.mp hm
      obtain ⟨e,he⟩ := Option.ne_none_iff_exists'.mp hne
      exact ⟨e,run_bind_error (run_bind_error (run_refused he))⟩
  | succ n ih =>
    obtain ⟨fuel,rfl⟩ : ∃ f, fuel = f + 1 := ⟨fuel-1,by omega⟩
    obtain ⟨i,cs,rfl⟩ := t.exists_node
    obtain ⟨L,k,x,R,climb,rfl,hfocus,rfl,hroute⟩ := route_node.mp hr
    have hbody := (body_node ..).mp h
    have hx := (fenced_append.mp hbody.2).2.1
    have hne : x.id ≠ invalidPageId := by
      have hm := owns_focus.mp ho
      rw [x.cells_eq] at hm
      exact hm.ne_invalid List.mem_cons_self
    obtain ⟨hok,herr⟩ := ih (i::path) (j+1) hx.2 (owns_focus.mp ho) hroute
      (Nat.lt_of_succ_lt_succ hf)
    cases hj : faults j with
    | some e =>
      refine ⟨fun hnone => ?_,fun _ => ⟨e,run_bind_error (run_bind_error (run_refused hj))⟩⟩
      have hnone : faults j = none := hnone 0 (Nat.zero_le _)
      rw [hj] at hnone
      cases hnone
    | none =>
      have hstep : ((findLeaf faults key (fuel+1) i path).run j).run s =
          ((findLeaf faults key fuel x.id (i::path)).run (j+1)).run s := by
        have hpage : ((fetchPage faults i).run j).run s =
            .ok (.internal ⟨c.internalMax,parent,routes (L ++ (k,x)::R)⟩,j+1) s :=
          run_fetchPage ho List.mem_cons_self hj
        rw [findLeaf,run_bind_ok hpage]
        simp only [toLeaf_internal,fail,toInternal_internal hc hbody.1 hbody.2]
        rw [run_bind_ok (run_lift _)]
        simp only [hfocus.lookup,if_neg hne]
      rw [id_node,hstep,List.append_assoc,List.singleton_append]
      constructor
      · intro hnone
        rw [hok fun m hm => by
          rw [Nat.add_right_comm,Nat.add_assoc]
          exact hnone (m+1) (Nat.succ_le_succ hm)]
        rw [Nat.add_right_comm j 1 n,Nat.add_assoc j n 1]
      · rintro ⟨m,hm,hne⟩
        cases m with
        | zero => exact absurd hj hne
        | succ m =>
          refine herr ⟨m,Nat.le_of_succ_le_succ hm,?_⟩
          rw [Nat.add_right_comm,Nat.add_assoc]
          exact hne

/-! ### After the leaf -/

/-- The leaves that the pages lead to in place of those of a tree: they hold one more pair, and
some of them may have no parent. -/
structure Late (c : Capacity) (e : Entry) (lo hi : Key) (next : PageId)
    (F : List (PageId × IndexPage)) (t : Tree n) (s : BPlusTree) (ls : List Leaf) : Prop where
  rest : Shows s F
  linked : Linked c s next ls
  leads : Leads s n t.id ls lo hi
  head : ∀ d, headId d ls = headId d t.leaves
  pairs : (pairsOf ls).Perm (e::t.entries)
  nodup : (ls.map Leaf.id ++ F.map Prod.fst).Nodup
  bounded : ∀ l ∈ ls, l.id < invalidPageId

/-- An insertion that is finished but for parents. -/
theorem late_of_grown (hc : c.Valid) (ho : Owns s (t'.cells c parent next ++ F)) (hl : Like s s')
    (hs : 0 < t.size) (hle : lo ≤ hi) (hg : Grown c e lo hi t t') :
    Late c e lo hi next F t s' t'.leaves where
  rest := hl.shows ho.right.shows
  linked := linked_tree hg.body (hl.shows ho.left.shows)
  leads := hg.id ▸ leads_tree hc hg.body (lt_of_lt_of_le hs hg.size) hle
    (hl.shows ho.left.shows) ho.left.valid
  head := hg.head
  pairs := hg.entries
  nodup := by
    have hn := ho.holds.nodup
    rw [List.map_append] at hn
    exact hn.sublist ((leaves_sublist c t' parent next).append_right _)
  bounded := ho.left.leaf_lt (leaves_sublist c t' parent next)

/-- A split that no parent knows of. -/
theorem late_of_halves (hc : c.Valid)
    (ho : Owns s (a.cells c parent (headId next b.leaves) ++ (b.cells c parent' next ++ F)))
    (hl : Like s s') (hh : Halves c e lo hi sep t a b) :
    Late c e lo hi next F t s' (a.leaves ++ b.leaves) where
  rest := hl.shows ho.right.right.shows
  linked := linked_append.mpr ⟨linked_tree hh.left.2 (hl.shows ho.left.shows),
    linked_tree hh.right.2 (hl.shows ho.right.left.shows)⟩
  leads := by
    have ha := leads_tree hc hh.left.2 (lt_of_lt_of_le (hc.minSize_pos n) hh.left.1) (hh.left.le hc)
      (hl.shows ho.left.shows) ho.left.valid
    obtain ⟨hs,hb⟩ := hh.right.2.ordered hc
    exact hh.id ▸ ha.append (hh.right.le hc) hs hb
  head := by
    intro d
    rw [headId_append,headId_eq (hh.left.leaves_ne_nil hc) _ d,hh.head]
  pairs := by
    rw [pairsOf_append]
    exact hh.entries
  nodup := by
    have hn := ho.holds.nodup
    rw [List.map_append,List.map_append] at hn
    rw [List.map_append,List.append_assoc]
    exact hn.sublist ((leaves_sublist c a ..).append ((leaves_sublist c b ..).append_right _))
  bounded := by
    intro l hl
    rcases List.mem_append.mp hl with hl | hl
    · exact ho.left.leaf_lt (leaves_sublist c a ..) l hl
    · exact ho.right.left.leaf_lt (leaves_sublist c b ..) l hl

/-- A child that is left so leaves its parent so. -/
theorem Late.node (hc : c.Valid) (h : (Tree.node i (L ++ (k,x)::R)).Body c lo hi)
    (ho : Owns s ((Tree.node i (L ++ (k,x)::R)).cells c parent next ++ F))
    (hx : Late c e (lower lo k L) (upper hi R) (headId next (leavesOf R))
      ((i,.internal ⟨c.internalMax,parent,routes (L ++ (k,x)::R)⟩) ::
        (cellsOf c i (headId next (x.leaves ++ leavesOf R)) L ++ (cellsOf c i next R ++ F))) x s' ls) :
    Late c e lo hi next F (Tree.node i (L ++ (k,x)::R)) s' (leavesOf L ++ (ls ++ leavesOf R)) := by
  have hbody := (body_node ..).mp h
  obtain ⟨hL,-,hR⟩ := fenced_append.mp hbody.2
  have hf := owns_focus.mp ho
  have hrest := List.forall_mem_cons.mp hx.rest
  obtain ⟨hsL,hsR⟩ := shows_append.mp hrest.2
  obtain ⟨hsR,hsF⟩ := shows_append.mp hsR
  have hoL := hf.right.tail.left
  have hoR := hf.right.tail.right.left
  obtain ⟨p,hp⟩ := hx.rest.internal List.mem_cons_self
  have hlinked : ∀ (cs : List (Key × Tree n)) (lo hi : Key) (nx : PageId),
      Fenced (Tree.Sound c) hi lo cs → Shows s' (cellsOf c i nx cs) → Linked c s' nx (leavesOf cs) :=
    fun cs lo hi nx hf hs => linked_cellsOf (fun u _ _ _ _ hu => linked_tree hu.2) hf hs
  have hrow : ∀ (cs : List (Key × Tree n)) (lo hi : Key) (nx : PageId),
      Fenced (Tree.Sound c) hi lo cs → Owns s (cellsOf c i nx cs) → Shows s' (cellsOf c i nx cs) →
      Fenced (fun y lo hi => Leads s' n y.1.id y.2 lo hi) hi lo (whole cs) :=
    fun cs lo hi nx hf ho hs => leads_cellsOf (fun u _ _ _ _ hu hs hv =>
      leads_tree hc hu.2 (lt_of_lt_of_le (hc.minSize_pos n) hu.1) (hu.le hc) hs hv) hf hs ho.valid
  have hchildren : children (whole L ++ (k,x,ls)::whole R) = L ++ (k,x)::R := by
    simp only [children,List.map_append,List.map_cons]
    exact congrArg₂ _ children_whole (congrArg _ children_whole)
  have hleaves : leavesFrom (whole L ++ (k,x,ls)::whole R) = leavesOf L ++ (ls ++ leavesOf R) := by
    simp only [leavesFrom,List.flatMap_append,List.flatMap_cons]
    exact congrArg₂ _ leavesFrom_whole (congrArg _ leavesFrom_whole)
  have hsub := leavesOf_sublist (leaves_sublist (n := n) c)
  refine ⟨hsF,?_,?_,?_,?_,?_,?_⟩
  · rw [linked_append,linked_append,headId_append]
    refine ⟨?_,hx.linked,hlinked _ _ _ _ hR hsR⟩
    rw [hx.head,← headId_append]
    exact hlinked _ _ _ _ hL hsL
  · rw [← hleaves]
    have hp : s'.pages i = some (.internal ⟨c.internalMax,p,
        routes (children (whole L ++ (k,x,ls)::whole R))⟩) := by
      rw [hchildren]
      exact hp
    refine leads_node hc (ho.valid _ List.mem_cons_self) (by simp) hp ?_ ?_ ?_
    · rw [hchildren]
      exact hbody.1
    · rw [hchildren]
      exact hbody.2
    · have hlower : lower lo k (whole L) = lower lo k L := by
        cases L <;> rfl
      have hupper : upper hi (whole R) = upper hi R := by
        cases R <;> rfl
      refine fenced_append.mpr ⟨hrow L lo k _ hL hoL hsL,?_⟩
      rw [fenced_cons,hlower,hupper]
      exact ⟨hx.leads,hrow R _ hi _ hR hoR hsR⟩
  · intro d
    simp only [headId_append,leaves_node,leavesOf_append,leavesOf_cons,hx.head]
  · simp only [pairsOf_append,entries_node,entriesOf_append,entriesOf_cons]
    have hp := (hx.pairs.append_right (entriesOf R)).append_left (entriesOf L)
    rw [pairsOf_leavesOf,pairsOf_leavesOf]
    exact hp.trans (by grind)
  · have hn := hx.nodup
    have hs := (List.Sublist.refl (ls.map Leaf.id)).append
      (((hsub L i (headId next (x.leaves ++ leavesOf R))).append
        ((hsub R i next).append (List.Sublist.refl (F.map Prod.fst)))).cons i)
    simp only [List.map_append,List.map_cons] at hn ⊢
    refine ((hn.sublist hs).perm ?_)
    grind
  · intro l hl
    rcases List.mem_append.mp hl with hl | hl
    · exact hoL.leaf_lt (hsub L _ _) l hl
    · rcases List.mem_append.mp hl with hl | hl
      · exact hx.bounded l hl
      · exact hoR.leaf_lt (hsub R _ _) l hl

/-- The outcomes of an insertion into a subtree whose leaf can take the pair: it stops late, it
succeeds, or the subtree splits and `insertUp` goes on above it. -/
def Outcome (faults : Faults) (c : Capacity) (e : Entry) (lo hi : Key) (parent next : PageId)
    (F : List (PageId × IndexPage)) (path : List PageId) (s : BPlusTree) (t : Tree n)
    (result : EStateM.Result Failure BPlusTree (Unit × ℕ)) : Prop :=
  (∃ err s' ls, result = .error err s' ∧ Keeps s s' ∧ Late c e lo hi next F t s' ls) ∨
  (∃ j s', result = .ok ((),j) s') ∨
  ∃ (a b : Tree n) (sep : Key) (j : ℕ) (s' : BPlusTree),
    result = ((insertUp faults path t.id ⟨sep,b.id⟩).run j).run s' ∧
    Owns s' (a.cells c parent (headId next b.leaves) ++ (b.cells c parent next ++ F)) ∧
    Keeps s s' ∧ Halves c e lo hi sep t a b

/-- The step of the loop of `Insert`. -/
theorem insertUp_step (path : List PageId) (j : ℕ) (hc : c.Valid) (hle : lo ≤ hi)
    (h : (Tree.node i (L ++ (k,x)::R)).Body c lo hi)
    (hx : Halves c e (lower lo k L) (upper hi R) sep x a b)
    (hfocus : Owns s ((Tree.node i (L ++ (k,x)::R)).cells c parent next ++ F))
    (ho : Owns s' (a.cells c i (headId (headId next (leavesOf R)) b.leaves) ++
      (b.cells c i (headId next (leavesOf R)) ++
        ((i,.internal ⟨c.internalMax,parent,routes (L ++ (k,x)::R)⟩) ::
          (cellsOf c i (headId next (x.leaves ++ leavesOf R)) L ++ (cellsOf c i next R ++ F)))))) :
    Outcome faults c e lo hi parent next F path s' (Tree.node i (L ++ (k,x)::R))
      (((insertUp faults (i::path) x.id ⟨sep,b.id⟩).run j).run s') := by
  have hstep := insertIntoInternal_step hc h hx ho
  have hsplit : ∀ s'', Like s' s'' → ∃ ls, Late c e lo hi next F (Tree.node i (L ++ (k,x)::R)) s'' ls :=
    fun s'' hl => ⟨_,Late.node hc h hfocus (late_of_halves hc ho hl hx)⟩
  have htracks : Tracks (insertIntoInternal faults i x.id sep b.id) _ s' _ :=
    insertIntoInternal_tracks x.id b.id sep
  rcases htracks j with ⟨err,s'',hr,rfl | ⟨hok,herr⟩⟩ | ⟨j',hr⟩
  · obtain ⟨ls,hlate⟩ := hsplit s'' (Like.refl s'')
    exact .inl ⟨err,s'',ls,run_bind_error hr,Keeps.refl s'',hlate⟩
  · rcases hstep with ⟨err',hr',hcode⟩ | ⟨t',s₁,hr',ho₁,hk,hg⟩ | ⟨a',b',sep',s₁,hr',ho₁,hk,hh⟩
    · exact absurd hcode (herr err' s' hr')
    · have hlike := hok _ _ hr'
      exact .inl ⟨err,s'',_,run_bind_error hr,hk.trans hlike.keeps,
        late_of_grown hc ho₁ hlike (by simp) hle hg⟩
    · have hlike := hok _ _ hr'
      exact .inl ⟨err,s'',_,run_bind_error hr,hk.trans hlike.keeps,late_of_halves hc ho₁ hlike hh⟩
  · rcases hstep with ⟨err',hr',-⟩ | ⟨t',s₁,hr',-,-,-⟩ | ⟨a',b',sep',s₁,hr',ho₁,hk,hh⟩
    · obtain ⟨ls,hlate⟩ := hsplit s' (Like.refl s')
      rw [hr'] at hr
      exact .inl ⟨err',s',ls,run_bind_error hr,Keeps.refl s',hlate⟩
    · rw [hr'] at hr
      exact .inr (.inl ⟨j',s₁,run_bind_ok hr⟩)
    · rw [hr'] at hr
      exact .inr (.inr ⟨a',b',sep',j',s₁,run_bind_ok hr,ho₁,hk,hh⟩)

/-- Insertion into the leaf that the descent has found. -/
theorem insertFrom_spec (faults : Faults) (rid : RID) (path : List PageId) (j : ℕ) (hc : c.Valid) (h : t.Body c lo hi)
    (ho : Owns s (t.cells c parent next ++ F)) (hr : Route key t climb l) (hlo : lo ≤ key)
    (hhi : key ≤ hi) :
    (LeafStops faults c s j l.entries (key,rid) →
      ∃ err, ((insertFrom faults l.id (climb ++ path) key rid).run j).run s = .error err s) ∧
    (¬ LeafStops faults c s j l.entries (key,rid) →
      Outcome faults c (key,rid) lo hi parent next F path s t
        (((insertFrom faults l.id (climb ++ path) key rid).run j).run s)) := by
  induction n generalizing lo hi parent next F climb path with
  | zero =>
    obtain ⟨i,es,rfl⟩ := t.exists_leaf
    obtain ⟨rfl,rfl⟩ := route_leaf.mp hr
    have hbody := (body_leaf ..).mp h
    obtain ⟨hstops,hgoes⟩ := insertIntoLeaf_run faults key rid j hc h ho
    refine ⟨fun hs => ?_,fun hs => ?_⟩
    · obtain ⟨err,hr⟩ := hstops hs
      exact ⟨err,run_bind_error hr⟩
    · obtain ⟨j',hr⟩ := hgoes hs
      obtain ⟨-,he,hfull⟩ : faults j = none ∧ (key,rid) ∉ es ∧
          (es.length = c.leafMax → ¬ NoPage faults s (j+1)) := by
        simpa [LeafStops] using hs
      rcases Nat.lt_or_eq_of_le hbody.2.1 with hl | hl
      · obtain ⟨s₁,hr₁,-,-⟩ := insertIntoLeaf_fits hc h ho he hl
        rw [hr₁] at hr
        refine .inr (.inl ⟨j',s₁,?_⟩)
        rw [insertFrom,run_bind_ok hr]
        rfl
      · rcases insertIntoLeaf_splits hc h ho he hl rfl rfl with
          ⟨err,-,hp,-⟩ | ⟨p,s₁,hr₁,ho₁,hk₁⟩
        · exact absurd (.inr ⟨err,s,hp⟩) (hfull hl)
        · rw [hr₁] at hr
          have hp : p ≠ invalidPageId := ho₁.right.ne_invalid List.mem_cons_self
          refine .inr (.inr ⟨_,_,_,j',s₁,?_,ho₁,hk₁,halves_leaf hc h hlo hhi hl rfl rfl⟩)
          rw [insertFrom,run_bind_ok hr]
          simp only [if_neg hp]
          rfl
  | succ n ih =>
    obtain ⟨i,cs,rfl⟩ := t.exists_node
    obtain ⟨L,k,x,R,climb,rfl,hfocus,rfl,hroute⟩ := route_node.mp hr
    have hbody := (body_node ..).mp h
    obtain ⟨hxlo,hxhi⟩ := hfocus.between hlo hhi
    obtain ⟨hstops,hgoes⟩ := ih (i::path) (fenced_append.mp hbody.2).2.1.2 (owns_focus.mp ho)
      hroute hxlo hxhi
    rw [List.append_assoc,List.singleton_append]
    refine ⟨hstops,fun hs => ?_⟩
    rcases hgoes hs with ⟨err,s₁,ls,hr₁,hk₁,hlate⟩ | hr₁ | ⟨a,b,sep,j',s₁,hr₁,ho₁,hk₁,hh⟩
    · exact .inl ⟨err,s₁,_,hr₁,hk₁,hlate.node hc h ho⟩
    · exact .inr (.inl hr₁)
    · rw [hr₁]
      rcases insertUp_step path j' hc (le_trans hlo hhi) h hh ho ho₁ with
        ⟨err,s₂,ls,hr₂,hk₂,hlate⟩ | hr₂ | ⟨a',b',sep',j'',s₂,hr₂,ho₂,hk₂,hh'⟩
      · exact .inl ⟨err,s₂,ls,hr₂,hk₁.trans hk₂,hlate⟩
      · exact .inr (.inl hr₂)
      · exact .inr (.inr ⟨a',b',sep',j'',s₂,hr₂,ho₂,hk₁.trans hk₂,hh'⟩)

/-! ### The root -/

theorem Late.reaches (h : Late c e lo hi invalidPageId F t s ls) (hroot : s.rootPageId = t.id)
    (hn : n < pageTurns) : Reaches c s n ls (e::t.entries) where
  leads := ⟨lo,hi,hroot ▸ h.leads⟩
  linked := h.linked
  nodup := (List.nodup_append.mp h.nodup).1
  bounded := h.bounded
  height := hn
  pairs := h.pairs

theorem persistRootPageId_error {j : ℕ} {err : Failure}
    (h : ((persistRootPageId faults).run j).run s = .error err s') : s' = s := by
  have hget : ((getThe BPlusTree : FaultM BPlusTree).run j).run s = .ok (s,j) s := rfl
  rw [persistRootPageId,run_bind_ok hget] at h
  by_cases hi : s.headerPageId = invalidPageId
  · rw [if_pos hi] at h
    cases h
  · rw [if_neg hi] at h
    cases hf : faults j with
    | some e =>
      have hr : ((fetchPage faults s.headerPageId).run j).run s = .error e s :=
        run_bind_error (run_refused hf)
      rw [run_bind_error hr] at h
      cases h
      rfl
    | none =>
      have hr : ((fetchPage faults s.headerPageId).run j).run s = _ := run_answered _ hf
      cases hp : s.pages s.headerPageId with
      | none =>
        have hfetch : (Index.fetchPage s.headerPageId).run s = .error (missing s.headerPageId) s := by
          simp [Index.fetchPage,hp]
        rw [hfetch] at hr
        rw [run_bind_error hr] at h
        cases h
        rfl
      | some p =>
        have hfetch : (Index.fetchPage s.headerPageId).run s = .ok p s := by
          simp [Index.fetchPage,hp]
        rw [hfetch] at hr
        rw [run_bind_ok hr] at h
        cases p <;> cases h <;> rfl

/-- The tree with the new root. -/
theorem reaches_newRoot {nr : PageId} (hc : c.Valid) (hh : Halves c e lo hi sep t a b)
    (ho : Owns s (b.cells c nr invalidPageId ++ (a.cells c nr (headId invalidPageId b.leaves) ++
      ((nr,.internal ⟨c.internalMax,invalidPageId,[(0,t.id),(sep,b.id)]⟩)::F))))
    (hroot : s.rootPageId = nr) :
    Reaches c s (n+1) (a.leaves ++ b.leaves) (e::t.entries) := by
  have hge := hc.internal_ge
  have hbody : (Tree.node nr [(0,a),(sep,b)]).Body c lo hi :=
    (body_node ..).mpr ⟨by simp; omega,hh.left,hh.right,trivial⟩
  have ho : Owns s ((Tree.node nr [(0,a),(sep,b)]).cells c invalidPageId invalidPageId ++ F) := by
    apply ho.perm
    simp only [cells_node,cellsOf_cons,cellsOf_nil,routes_cons,routes_nil,hh.id,leavesOf_cons,
      leavesOf_nil,headId_nil,List.append_nil]
    grind
  have hr := reaches_tree hc hbody (by simp) (le_trans (hh.left.le hc) (hh.right.le hc)) ho hroot
  have hp : (Tree.node nr [(0,a),(sep,b)]).entries.Perm (e::t.entries) := by
    simpa using hh.entries
  simpa using hr.perm hp

/-- A new root that is not finished leaves the split to the leaves, and one that is finished but
for the header page is there. -/
theorem createNewRoot_stopped {j : ℕ} {err : Failure} (hc : c.Valid)
    (hmax : s.internalMaxSize = c.internalMax)
    (ho : Owns s (a.cells c invalidPageId (headId invalidPageId b.leaves) ++
      (b.cells c invalidPageId invalidPageId ++ F)))
    (hroot : s.rootPageId = t.id) (hn : n < pageTurns) (hh : Halves c e lo hi sep t a b)
    (h : ((createNewRoot faults t.id sep b.id).run j).run s = .error err s') :
    ∃ m ls, Reaches c s' m ls (e::t.entries) := by
  have hge := hc.internal_ge
  have hstay : ∀ (s₁ : BPlusTree) (p p' : PageId) (F' : List (PageId × IndexPage)),
      Owns s₁ (a.cells c p (headId invalidPageId b.leaves) ++ (b.cells c p' invalidPageId ++ F')) →
      s₁.rootPageId = t.id → ∃ m ls, Reaches c s₁ m ls (e::t.entries) :=
    fun s₁ _ _ _ ho hr => ⟨n,_,(late_of_halves hc ho (Like.refl s₁) hh).reaches hr hn⟩
  rw [createNewRoot] at h
  cases hf : faults j with
  | some e' =>
    have hnew : ((newPage faults).run j).run s = .error e' s := run_bind_error (run_refused hf)
    rw [run_bind_error hnew] at h
    cases h
    exact hstay s _ _ F ho hroot
  | none =>
    have hnew : ((newPage faults).run j).run s = counted (j+1) (Index.newPage.run s) :=
      run_answered _ hf
    rcases newPage_spec ho with ⟨e',hp,-⟩ | ⟨nr,s₁,hp,ho₁,hk₁⟩
    · rw [hp] at hnew
      rw [run_bind_error hnew] at h
      cases h
      exact hstay s _ _ F ho hroot
    · rw [hp] at hnew
      have hget : ((getThe BPlusTree : FaultM BPlusTree).run (j+1)).run s₁ = .ok (s₁,j+1) s₁ := rfl
      rw [run_bind_ok hnew,run_bind_ok hget,hk₁.internalMax,hmax,InternalPage.initializePage_ok hc,
        run_bind_ok (run_lift _),InternalPage.assign_ok (by simp; omega),
        run_bind_ok (run_lift _)] at h
      obtain ⟨s₂,hr₂,ho₂,hk₂⟩ := writePage_spec
        (q := .internal ⟨c.internalMax,invalidPageId,[(0,t.id),(sep,b.id)]⟩) ho₁
      have hwrite : ((liftM (writePage nr (.internal
          ⟨c.internalMax,invalidPageId,[(0,t.id),(sep,b.id)]⟩)) : FaultM Unit).run (j+1)).run s₁ =
          .ok ((),j+1) s₂ := by
        rw [run_lift,hr₂]
        rfl
      have hroot₂ : s₂.rootPageId = t.id := hk₂.root.trans (hk₁.root.trans hroot)
      have ho₂ : Owns s₂ (a.cells c invalidPageId (headId invalidPageId b.leaves) ++
          (b.cells c invalidPageId invalidPageId ++
            ((nr,.internal ⟨c.internalMax,invalidPageId,[(0,t.id),(sep,b.id)]⟩)::F))) :=
        ho₂.perm (by grind)
      rw [run_bind_ok hwrite] at h
      obtain ⟨s₃,hr₃,ho₃,hk₃⟩ := setParent_spec nr hc hh.left.2 ho₂
      have htracks : Tracks (setParent faults t.id nr) (Index.setParent t.id nr) s₂ (· = s₂) :=
        setParent_tracks t.id nr
      rcases htracks (j+1) with ⟨e',s',hr,rfl⟩ | ⟨j₁,hr⟩
      · rw [run_bind_error hr] at h
        cases h
        exact hstay _ _ _ _ ho₂ hroot₂
      · have hr₃ : (Index.setParent t.id nr).run s₂ = .ok () s₃ := hh.id ▸ hr₃
        rw [hr₃] at hr
        have hroot₃ : s₃.rootPageId = t.id := hk₃.root.trans hroot₂
        rw [run_bind_ok hr] at h
        have hb : Owns s₃ (b.cells c invalidPageId invalidPageId ++
            (a.cells c nr (headId invalidPageId b.leaves) ++
              ((nr,.internal ⟨c.internalMax,invalidPageId,[(0,t.id),(sep,b.id)]⟩)::F))) :=
          ho₃.perm (by grind)
        obtain ⟨s₄,hr₄,ho₄,hk₄⟩ := setParent_spec nr hc hh.right.2 hb
        have htracks : Tracks (setParent faults b.id nr) (Index.setParent b.id nr) s₃ (· = s₃) :=
          setParent_tracks b.id nr
        rcases htracks j₁ with ⟨e',s',hr',rfl⟩ | ⟨j₂,hr'⟩
        · rw [run_bind_error hr'] at h
          cases h
          exact hstay _ _ _ _ ho₃ hroot₃
        · rw [hr₄] at hr'
          rw [run_bind_ok hr'] at h
          have hset : ((liftM (setRoot nr) : FaultM Unit).run j₂).run s₄ =
              .ok ((),j₂) { s₄ with rootPageId := nr } := rfl
          rw [run_bind_ok hset] at h
          obtain rfl := persistRootPageId_error h
          exact ⟨n+1,_,reaches_newRoot hc hh ⟨ho₄.holds,ho₄.bounded⟩ rfl⟩

/-- An empty tree, or one with a root page. -/
inductive Root
  | empty
  | tree {n : ℕ} (t : Tree n)

def Root.entries : Root → List Entry
  | .empty => []
  | .tree t => t.entries

def Root.cells (c : Capacity) : Root → List (PageId × IndexPage)
  | .empty => []
  | .tree t => t.cells c invalidPageId invalidPageId

/-- The invariant of the pages below the root page id. -/
def Root.Stands (c : Capacity) (id : PageId) : Root → Prop
  | .empty => id = invalidPageId
  | .tree t => id = t.id ∧ 0 < t.size ∧ ∃ lo hi, t.Body c lo hi

/-- A valid tree in the pages, beside other pages. -/
structure Valid (c : Capacity) (s : BPlusTree) (F : List (PageId × IndexPage)) (r : Root) :
    Prop where
  capacity : c.Valid
  leafMax : s.leafMaxSize = c.leafMax
  internalMax : s.internalMaxSize = c.internalMax
  stands : r.Stands c s.rootPageId
  owns : Owns s (r.cells c ++ F)

/-- The call that fails comes before the first page is written, or the leaf has the pair. -/
def Early (faults : Faults) (c : Capacity) (s : BPlusTree) (key : Key) (rid : RID) : Root → Prop
  | .empty => NoPage faults s 0
  | .tree (n := n) t => (∃ m ≤ n, faults m ≠ none) ∨
      ∃ id path page, (Index.findLeaf key pageTurns t.id []).run s = .ok (id,path) s ∧
        s.pages id = some (.leaf page) ∧ LeafStops faults c s (n+1) page.entries (key,rid)

theorem startTree_stopped {err : Failure} (hc : c.Valid) (hmax : s.leafMaxSize = c.leafMax)
    (ho : Owns s F) (h : ((startTree faults key rid).run 0).run s = .error err s') :
    (NoPage faults s 0 → s' = s) ∧
      (¬ NoPage faults s 0 → ∃ m ls, Reaches c s' m ls [(key,rid)]) := by
  rw [startTree] at h
  cases hf : faults 0 with
  | some e =>
    have hnew : ((newPage faults).run 0).run s = .error e s := run_bind_error (run_refused hf)
    rw [run_bind_error hnew] at h
    cases h
    exact ⟨fun _ => rfl,fun hn => absurd (.inl (by simp [hf])) hn⟩
  | none =>
    have hnew : ((newPage faults).run 0).run s = counted (0+1) (Index.newPage.run s) :=
      run_answered _ hf
    rcases newPage_spec ho with ⟨e,hp,-⟩ | ⟨id,s₁,hp,ho₁,hk₁⟩
    · rw [hp] at hnew
      rw [run_bind_error hnew] at h
      cases h
      exact ⟨fun _ => rfl,fun hn => absurd (.inr ⟨err,_,hp⟩) hn⟩
    · rw [hp] at hnew
      refine ⟨fun hn => ?_,fun _ => ?_⟩
      · rcases hn with hn | ⟨e,s₂,hn⟩
        · exact absurd hf hn
        · rw [hp] at hn
          cases hn
      · have hge := hc.leaf_ge
        have hget : ((getThe BPlusTree : FaultM BPlusTree).run (0+1)).run s₁ = .ok (s₁,0+1) s₁ := rfl
        have hins : (⟨c.leafMax,invalidPageId,invalidPageId,[]⟩ : LeafPage).insert key rid =
            .ok ⟨c.leafMax,invalidPageId,invalidPageId,[(key,rid)]⟩ := by
          rw [LeafPage.insert,if_neg (by simp [fromBound]),if_neg (by simp; omega),
            LeafPage.assign_ok (by simp [insertEntry,below,fromBound]; omega)]
          rfl
        rw [run_bind_ok hnew,run_bind_ok hget,hk₁.leafMax,hmax,LeafPage.initializePage_ok hc,
          run_bind_ok (run_lift _),hins,run_bind_ok (run_lift _)] at h
        have hset : ((liftM (setRoot id) : FaultM Unit).run (0+1)).run s₁ =
            .ok ((),0+1) { s₁ with rootPageId := id } := rfl
        have ho₁ : Owns { s₁ with rootPageId := id } ((id,.blank)::F) := ⟨ho₁.holds,ho₁.bounded⟩
        obtain ⟨s₂,hr₂,ho₂,hk₂⟩ := writePage_spec
          (q := .leaf ⟨c.leafMax,invalidPageId,invalidPageId,[(key,rid)]⟩) ho₁
        have hwrite : ((liftM (writePage id
            (.leaf ⟨c.leafMax,invalidPageId,invalidPageId,[(key,rid)]⟩)) : FaultM Unit).run
              (0+1)).run { s₁ with rootPageId := id } = .ok ((),0+1) s₂ := by
          rw [run_lift,hr₂]
          rfl
        rw [run_bind_ok hset,run_bind_ok hwrite] at h
        obtain rfl := persistRootPageId_error h
        have hbody : (Tree.leaf id [(key,rid)]).Body c key key :=
          (body_leaf ..).mpr ⟨List.pairwise_singleton ..,by simp; omega,by simp⟩
        have hr := reaches_tree (t := Tree.leaf id [(key,rid)]) hc hbody (by simp) le_rfl ho₂ hk₂.root
        exact ⟨0,_,by simpa using hr⟩

theorem Valid.height (h : Valid c s F (.tree t)) : n < pageTurns := by
  obtain ⟨-,hs,lo,hi,hb⟩ := h.stands
  exact height_lt h.capacity hb hs h.owns

theorem Valid.finds {r : Root} (h : Valid c s F r) : Finds s r.entries := by
  cases r with
  | empty =>
    intro key
    refine ⟨[],?_,List.Perm.refl _⟩
    have hget : (get : TreeM BPlusTree).run s = .ok s s := rfl
    have hroot : s.rootPageId = invalidPageId := h.stands
    have hscan : (rangeScan key key).run s = .ok [] s := by
      rw [rangeScan,if_neg (lt_irrefl key),Index.run_bind_ok hget,if_pos hroot]
      rfl
    rw [getValue,Index.run_bind_ok hscan]
    rfl
  | tree t =>
    obtain ⟨hroot,hs,lo,hi,hb⟩ := h.stands
    -- bounds in order, whatever they are for a root that is an empty leaf
    have hb : t.Body c (min lo hi) (max lo hi) := hb.widen (min_le_left ..) (le_max_right ..)
    exact (reaches_tree h.capacity hb hs (min_le_max) h.owns hroot).finds h.capacity

/-- An insertion that stops before it writes a page changes nothing; one that stops later has
stored the pair, and every pair is found. -/
theorem insert_failed {r : Root} (h : Valid c s F r) (faults : Faults) (key : Key) (rid : RID)
    {err : Failure} (herr : ((insert faults key rid).run 0).run s = .error err s') :
    (Early faults c s key rid r → s' = s ∧ Finds s' r.entries) ∧
      (¬ Early faults c s key rid r → Finds s' ((key,rid)::r.entries)) := by
  have hc := h.capacity
  have h1 := hc.leaf_ge
  have h2 := hc.leaf_le
  have h3 := hc.internal_ge
  have h4 := hc.internal_le
  have hget : ((getThe BPlusTree : FaultM BPlusTree).run 0).run s = .ok (s,0) s := rfl
  rw [insert,run_bind_ok hget,h.leafMax,h.internalMax,if_neg (by grind)] at herr
  cases r with
  | empty =>
    have hroot : s.rootPageId = invalidPageId := h.stands
    rw [if_pos hroot] at herr
    obtain ⟨hearly,hlate⟩ := startTree_stopped hc h.leafMax h.owns herr
    refine ⟨fun hn => ?_,fun hn => ?_⟩
    · obtain rfl := hearly hn
      exact ⟨rfl,h.finds⟩
    · obtain ⟨m,ls,hr⟩ := hlate hn
      exact hr.finds hc
  | @tree n t =>
    obtain ⟨hroot,hs,lo,hi,hb⟩ := h.stands
    have hb : t.Body c (min lo key) (max hi key) := hb.widen (min_le_left ..) (le_max_left ..)
    obtain ⟨climb,l,hroute⟩ := exists_route hc hb hs key
    have hne : s.rootPageId ≠ invalidPageId := by
      have ho := h.owns
      rw [Root.cells,t.cells_eq] at ho
      exact hroot ▸ ho.ne_invalid List.mem_cons_self
    rw [if_neg hne,hroot] at herr
    have hplain := Index.findLeaf_route [] hc hb h.owns hroute h.height
    obtain ⟨hok,hrefused⟩ := findLeaf_route faults [] 0 hc hb h.owns hroute h.height
    obtain ⟨as,bs,hleaves⟩ := List.append_of_mem hroute.mem
    have hmem : ∃ p, (l.id,IndexPage.leaf ⟨c.leafMax,p,headId invalidPageId bs,l.entries⟩) ∈
        t.cells c invalidPageId invalidPageId := t.leaf_mem_cells hleaves
    obtain ⟨p,hp⟩ := hmem
    have hpage := h.owns.left.holds.get _ hp
    by_cases hd : ∀ m ≤ n, faults m = none
    · have hdescent := hok fun m hm => by rw [Nat.zero_add]; exact hd m hm
      rw [run_bind_ok hdescent,Nat.zero_add] at herr
      obtain ⟨hstops,hgoes⟩ := insertFrom_spec faults rid [] (n+1) hc hb h.owns hroute
        (min_le_right ..) (le_max_right ..)
      by_cases hl : LeafStops faults c s (n+1) l.entries (key,rid)
      · obtain ⟨e,hr⟩ := hstops hl
        rw [hr] at herr
        cases herr
        refine ⟨fun _ => ⟨rfl,h.finds⟩,fun hn => absurd (.inr ⟨_,_,_,hplain,hpage,hl⟩) hn⟩
      · refine ⟨fun hn => ?_,fun _ => ?_⟩
        · rcases hn with ⟨m,hm,hne⟩ | ⟨id,path,page,hfind,hpage',hstop⟩
          · exact absurd (hd m hm) hne
          · rw [hplain] at hfind
            obtain ⟨rfl,-⟩ : l.id = id ∧ climb ++ [] = path := by
              cases hfind
              exact ⟨rfl,rfl⟩
            rw [hpage] at hpage'
            cases hpage'
            exact absurd hstop hl
        · rcases hgoes hl with ⟨e,s₁,ls,hr,hk,hlate⟩ | ⟨j,s₁,hr⟩ | ⟨a,b,sep,j,s₁,hr,ho,hk,hh⟩
          · rw [hr] at herr
            cases herr
            exact (hlate.reaches (hk.root.trans hroot) h.height).finds hc
          · rw [hr] at herr
            cases herr
          · rw [hr,insertUp] at herr
            obtain ⟨m,ls,hreach⟩ := createNewRoot_stopped hc (hk.internalMax.trans h.internalMax) ho
              (hk.root.trans hroot) h.height hh herr
            exact hreach.finds hc
    · have hbad : ∃ m ≤ n, faults m ≠ none := by simpa using hd
      obtain ⟨e,hr⟩ := hrefused (by simpa using hbad)
      rw [run_bind_error hr] at herr
      cases herr
      exact ⟨fun _ => ⟨rfl,h.finds⟩,fun hn => absurd (.inl hbad) hn⟩

/-- A full root leaf, and one page left in the file. -/
def full : BPlusTree :=
  ⟨fun i => if i = 1 then
      some (.leaf ⟨2,invalidPageId,invalidPageId,[(1,⟨9,0⟩),(2,⟨9,1⟩)]⟩) else none,
    [7],1,invalidPageId,2,3⟩

def fullRoot : Root := .tree (Tree.leaf 1 [(1,⟨9,0⟩),(2,⟨9,1⟩)])

/-- Page 7 has been split off, and there is no page for a new root. -/
def splitOff : BPlusTree :=
  { full with
    supply := []
    pages := Function.update (Function.update (Function.update full.pages 7 (some .blank)) 1
        (some (.leaf ⟨2,invalidPageId,7,[(1,⟨9,0⟩)]⟩))) 7
      (some (.leaf ⟨2,invalidPageId,invalidPageId,[(2,⟨9,1⟩),(3,⟨9,2⟩)]⟩)) }

theorem full_valid : Valid ⟨2,3⟩ full [] fullRoot where
  capacity := ⟨by decide,by decide,by decide,by decide⟩
  leafMax := rfl
  internalMax := rfl
  stands := by
    refine ⟨rfl,by decide,1,2,(body_leaf ..).mpr ⟨?_,by decide,by decide⟩⟩
    exact List.pairwise_pair.mpr rfl
  owns := by
    refine ⟨⟨by decide,fun x hx => ?_⟩,fun x hx => ?_⟩
    · obtain rfl := List.mem_singleton.mp hx
      rfl
    · obtain rfl := List.mem_singleton.mp hx
      decide

theorem full_stops : ((insert quiet 3 ⟨9,2⟩).run 0).run full = .error noPage splitOff := rfl

theorem insert_failed_full :
    (Early quiet ⟨2,3⟩ full 3 ⟨9,2⟩ fullRoot → splitOff = full ∧ Finds splitOff fullRoot.entries) ∧
      (¬ Early quiet ⟨2,3⟩ full 3 ⟨9,2⟩ fullRoot →
        Finds splitOff ((3,⟨9,2⟩)::fullRoot.entries)) :=
  insert_failed full_valid quiet 3 ⟨9,2⟩ full_stops

/-- A failed insertion whose pair is stored, with a page outside the tree. -/
theorem insert_keeps_pair : Valid ⟨2,3⟩ full [] fullRoot ∧
    ((insert quiet 3 ⟨9,2⟩).run 0).run full = .error noPage splitOff ∧
    (getValue 3).run full = .ok [] full ∧ (getValue 3).run splitOff = .ok [⟨9,2⟩] splitOff ∧
    splitOff.rootPageId = 1 ∧ full.pages 7 = none ∧ (splitOff.pages 7).isSome = true :=
  ⟨full_valid,full_stops,rfl,rfl,rfl,rfl,rfl⟩

end Faulty
end Index
end OurSql
