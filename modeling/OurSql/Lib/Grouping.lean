import Mathlib.Data.List.Induction
import Mathlib.Data.List.Nodup

/-! Grouping a list by a key with a linear search: the groups are the classes of the key, in
the order of their first members. -/
namespace Grouping

variable {α κ : Type} [DecidableEq κ] (key : α → κ)

/-- A group is recognized by its first member; an unmatched element opens a new one. -/
def insert (a : α) : List (List α) → List (List α)
  | [] => [[a]]
  | g::gs => if g.head?.any (fun b => key b = key a) then (g ++ [a])::gs else g::insert a gs

def group (xs : List α) : List (List α) := xs.foldl (fun gs a => insert key a gs) []

def addKey (ks : List κ) (k : κ) : List κ := if k ∈ ks then ks else ks ++ [k]

/-- The keys, each once, in the order of their first appearance. -/
def keys (xs : List α) : List κ := xs.foldl (fun ks a => addKey ks (key a)) []

def members (xs : List α) (k : κ) : List α := xs.filter fun a => key a = k

variable {key} {xs ys : List α} {a : α} {k : κ} {ks : List κ}

theorem mem_addKey {k' : κ} : k' ∈ addKey ks k ↔ k' ∈ ks ∨ k' = k := by
  unfold addKey
  split_ifs with h
  · exact ⟨Or.inl,fun h' => h'.elim id fun he => he ▸ h⟩
  · simp

theorem nodup_addKey (h : ks.Nodup) : (addKey ks k).Nodup := by
  unfold addKey
  split_ifs with hk
  · exact h
  · exact List.Nodup.append h (List.nodup_singleton k) (by simpa using hk)

theorem keys_concat : keys key (xs ++ [a]) = addKey (keys key xs) (key a) := by
  simp [keys]

theorem group_concat : group key (xs ++ [a]) = insert key a (group key xs) := by
  simp [group]

theorem nodup_keys : (keys key xs).Nodup := by
  induction xs using List.reverseRecOn with
  | nil => exact List.nodup_nil
  | append_singleton xs a ih =>
    rw [keys_concat]
    exact nodup_addKey ih

theorem mem_keys : k ∈ keys key xs ↔ ∃ a ∈ xs, key a = k := by
  induction xs using List.reverseRecOn with
  | nil => simp [keys]
  | append_singleton xs a ih =>
    rw [keys_concat,mem_addKey,ih]
    simp only [List.mem_append,List.mem_singleton]
    constructor
    · rintro (⟨b,hb,rfl⟩ | rfl)
      · exact ⟨b,Or.inl hb,rfl⟩
      · exact ⟨a,Or.inr rfl,rfl⟩
    · rintro ⟨b,hb | rfl,rfl⟩
      · exact Or.inl ⟨b,hb,rfl⟩
      · exact Or.inr rfl

theorem members_concat : members key (xs ++ [a]) k =
    if key a = k then members key xs k ++ [a] else members key xs k := by
  unfold members
  split_ifs with h <;> simp [h]

/-- The first member of a class has its key. -/
theorem head_members (h : ∃ b ∈ xs, key b = k) :
    (members key xs k).head?.any (fun b => key b = key a) = decide (k = key a) := by
  obtain ⟨b,hb,hk⟩ := h
  cases hm : members key xs k with
  | nil =>
    have hmem : b ∈ members key xs k := List.mem_filter.mpr ⟨hb,decide_eq_true hk⟩
    rw [hm] at hmem
    cases hmem
  | cons c cs =>
    have hc : c ∈ members key xs k := hm ▸ List.mem_cons_self
    have hck : key c = k := of_decide_eq_true (List.mem_filter.mp hc).2
    simp [hck]

/-- One more element joins the class of its key and no other. -/
theorem insert_classes (hn : ks.Nodup) (hne : ∀ k ∈ ks, ∃ b ∈ xs, key b = k)
    (hfresh : key a ∉ ks → ∀ b ∈ xs, key b ≠ key a) :
    insert key a (ks.map (members key xs)) =
      (addKey ks (key a)).map (members key (xs ++ [a])) := by
  induction ks with
  | nil =>
    have hnone := hfresh (by simp)
    have hempty : members key xs (key a) = [] := by
      simpa [members,List.filter_eq_nil_iff] using hnone
    simp [insert,addKey,members_concat,hempty]
  | cons k ks ih =>
    obtain ⟨hk,hks⟩ := List.nodup_cons.mp hn
    rw [List.map_cons,insert,head_members (hne k List.mem_cons_self)]
    by_cases he : k = key a
    · subst he
      have hrest : ks.map (members key (xs ++ [a])) = ks.map (members key xs) := by
        refine List.map_congr_left fun k' hk' => ?_
        rw [members_concat,if_neg]
        rintro rfl
        exact hk hk'
      simp [addKey,members_concat,hrest]
    · have hrest := ih hks (fun k' hk' => hne k' (List.mem_cons_of_mem k hk'))
        (fun hnot => hfresh (by simp [Ne.symm he,hnot]))
      have hadd : addKey (k::ks) (key a) = k::addKey ks (key a) := by
        unfold addKey
        by_cases hmem : key a ∈ ks
        · simp [hmem]
        · simp [hmem,Ne.symm he]
      rw [hadd,List.map_cons,members_concat,if_neg (Ne.symm he),hrest]
      simp [he]

/-- The groups are the classes of the keys. -/
theorem group_eq : group key xs = (keys key xs).map (members key xs) := by
  induction xs using List.reverseRecOn with
  | nil => rfl
  | append_singleton xs a ih =>
    rw [group_concat,ih,keys_concat]
    exact insert_classes nodup_keys (fun k => mem_keys.mp)
      fun hnot b hb he => hnot (mem_keys.mpr ⟨b,hb,he⟩)

end Grouping
