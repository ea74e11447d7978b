import OurSql.Buffer.Steps

/-! Where every frame is. Pins say what holds of a frame in use; here the free list,
the candidates, the page table and the reservations are tied to the frame's state in
both directions. -/
namespace OurSql
namespace Buffer

set_option linter.unusedSectionVars false

variable {β ρ : Type} [Zero β] [DecidableEq β] [Replacer ρ]

/-- The frame is in the hands of an operation that let go of the mutex. -/
def FrameState.moving : FrameState → Prop
  | .loading | .evicting | .flushing => True
  | _ => False

/-- What a frame's state says about the tables of a pool of `n` frames. -/
structure PlacedAt (n : ℕ) (b : BufferPool β ρ) (f : FrameId) : Prop where
  free : f ∈ b.freeFrames ↔ f < n ∧ (b.frames f).state = .empty
  held : (b.frames f).state ≠ .empty → f < n
  blank : (b.frames f).state = .empty →
    (b.frames f).pageId = invalidPageId ∧ (b.frames f).pinCount = 0
  named : (b.frames f).state ≠ .empty → (b.frames f).state ≠ .loading →
    (b.frames f).pageId ≠ invalidPageId
  owns : (b.frames f).pageId ≠ invalidPageId → b.pageTable (b.frames f).pageId = some f
  pending : ∀ q, b.pageTable q = some f →
    (b.deletePending q = true ↔ (b.frames f).state = .deletePending)
  candidate : Replacer.isEvictable b.replacer f = true ↔
    (b.frames f).state = .valid ∧ (b.frames f).pinCount = 0

/-- A frame that only its bytes may have changed in. -/
structure Keeps (b b' : BufferPool β ρ) (g : FrameId) : Prop where
  frame : Threads.SameFrame (b.frames g) (b'.frames g)
  free : g ∈ b'.freeFrames ↔ g ∈ b.freeFrames
  mapped : ∀ q, b'.pageTable q = some g ↔ b.pageTable q = some g
  pending : ∀ q, b.pageTable q = some g → b'.deletePending q = b.deletePending q
  candidate : Replacer.isEvictable b'.replacer g = Replacer.isEvictable b.replacer g

theorem PlacedAt.keep {n : ℕ} {b b' : BufferPool β ρ} {g : FrameId} (h : PlacedAt n b g)
    (hk : Keeps b b' g) : PlacedAt n b' g := by
  obtain ⟨hp,hs,hi⟩ := hk.frame
  refine ⟨?_,?_,?_,?_,?_,?_,?_⟩
  · rw [hk.free,hs]
    exact h.free
  · rw [hs]
    exact h.held
  · rw [hs,hi,hp]
    exact h.blank
  · rw [hs,hi]
    exact h.named
  · rw [hi,hk.mapped]
    exact h.owns
  · intro q hq
    have hq' := (hk.mapped q).mp hq
    rw [hk.pending q hq',hs]
    exact h.pending q hq'
  · rw [hk.candidate,hs,hp]
    exact h.candidate

theorem Keeps.calm {b b' : BufferPool β ρ} {g : FrameId} (hk : Keeps b b' g)
    (h : ¬ (b.frames g).state.moving) : ¬ (b'.frames g).state.moving := by
  rw [hk.frame.2.1]
  exact h

section Keeping

variable {b b' b'' : BufferPool β ρ} {f g : FrameId} {p : PageId}

theorem Keeps.refl (b : BufferPool β ρ) (g : FrameId) : Keeps b b g :=
  ⟨⟨rfl,rfl,rfl⟩,Iff.rfl,fun _ => Iff.rfl,fun _ _ => rfl,rfl⟩

theorem Keeps.trans (h : Keeps b b' g) (h' : Keeps b' b'' g) : Keeps b b'' g where
  frame := ⟨h'.frame.1.trans h.frame.1,h'.frame.2.1.trans h.frame.2.1,
    h'.frame.2.2.trans h.frame.2.2⟩
  free := h'.free.trans h.free
  mapped q := (h'.mapped q).trans (h.mapped q)
  pending q hq := (h'.pending q ((h.mapped q).mpr hq)).trans (h.pending q hq)
  candidate := h'.candidate.trans h.candidate

theorem keeps_setFrame (b : BufferPool β ρ) (hg : g ≠ f) (x : Frame β) :
    Keeps b (b.setFrame f x) g := by
  have hx : (b.setFrame f x).frames g = b.frames g := Function.update_of_ne hg _ _
  exact ⟨by rw [hx]; exact ⟨rfl,rfl,rfl⟩,Iff.rfl,fun _ => Iff.rfl,fun _ _ => rfl,rfl⟩

theorem keeps_map (hg : g ≠ f) (hp : b.pageTable p ≠ some g) : Keeps b (b.map p f) g := by
  refine ⟨⟨rfl,rfl,rfl⟩,Iff.rfl,fun q => ?_,fun _ _ => rfl,rfl⟩
  by_cases hq : q = p
  · subst hq
    have hfg : some f ≠ some g := fun he => hg (Option.some.inj he).symm
    simp only [BufferPool.map, Function.update_self]
    exact iff_of_false hfg hp
  · simp only [BufferPool.map, Function.update_of_ne hq]

theorem keeps_unmap (hp : b.pageTable p ≠ some g) : Keeps b (b.unmap p) g := by
  refine ⟨⟨rfl,rfl,rfl⟩,Iff.rfl,fun q => ?_,fun _ _ => rfl,rfl⟩
  by_cases hq : q = p
  · subst hq
    simp only [BufferPool.unmap, Function.update_self]
    exact iff_of_false (by simp) hp
  · simp only [BufferPool.unmap, Function.update_of_ne hq]

theorem keeps_pending (hp : b.pageTable p ≠ some g) (x : Bool) :
    Keeps b (b.setPending p x) g := by
  refine ⟨⟨rfl,rfl,rfl⟩,Iff.rfl,fun _ => Iff.rfl,fun q hq => ?_,rfl⟩
  have hqp : q ≠ p := by
    rintro rfl
    exact hp hq
  simp only [BufferPool.setPending, Function.update_of_ne hqp]

theorem keeps_replacer {t : ρ → ρ}
    (ht : Replacer.isEvictable (t b.replacer) g = Replacer.isEvictable b.replacer g) :
    Keeps b (b.mapReplacer t) g :=
  ⟨⟨rfl,rfl,rfl⟩,Iff.rfl,fun _ => Iff.rfl,fun _ _ => rfl,ht⟩

theorem keeps_setFailure (b : BufferPool β ρ) (g : FrameId) (p : PageId) (e : Option Failure) :
    Keeps b (b.setFailure p e) g :=
  ⟨⟨rfl,rfl,rfl⟩,Iff.rfl,fun _ => Iff.rfl,fun _ _ => rfl,rfl⟩

theorem keeps_unpin (b : BufferPool β ρ) (hg : g ≠ f) :
    Keeps b (b.mapReplacer fun r => Replacer.unpin r f) g :=
  keeps_replacer (t := fun r => Replacer.unpin r f) (by simp [hg])

theorem keeps_pin (b : BufferPool β ρ) (hg : g ≠ f) :
    Keeps b (b.mapReplacer fun r => Replacer.pin r f) g :=
  keeps_replacer (t := fun r => Replacer.pin r f) (by simp [hg])

theorem keeps_remove (b : BufferPool β ρ) (hg : g ≠ f) :
    Keeps b (b.mapReplacer fun r => Replacer.remove r f) g :=
  keeps_replacer (t := fun r => Replacer.remove r f) (by simp [hg])

theorem keeps_unpinFrame (b : BufferPool β ρ) (hg : g ≠ f) :
    Keeps b (b.unpinFrame f).2 g := by
  simp only [BufferPool.unpinFrame]
  split
  · exact (keeps_setFrame b hg _).trans (keeps_unpin _ hg)
  · exact keeps_setFrame b hg _

theorem keeps_unevict (b : BufferPool β ρ) (hg : g ≠ f) : Keeps b (b.unevict f) g :=
  (keeps_setFrame b hg _).trans (keeps_unpin _ hg)

theorem keeps_install (b : BufferPool β ρ) (hg : g ≠ f) (p : PageId) :
    Keeps b (b.install f p) g :=
  (keeps_setFrame b hg _).trans
    (keeps_replacer (t := fun r => Replacer.recordAccess (Replacer.remove r f) f) (by simp [hg]))

/-- An unused frame goes back, and is accepted. -/
theorem returnFreeFrame_eq (hp : (b.frames f).pageId = invalidPageId)
    (hz : (b.frames f).pinCount = 0) (hf : f ∉ b.freeFrames) :
    (b.returnFreeFrame f).2 = { b with freeFrames := b.freeFrames ++ [f] } := by
  simp [BufferPool.returnFreeFrame, hp, hz, hf]

theorem keeps_returnFree (b : BufferPool β ρ) (hg : g ≠ f) :
    Keeps b { b with freeFrames := b.freeFrames ++ [f] } g :=
  ⟨⟨rfl,rfl,rfl⟩,by simp [hg],fun _ => Iff.rfl,fun _ _ => rfl,rfl⟩

theorem keeps_popFree {rest : List FrameId} (hf : b.freeFrames = f::rest) (hg : g ≠ f) :
    Keeps b { b with freeFrames := rest } g :=
  ⟨⟨rfl,rfl,rfl⟩,by simp [hf, hg],fun _ => Iff.rfl,fun _ _ => rfl,rfl⟩

theorem keeps_victim {r : ρ} (hv : Replacer.victim b.replacer = some (f,r)) (hg : g ≠ f) :
    Keeps b { b with replacer := r } g :=
  keeps_replacer (t := fun _ => r) (by rw [(Replacer.victim_evictable _ _ _ hv).2 g]; simp [hg])

theorem Threads.Overwrites.keeps (h : Threads.Overwrites b b' f)
    (hd : b'.deletePending = b.deletePending) (g : FrameId) : Keeps b b' g := by
  refine ⟨?_,by rw [h.freeFrames],fun q => by rw [h.pageTable],fun q _ => by rw [hd],
    by rw [h.replacer]⟩
  by_cases hg : g = f
  · exact hg ▸ h.same
  · rw [h.others g hg]
    exact ⟨rfl,rfl,rfl⟩

end Keeping

section Placing

variable {n : ℕ} {b b' : BufferPool β ρ} {f : FrameId}

/-- A frame in use keeps its page and changes its state. -/
theorem PlacedAt.restate (h : PlacedAt n b f) (hs : (b.frames f).state ≠ .empty)
    (hl : (b.frames f).state ≠ .loading) (hs' : (b'.frames f).state ≠ .empty)
    (hpage : (b'.frames f).pageId = (b.frames f).pageId) (ht : b'.pageTable = b.pageTable)
    (hfree : b'.freeFrames = b.freeFrames)
    (hpend : ∀ q, b.pageTable q = some f →
      (b'.deletePending q = true ↔ (b'.frames f).state = .deletePending))
    (hcand : Replacer.isEvictable b'.replacer f = true ↔
      (b'.frames f).state = .valid ∧ (b'.frames f).pinCount = 0) : PlacedAt n b' f := by
  refine ⟨?_,fun _ => h.held hs,fun he => absurd he hs',?_,?_,?_,hcand⟩
  · rw [hfree,h.free]
    exact iff_of_false (fun he => hs he.2) fun he => hs' he.2
  · rw [hpage]
    exact fun _ _ => h.named hs hl
  · rw [hpage,ht]
    exact h.owns
  · rw [ht]
    exact hpend

/-- A frame that is in use afterwards. -/
theorem PlacedAt.occupied (hs : (b.frames f).state ≠ .empty) (hn : f < n)
    (hfree : f ∉ b.freeFrames)
    (hname : (b.frames f).state ≠ .loading → (b.frames f).pageId ≠ invalidPageId)
    (howns : (b.frames f).pageId ≠ invalidPageId → b.pageTable (b.frames f).pageId = some f)
    (hpend : ∀ q, b.pageTable q = some f →
      (b.deletePending q = true ↔ (b.frames f).state = .deletePending))
    (hcand : Replacer.isEvictable b.replacer f = true ↔
      (b.frames f).state = .valid ∧ (b.frames f).pinCount = 0) : PlacedAt n b f :=
  ⟨iff_of_false hfree fun he => hs he.2,fun _ => hn,fun he => absurd he hs,fun _ => hname,
    howns,hpend,hcand⟩

/-- A frame that is free afterwards. -/
theorem PlacedAt.vacant (hs : (b.frames f).state = .empty) (hn : f < n)
    (hfree : f ∈ b.freeFrames) (hpage : (b.frames f).pageId = invalidPageId)
    (hz : (b.frames f).pinCount = 0) (ht : ∀ q, b.pageTable q ≠ some f)
    (hev : Replacer.isEvictable b.replacer f = false) : PlacedAt n b f := by
  refine ⟨iff_of_true hfree ⟨hn,hs⟩,fun _ => hn,fun _ => ⟨hpage,hz⟩,fun he => absurd hs he,
    fun he => absurd hpage he,fun q hq => absurd hq (ht q),?_⟩
  rw [hev,hs]
  exact iff_of_false (by simp) (by simp)

/-! ### Choosing a frame -/

/-- The two checks of `SelectFrameUnlocked` never fail. -/
theorem selectFrame_placed (h : ∀ f, PlacedAt n b f) : (∃ e, b.selectFrame = (.error e,b)) ∨
    (∃ f rest, b.freeFrames = f::rest ∧ b.selectFrame = (.ok ⟨f,true⟩,
      ({ b with freeFrames := rest }).setFrame f { b.frames f with state := .loading })) ∨
    ∃ f r, b.freeFrames = [] ∧ Replacer.victim b.replacer = some (f,r) ∧
      (b.frames f).state = .valid ∧ b.selectFrame = (.ok ⟨f,false⟩,
        ({ b with replacer := r }).setFrame f
          { b.frames f with state := .evicting, pinCount := (b.frames f).pinCount + 1 }) := by
  unfold BufferPool.selectFrame
  cases hfree : b.freeFrames with
  | cons f rest =>
    have hs := ((h f).free.mp (by simp [hfree])).2
    have hp := ((h f).blank hs).1
    right; left
    exact ⟨f,rest,rfl,by simp [hp]⟩
  | nil =>
    cases hv : Replacer.victim b.replacer with
    | none => exact .inl ⟨⟨.notFound,"没有可淘汰的 frame，所有页面都被 pin"⟩,rfl⟩
    | some v =>
      obtain ⟨f,r⟩ := v
      obtain ⟨hs,hz⟩ := (h f).candidate.mp (Replacer.victim_evictable _ _ _ hv).1
      have hp := (h f).named (by simp [hs]) (by simp [hs])
      right; right
      exact ⟨f,r,rfl,rfl,hs,by simp [hs, hz, hp]⟩

/-- With nobody inside the pool, a fetch finds its page, takes a frame or fails. -/
theorem lookup_placed (h : ∀ f, PlacedAt n b f) (hcalm : ∀ f, ¬ (b.frames f).state.moving)
    {p : PageId} (hmap : ∀ f, b.pageTable p = some f →
      (b.frames f).pageId = p ∧ p ≠ invalidPageId) :
    (∃ e b', b.lookup p = (.failed e,b') ∧ ∀ g, Keeps b b' g) ∨
    (∃ f, b.pageTable p = some f ∧ (b.frames f).state = .valid ∧
      b.lookup p = (.hit f,(b.mapReplacer fun r => Replacer.recordAccess (Replacer.pin r f) f).setFrame
        f { b.frames f with pinCount := (b.frames f).pinCount + 1 })) ∨
    ∃ sel b₁, b.deletePending p = false ∧ b.pageTable p = none ∧
      b.selectFrame = (.ok sel,b₁) ∧ b.lookup p = (.load sel (b₁.frames sel.frameId).pageId,
        (if sel.fromFreeList then b₁.setFrame sel.frameId
          { b₁.frames sel.frameId with pageId := p, pinCount := 1 } else b₁).map p sel.frameId) := by
  unfold BufferPool.lookup
  cases hd : b.deletePending p with
  | true => exact .inl ⟨BufferPool.beingDeleted p,b,rfl,Keeps.refl b⟩
  | false =>
    cases ht : b.pageTable p with
    | some f =>
      have hf := hcalm f
      cases hs : (b.frames f).state with
      | valid => exact .inr (.inl ⟨f,rfl,hs,by simp [hs]⟩)
      | deletePending => exact .inl ⟨BufferPool.beingDeleted p,b,by simp [hs],Keeps.refl b⟩
      | empty =>
        obtain ⟨hp,hne⟩ := hmap f ht
        exact absurd (hp.symm.trans ((h f).blank hs).1) hne
      | loading => simp [hs, FrameState.moving] at hf
      | evicting => simp [hs, FrameState.moving] at hf
      | flushing => simp [hs, FrameState.moving] at hf
    | none =>
      cases hl : b.loadFailures p with
      | some e =>
        left
        by_cases hw : b.loadingWaiters p = none
        · exact ⟨e,b.setFailure p none,by simp [hw],fun g => keeps_setFailure b g p none⟩
        · exact ⟨e,b,by simp [hw],Keeps.refl b⟩
      | none =>
        rcases selectFrame_placed h with ⟨e,he⟩ | ⟨f,rest,-,he⟩ | ⟨f,r,-,-,-,he⟩
        · exact .inl ⟨e,b,by simp [he],Keeps.refl b⟩
        · exact .inr (.inr ⟨_,_,rfl,rfl,he,by simp [he]⟩)
        · exact .inr (.inr ⟨_,_,rfl,rfl,he,by simp [he]⟩)

end Placing

end Buffer
end OurSql
