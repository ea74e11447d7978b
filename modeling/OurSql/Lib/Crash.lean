import Mathlib.Data.Nat.Notation

/-! Programs over stable storage that may lose power between two effects, and
specifications with a postcondition for the end and one for the power failure. -/
namespace Crash

/-- A state, and how many more effects happen before the power fails, if it does. -/
structure World (σ : Type) where
  state : σ
  power : Option ℕ

/-- A program ends with a value, or with none where the power failed. -/
def Prog (σ α : Type) : Type := World σ → Option α × World σ

variable {σ α β : Type}

def Prog.pure (a : α) : Prog σ α := fun w => (some a,w)

def Prog.bind (m : Prog σ α) (f : α → Prog σ β) : Prog σ β := fun w =>
  match m w with
  | (some a,w) => f a w
  | (none,w) => (none,w)

instance : Monad (Prog σ) where
  pure := Prog.pure
  bind := Prog.bind

def get : Prog σ σ := fun w => (some w.state,w)

/-- A change that no power failure can fall into, such as one in memory only. -/
def modify (f : σ → σ) : Prog σ Unit := fun w => (some (),⟨f w.state,w.power⟩)

/-- One write to stable storage: it happens as a whole, or the power fails before it. -/
def effect (f : σ → σ) : Prog σ Unit := fun w =>
  match w.power with
  | none => (some (),⟨f w.state,none⟩)
  | some 0 => (none,w)
  | some (n+1) => (some (),⟨f w.state,some n⟩)

/-- Run to the end. -/
def Prog.run (m : Prog σ α) (s : σ) : Option α × σ :=
  let r := m ⟨s,none⟩
  (r.1,r.2.state)

/-- Run with the power failing after `n` effects. -/
def Prog.cut (m : Prog σ α) (n : ℕ) (s : σ) : Option α × σ :=
  let r := m ⟨s,some n⟩
  (r.1,r.2.state)

theorem bind_of_some {m : Prog σ α} {f : α → Prog σ β} {w w' : World σ} {a : α}
    (h : m w = (some a,w')) : (m >>= f) w = f a w' := by
  change Prog.bind m f w = _
  simp only [Prog.bind,h]

theorem bind_of_none {m : Prog σ α} {f : α → Prog σ β} {w w' : World σ}
    (h : m w = (none,w')) : (m >>= f) w = (none,w') := by
  change Prog.bind m f w = _
  simp only [Prog.bind,h]

/-- From a state with `P`, the program ends with `Q`, or the power fails in a state
with `R`; it does not end otherwise. -/
def Spec (P : σ → Prop) (m : Prog σ α) (Q : α → σ → Prop) (R : σ → Prop) : Prop :=
  ∀ w : World σ, P w.state →
    (∃ a w', m w = (some a,w') ∧ Q a w'.state ∧ (w.power = none → w'.power = none)) ∨
    (∃ w', m w = (none,w') ∧ R w'.state ∧ w.power ≠ none)

namespace Spec

variable {P P' : σ → Prop} {Q Q' : α → σ → Prop} {R R' : σ → Prop} {m : Prog σ α}

theorem pure {a : α} (h : ∀ s, P s → Q a s) : Spec P (Pure.pure a) Q R :=
  fun w hw => .inl ⟨a,w,rfl,h _ hw,id⟩

theorem bind {f : α → Prog σ β} {T : β → σ → Prop} (hm : Spec P m Q R)
    (hf : ∀ a, Spec (Q a) (f a) T R) : Spec P (m >>= f) T R := by
  intro w hw
  rcases hm w hw with ⟨a,w₁,hrun,hq,hpow⟩ | ⟨w₁,hrun,hr,hpow⟩
  · have hbind : (m >>= f) w = f a w₁ := by
      change Prog.bind m f w = _
      simp only [Prog.bind,hrun]
    rw [hbind]
    rcases hf a w₁ hq with ⟨b,w₂,h₂,ht,hp⟩ | ⟨w₂,h₂,hr,hp⟩
    · exact .inl ⟨b,w₂,h₂,ht,fun hn => hp (hpow hn)⟩
    · exact .inr ⟨w₂,h₂,hr,fun hn => hp (hpow hn)⟩
  · refine .inr ⟨w₁,?_,hr,hpow⟩
    change Prog.bind m f w = _
    simp only [Prog.bind,hrun]

theorem conseq (h : Spec P m Q R) (hP : ∀ s, P' s → P s) (hQ : ∀ a s, Q a s → Q' a s)
    (hR : ∀ s, R s → R' s) : Spec P' m Q' R' := by
  intro w hw
  rcases h w (hP _ hw) with ⟨a,w',hrun,hq,hpow⟩ | ⟨w',hrun,hr,hpow⟩
  · exact .inl ⟨a,w',hrun,hQ _ _ hq,hpow⟩
  · exact .inr ⟨w',hrun,hR _ hr,hpow⟩

/-- Fix the starting state: what holds of it may be used in the postconditions. -/
theorem of_state (h : ∀ s, P s → Spec (· = s) m Q R) : Spec P m Q R :=
  fun w hw => h w.state hw w rfl

theorem get : Spec P get (fun a s => a = s ∧ P s) R :=
  fun w hw => .inl ⟨w.state,w,rfl,⟨rfl,hw⟩,id⟩

theorem modify {f : σ → σ} {T : Unit → σ → Prop} (h : ∀ s, P s → T () (f s)) :
    Spec P (modify f) T R :=
  fun w hw => .inl ⟨(),⟨f w.state,w.power⟩,rfl,h _ hw,id⟩

theorem effect {f : σ → σ} {T : Unit → σ → Prop} (hR : ∀ s, P s → R s)
    (h : ∀ s, P s → T () (f s)) : Spec P (effect f) T R := by
  intro w hw
  obtain ⟨s,power⟩ := w
  match power with
  | none => exact .inl ⟨(),⟨f s,none⟩,rfl,h _ hw,id⟩
  | some 0 => exact .inr ⟨⟨s,some 0⟩,rfl,hR _ hw,by simp⟩
  | some (n+1) => exact .inl ⟨(),⟨f s,some n⟩,rfl,h _ hw,by simp⟩

/-- With the power on, the program ends and its postcondition holds. -/
theorem run (h : Spec P m Q R) {s : σ} (hs : P s) :
    ∃ a s', m.run s = (some a,s') ∧ Q a s' := by
  rcases h ⟨s,none⟩ hs with ⟨a,w',hrun,hq,-⟩ | ⟨w',-,-,hpow⟩
  · exact ⟨a,w'.state,by simp only [Prog.run,hrun],hq⟩
  · exact absurd rfl hpow

/-- Cut short, the program has ended or left a state with the failure postcondition. -/
theorem cut (h : Spec P m Q R) {s : σ} (hs : P s) (n : ℕ) :
    (∃ a s', m.cut n s = (some a,s') ∧ Q a s') ∨ ∃ s', m.cut n s = (none,s') ∧ R s' := by
  rcases h ⟨s,some n⟩ hs with ⟨a,w',hrun,hq,-⟩ | ⟨w',hrun,hr,-⟩
  · exact .inl ⟨a,w'.state,by simp only [Prog.cut,hrun],hq⟩
  · exact .inr ⟨w'.state,by simp only [Prog.cut,hrun],hr⟩

/-! Symbolic execution from one known state. -/

section exact

variable {s s₁ : σ} {a₁ : α} {f : α → Prog σ β} {T : β → σ → Prop}

theorem pure_eq {a : α} : Spec (· = s) (Pure.pure a) (fun b t => b = a ∧ t = s) R :=
  pure fun _ h => ⟨rfl,h⟩

theorem get_bind {f : σ → Prog σ β} (h : Spec (· = s) (f s) T R) :
    Spec (· = s) (Crash.get >>= f) T R :=
  bind get fun a => of_state fun t ht => by
    obtain ⟨rfl,rfl⟩ := ht
    exact h

theorem modify_bind {g : σ → σ} {f : Unit → Prog σ β} (h : Spec (· = g s) (f ()) T R) :
    Spec (· = s) (Crash.modify g >>= f) T R :=
  bind (modify fun _ hs => congrArg g hs) fun _ => h

theorem effect_bind {g : σ → σ} {f : Unit → Prog σ β} (hR : R s)
    (h : Spec (· = g s) (f ()) T R) : Spec (· = s) (Crash.effect g >>= f) T R :=
  bind (effect (fun _ hs => hs ▸ hR) fun _ hs => congrArg g hs) fun _ => h

/-- Continue after a part whose result and final state are known. -/
theorem step (hm : Spec (· = s) m (fun a t => a = a₁ ∧ t = s₁) R)
    (hf : Spec (· = s₁) (f a₁) T R) : Spec (· = s) (m >>= f) T R :=
  bind hm fun a => of_state fun t ht => by
    obtain ⟨rfl,rfl⟩ := ht
    exact hf

end exact

end Spec

/-! Frames: what a program never changes, whether or not the power fails. -/

def Keeps {γ : Type} (f : σ → γ) (m : Prog σ α) : Prop := ∀ w, f (m w).2.state = f w.state

namespace Keeps

variable {γ : Type} {f : σ → γ} {m : Prog σ α}

theorem pure (a : α) : Keeps f (Pure.pure a : Prog σ α) := fun _ => rfl

theorem get : Keeps f (get : Prog σ σ) := fun _ => rfl

theorem bind {k : α → Prog σ β} (hm : Keeps f m) (hk : ∀ a, Keeps f (k a)) : Keeps f (m >>= k) := by
  intro w
  change f (Prog.bind m k w).2.state = f w.state
  unfold Prog.bind
  have hw := hm w
  split
  · rename_i a w₁ hrun
    rw [hrun] at hw
    exact (hk a w₁).trans hw
  · rename_i w₁ hrun
    rw [hrun] at hw
    exact hw

theorem modify {g : σ → σ} (h : ∀ s, f (g s) = f s) : Keeps f (modify g) := fun w => h w.state

theorem effect {g : σ → σ} (h : ∀ s, f (g s) = f s) : Keeps f (effect g) := by
  intro w
  unfold Crash.effect
  split
  · exact h w.state
  · rfl
  · exact h w.state

theorem run (h : Keeps f m) (s : σ) : f (m.run s).2 = f s := h ⟨s,none⟩

end Keeps

/-- The same of a program that ends unless the power fails. -/
def Stays {γ : Type} (f : σ → γ) (m : Prog σ α) : Prop :=
  ∀ c, Spec (fun s => f s = c) m (fun _ s => f s = c) fun s => f s = c

namespace Stays

variable {γ : Type} {f : σ → γ} {m : Prog σ α}

theorem pure (a : α) : Stays f (Pure.pure a : Prog σ α) := fun _ => Spec.pure fun _ h => h

theorem get : Stays f (get : Prog σ σ) :=
  fun _ => Spec.get.conseq (fun _ h => h) (fun _ _ h => h.2) fun _ h => h

theorem bind {k : α → Prog σ β} (hm : Stays f m) (hk : ∀ a, Stays f (k a)) :
    Stays f (m >>= k) := fun c => (hm c).bind fun a => hk a c

theorem modify {g : σ → σ} (h : ∀ s, f (g s) = f s) : Stays f (modify g) :=
  fun _ => Spec.modify fun s hs => (h s).trans hs

theorem effect {g : σ → σ} (h : ∀ s, f (g s) = f s) : Stays f (effect g) :=
  fun _ => Spec.effect (fun _ hs => hs) fun s hs => (h s).trans hs

theorem keeps (h : Stays f m) : Keeps f m := by
  intro w
  rcases h (f w.state) w rfl with ⟨a,w',hrun,hs,-⟩ | ⟨w',hrun,hs,-⟩
  · rw [hrun]
    exact hs
  · rw [hrun]
    exact hs

end Stays
end Crash
