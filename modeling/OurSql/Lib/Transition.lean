import Mathlib.Data.Nat.Notation

/-! Labelled transition systems: reachability, the invariant rule, and replay of
a list of labels by an executable step function. -/
namespace Transition

variable {σ α : Type*}

/-- States reachable from an initial state by labelled steps. -/
inductive Reach (init : σ → Prop) (step : σ → α → σ → Prop) : σ → Prop
  | init {s : σ} : init s → Reach init step s
  | step {s s' : σ} {a : α} : Reach init step s → step s a s' → Reach init step s'

/-- An invariant that holds initially and survives every step holds throughout a run. -/
theorem Reach.invariant {init : σ → Prop} {step : σ → α → σ → Prop} {P : σ → Prop}
    (h0 : ∀ s, init s → P s) (hs : ∀ s a s', P s → step s a s' → P s')
    {s : σ} (h : Reach init step s) : P s := by
  induction h with
  | init hi => exact h0 _ hi
  | step _ hstep ih => exact hs _ _ _ ih hstep

/-- A run whose steps are all steps of another system is a run of that one. -/
theorem Reach.mono {init : σ → Prop} {step step' : σ → α → σ → Prop}
    (hs : ∀ s a s', step s a s' → step' s a s') {s : σ} (h : Reach init step s) :
    Reach init step' s :=
  h.invariant (fun _ hi => .init hi) fun s a s' hr hstep => hr.step (hs s a s' hstep)

/-- The graph of a partial step function. -/
def StepOf (next : σ → α → Option σ) (s : σ) (a : α) (s' : σ) : Prop := next s a = some s'

/-- Run a list of labels in order; `none` as soon as one of them is not enabled. -/
def exec (next : σ → α → Option σ) : σ → List α → Option σ
  | s, [] => some s
  | s, a::as => (next s a).bind fun s' => exec next s' as

theorem exec_reach {init : σ → Prop} {next : σ → α → Option σ} {s s' : σ} {as : List α}
    (h : Reach init (StepOf next) s) (hx : exec next s as = some s') :
    Reach init (StepOf next) s' := by
  induction as generalizing s with
  | nil =>
    have he : s = s' := by simpa [exec] using hx
    exact he ▸ h
  | cons a as ih =>
    obtain ⟨t,ht,hrest⟩ := Option.bind_eq_some_iff.mp hx
    exact ih (Reach.step h ht) hrest

end Transition
