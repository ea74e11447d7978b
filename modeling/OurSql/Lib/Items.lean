import Mathlib.Data.Nat.Init

/-! A counted list of items in a buffer: a reader of one item, applied as often as
the count says, and the writer it undoes. -/
namespace Items

variable {τ ε α : Type}

/-- `n` items one after the other, and what is left of the buffer. -/
def readMany (read : List τ → Except ε (α × List τ)) : ℕ → List τ → Except ε (List α × List τ)
  | 0, buffer => .ok ([],buffer)
  | n+1, buffer =>
    match read buffer with
    | .error e => .error e
    | .ok (a,rest) =>
      match readMany read n rest with
      | .error e => .error e
      | .ok (as,rest) => .ok (a::as,rest)

/-- The reader takes what the writer writes of `a`, whatever follows. -/
def Undoes (read : List τ → Except ε (α × List τ)) (write : α → List τ) (a : α) : Prop :=
  ∀ rest, read (write a ++ rest) = .ok (a,rest)

theorem readMany_flatMap {read : List τ → Except ε (α × List τ)} {write : α → List τ}
    {as : List α} (h : ∀ a ∈ as, Undoes read write a) (rest : List τ) :
    readMany read as.length (as.flatMap write ++ rest) = .ok (as,rest) := by
  induction as with
  | nil => rfl
  | cons a as ih =>
    have hfirst := h a List.mem_cons_self (as.flatMap write ++ rest)
    have hrest := ih fun b hb => h b (List.mem_cons_of_mem _ hb)
    rw [List.length_cons,List.flatMap_cons,List.append_assoc,readMany,hfirst]
    simp only [hrest]

/-- What every reading of one item promises holds of all of them. -/
theorem readMany_forall {read : List τ → Except ε (α × List τ)} {Q : α → Prop}
    (h : ∀ buffer a rest, read buffer = .ok (a,rest) → Q a) {n : ℕ} {buffer rest : List τ}
    {as : List α} (hr : readMany read n buffer = .ok (as,rest)) : ∀ a ∈ as, Q a := by
  induction n generalizing buffer rest as with
  | zero =>
    obtain ⟨rfl,-⟩ : [] = as ∧ buffer = rest := by simpa [readMany] using hr
    simp
  | succ n ih =>
    simp only [readMany] at hr
    cases h₁ : read buffer with
    | error e => simp [h₁] at hr
    | ok first =>
      obtain ⟨a,rest₁⟩ := first
      simp only [h₁] at hr
      cases h₂ : readMany read n rest₁ with
      | error e => simp [h₂] at hr
      | ok others =>
        obtain ⟨bs,rest₂⟩ := others
        obtain ⟨rfl,-⟩ : a::bs = as ∧ rest₂ = rest := by simpa [h₂] using hr
        intro b hb
        rcases List.mem_cons.mp hb with rfl | hb
        · exact h buffer b rest₁ h₁
        · exact ih h₂ b hb

end Items
