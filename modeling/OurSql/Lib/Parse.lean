import Mathlib.Data.Nat.Notation
import Mathlib.Order.Nat

/-! Recursive-descent parsers over an indexed list of tokens. An access outside the list,
a step over the last token and missing fuel are outcomes of their own; the rules below say
when none of them occurs. -/
namespace Parse

/-- `outside`: a token beyond the list was read, or the position left the last one. -/
inductive Outcome (ε α : Type)
  | ok (a : α) (index : ℕ)
  | failed (e : ε)
  | outside
  | unfinished
  deriving DecidableEq, Repr

def Parser (τ ε α : Type) := List τ → ℕ → Outcome ε α

variable {τ ε α β σ : Type}

def Outcome.bind : Outcome ε α → (α → ℕ → Outcome ε β) → Outcome ε β
  | .ok a i, f => f a i
  | .failed e, _ => .failed e
  | .outside, _ => .outside
  | .unfinished, _ => .unfinished

instance : Monad (Parser τ ε) where
  pure a := fun _ i => .ok a i
  bind p f := fun ts i => (p ts i).bind fun a j => f a ts j

def fail (e : ε) : Parser τ ε α := fun _ _ => .failed e

def unfinished : Parser τ ε α := fun _ _ => .unfinished

/-- The token `k` places after the next one. -/
def peek (k : ℕ) : Parser τ ε τ := fun ts i =>
  match ts[i + k]? with
  | some t => .ok t i
  | none => .outside

/-- The token consumed last. -/
def previous : Parser τ ε τ := fun ts i =>
  match i with
  | 0 => .outside
  | j+1 =>
    match ts[j]? with
    | some t => .ok t (j+1)
    | none => .outside

def advance : Parser τ ε Unit := fun ts i =>
  if i + 1 < ts.length then .ok () (i+1) else .outside

/-- Consume the next token if it has the property. -/
def accept (p : τ → Bool) : Parser τ ε Bool := do
  let t ← peek 0
  if p t then do
    advance
    pure true
  else pure false

def ifAccept (p : τ → Bool) (yes no : Parser τ ε α) : Parser τ ε α := do
  let b ← accept p
  if b then yes else no

/-- Consume a token with the property or fail. -/
def expect (p : τ → Bool) (e : τ → ε) : Parser τ ε τ := do
  let t ← peek 0
  if p t then do
    advance
    pure t
  else fail (e t)

/-- Go on with what an optional part has found. -/
def andThen (p : Parser τ ε (Option α)) (f : α → Parser τ ε β) : Parser τ ε (Option β) := do
  let o ← p
  match o with
  | none => pure none
  | some a => do
    let b ← f a
    pure (some b)

/-- Run the body until it answers `none`. -/
def loop (body : σ → Parser τ ε (Option σ)) : ℕ → σ → Parser τ ε σ
  | 0, _ => unfinished
  | k+1, s => do
    let o ← body s
    match o with
    | none => pure s
    | some s' => loop body k s'

/-- One item or more with a separator between them. -/
def separated (sep : τ → Bool) (item : Parser τ ε α) : ℕ → Parser τ ε (List α)
  | 0 => unfinished
  | k+1 => do
    let a ← item
    ifAccept sep
      (do
        let rest ← separated sep item k
        pure (a::rest))
      (pure [a])

/-! ### Where a parser ends -/

def Outcome.Ensures (o : Outcome ε α) (Q : α → ℕ → Prop) : Prop :=
  match o with
  | .ok a j => Q a j
  | .failed _ => True
  | _ => False

theorem Outcome.Ensures.mono {o : Outcome ε α} {Q Q' : α → ℕ → Prop} (h : o.Ensures Q)
    (hq : ∀ a j, Q a j → Q' a j) : o.Ensures Q' := by
  cases o with
  | ok a j => exact hq a j h
  | failed => trivial
  | outside => exact h
  | unfinished => exact h

theorem Outcome.Ensures.bind {o : Outcome ε α} {f : α → ℕ → Outcome ε β} {Q : α → ℕ → Prop}
    {Q' : β → ℕ → Prop} (h : o.Ensures Q) (hf : ∀ a j, Q a j → (f a j).Ensures Q') :
    (o.bind f).Ensures Q' := by
  cases o with
  | ok a j => exact hf a j h
  | failed => trivial
  | outside => exact h
  | unfinished => exact h

/-- From every position `m` or later with at most `r` tokens left the parser ends, without
leaving the tokens, and `R` relates its answer, its start and its end. -/
def Moves (ts : List τ) (m r : ℕ) (R : α → ℕ → ℕ → Prop) (p : Parser τ ε α) : Prop :=
  ∀ i, m ≤ i → i < ts.length → ts.length ≤ i + r →
    (p ts i).Ensures fun a j => R a i j ∧ j < ts.length

/-- It may stay where it is. -/
def Reads (ts : List τ) (m r : ℕ) (p : Parser τ ε α) : Prop := Moves ts m r (fun _ i j => i ≤ j) p

/-- It consumes a token. -/
def Eats (ts : List τ) (m r : ℕ) (p : Parser τ ε α) : Prop := Moves ts m r (fun _ i j => i < j) p

/-- It consumes a token unless it answers `none`. -/
def Offers (ts : List τ) (m r : ℕ) (p : Parser τ ε (Option α)) : Prop :=
  Moves ts m r (fun a i j => i ≤ j ∧ (a.isSome → i < j)) p

variable {ts : List τ} {m m' r r' : ℕ} {p : Parser τ ε α}

theorem Moves.mono {R R' : α → ℕ → ℕ → Prop} (h : Moves ts m r R p) (hm : m ≤ m') (hr : r' ≤ r)
    (hR : ∀ a i j, R a i j → R' a i j) : Moves ts m' r' R' p := by
  intro i hi hlt hle
  have hstart := h i (hm.trans hi) hlt (by omega)
  exact hstart.mono fun a j hj => ⟨hR a i j hj.1,hj.2⟩

theorem Moves.bind {R : α → ℕ → ℕ → Prop} {S : β → ℕ → ℕ → Prop} {f : α → Parser τ ε β}
    (h : Moves ts m r R p)
    (hf : ∀ a i j, m ≤ i → ts.length ≤ i + r → R a i j → j < ts.length →
      (f a ts j).Ensures fun b k => S b i k ∧ k < ts.length) :
    Moves ts m r S (p >>= f) := by
  intro i hi hlt hle
  exact (h i hi hlt hle).bind fun a j hj => hf a i j hi hle hj.1 hj.2

theorem Moves.ite {R : α → ℕ → ℕ → Prop} {c : Prop} [Decidable c] {q : Parser τ ε α}
    (hp : Moves ts m r R p) (hq : Moves ts m r R q) : Moves ts m r R (if c then p else q) := by
  split
  · exact hp
  · exact hq

theorem moves_fail (R : α → ℕ → ℕ → Prop) (e : ε) : Moves ts m r R (fail e : Parser τ ε α) :=
  fun _ _ _ _ => trivial

theorem Eats.reads (h : Eats ts m r p) : Reads ts m r p :=
  Moves.mono h le_rfl le_rfl fun _ _ _ => Nat.le_of_lt

theorem Reads.mono (h : Reads ts m r p) (hm : m ≤ m') (hr : r' ≤ r) : Reads ts m' r' p :=
  Moves.mono h hm hr fun _ _ _ => id

theorem Eats.mono (h : Eats ts m r p) (hm : m ≤ m') (hr : r' ≤ r) : Eats ts m' r' p :=
  Moves.mono h hm hr fun _ _ _ => id

theorem Eats.offers {p : Parser τ ε (Option α)} (h : Eats ts m r p) : Offers ts m r p :=
  Moves.mono h le_rfl le_rfl fun _ _ _ hlt => ⟨Nat.le_of_lt hlt,fun _ => hlt⟩

theorem reads_pure (a : α) : Reads ts m r (pure a : Parser τ ε α) :=
  fun _ _ hlt _ => ⟨le_rfl,hlt⟩

theorem reads_fail (e : ε) : Reads ts m r (fail e : Parser τ ε α) := moves_fail _ e

theorem eats_fail (e : ε) : Eats ts m r (fail e : Parser τ ε α) := moves_fail _ e

theorem offers_none : Offers ts m r (pure none : Parser τ ε (Option α)) :=
  fun _ _ hlt _ => ⟨⟨le_rfl,by simp⟩,hlt⟩

theorem Reads.bind {f : α → Parser τ ε β} (h : Reads ts m r p) (hf : ∀ a, Reads ts m r (f a)) :
    Reads ts m r (p >>= f) := by
  refine Moves.bind h fun a i j hi hle hij hj => ?_
  exact (hf a j (by omega) hj (by omega)).mono fun b k hk => ⟨hij.trans hk.1,hk.2⟩

theorem Reads.bind_eats {f : α → Parser τ ε β} (h : Reads ts m r p)
    (hf : ∀ a, Eats ts m r (f a)) : Eats ts m r (p >>= f) := by
  refine Moves.bind h fun a i j hi hle hij hj => ?_
  exact (hf a j (by omega) hj (by omega)).mono fun b k hk => ⟨hij.trans_lt hk.1,hk.2⟩

theorem Eats.map (h : Eats ts m r p) (f : α → β) : Eats ts m r (p >>= fun a => pure (f a)) :=
  Moves.bind h fun _ _ _ _ _ hij hj => ⟨hij,hj⟩

/-- After a consumed token one unit of fuel less is enough. -/
theorem Eats.bind {f : α → Parser τ ε β} (h : Eats ts m (r+1) p)
    (hf : ∀ a, Reads ts 1 r (f a)) : Eats ts m (r+1) (p >>= f) := by
  refine Moves.bind h fun a i j hi hle hij hj => ?_
  exact (hf a j (by omega) hj (by omega)).mono fun b k hk => ⟨Nat.lt_of_lt_of_le hij hk.1,hk.2⟩

theorem Eats.bind_reads {f : α → Parser τ ε β} (h : Eats ts m r p)
    (hf : ∀ a, Reads ts 1 r (f a)) : Eats ts m r (p >>= f) := by
  refine Moves.bind h fun a i j hi hle hij hj => ?_
  exact (hf a j (by omega) hj (by omega)).mono fun b k hk => ⟨Nat.lt_of_lt_of_le hij hk.1,hk.2⟩

theorem Reads.bind_offers {f : α → Parser τ ε (Option β)} (h : Reads ts m r p)
    (hf : ∀ a, Offers ts m r (f a)) : Offers ts m r (p >>= f) := by
  refine Moves.bind h fun a i j hi hle hij hj => ?_
  refine (hf a j (by omega) hj (by omega)).mono fun b k hk => ?_
  exact ⟨⟨hij.trans hk.1.1,fun hb => Nat.lt_of_le_of_lt hij (hk.1.2 hb)⟩,hk.2⟩

theorem Offers.andThen {p : Parser τ ε (Option α)} {f : α → Parser τ ε β}
    (h : Offers ts m r p) (hf : ∀ a, Reads ts 1 r (f a)) : Offers ts m r (andThen p f) := by
  refine Moves.bind h fun o i j hi hle hij hj => ?_
  cases o with
  | none => exact ⟨⟨hij.1,by simp⟩,hj⟩
  | some a =>
    have hlt : i < j := hij.2 rfl
    refine (hf a j (by omega) hj (by omega)).bind fun b k hk => ?_
    exact ⟨⟨by omega,fun _ => by omega⟩,hk.2⟩

/-- A loop whose rounds consume tokens ends within as many rounds as there are tokens, and
what its last round has found holds where it ends. -/
theorem loop_moves {Q : σ → ℕ → Prop} {body : σ → Parser τ ε (Option σ)}
    (h : ∀ s, Moves ts m r (fun o i j => i ≤ j ∧ (o.isSome → i < j) ∧ (o = none → Q s j)) (body s))
    {k : ℕ} (hk : r ≤ k) (s : σ) : Moves ts m r (fun a i j => i ≤ j ∧ Q a j) (loop body k s) := by
  induction k generalizing s r with
  | zero =>
    intro i _ hlt hle
    omega
  | succ k ih =>
    intro i hi hlt hle
    refine (h s i hi hlt hle).bind fun o j hj => ?_
    obtain ⟨⟨hij,heat,hexit⟩,hlt'⟩ := hj
    cases o with
    | none => exact ⟨⟨hij,hexit rfl⟩,hlt'⟩
    | some s' =>
      have hlt : i < j := heat rfl
      have hrest := fun s => (h s).mono le_rfl (Nat.sub_le r 1) fun _ _ _ => id
      refine (ih hrest (by omega) s' j (by omega) hlt' (by omega)).mono fun _ k hk => ?_
      exact ⟨⟨hij.trans hk.1.1,hk.1.2⟩,hk.2⟩

theorem loop_reads {body : σ → Parser τ ε (Option σ)} (h : ∀ s, Offers ts m r (body s))
    {k : ℕ} (hk : r ≤ k) (s : σ) : Reads ts m r (loop body k s) := by
  have hbody : ∀ s, Moves ts m r
      (fun o i j => i ≤ j ∧ (o.isSome → i < j) ∧ (o = none → True)) (body s) :=
    fun s => (h s).mono le_rfl le_rfl fun _ _ _ hj => ⟨hj.1,hj.2,fun _ => trivial⟩
  exact (loop_moves hbody hk s).mono le_rfl le_rfl fun _ _ _ hj => hj.1

/-! ### Tokens with an end token -/

/-- The last token, and no other, is an end token. -/
structure Ended (isEnd : τ → Prop) (ts : List τ) : Prop where
  pos : 0 < ts.length
  iff_last : ∀ {i : ℕ} {t : τ}, ts[i]? = some t → (isEnd t ↔ i + 1 = ts.length)

variable {isEnd : τ → Prop} {q : τ → Bool}

theorem Ended.next_lt (he : Ended isEnd ts) {i : ℕ} {t : τ} (ht : ts[i]? = some t)
    (hn : ¬ isEnd t) : i + 1 < ts.length := by
  have hlt := (List.getElem?_eq_some_iff.mp ht).1
  have hne : i + 1 ≠ ts.length := fun h => hn ((he.iff_last ht).mpr h)
  omega

theorem peek_eq {k i : ℕ} (h : i + k < ts.length) :
    (peek k : Parser τ ε τ) ts i = .ok ts[i + k] i := by
  simp [peek,List.getElem?_eq_getElem h]

theorem ensures_peek {i k : ℕ} (h : i + k < ts.length) :
    ((peek k : Parser τ ε τ) ts i).Ensures fun t j => ts[i + k]? = some t ∧ j = i := by
  rw [peek_eq h]
  exact ⟨List.getElem?_eq_getElem h,rfl⟩

theorem ensures_advance {i : ℕ} (h : i + 1 < ts.length) :
    ((advance : Parser τ ε Unit) ts i).Ensures fun _ j => j = i + 1 := by
  simp [advance,h,Outcome.Ensures]

theorem reads_peek : Reads ts m r (peek 0 : Parser τ ε τ) := by
  intro i _ hlt _
  refine (ensures_peek hlt).mono fun t j hj => ?_
  obtain rfl : j = i := hj.2
  exact ⟨le_rfl,hlt⟩

theorem reads_previous : Reads ts 1 r (previous : Parser τ ε τ) := by
  intro i hi hlt _
  obtain ⟨j,rfl⟩ := Nat.exists_eq_add_of_le' hi
  simp [previous,List.getElem?_eq_getElem (Nat.lt_of_succ_lt hlt),Outcome.Ensures,hlt]

theorem Moves.peek_bind {R : α → ℕ → ℕ → Prop} {f : τ → Parser τ ε α}
    (h : ∀ t i, m ≤ i → i < ts.length → ts.length ≤ i + r → ts[i]? = some t →
      (f t ts i).Ensures fun a j => R a i j ∧ j < ts.length) :
    Moves ts m r R (peek 0 >>= f) := by
  intro i hi hlt hle
  refine (ensures_peek hlt).bind fun t j hj => ?_
  obtain ⟨ht,rfl⟩ := hj
  exact h t j hi hlt hle ht

/-- What one token of look-ahead allows: a second one behind a token that is no end. -/
theorem Moves.peek_ite {R : α → ℕ → ℕ → Prop} {c : τ → Prop} [DecidablePred c]
    {yes no : τ → Parser τ ε α}
    (hyes : ∀ t i, m ≤ i → i + 1 < ts.length → ts.length ≤ i + r → ts[i]? = some t → c t →
      (yes t ts i).Ensures fun a j => R a i j ∧ j < ts.length)
    (hno : ∀ t, Moves ts m r R (no t)) (he : Ended isEnd ts) (hc : ∀ t, c t → ¬ isEnd t) :
    Moves ts m r R (peek 0 >>= fun t => if c t then yes t else no t) := by
  refine Moves.peek_bind fun t i hi hlt hle ht => ?_
  by_cases h : c t
  · simp only [h,if_true]
    exact hyes t i hi (he.next_lt ht (hc t h)) hle ht h
  · simp only [h,if_false]
    exact hno t i hi hlt hle

theorem ensures_accept (he : Ended isEnd ts) (hq : ∀ t, q t → ¬ isEnd t) {i : ℕ}
    (hlt : i < ts.length) : ((accept q : Parser τ ε Bool) ts i).Ensures fun b j =>
      j < ts.length ∧ if b then j = i + 1 else j = i := by
  refine (ensures_peek hlt).bind fun t j hj => ?_
  obtain ⟨ht,rfl⟩ := hj
  by_cases h : q t
  · simp only [h,if_true]
    have hnext := he.next_lt ht (hq t h)
    refine (ensures_advance hnext).bind fun _ k hk => ?_
    exact ⟨hk ▸ hnext,by simpa using hk⟩
  · simp only [h]
    exact ⟨hlt,by simp⟩

theorem accept_reads (he : Ended isEnd ts) (hq : ∀ t, q t → ¬ isEnd t) :
    Reads ts m r (accept q : Parser τ ε Bool) := by
  intro i _ hlt _
  refine (ensures_accept he hq hlt).mono fun b j hj => ⟨?_,hj.1⟩
  have := hj.2
  cases b <;> simp at this <;> omega

theorem Moves.ifAccept {R S : α → ℕ → ℕ → Prop} {yes no : Parser τ ε α} (he : Ended isEnd ts)
    (hq : ∀ t, q t → ¬ isEnd t) (hyes : Moves ts 1 (r-1) S yes) (hno : Moves ts m r R no)
    (hR : ∀ a i j, S a (i+1) j → R a i j) : Moves ts m r R (ifAccept q yes no) := by
  intro i hi hlt hle
  refine (ensures_accept he hq hlt).bind fun b j hj => ?_
  obtain ⟨hj,hb⟩ := hj
  cases b with
  | true =>
    obtain rfl : j = i + 1 := by simpa using hb
    exact (hyes (i+1) (by omega) hj (by omega)).mono fun a k hk => ⟨hR a i k hk.1,hk.2⟩
  | false =>
    obtain rfl : j = i := by simpa using hb
    exact hno j hi hlt hle

theorem Reads.ifAccept {yes no : Parser τ ε α} (he : Ended isEnd ts) (hq : ∀ t, q t → ¬ isEnd t)
    (hyes : Reads ts 1 r yes) (hno : Reads ts m r no) : Reads ts m r (ifAccept q yes no) :=
  Moves.ifAccept he hq (hyes.mono le_rfl (Nat.sub_le r 1)) hno fun _ _ _ => Nat.le_of_succ_le

theorem Eats.ifAccept {yes no : Parser τ ε α} (he : Ended isEnd ts) (hq : ∀ t, q t → ¬ isEnd t)
    (hyes : Reads ts 1 r yes) (hno : Eats ts m (r+1) no) : Eats ts m (r+1) (ifAccept q yes no) :=
  Moves.ifAccept he hq hyes hno fun _ _ _ => id

theorem Offers.ifAccept {yes no : Parser τ ε (Option α)} (he : Ended isEnd ts)
    (hq : ∀ t, q t → ¬ isEnd t) (hyes : Reads ts 1 r yes) (hno : Offers ts m r no) :
    Offers ts m r (ifAccept q yes no) :=
  Moves.ifAccept he hq (hyes.mono le_rfl (Nat.sub_le r 1)) hno
    fun _ _ _ hlt => ⟨Nat.le_of_succ_le hlt,fun _ => hlt⟩

theorem eats_expect (he : Ended isEnd ts) (hq : ∀ t, q t → ¬ isEnd t) (e : τ → ε) :
    Eats ts m r (expect q e) := by
  intro i _ hlt _
  refine (ensures_peek hlt).bind fun t j hj => ?_
  obtain ⟨ht,rfl⟩ := hj
  by_cases h : q t
  · simp only [h,if_true]
    have hnext := he.next_lt ht (hq t h)
    refine (ensures_advance hnext).bind fun _ k hk => ?_
    exact hk ▸ ⟨Nat.lt_succ_self j,hnext⟩
  · simp only [h]
    trivial

/-- A list with separators consumes a token if each of its items does. -/
theorem eats_separated {item : Parser τ ε α} (he : Ended isEnd ts) (hq : ∀ t, q t → ¬ isEnd t)
    {k : ℕ} (hk : r ≤ k) (h : Eats ts 1 r item) : Eats ts 1 r (separated q item k) := by
  induction k generalizing r with
  | zero =>
    intro i _ hlt hle
    omega
  | succ k ih =>
    cases r with
    | zero =>
      intro i _ hlt hle
      omega
    | succ r =>
      refine h.bind fun a => Reads.ifAccept he hq ?_ (reads_pure [a])
      have hrest := ih (Nat.le_of_succ_le_succ hk) (h.mono le_rfl (Nat.le_succ r))
      exact hrest.reads.bind fun rest => reads_pure (a::rest)

end Parse
