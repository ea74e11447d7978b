import OurSql.Lib.Yield

/-! One parser on two lists of tokens that are alike place by place. What it answers on the first
list, reading between two positions, it answers on the second. -/
namespace Parse

variable {τ ε α β γ δ σ : Type}

/-- Two lists whose tokens are alike at every position. -/
structure Similar (S : τ → τ → Prop) (ts ts' : List τ) : Prop where
  length : ts.length = ts'.length
  alike : ∀ {i : ℕ} {t : τ}, ts[i]? = some t → ∃ t', ts'[i]? = some t' ∧ S t t'

theorem similar_of_map {f : τ → γ} {ts ts' : List τ} (h : ts.map f = ts'.map f) :
    Similar (fun t t' => f t = f t') ts ts' := by
  refine ⟨by simpa using congrArg List.length h,fun {i t} ht => ?_⟩
  have hget : (ts'.map f)[i]? = some (f t) := by rw [← h,List.getElem?_map,ht]; rfl
  obtain ⟨t',ht',heq⟩ := by simpa using hget
  exact ⟨t',ht',heq.symm⟩

/-- What the first parser answers, reading between the positions `m` and `n` of the first list, the
second answers on the second list. -/
def Agrees (ts ts' : List τ) (m n : ℕ) (p p' : Parser τ ε α) : Prop :=
  ∀ i a j, p ts i = .ok a j → i ≤ j ∧ (m ≤ i → j ≤ n → p' ts' i = .ok a j)

variable {ts ts' : List τ} {m n : ℕ} {S : τ → τ → Prop} {q : τ → Bool} {p p' : Parser τ ε α}

theorem agrees_pure (a : α) : Agrees ts ts' m n (pure a : Parser τ ε α) (pure a) := by
  intro i b j hp
  obtain ⟨rfl,rfl⟩ := pure_ok hp
  exact ⟨le_rfl,fun _ _ => rfl⟩

theorem agrees_fail (e : ε) : Agrees ts ts' m n (fail e : Parser τ ε α) p' := by
  intro i a j hp
  cases hp

theorem agrees_unfinished : Agrees ts ts' m n (unfinished : Parser τ ε α) p' := by
  intro i a j hp
  cases hp

theorem Agrees.bind {f f' : α → Parser τ ε β} (h : Agrees ts ts' m n p p')
    (hf : ∀ a, Agrees ts ts' m n (f a) (f' a)) : Agrees ts ts' m n (p >>= f) (p' >>= f') := by
  intro i b k hbind
  obtain ⟨a,j,hp,hrest⟩ := bind_ok hbind
  obtain ⟨hij,hfirst⟩ := h i a j hp
  obtain ⟨hjk,hlast⟩ := hf a j b k hrest
  refine ⟨hij.trans hjk,fun hm hn => ?_⟩
  rw [bind_at (hfirst hm (hjk.trans hn))]
  exact hlast (hm.trans hij) hn

theorem Agrees.ite {c : Prop} [Decidable c] {r r' : Parser τ ε α} (hp : Agrees ts ts' m n p p')
    (hr : Agrees ts ts' m n r r') :
    Agrees ts ts' m n (if c then p else r) (if c then p' else r') := by
  split
  · exact hp
  · exact hr

theorem agrees_loop {body body' : σ → Parser τ ε (Option σ)}
    (h : ∀ s, Agrees ts ts' m n (body s) (body' s)) (k : ℕ) (s : σ) :
    Agrees ts ts' m n (loop body k s) (loop body' k s) := by
  induction k generalizing s with
  | zero => exact agrees_unfinished
  | succ k ih =>
    refine (h s).bind fun o => ?_
    cases o with
    | none => exact agrees_pure s
    | some s' => exact ih s'

section

variable (hsim : Similar S ts ts') (hrefl : ∀ t, S t t)

include hsim

theorem agrees_advance : Agrees ts ts' m n (advance : Parser τ ε Unit) advance := by
  intro i u j hp
  obtain ⟨hlt,rfl⟩ := advance_ok hp
  exact ⟨Nat.le_succ i,fun _ _ => advance_at (hsim.length ▸ hlt)⟩

include hrefl

theorem Agrees.peek_bind {k : ℕ} {f f' : τ → Parser τ ε α}
    (hf : ∀ t t', S t t' → Agrees ts ts' m n (f t) (f' t')) :
    Agrees ts ts' m n (peek k >>= f) (peek k >>= f') := by
  intro i a j hbind
  obtain ⟨t,i',hpeek,hrest⟩ := bind_ok hbind
  obtain ⟨ht,rfl⟩ := peek_ok hpeek
  obtain ⟨t',ht',hS⟩ := hsim.alike ht
  refine ⟨(hf t t (hrefl t) i' a j hrest).1,fun hm hn => ?_⟩
  rw [bind_at (peek_at ht')]
  exact (hf t t' hS i' a j hrest).2 hm hn

variable (hq : ∀ t t', S t t' → q t = q t')

include hq

theorem Agrees.expect_bind {e e' : τ → ε} {f f' : τ → Parser τ ε α}
    (hf : ∀ t t', S t t' → Agrees ts ts' m n (f t) (f' t')) :
    Agrees ts ts' m n (expect q e >>= f) (expect q e' >>= f') := by
  intro i a j hbind
  obtain ⟨t,i',hexpect,hrest⟩ := bind_ok hbind
  obtain ⟨ht,htaken,hlt,rfl⟩ := expect_ok hexpect
  obtain ⟨t',ht',hS⟩ := hsim.alike ht
  have hle := (hf t t (hrefl t) (i+1) a j hrest).1
  refine ⟨Nat.le_of_succ_le hle,fun hm hn => ?_⟩
  rw [bind_at (expect_at ht' (hq t t' hS ▸ htaken) (hsim.length ▸ hlt))]
  exact (hf t t' hS (i+1) a j hrest).2 (Nat.le_succ_of_le hm) hn

omit hrefl in
theorem agrees_accept : Agrees ts ts' m n (accept q : Parser τ ε Bool) (accept q) := by
  intro i b j hp
  rcases accept_ok hp with ⟨rfl,hlt,t,ht,htaken,rfl⟩ | ⟨rfl,rfl,t,ht,hleft⟩
  · obtain ⟨t',ht',hS⟩ := hsim.alike ht
    have htaken' : q t' := hq t t' hS ▸ htaken
    refine ⟨Nat.le_succ i,fun _ _ => ?_⟩
    rw [accept_at ht' fun _ => hsim.length ▸ hlt,if_pos htaken',htaken']
  · obtain ⟨t',ht',hS⟩ := hsim.alike ht
    have hleft' : ¬q t' := hq t t' hS ▸ hleft
    refine ⟨le_rfl,fun _ _ => ?_⟩
    rw [accept_at ht' fun h => absurd h hleft',if_neg hleft',Bool.eq_false_iff.mpr hleft']

omit hrefl in
theorem Agrees.ifAccept {yes yes' no no' : Parser τ ε α} (hyes : Agrees ts ts' m n yes yes')
    (hno : Agrees ts ts' m n no no') :
    Agrees ts ts' m n (ifAccept q yes no) (Parse.ifAccept q yes' no') :=
  (agrees_accept hsim hq).bind fun _ => hyes.ite hno

/-- The accepted tokens are alike. -/
theorem Agrees.ifAccept_previous {f f' : τ → Parser τ ε α} {no no' : Parser τ ε α}
    (hf : ∀ t t', S t t' → Agrees ts ts' m n (f t) (f' t')) (hno : Agrees ts ts' m n no no') :
    Agrees ts ts' m n (Parse.ifAccept q (previous >>= f) no)
      (Parse.ifAccept q (previous >>= f') no') := by
  intro i a j hp
  rcases ifAccept_ok hp with ⟨t,ht,htaken,hlt,hrest⟩ | ⟨⟨t,ht,hleft⟩,hrest⟩
  · obtain ⟨t₁,k,hprevious,hlast⟩ := bind_ok hrest
    obtain ⟨rfl,rfl⟩ := previous_ok ht hprevious
    obtain ⟨t',ht',hS⟩ := hsim.alike ht
    have hle := (hf t₁ t₁ (hrefl t₁) (i+1) a j hlast).1
    refine ⟨Nat.le_of_succ_le hle,fun hm hn => ?_⟩
    rw [ifAccept_at ht' fun _ => hsim.length ▸ hlt,if_pos (hq t₁ t' hS ▸ htaken),
      bind_at (previous_at ht')]
    exact (hf t₁ t' hS (i+1) a j hlast).2 (Nat.le_succ_of_le hm) hn
  · obtain ⟨t',ht',hS⟩ := hsim.alike ht
    have hleft' : ¬q t' := hq t t' hS ▸ hleft
    refine ⟨(hno i a j hrest).1,fun hm hn => ?_⟩
    rw [ifAccept_at ht' fun h => absurd h hleft',if_neg hleft']
    exact (hno i a j hrest).2 hm hn

omit hrefl in
theorem agrees_separated {item item' : Parser τ ε α} (h : Agrees ts ts' m n item item') (k : ℕ) :
    Agrees ts ts' m n (separated q item k) (separated q item' k) := by
  induction k with
  | zero => exact agrees_unfinished
  | succ k ih =>
    exact h.bind fun a => Agrees.ifAccept hsim hq
      (ih.bind fun rest => agrees_pure (a::rest)) (agrees_pure [a])

end

end Parse
