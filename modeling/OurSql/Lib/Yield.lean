import OurSql.Lib.Parse

/-! What a parser that succeeds has consumed: a relation between the tokens it took and its
answer, composed along the parser. -/
namespace Parse

variable {τ ε α β σ : Type}

/-- Whenever the parser succeeds, `K` relates the tokens it has consumed to its answer. -/
def Yields (K : List τ → α → Prop) (p : Parser τ ε α) : Prop :=
  ∀ ts i a j, p ts i = .ok a j →
    ∃ used, ts.drop i = used ++ ts.drop j ∧ j = i + used.length ∧ K used a

variable {K K' : List τ → α → Prop} {L : List τ → β → Prop} {p : Parser τ ε α} {q : τ → Bool}

/-! ### What success says of the parts -/

theorem bind_ok {f : α → Parser τ ε β} {ts : List τ} {i k : ℕ} {b : β}
    (h : (p >>= f) ts i = .ok b k) : ∃ a j, p ts i = .ok a j ∧ f a ts j = .ok b k := by
  change (p ts i).bind (fun a j => f a ts j) = .ok b k at h
  cases hp : p ts i with
  | ok a j => exact ⟨a,j,rfl,by simpa [hp,Outcome.bind] using h⟩
  | failed e => simp [hp,Outcome.bind] at h
  | outside => simp [hp,Outcome.bind] at h
  | unfinished => simp [hp,Outcome.bind] at h

theorem bind_assoc {γ : Type} (p : Parser τ ε α) (f : α → Parser τ ε β) (f' : β → Parser τ ε γ) :
    p >>= f >>= f' = p >>= fun a => f a >>= f' := by
  funext ts i
  change ((p ts i).bind fun a j => f a ts j).bind (fun b k => f' b ts k) =
    (p ts i).bind fun a j => (f a ts j).bind fun b k => f' b ts k
  cases p ts i <;> rfl

theorem pure_ok {ts : List τ} {i j : ℕ} {a b : α}
    (h : (pure a : Parser τ ε α) ts i = .ok b j) : b = a ∧ j = i := by
  cases h
  exact ⟨rfl,rfl⟩

theorem peek_ok {k i j : ℕ} {ts : List τ} {t : τ}
    (h : (peek k : Parser τ ε τ) ts i = .ok t j) : ts[i + k]? = some t ∧ j = i := by
  unfold peek at h
  cases ht : ts[i + k]? with
  | none => simp [ht] at h
  | some t' =>
    simp only [ht,Outcome.ok.injEq] at h
    exact ⟨by rw [h.1],h.2.symm⟩

theorem advance_ok {ts : List τ} {i j : ℕ} {u : Unit}
    (h : (advance : Parser τ ε Unit) ts i = .ok u j) : i + 1 < ts.length ∧ j = i + 1 := by
  unfold advance at h
  split at h
  · next hlt => exact ⟨hlt,(Outcome.ok.inj h).2.symm⟩
  · cases h

/-- A token is accepted, or the position stays where it is. -/
theorem accept_ok {ts : List τ} {i j : ℕ} {b : Bool}
    (h : (accept q : Parser τ ε Bool) ts i = .ok b j) :
    (b = true ∧ i + 1 < ts.length ∧ ∃ t, ts[i]? = some t ∧ q t ∧ j = i + 1) ∨
      (b = false ∧ j = i ∧ ∃ t, ts[i]? = some t ∧ ¬q t) := by
  unfold accept at h
  obtain ⟨t,k,ht,hrest⟩ := bind_ok h
  obtain ⟨htoken,rfl⟩ := peek_ok ht
  rw [Nat.add_zero] at htoken
  by_cases hq : q t
  · rw [if_pos hq] at hrest
    obtain ⟨_,k',hadvance,hpure⟩ := bind_ok hrest
    obtain ⟨hlt,rfl⟩ := advance_ok hadvance
    obtain ⟨rfl,rfl⟩ := pure_ok hpure
    exact .inl ⟨rfl,hlt,t,htoken,hq,rfl⟩
  · rw [if_neg hq] at hrest
    obtain ⟨rfl,rfl⟩ := pure_ok hrest
    exact .inr ⟨rfl,rfl,t,htoken,hq⟩

theorem ifAccept_ok {yes no : Parser τ ε α} {ts : List τ} {i j : ℕ} {a : α}
    (h : ifAccept q yes no ts i = .ok a j) :
    (∃ t, ts[i]? = some t ∧ q t ∧ i + 1 < ts.length ∧ yes ts (i+1) = .ok a j) ∨
      ((∃ t, ts[i]? = some t ∧ ¬q t) ∧ no ts i = .ok a j) := by
  unfold ifAccept at h
  obtain ⟨b,k,hb,hrest⟩ := bind_ok h
  rcases accept_ok hb with ⟨rfl,hlt,t,ht,hq,rfl⟩ | ⟨rfl,rfl,hno⟩
  · exact .inl ⟨t,ht,hq,hlt,hrest⟩
  · exact .inr ⟨hno,hrest⟩

theorem expect_ok {e : τ → ε} {ts : List τ} {i j : ℕ} {t : τ}
    (h : expect q e ts i = .ok t j) :
    ts[i]? = some t ∧ q t ∧ i + 1 < ts.length ∧ j = i + 1 := by
  unfold expect at h
  obtain ⟨t',k,ht,hrest⟩ := bind_ok h
  obtain ⟨htoken,rfl⟩ := peek_ok ht
  rw [Nat.add_zero] at htoken
  by_cases hq : q t'
  · rw [if_pos hq] at hrest
    obtain ⟨_,k',hadvance,hpure⟩ := bind_ok hrest
    obtain ⟨hlt,rfl⟩ := advance_ok hadvance
    obtain ⟨rfl,rfl⟩ := pure_ok hpure
    exact ⟨htoken,hq,hlt,rfl⟩
  · rw [if_neg hq] at hrest
    cases hrest

theorem previous_ok {ts : List τ} {i j : ℕ} {t t' : τ} (ht : ts[i]? = some t)
    (h : (previous : Parser τ ε τ) ts (i+1) = .ok t' j) : t' = t ∧ j = i + 1 := by
  simp only [previous,ht,Outcome.ok.injEq] at h
  exact ⟨h.1.symm,h.2.symm⟩

theorem drop_of_getElem? {ts : List τ} {i : ℕ} {t : τ} (h : ts[i]? = some t) :
    ts.drop i = t::ts.drop (i+1) := by
  obtain ⟨hlt,rfl⟩ := List.getElem?_eq_some_iff.mp h
  exact List.drop_eq_getElem_cons hlt

/-! ### The rules -/

theorem Yields.mono (h : Yields K p) (hK : ∀ used a, K used a → K' used a) : Yields K' p := by
  intro ts i a j hp
  obtain ⟨used,hdrop,hj,hused⟩ := h ts i a j hp
  exact ⟨used,hdrop,hj,hK used a hused⟩

theorem yields_pure {a : α} (h : K [] a) : Yields K (pure a : Parser τ ε α) := by
  intro ts i b j hp
  obtain ⟨rfl,rfl⟩ := pure_ok hp
  exact ⟨[],rfl,rfl,h⟩

theorem yields_fail (e : ε) : Yields K (fail e : Parser τ ε α) := by
  intro ts i a j hp
  cases hp

theorem yields_unfinished : Yields K (unfinished : Parser τ ε α) := by
  intro ts i a j hp
  cases hp

theorem Yields.bind {f : α → Parser τ ε β} (h : Yields K p)
    (hf : ∀ used a, K used a → Yields (fun later b => L (used ++ later) b) (f a)) :
    Yields L (p >>= f) := by
  intro ts i b k hbind
  obtain ⟨a,j,hp,hrest⟩ := bind_ok hbind
  obtain ⟨used,hdrop,rfl,hused⟩ := h ts i a j hp
  obtain ⟨later,hdrop',rfl,hlater⟩ := hf used a hused ts _ b k hrest
  refine ⟨used ++ later,?_,?_,hlater⟩
  · rw [hdrop,hdrop',List.append_assoc]
  · simp [Nat.add_assoc]

theorem yields_bind_fail (p : Parser τ ε α) (e : α → ε) :
    Yields L (p >>= fun a => fail (e a)) := by
  intro ts i b k h
  obtain ⟨a,j,-,hfail⟩ := bind_ok h
  cases hfail

theorem Yields.ite {c : Prop} [Decidable c] {p' : Parser τ ε α} (hp : c → Yields K p)
    (hp' : ¬c → Yields K p') : Yields K (if c then p else p') := by
  split
  · next h => exact hp h
  · next h => exact hp' h

theorem Yields.peek_bind {k : ℕ} {f : τ → Parser τ ε α} (h : ∀ t, Yields K (f t)) :
    Yields K (peek k >>= f) := by
  intro ts i a j hbind
  obtain ⟨t,k,ht,hrest⟩ := bind_ok hbind
  obtain ⟨-,rfl⟩ := peek_ok ht
  exact h t ts k a j hrest

theorem yields_expect {K : List τ → τ → Prop} (e : τ → ε) (h : ∀ t, q t → K [t] t) :
    Yields K (expect q e) := by
  intro ts i t j hp
  obtain ⟨ht,hq,-,rfl⟩ := expect_ok hp
  exact ⟨[t],drop_of_getElem? ht,rfl,h t hq⟩

theorem yields_accept : Yields (fun used b => if b then ∃ t, q t ∧ used = [t] else used = [])
    (accept q : Parser τ ε Bool) := by
  intro ts i b j hp
  rcases accept_ok hp with ⟨rfl,-,t,ht,hq,rfl⟩ | ⟨rfl,rfl,-⟩
  · exact ⟨[t],drop_of_getElem? ht,rfl,t,hq,rfl⟩
  · exact ⟨[],rfl,rfl,rfl⟩

theorem Yields.ifAccept {yes no : Parser τ ε α}
    (hyes : ∀ t, q t → Yields (fun used a => K (t::used) a) yes) (hno : Yields K no) :
    Yields K (ifAccept q yes no) := by
  intro ts i a j hp
  rcases ifAccept_ok hp with ⟨t,ht,hq,-,hrest⟩ | ⟨-,hrest⟩
  · obtain ⟨used,hdrop,rfl,hused⟩ := hyes t hq ts (i+1) a j hrest
    refine ⟨t::used,?_,?_,hused⟩
    · rw [drop_of_getElem? ht,hdrop,List.cons_append]
    · simp only [List.length_cons]
      omega
  · exact hno ts i a j hrest

/-- The accepted token is the previous one. -/
theorem Yields.ifAccept_previous {f : τ → Parser τ ε α} {no : Parser τ ε α}
    (hf : ∀ t, q t → Yields (fun used a => K (t::used) a) (f t)) (hno : Yields K no) :
    Yields K (Parse.ifAccept q (previous >>= f) no) := by
  intro ts i a j hp
  rcases ifAccept_ok hp with ⟨t,ht,hq,-,hrest⟩ | ⟨-,hrest⟩
  · obtain ⟨t',k,hprevious,hrest⟩ := bind_ok hrest
    obtain ⟨rfl,rfl⟩ := previous_ok ht hprevious
    obtain ⟨used,hdrop,rfl,hused⟩ := hf t' hq ts (i+1) a j hrest
    refine ⟨t'::used,?_,?_,hused⟩
    · rw [drop_of_getElem? ht,hdrop,List.cons_append]
    · simp only [List.length_cons]
      omega
  · exact hno ts i a j hrest

theorem Yields.andThen {p : Parser τ ε (Option α)} {f : α → Parser τ ε β}
    {K : List τ → Option α → Prop} {L : List τ → Option β → Prop} (h : Yields K p)
    (hnone : ∀ used, K used none → L used none)
    (hf : ∀ used a, K used (some a) → Yields (fun later b => L (used ++ later) (some b)) (f a)) :
    Yields L (andThen p f) := by
  refine h.bind fun used o ho => ?_
  cases o with
  | none => exact yields_pure (by simpa using hnone used ho)
  | some a => exact (hf used a ho).bind fun later b hb => yields_pure (by simpa using hb)

/-- What every round of a loop keeps holds where it ends. -/
theorem yields_loop {I : List τ → σ → Prop} {body : σ → Parser τ ε (Option σ)}
    (h : ∀ used s, I used s → Yields (fun later o => I (used ++ later) (o.getD s)) (body s))
    (k : ℕ) {used : List τ} {s : σ} (hs : I used s) :
    Yields (fun later s' => I (used ++ later) s') (loop body k s) := by
  induction k generalizing used s with
  | zero => exact yields_unfinished
  | succ k ih =>
    refine (h used s hs).bind fun later o ho => ?_
    cases o with
    | none => exact yields_pure (by simpa using ho)
    | some s' => exact (ih ho).mono fun more s'' hmore => by simpa using hmore

/-- The items of a list with the separators between them. -/
inductive Listed (q : τ → Bool) (K : List τ → α → Prop) : List τ → List α → Prop
  | one {used : List τ} {a : α} (h : K used a) : Listed q K used [a]
  | cons {used later : List τ} {t : τ} {a : α} {as : List α} (h : K used a) (ht : q t)
      (hlater : Listed q K later as) : Listed q K (used ++ t::later) (a::as)

theorem yields_separated {item : Parser τ ε α} (h : Yields K item) (k : ℕ) :
    Yields (Listed q K) (separated q item k) := by
  induction k with
  | zero => exact yields_unfinished
  | succ k ih =>
    refine h.bind fun used a ha => ?_
    refine Yields.ifAccept (fun t ht => ih.bind fun later as has => yields_pure ?_)
      (yields_pure ?_)
    · simpa using Listed.cons ha ht has
    · simpa using Listed.one ha

theorem Listed.ne_nil {used : List τ} {as : List α} (h : Listed q K used as) : as ≠ [] := by
  cases h <;> simp

theorem Listed.parts {used : List τ} {as : List α} (h : Listed q K used as) :
    ∀ a ∈ as, ∃ part, part ⊆ used ∧ K part a := by
  induction h with
  | @one used a ha => exact fun b hb => ⟨used,List.Subset.refl used,by rwa [List.mem_singleton.mp hb]⟩
  | @cons used later t a as ha ht hlater ih =>
    intro b hb
    rcases List.mem_cons.mp hb with rfl | hb
    · exact ⟨used,List.subset_append_left used _,ha⟩
    · obtain ⟨part,hpart,hk⟩ := ih b hb
      exact ⟨part,fun t' ht' => by simp [hpart ht'],hk⟩

/-! ### Answers alone -/

/-- Whenever the parser succeeds on these tokens, its answer has the property. -/
def Answers (ts : List τ) (P : α → Prop) (p : Parser τ ε α) : Prop :=
  ∀ i a j, p ts i = .ok a j → P a

variable {ts : List τ} {P : α → Prop} {Q : β → Prop}

theorem answers_any : Answers ts (fun _ => True) p := fun _ _ _ _ => trivial

theorem Yields.answers (h : Yields K p) :
    Answers ts (fun a => ∃ used, used ⊆ ts ∧ K used a) p := by
  intro i a j hp
  obtain ⟨used,hdrop,-,hused⟩ := h ts i a j hp
  refine ⟨used,fun t ht => List.mem_of_mem_drop (i := i) ?_,hused⟩
  rw [hdrop]
  exact List.mem_append_left _ ht

theorem Answers.mono {P' : α → Prop} (h : Answers ts P p) (hP : ∀ a, P a → P' a) :
    Answers ts P' p := fun i a j hp => hP a (h i a j hp)

theorem answers_pure {a : α} (h : P a) : Answers ts P (pure a : Parser τ ε α) := by
  intro i b j hp
  obtain ⟨rfl,-⟩ := pure_ok hp
  exact h

theorem answers_fail (e : ε) : Answers ts P (fail e : Parser τ ε α) := by
  intro i a j hp
  cases hp

theorem Answers.bind {f : α → Parser τ ε β} (h : Answers ts P p)
    (hf : ∀ a, P a → Answers ts Q (f a)) : Answers ts Q (p >>= f) := by
  intro i b k hbind
  obtain ⟨a,j,hp,hrest⟩ := bind_ok hbind
  exact hf a (h i a j hp) j b k hrest

/-- A part whose answer does not matter. -/
theorem Answers.skip {f : α → Parser τ ε β} (hf : ∀ a, Answers ts Q (f a)) :
    Answers ts Q (p >>= f) := answers_any.bind fun a _ => hf a

theorem Answers.ite {c : Prop} [Decidable c] {p' : Parser τ ε α} (hp : Answers ts P p)
    (hp' : Answers ts P p') : Answers ts P (if c then p else p') := by
  split
  · exact hp
  · exact hp'

theorem Answers.ifAccept {yes no : Parser τ ε α} (hyes : Answers ts P yes)
    (hno : Answers ts P no) : Answers ts P (ifAccept q yes no) :=
  Answers.skip fun _ => hyes.ite hno

theorem answers_loop {body : α → Parser τ ε (Option α)}
    (h : ∀ a, P a → Answers ts (fun o => P (o.getD a)) (body a)) (k : ℕ) {a : α} (ha : P a) :
    Answers ts P (loop body k a) := by
  induction k generalizing a with
  | zero =>
    intro i b j hp
    cases hp
  | succ k ih =>
    refine (h a ha).bind fun o ho => ?_
    cases o with
    | none => exact answers_pure ha
    | some a' => exact ih ho

theorem answers_separated (h : Answers ts P p) (k : ℕ) :
    Answers ts (fun as => ∀ a ∈ as, P a) (separated q p k) := by
  induction k with
  | zero =>
    intro i b j hp
    cases hp
  | succ k ih =>
    refine h.bind fun a ha => ?_
    refine Answers.ifAccept (ih.bind fun as has => answers_pure ?_) (answers_pure ?_)
    · exact List.forall_mem_cons.mpr ⟨ha,has⟩
    · simpa using ha

/-! ### Running forward on known tokens -/

variable {i j : ℕ} {a : α} {t : τ}

theorem bind_at {f : α → Parser τ ε β} (h : p ts i = .ok a j) : (p >>= f) ts i = f a ts j := by
  change (p ts i).bind (fun a j => f a ts j) = f a ts j
  rw [h]
  rfl

theorem peek_at {k : ℕ} (ht : ts[i + k]? = some t) : (peek k : Parser τ ε τ) ts i = .ok t i := by
  simp [peek,ht]

theorem peek_next (ht : ts[i]? = some t) : (peek 0 : Parser τ ε τ) ts i = .ok t i := peek_at ht

theorem advance_at (h : i + 1 < ts.length) :
    (advance : Parser τ ε Unit) ts i = .ok () (i+1) := by
  simp [advance,h]

theorem previous_at (ht : ts[i]? = some t) :
    (previous : Parser τ ε τ) ts (i+1) = .ok t (i+1) := by
  simp [previous,ht]

theorem accept_at (ht : ts[i]? = some t) (hlt : q t → i + 1 < ts.length) :
    (accept q : Parser τ ε Bool) ts i = .ok (q t) (if q t then i + 1 else i) := by
  rw [accept,bind_at (peek_next ht)]
  by_cases hq : q t
  · rw [if_pos hq,if_pos hq,bind_at (advance_at (hlt hq)),hq]
    rfl
  · rw [if_neg hq,if_neg hq,Bool.eq_false_iff.mpr hq]
    rfl

theorem ifAccept_at {yes no : Parser τ ε α} (ht : ts[i]? = some t)
    (hlt : q t → i + 1 < ts.length) :
    ifAccept q yes no ts i = if q t then yes ts (i+1) else no ts i := by
  rw [ifAccept,bind_at (accept_at ht hlt)]
  by_cases hq : q t <;> simp [hq]

theorem expect_at {e : τ → ε} (ht : ts[i]? = some t) (hq : q t) (hlt : i + 1 < ts.length) :
    expect q e ts i = .ok t (i+1) := by
  rw [expect,bind_at (peek_next ht),if_pos hq,bind_at (advance_at hlt)]
  rfl

theorem loop_none {body : σ → Parser τ ε (Option σ)} {k : ℕ} {s : σ}
    (h : body s ts i = .ok none j) : loop body (k+1) s ts i = .ok s j := by
  rw [loop,bind_at h]
  rfl

theorem loop_some {body : σ → Parser τ ε (Option σ)} {k : ℕ} {s s' : σ}
    (h : body s ts i = .ok (some s') j) : loop body (k+1) s ts i = loop body k s' ts j := by
  rw [loop,bind_at h]

end Parse
