import WeightedDns.Remote.Dialogue

/-!
# The course of a dialogue

`steps` lists the calls that a dialogue makes with a remote, each with the state that the remote
is left in, and `asks` each with the state in which it is made. `Ensures` judges a whole course: an
invariant over every step, what holds of a value at the end, and what holds of an error. It follows
the constructors of a dialogue, so it is taken apart along a dialogue by `ensures_bind`, and
`ensures_iff` ties it to `steps` and `run`.

A remote that is cut off after a number of calls leaves a dialogue in a state that the remote
itself passes through.
-/

namespace WeightedDns

namespace Dialogue

variable {ε ε' α β σ : Type}

theorem bind_assoc {γ : Type} (d : Dialogue ε α) (f : α → Dialogue ε β) (g : β → Dialogue ε γ) :
    d >>= f >>= g = d >>= fun a => f a >>= g := by
  induction d with
  | done a => rfl
  | fail e => rfl
  | ask c next ih => exact congrArg (Dialogue.ask c) (funext ih)

theorem run_call (remote : Remote σ) (c : Call) (s : σ) :
    (call c).run remote s = remote.answer c s := by
  rcases h : remote.answer c s with ⟨_ | a, s'⟩ <;> simp [call, run, h, ofExcept]

theorem run_mapError (remote : Remote σ) (f : ε → ε') (d : Dialogue ε α) (s : σ) :
    (d.mapError f).run remote s = ((d.run remote s).1.mapError f, (d.run remote s).2) := by
  induction d generalizing s with
  | done a => rfl
  | fail e => rfl
  | ask c next ih => exact ih _ _

/-- A run in two steps that ends with a value comes through a value of the first step. -/
theorem exists_run_of_bind {remote : Remote σ} {d : Dialogue ε α} {f : α → Dialogue ε β}
    {s s' : σ} {b : β} (hrun : (d >>= f).run remote s = (.ok b, s')) :
    ∃ a s₁, d.run remote s = (.ok a, s₁) ∧ (f a).run remote s₁ = (.ok b, s') := by
  rw [run_bind] at hrun
  rcases hd : d.run remote s with ⟨_ | a, s₁⟩
  · rw [hd] at hrun
    cases hrun
  · rw [hd] at hrun
    exact ⟨a, s₁, rfl, hrun⟩

theorem run_eq_ok {remote : Remote σ} {d : Dialogue ε α} {s : σ} {a : α}
    (h : (d.run remote s).1 = .ok a) : d.run remote s = (.ok a, (d.run remote s).2) :=
  Prod.ext h rfl

/-- The calls that a dialogue makes with a remote, each with the state of the remote after it. -/
def steps (remote : Remote σ) : Dialogue ε α → σ → List (Call × σ)
  | .done _, _ => []
  | .fail _, _ => []
  | .ask c next, s =>
    (c, (remote.answer c s).2) ::
      (next (remote.answer c s).1).steps remote (remote.answer c s).2

/-- The calls that a dialogue makes with a remote, each with the state of the remote before it. -/
def asks (remote : Remote σ) : Dialogue ε α → σ → List (Call × σ)
  | .done _, _ => []
  | .fail _, _ => []
  | .ask c next, s =>
    (c, s) :: (next (remote.answer c s).1).asks remote (remote.answer c s).2

/-- Every step keeps to `inv`, a value at the end satisfies `post`, and an error `err`. -/
def Ensures (remote : Remote σ) (inv : Call → σ → Prop) (post : α → σ → Prop)
    (err : ε → σ → Prop) : Dialogue ε α → σ → Prop
  | .done a, s => post a s
  | .fail e, s => err e s
  | .ask c next, s =>
    inv c (remote.answer c s).2 ∧
      (next (remote.answer c s).1).Ensures remote inv post err (remote.answer c s).2

/-- What holds of the end of a run. -/
def Ended (post : α → σ → Prop) (err : ε → σ → Prop) : Except ε α × σ → Prop
  | (.ok a, s) => post a s
  | (.error e, s) => err e s

section

variable {remote : Remote σ} {inv inv' : Call → σ → Prop} {post post' : α → σ → Prop}
  {err err' : ε → σ → Prop} {d : Dialogue ε α} {s : σ}

theorem ensures_iff :
    d.Ensures remote inv post err s ↔
      (∀ x ∈ d.steps remote s, inv x.1 x.2) ∧ Ended post err (d.run remote s) := by
  induction d generalizing s with
  | done a => simp [Ensures, steps, run, Ended]
  | fail e => simp [Ensures, steps, run, Ended]
  | ask c next ih => simp [Ensures, steps, run, ih, and_assoc]

theorem Ensures.steps (h : d.Ensures remote inv post err s) :
    ∀ x ∈ d.steps remote s, inv x.1 x.2 :=
  (ensures_iff.mp h).1

theorem Ensures.post_of_run (h : d.Ensures remote inv post err s) {a : α} {s' : σ}
    (hrun : d.run remote s = (.ok a, s')) : post a s' := by
  have hend := (ensures_iff.mp h).2
  rw [hrun] at hend
  exact hend

/-- A dialogue that ensures that there is no error ends with a value. -/
theorem Ensures.exists_run (h : d.Ensures remote inv post (fun _ _ => False) s) :
    ∃ a s', d.run remote s = (.ok a, s') ∧ post a s' := by
  have hend := (ensures_iff.mp h).2
  rcases hrun : d.run remote s with ⟨_ | a, s'⟩
  · rw [hrun] at hend
    exact hend.elim
  · rw [hrun] at hend
    exact ⟨a, s', rfl, hend⟩

theorem Ensures.mono (h : d.Ensures remote inv post err s) (hinv : ∀ c s, inv c s → inv' c s)
    (hpost : ∀ a s, post a s → post' a s) (herr : ∀ e s, err e s → err' e s) :
    d.Ensures remote inv' post' err' s := by
  induction d generalizing s with
  | done a => exact hpost a s h
  | fail e => exact herr e s h
  | ask c next ih => exact ⟨hinv _ _ h.1, ih _ h.2⟩

theorem Ensures.weaken (h : d.Ensures remote inv post err s)
    (hpost : ∀ a s, post a s → post' a s) : d.Ensures remote inv post' err s :=
  h.mono (fun _ _ => id) hpost fun _ _ => id

/-- Two judgements of one dialogue are one. -/
theorem Ensures.and (h : d.Ensures remote inv post err s)
    (h' : d.Ensures remote inv' post' err' s) :
    d.Ensures remote (fun c s => inv c s ∧ inv' c s) (fun a s => post a s ∧ post' a s)
      (fun e s => err e s ∧ err' e s) s := by
  induction d generalizing s with
  | done a => exact ⟨h, h'⟩
  | fail e => exact ⟨h, h'⟩
  | ask c next ih => exact ⟨⟨h.1, h'.1⟩, ih _ h.2 h'.2⟩

/-- What holds anyway holds at the end. -/
theorem ensures_of_holds {p : Prop} (h : p) :
    d.Ensures remote (fun _ _ => True) (fun _ _ => p) (fun _ _ => True) s := by
  induction d generalizing s with
  | done a => exact h
  | fail e => trivial
  | ask c next ih => exact ⟨trivial, ih _⟩

/-- What holds after every call of a dialogue holds at its end, however that comes about. -/
theorem ensures_of_calls (rel : σ → σ → Prop) (refl : ∀ s, rel s s)
    (trans : ∀ s₁ s₂ s₃, rel s₁ s₂ → rel s₂ s₃ → rel s₁ s₃)
    (hcall : ∀ c s, rel s (remote.answer c s).2) (d : Dialogue ε α) (s : σ) :
    d.Ensures remote (fun _ s' => rel s s') (fun _ s' => rel s s') (fun _ s' => rel s s') s := by
  induction d generalizing s with
  | done a => exact refl s
  | fail e => exact refl s
  | ask c next ih =>
    have hstep := hcall c s
    exact ⟨hstep, (ih _ _).mono (fun _ _ => trans _ _ _ hstep) (fun _ _ => trans _ _ _ hstep)
      fun _ _ => trans _ _ _ hstep⟩

/-- A dialogue in two steps is judged step by step. -/
theorem ensures_bind {f : α → Dialogue ε β} {post : β → σ → Prop} :
    (d >>= f).Ensures remote inv post err s ↔
      d.Ensures remote inv (fun a s => (f a).Ensures remote inv post err s) err s := by
  induction d generalizing s with
  | done a => rfl
  | fail e => rfl
  | ask c next ih => exact and_congr Iff.rfl (ih _)

theorem ensures_mapError {f : ε → ε'} {err : ε' → σ → Prop} :
    (d.mapError f).Ensures remote inv post err s ↔
      d.Ensures remote inv post (fun e => err (f e)) s := by
  induction d generalizing s with
  | done a => rfl
  | fail e => rfl
  | ask c next ih => exact and_congr Iff.rfl (ih _)

@[simp] theorem ensures_done {a : α} :
    (Dialogue.done a : Dialogue ε α).Ensures remote inv post err s ↔ post a s := Iff.rfl

/-- Every step of a first dialogue is one of both. -/
theorem steps_bind_left {f : α → Dialogue ε β} : d.steps remote s ⊆ (d >>= f).steps remote s := by
  induction d generalizing s with
  | done a => exact List.nil_subset _
  | fail e => exact List.nil_subset _
  | ask c next ih => exact List.cons_subset_cons _ (ih _)

/-- After a first dialogue that ends with a value come the steps of the second. -/
theorem steps_bind_of_run {f : α → Dialogue ε β} {a : α} {s' : σ}
    (hrun : d.run remote s = (.ok a, s')) :
    (d >>= f).steps remote s = d.steps remote s ++ (f a).steps remote s' := by
  induction d generalizing s with
  | done b =>
    obtain ⟨hvalue, rfl⟩ := Prod.mk.inj hrun
    obtain rfl := Except.ok.inj hvalue
    rfl
  | fail e => cases hrun
  | ask c next ih => exact congrArg (_ :: ·) (ih _ hrun)

/-- A single call whose answer is only looked at. -/
theorem asks_answerOf_bind {remote : Remote σ} {c : Call} {f : c.Answer → Dialogue ε α} (s : σ)
    (h : ∀ answer s, (f answer).asks remote s = []) :
    (answerOf c >>= f).asks remote s = [(c, s)] := by
  rw [answerOf, ask_bind, asks, done_bind, h]

theorem asks_bind_of_run {remote : Remote σ} {d : Dialogue ε α} {f : α → Dialogue ε β} {s s' : σ}
    {a : α} (hrun : d.run remote s = (.ok a, s')) :
    (d >>= f).asks remote s = d.asks remote s ++ (f a).asks remote s' := by
  induction d generalizing s with
  | done b =>
    obtain ⟨hvalue, rfl⟩ := Prod.mk.inj hrun
    obtain rfl := Except.ok.inj hvalue
    rfl
  | fail e => cases hrun
  | ask c next ih => exact congrArg (_ :: ·) (ih _ hrun)

theorem asks_bind_of_fail {remote : Remote σ} {d : Dialogue ε α} {f : α → Dialogue ε β} {s s' : σ}
    {e : ε} (hrun : d.run remote s = (.error e, s')) :
    (d >>= f).asks remote s = d.asks remote s := by
  induction d generalizing s with
  | done b => cases hrun
  | fail e => rfl
  | ask c next ih => exact congrArg (_ :: ·) (ih _ hrun)

/-- The state at the end of a run is the first one or that of some step. -/
theorem run_state_mem (remote : Remote σ) (d : Dialogue ε α) (s : σ) :
    (d.run remote s).2 = s ∨ ∃ x ∈ d.steps remote s, (d.run remote s).2 = x.2 := by
  induction d generalizing s with
  | done a => exact .inl rfl
  | fail e => exact .inl rfl
  | ask c next ih =>
    refine .inr ?_
    rcases ih (remote.answer c s).1 (remote.answer c s).2 with h | ⟨x, hx, h⟩
    · exact ⟨_, List.mem_cons_self, h⟩
    · exact ⟨x, List.mem_cons_of_mem _ hx, h⟩

/-- What holds at the end of a dialogue without errors holds of the first state or after some
step. -/
theorem Ensures.exists_state (h : d.Ensures remote inv post (fun _ _ => False) s) :
    ∃ a s', post a s' ∧ (s' = s ∨ ∃ x ∈ d.steps remote s, s' = x.2) := by
  obtain ⟨a, s', hrun, hpost⟩ := h.exists_run
  have hend := run_state_mem remote d s
  rw [hrun] at hend
  exact ⟨a, s', hpost, hend⟩

end

end Dialogue

/-- A remote that answers a number of calls and then fails every one. -/
def Remote.cutOff {σ : Type} (remote : Remote σ) (e : ServiceError) : Remote (σ × Nat) where
  provider := remote.provider
  answer c
    | (s, 0) => (.error e, (s, 0))
    | (s, n + 1) => ((remote.answer c s).1, ((remote.answer c s).2, n))

namespace Dialogue

variable {ε α σ : Type}

theorem run_cutOff_zero (remote : Remote σ) (e : ServiceError) (d : Dialogue ε α) (s : σ) :
    (d.run (remote.cutOff e) (s, 0)).2.1 = s := by
  induction d with
  | done a => rfl
  | fail e => rfl
  | ask c next ih => exact ih _

/-- Cut off at any call, a dialogue leaves a state that it passes through with the remote. -/
theorem run_cutOff_mem (remote : Remote σ) (e : ServiceError) (d : Dialogue ε α) (s : σ)
    (n : Nat) :
    (d.run (remote.cutOff e) (s, n)).2.1 = s ∨
      ∃ x ∈ d.steps remote s, (d.run (remote.cutOff e) (s, n)).2.1 = x.2 := by
  induction d generalizing s n with
  | done a => exact .inl rfl
  | fail e => exact .inl rfl
  | ask c next ih =>
    cases n with
    | zero => exact .inl (run_cutOff_zero remote e _ s)
    | succ n =>
      refine .inr ?_
      rcases ih (remote.answer c s).1 (remote.answer c s).2 n with h | ⟨x, hx, h⟩
      · exact ⟨_, List.mem_cons_self, h⟩
      · exact ⟨x, List.mem_cons_of_mem _ hx, h⟩

/-- Cut off at any call, a dialogue leaves a state with everything that its steps keep. -/
theorem Ensures.cutOff {remote : Remote σ} {p : σ → Prop} {post : α → σ → Prop}
    {err : ε → σ → Prop} {d : Dialogue ε α} {s : σ}
    (h : d.Ensures remote (fun _ s' => p s') post err s) (hs : p s) (e : ServiceError) (n : Nat) :
    p (d.run (remote.cutOff e) (s, n)).2.1 := by
  rcases run_cutOff_mem remote e d s n with hstate | ⟨x, hx, hstate⟩ <;> rw [hstate]
  · exact hs
  · exact h.steps x hx

end Dialogue

end WeightedDns
