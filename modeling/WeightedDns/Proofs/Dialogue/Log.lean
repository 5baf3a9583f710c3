import WeightedDns.Proofs.Dialogue.Course

/-!
# Logs of a dialogue

A log is what has been said in a dialogue, whoever answers. `Always` judges a dialogue by all of
its logs: whatever the answers are, what holds at the end of it with everything that has been said.
By `always_iff` that is a statement about its transcripts, and every remote leaves one
(`transcript_log`).

`Issues` is the judgement for a step whose writing calls are known beforehand: it makes them in
their order, and an error stops it at one of them.
-/

namespace WeightedDns

/-- The writing calls of a log, in their order. -/
def written (log : List Exchange) : List Call := (log.map (·.call)).filter (·.writes)

@[simp] theorem written_append (log log' : List Exchange) :
    written (log ++ log') = written log ++ written log' := by
  rw [written, List.map_append, List.filter_append]
  rfl

theorem written_singleton_of_writes {c : Call} (h : c.writes = true) (r : c.Answer) :
    written [⟨c, r⟩] = [c] := List.filter_cons_of_pos h

theorem written_singleton_of_reads {c : Call} (h : c.writes = false) (r : c.Answer) :
    written [⟨c, r⟩] = [] := List.filter_cons_of_neg (by simp [h])

/-- The second log goes on from the first one, and these are the calls in between that write. -/
structure Extends (log : List Exchange) (calls : List Call) (log' : List Exchange) : Prop where
  before : log ⊆ log'
  written : written log' = written log ++ calls

namespace Extends

variable {log log' log'' : List Exchange} {calls calls' : List Call}

theorem refl (log : List Exchange) : Extends log [] log where
  before := List.Subset.refl log
  written := (List.append_nil _).symm

theorem trans (h : Extends log calls log') (h' : Extends log' calls' log'') :
    Extends log (calls ++ calls') log'' where
  before := List.Subset.trans h.before h'.before
  written := by rw [h'.written, h.written, List.append_assoc]

theorem read {c : Call} (h : c.writes = false) (log : List Exchange) (r : c.Answer) :
    Extends log [] (log ++ [⟨c, r⟩]) where
  before := List.subset_append_left _ _
  written := by rw [written_append, written_singleton_of_reads h]

theorem write {c : Call} (h : c.writes = true) (log : List Exchange) (r : c.Answer) :
    Extends log [c] (log ++ [⟨c, r⟩]) where
  before := List.subset_append_left _ _
  written := by rw [written_append, written_singleton_of_writes h]

end Extends

namespace Dialogue

variable {ε ε' α β : Type}

/-- What is said in a dialogue with a remote. -/
def log {σ : Type} (remote : Remote σ) : Dialogue ε α → σ → List Exchange
  | .done _, _ => []
  | .fail _, _ => []
  | .ask c next, s =>
    ⟨c, (remote.answer c s).1⟩ ::
      (next (remote.answer c s).1).log remote (remote.answer c s).2

theorem transcript_log {σ : Type} (remote : Remote σ) (d : Dialogue ε α) (s : σ) :
    d.Transcript (d.log remote s) (d.run remote s).1 := by
  induction d generalizing s with
  | done a => exact .done a
  | fail e => exact .fail e
  | ask c next ih => exact .ask (ih _ _)

theorem transcript_call_iff {c : Call} {log : List Exchange}
    {result : Except ServiceError c.Reply} :
    (call c).Transcript log result ↔ log = [⟨c, result⟩] := by
  constructor
  · intro h
    cases h with
    | @ask _ _ answer _ _ rest =>
      cases answer <;> cases rest <;> rfl
  · rintro rfl
    cases result with
    | ok reply => exact .ask (.done reply)
    | error e => exact .ask (.fail e)

/-- Changing the value at the end changes nothing of what is said. -/
theorem transcript_map_iff {d : Dialogue ε α} {f : α → β} {log : List Exchange}
    {result : Except ε β} :
    (d >>= fun a => pure (f a)).Transcript log result ↔
      ∃ r, d.Transcript log r ∧ result = r.map f := by
  rw [transcript_bind_iff]
  constructor
  · rintro (⟨a, log₁, log₂, h, hpure, rfl⟩ | ⟨e, h, rfl⟩)
    · cases hpure
      rw [List.append_nil]
      exact ⟨.ok a, h, rfl⟩
    · exact ⟨.error e, h, rfl⟩
  · rintro ⟨a | e, h, rfl⟩
    · exact .inr ⟨_, h, rfl⟩
    · exact .inl ⟨_, log, [], h, .done _, (List.append_nil log).symm⟩

/-- Whatever is answered from a log on, a value at the end satisfies `post` with the whole log, and
an error `err`. -/
def Always (post : α → List Exchange → Prop) (err : ε → List Exchange → Prop) :
    Dialogue ε α → List Exchange → Prop
  | .done a, log => post a log
  | .fail e, log => err e log
  | .ask c next, log => ∀ r, (next r).Always post err (log ++ [⟨c, r⟩])

/-- Whatever is answered, every call of the dialogue satisfies `p`. -/
def Only (p : Call → Prop) : Dialogue ε α → Prop
  | .done _ => True
  | .fail _ => True
  | .ask c next => p c ∧ ∀ r, (next r).Only p

/-- No call of the dialogue writes. -/
abbrev Reads (d : Dialogue ε α) : Prop := d.Only fun c => c.writes = false

/-- The dialogue makes the calls in their order and reads besides; an error stops it at one of
them. -/
def Issues (d : Dialogue ε α) (calls : List Call) (post : α → Prop) : Prop :=
  ∀ log, d.Always (fun a log' => post a ∧ Extends log calls log')
    (fun _ log' => ∃ part, part <+: calls ∧ Extends log part log') log

section

variable {post post' : α → List Exchange → Prop} {err err' : ε → List Exchange → Prop}
  {d : Dialogue ε α} {log : List Exchange}

/-- To judge a dialogue by all of its logs is to judge its transcripts. -/
theorem always_iff : d.Always post err log ↔
    ∀ log' result, d.Transcript log' result → Ended post err (result, log ++ log') := by
  induction d generalizing log with
  | done a =>
    constructor
    · rintro h _ _ ⟨⟩
      rw [List.append_nil]
      exact h
    · intro h
      have hend := h _ _ (.done a)
      rwa [List.append_nil] at hend
  | fail e =>
    constructor
    · rintro h _ _ ⟨⟩
      rw [List.append_nil]
      exact h
    · intro h
      have hend := h _ _ (.fail e)
      rwa [List.append_nil] at hend
  | ask c next ih =>
    constructor
    · intro h log' result htranscript
      cases htranscript with
      | ask rest =>
        have hend := (ih _).mp (h _) _ _ rest
        rwa [List.append_assoc] at hend
    · intro h r
      refine (ih r).mpr fun log' result rest => ?_
      have hend := h _ _ (.ask rest)
      rwa [List.append_assoc]

/-- What a dialogue is judged to end with is what a transcript of it ends with. -/
theorem Always.ended (h : d.Always post err []) {result : Except ε α}
    (htranscript : d.Transcript log result) : Ended post err (result, log) :=
  always_iff.mp h log result htranscript

theorem Always.mono (h : d.Always post err log) (hpost : ∀ a log, post a log → post' a log)
    (herr : ∀ e log, err e log → err' e log) : d.Always post' err' log := by
  induction d generalizing log with
  | done a => exact hpost a log h
  | fail e => exact herr e log h
  | ask c next ih => exact fun r => ih r (h r)

/-- A dialogue in two steps is judged step by step. -/
theorem always_bind {f : α → Dialogue ε β} {post : β → List Exchange → Prop} :
    (d >>= f).Always post err log ↔ d.Always (fun a log => (f a).Always post err log) err log := by
  induction d generalizing log with
  | done a => rfl
  | fail e => rfl
  | ask c next ih => exact forall_congr' fun r => ih r

theorem always_mapError {f : ε → ε'} {err : ε' → List Exchange → Prop} :
    (d.mapError f).Always post err log ↔ d.Always post (fun e => err (f e)) log := by
  induction d generalizing log with
  | done a => rfl
  | fail e => rfl
  | ask c next ih => exact forall_congr' fun r => ih r

theorem always_call {c : Call} {post : c.Reply → List Exchange → Prop}
    {err : ServiceError → List Exchange → Prop}
    (hpost : ∀ a, post a (log ++ [⟨c, .ok a⟩])) (herr : ∀ e, err e (log ++ [⟨c, .error e⟩])) :
    (Dialogue.call c).Always post err log := by
  intro r
  cases r with
  | ok a => exact hpost a
  | error e => exact herr e

end

/-! ## Steps of some calls -/

section

variable {d : Dialogue ε α} {f : α → Dialogue ε β} {p q : Call → Prop}

theorem Only.bind (h : d.Only p) (hf : ∀ a, (f a).Only p) : (d >>= f).Only p := by
  induction d with
  | done a => exact hf a
  | fail e => trivial
  | ask c next ih => exact ⟨h.1, fun r => ih r (h.2 r)⟩

theorem Only.mapError (h : d.Only p) (f : ε → ε') : (d.mapError f).Only p := by
  induction d with
  | done a => trivial
  | fail e => trivial
  | ask c next ih => exact ⟨h.1, fun r => ih r (h.2 r)⟩

theorem Only.mono (h : d.Only p) (himp : ∀ c, p c → q c) : d.Only q := by
  induction d with
  | done a => trivial
  | fail e => trivial
  | ask c next ih => exact ⟨himp c h.1, fun r => ih r (h.2 r)⟩

theorem only_call {c : Call} (h : p c) : (Dialogue.call c).Only p := by
  refine ⟨h, ?_⟩
  intro r
  cases r <;> trivial

/-- Whoever answers, every step is one of the calls. -/
theorem Only.ensures {σ : Type} (h : d.Only p) (remote : Remote σ) (s : σ) :
    d.Ensures remote (fun c _ => p c) (fun _ _ => True) (fun _ _ => True) s := by
  induction d generalizing s with
  | done a => trivial
  | fail e => trivial
  | ask c next ih => exact ⟨h.1, ih _ (h.2 _) _⟩

/-- Where no call writes, nothing is written. -/
theorem Only.written_eq_nil (h : d.Reads) {log : List Exchange} {result : Except ε α}
    (htranscript : d.Transcript log result) : written log = [] := by
  induction htranscript with
  | done a => rfl
  | fail e => rfl
  | ask rest ih =>
    have hrest := ih (h.2 _)
    rw [written, List.map_cons, List.filter_cons_of_neg (by rw [h.1]; decide)]
    exact hrest

/-! ## Steps whose writing calls are known -/

variable {calls calls' : List Call} {post : α → Prop} {post' : β → Prop}

theorem Only.issues (h : d.Reads) : d.Issues [] fun _ => True := by
  intro log
  induction d generalizing log with
  | done a => exact ⟨trivial, .refl log⟩
  | fail e => exact ⟨[], List.nil_prefix, .refl log⟩
  | ask c next ih =>
    intro r
    have hread := Extends.read h.1 log r
    refine (ih r (h.2 r) _).mono ?_ ?_
    · rintro a log' ⟨-, hrest⟩
      exact ⟨trivial, hread.trans hrest⟩
    · rintro e log' ⟨part, hpart, hrest⟩
      exact ⟨part, hpart, hread.trans hrest⟩

theorem issues_done {a : α} (h : post a) : (Dialogue.done a : Dialogue ε α).Issues [] post :=
  fun log => ⟨h, .refl log⟩

theorem Issues.bind (h : d.Issues calls post) (hf : ∀ a, post a → (f a).Issues calls' post') :
    (d >>= f).Issues (calls ++ calls') post' := by
  intro log
  rw [always_bind]
  refine (h log).mono ?_ ?_
  · rintro a log₁ ⟨ha, h₁⟩
    refine (hf a ha log₁).mono ?_ ?_
    · rintro b log₂ ⟨hb, h₂⟩
      exact ⟨hb, h₁.trans h₂⟩
    · rintro e log₂ ⟨part, hpart, h₂⟩
      exact ⟨calls ++ part, (List.prefix_append_right_inj calls).mpr hpart, h₁.trans h₂⟩
  · rintro e log₁ ⟨part, hpart, h₁⟩
    exact ⟨part, hpart.trans (List.prefix_append _ _), h₁⟩

end

end Dialogue

end WeightedDns
