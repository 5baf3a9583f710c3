import WeightedDns.Remote.Call

/-!
# Dialogues with the service

A `Dialogue` is an operation that makes calls one after another, each chosen by the answers before
it, and ends with a value or an error. It does not say who answers: `Dialogue.run` holds it with a
given remote, and `Dialogue.Transcript` lists the exchanges that some remote could have had with
it. A statement about all transcripts is a statement about every behaviour of the service.

`run_bind` and `transcript_bind_iff` take a dialogue apart into its steps.
-/

namespace WeightedDns

/-- An operation that makes calls and ends with an `α`, or with an error. -/
inductive Dialogue (ε α : Type) where
  | done (value : α)
  | fail (error : ε)
  | ask (call : Call) (next : call.Answer → Dialogue ε α)

/-- A call and what was answered. -/
structure Exchange where
  call : Call
  answer : call.Answer

namespace Dialogue

variable {ε ε' α β σ : Type}

/-- Go on with the value of a dialogue; an error ends both. -/
def bind : Dialogue ε α → (α → Dialogue ε β) → Dialogue ε β
  | .done a, f => f a
  | .fail e, _ => .fail e
  | .ask c next, f => .ask c fun r => (next r).bind f

instance : Monad (Dialogue ε) where
  pure := .done
  bind := bind

/-- Change the error that a dialogue may end with. -/
def mapError (f : ε → ε') : Dialogue ε α → Dialogue ε' α
  | .done a => .done a
  | .fail e => .fail (f e)
  | .ask c next => .ask c fun r => (next r).mapError f

/-- Make a call and take its answer, be it a reply or an error. -/
def answerOf (c : Call) : Dialogue ε c.Answer := .ask c .done

/-- End at once with a result. -/
def ofExcept : Except ε α → Dialogue ε α
  | .ok a => .done a
  | .error e => .fail e

/-- Make a call and take its reply; an error ends the dialogue. -/
def call (c : Call) : Dialogue ServiceError c.Reply := .ask c ofExcept

/-- Hold a dialogue with a remote, from one state of the remote to another. -/
def run (remote : Remote σ) : Dialogue ε α → σ → Except ε α × σ
  | .done a, s => (.ok a, s)
  | .fail e, s => (.error e, s)
  | .ask c next, s => (next (remote.answer c s).1).run remote (remote.answer c s).2

/-- `d.Transcript log result`: with the answers of `log` the dialogue makes exactly the calls of
`log` and ends with `result`. -/
inductive Transcript : Dialogue ε α → List Exchange → Except ε α → Prop where
  | done (a : α) : Transcript (.done a) [] (.ok a)
  | fail (e : ε) : Transcript (.fail e) [] (.error e)
  | ask {c : Call} {next : c.Answer → Dialogue ε α} {r : c.Answer} {log : List Exchange}
      {result : Except ε α} (rest : Transcript (next r) log result) :
      Transcript (.ask c next) (⟨c, r⟩ :: log) result

@[simp] theorem pure_eq (a : α) : (pure a : Dialogue ε α) = .done a := rfl

@[simp] theorem done_bind (a : α) (f : α → Dialogue ε β) : (Dialogue.done a >>= f) = f a := rfl

@[simp] theorem fail_bind (e : ε) (f : α → Dialogue ε β) :
    ((Dialogue.fail e : Dialogue ε α) >>= f) = .fail e := rfl

@[simp] theorem ask_bind (c : Call) (next : c.Answer → Dialogue ε α) (f : α → Dialogue ε β) :
    (Dialogue.ask c next >>= f) = .ask c fun r => next r >>= f := rfl

/-- A dialogue in two steps is held step by step. -/
theorem run_bind (remote : Remote σ) (d : Dialogue ε α) (f : α → Dialogue ε β) (s : σ) :
    (d >>= f).run remote s =
      match d.run remote s with
      | (.ok a, s') => (f a).run remote s'
      | (.error e, s') => (.error e, s') := by
  induction d generalizing s with
  | done a => rfl
  | fail e => rfl
  | ask c next ih => exact ih _ _

/-- A transcript of two steps is one of the first step followed, unless that failed, by one of
the second. -/
theorem transcript_bind_iff {d : Dialogue ε α} {f : α → Dialogue ε β} {log : List Exchange}
    {result : Except ε β} :
    (d >>= f).Transcript log result ↔
      (∃ a log₁ log₂, d.Transcript log₁ (.ok a) ∧ (f a).Transcript log₂ result ∧
        log = log₁ ++ log₂) ∨
      (∃ e, d.Transcript log (.error e) ∧ result = .error e) := by
  induction d generalizing log with
  | done a =>
    constructor
    · intro h
      exact .inl ⟨a, [], log, .done a, h, rfl⟩
    · rintro (⟨_, _, log₂, h, hf, rfl⟩ | ⟨_, h, _⟩)
      · cases h
        exact hf
      · nomatch h
  | fail e =>
    constructor
    · intro h
      cases h
      exact .inr ⟨e, .fail e, rfl⟩
    · rintro (⟨_, _, _, h, _, _⟩ | ⟨_, h, rfl⟩)
      · nomatch h
      · cases h
        exact .fail e
  | ask c next ih =>
    constructor
    · intro h
      cases h with
      | ask rest =>
        rcases (ih _).1 rest with ⟨a, log₁, log₂, h₁, h₂, rfl⟩ | ⟨e, h, rfl⟩
        · exact .inl ⟨a, _ :: log₁, log₂, .ask h₁, h₂, rfl⟩
        · exact .inr ⟨e, .ask h, rfl⟩
    · rintro (⟨a, log₁, log₂, h₁, h₂, rfl⟩ | ⟨e, h, rfl⟩)
      · cases h₁ with
        | ask rest => exact .ask ((ih _).2 (.inl ⟨a, _, log₂, rest, h₂, rfl⟩))
      · cases h with
        | ask rest => exact .ask ((ih _).2 (.inr ⟨e, rest, rfl⟩))

end Dialogue

end WeightedDns
