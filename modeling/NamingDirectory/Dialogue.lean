/-!
# Dialogues

A dialogue is the course of an activity that asks others for answers: it notes events, asks requests,
goes on according to each answer, and ends with a result. What is asked is separate from who answers:
`run` lets a state answer and listen, and a statement about every partner is a statement about the
dialogue itself.
-/

namespace NamingDirectory

/-- A course of events of type `ε` and of requests of type `ρ` with answers of type `β`. -/
inductive Dialogue (ε ρ β α : Type) where
  | done (result : α)
  | note (event : ε) (next : Dialogue ε ρ β α)
  | ask (request : ρ) (next : β → Dialogue ε ρ β α)

namespace Dialogue

variable {ε ρ β α γ σ : Type}

/-- Goes on with another dialogue. -/
def bind : Dialogue ε ρ β α → (α → Dialogue ε ρ β γ) → Dialogue ε ρ β γ
  | .done a, f => f a
  | .note e next, f => .note e (next.bind f)
  | .ask r next, f => .ask r fun b => (next b).bind f

instance : Monad (Dialogue ε ρ β) where
  pure := .done
  bind := bind

def request (r : ρ) : Dialogue ε ρ β β := .ask r .done

def event (e : ε) : Dialogue ε ρ β Unit := .note e (.done ())

/-- Runs a dialogue against a state that answers the requests and hears of the events. -/
def run (answer : ρ → σ → β × σ) (hear : ε → σ → σ) : Dialogue ε ρ β α → σ → α × σ
  | .done a, s => (a, s)
  | .note e next, s => next.run answer hear (hear e s)
  | .ask r next, s => (next (answer r s).1).run answer hear (answer r s).2

/-! ### Laws -/

@[simp] theorem bind_done (a : α) (f : α → Dialogue ε ρ β γ) : bind (.done a) f = f a := rfl

theorem bind_assoc {δ : Type} (d : Dialogue ε ρ β α) (f : α → Dialogue ε ρ β γ)
    (g : γ → Dialogue ε ρ β δ) : bind (bind d f) g = bind d fun a => bind (f a) g := by
  induction d with
  | done a => rfl
  | note e next ih => simp [bind, ih]
  | ask r next ih => simp [bind, ih]

/-- Running one dialogue after another is running the second from where the first ends. -/
theorem run_bind (answer : ρ → σ → β × σ) (hear : ε → σ → σ) (d : Dialogue ε ρ β α)
    (f : α → Dialogue ε ρ β γ) (s : σ) :
    (bind d f).run answer hear s =
      (f (d.run answer hear s).1).run answer hear (d.run answer hear s).2 := by
  induction d generalizing s with
  | done a => rfl
  | note e next ih => exact ih (hear e s)
  | ask r next ih => exact ih (answer r s).1 (answer r s).2

end Dialogue
end NamingDirectory
