import NamingDirectory.Fault

/-!
# Successes and faults

One step after another succeeds just if both do (`bind_eq_ok_iff`).

Two operations that do the same thing may tell their callers different names, when one of them starts further
down the path than the other. `SameButName` is what can then be said of their results: the same success, or
faults that differ at most in the name that they are about.
-/

namespace NamingDirectory

theorem bind_eq_ok_iff {ε α β : Type} {result : Except ε α} {next : α → Except ε β} {b : β} :
    result >>= next = .ok b ↔ ∃ a, result = .ok a ∧ next a = .ok b := by
  cases result with
  | error e => exact iff_of_false nofun (by rintro ⟨a, ⟨⟩, -⟩)
  | ok a =>
    constructor
    · exact fun h => ⟨a, rfl, h⟩
    · rintro ⟨a, ⟨⟩, h⟩
      exact h

/-! ### Results up to names -/

/-- The fault without the name that it is about. -/
def Fault.nameless : Fault → Fault
  | .refusal kind message _ cause => .refusal kind message .null cause
  | .failure stage message _ cause => .failure stage message .null cause
  | e => e

/-- Whether two results are the same success, or faults that differ at most in their names. -/
inductive SameButName {α : Type} : Except Fault α → Except Fault α → Prop
  | ok (a : α) : SameButName (.ok a) (.ok a)
  | error {e e' : Fault} : e.nameless = e'.nameless → SameButName (.error e) (.error e')

section SameButName

variable {α β : Type} {result result' : Except Fault α}

theorem SameButName.refl (result : Except Fault α) : SameButName result result := by
  cases result with
  | ok a => exact .ok a
  | error e => exact .error rfl

theorem SameButName.bind (h : SameButName result result') {next next' : α → Except Fault β}
    (hnext : ∀ a, SameButName (next a) (next' a)) : SameButName (result >>= next) (result' >>= next') := by
  cases h with
  | ok a => exact hnext a
  | error he => exact .error he

/-- Faults that are no refusals are told by what is left of them without their names. -/
theorem Fault.eq_of_nameless {e e' : Fault} (h : e.nameless = e'.nameless) :
    e = e' ∨ e.isProtocol = false ∧ e'.isProtocol = false := by
  cases e <;> cases e' <;> simp_all [nameless, isProtocol]

end SameButName

end NamingDirectory
