import NamingDirectory.Memory.Context

/-!
# Which object a value is

Equal values can be different objects. An item is a value with the mark of the object that it is; the mark
stays with the object where it is bound in a memory context and looked up again. Of some values there is
only one object, whatever its marks.
-/

namespace NamingDirectory

/-- A value, and the mark of the object that it is. -/
structure Item where
  value : Value
  mark : Nat

namespace Item

/-- Whether there is only one object of a value: handles, truth values, small integers, and what has hardly
any parts. -/
def isUnique : Value → Bool
  | .null | .bool _ | .context _ | .entry .. | .scripted .. => true
  | .int i => -5 ≤ i && i ≤ 256
  | .text s => s.length ≤ 1 && s.toList.all (·.toNat < 0x100)
  | .bytes bs => bs.length ≤ 1
  | .tuple items => items.isEmpty
  | _ => false

def isSame (a b : Item) : Bool :=
  a.mark == b.mark ||
    (isUnique a.value && isUnique b.value && a.value.kind == b.value.kind && a.value == b.value)

@[simp] theorem isSame_self (a : Item) : a.isSame a = true := by simp [isSame]

/-- A memory context is one object, known by its number. -/
@[simp] theorem isSame_context_iff {c c' mark mark' : Nat} :
    isSame ⟨.context c, mark⟩ ⟨.context c', mark'⟩ = true ↔ mark = mark' ∨ c = c' := by
  have hsame : (Value.context c == Value.context c') = (c == c') := by
    show Value.same _ _ = _
    rw [Value.same]
  simp [isSame, isUnique, Value.kind, hsame]

end Item

/-- The marks of the objects that memory contexts hold, by context and segment. -/
abbrev Marks := OrderedMap (Nat × Segment) Nat

namespace Marks

open Memory (Heap place?)

variable (marks : Marks) (h : Heap) (id : Nat) (name : Value)

/-- The mark of what is found at a name: the one that was noted there, or else a new one. -/
def found (new : Nat) : Nat := ((place? h id name).bind marks.get?).getD new

/-- Notes the mark of what is bound at a name now. -/
def bound (mark : Nat) : Marks :=
  match place? h id name with
  | some place => marks.put place mark
  | none => marks

/-- Forgets the mark of what was bound at a name. -/
def unbound : Marks :=
  match place? h id name with
  | some place => marks.erase place
  | none => marks

/-- What a lookup brings, as an item. -/
def lookup (new : Nat) : Except Fault Item :=
  (Memory.lookup h id name).map fun v => ⟨v, marks.found h id name new⟩

end Marks

end NamingDirectory
