/-!
# Hierarchical names

A name is a path of one or more segments, resolved one level at a time from a root, and a segment is
a text that is not empty. Both conditions are part of the types. `Name.shown` is the text that
shows a name: its segments between slashes.
-/

namespace NamingDirectory

/-- One step of a path. -/
structure Segment where
  text : String
  nonempty : text ≠ ""
deriving DecidableEq

namespace Segment

/-- The segment with a given text, if there is one. -/
def ofText? (s : String) : Option Segment := if h : s ≠ "" then some ⟨s, h⟩ else none

@[ext] theorem ext {s t : Segment} (h : s.text = t.text) : s = t := by
  cases s; cases t; cases h; rfl

end Segment

/-- A path of one or more segments: the one nearest to the root, and those below it. -/
structure Name where
  first : Segment
  rest : List Segment
deriving DecidableEq

namespace Name

def segments (n : Name) : List Segment := n.first :: n.rest

/-- The name with the given segments, if there are any. -/
def ofSegments? : List Segment → Option Name
  | [] => none
  | s :: rest => some ⟨s, rest⟩

def single (s : Segment) : Name := ⟨s, []⟩

def length (n : Name) : Nat := n.segments.length

/-- The last of a path of segments that starts with `s`. -/
def lastOf (s : Segment) : List Segment → Segment
  | [] => s
  | t :: rest => lastOf t rest

/-- The segment farthest from the root. -/
def leaf (n : Name) : Segment := lastOf n.first n.rest

/-- All segments but the last, of a path that starts with `s`. -/
def initOf (s : Segment) : List Segment → List Segment
  | [] => []
  | t :: rest => s :: initOf t rest

/-- The segments above the leaf, from the root down. -/
def parents (n : Name) : List Segment := initOf n.first n.rest

/-- The place in a list of `length` items that an index means: a negative one counts from the end. -/
def place (length : Nat) (i : Int) : Int := if i < 0 then i + length else i

/-- A bound of a slice: counted from the end if it is negative, and kept within the list. -/
def bound (length : Nat) (i : Int) : Nat := min length (place length i).toNat

/-- The segment at an index; a negative index counts from the leaf. -/
def get? (n : Name) (i : Int) : Option Segment :=
  let p := place n.length i
  if p < 0 then none else n.segments[p.toNat]?

/-- The name without its first `count` segments, if any are left; a negative count keeps that many. -/
def drop? (n : Name) (count : Int) : Option Name :=
  ofSegments? (n.segments.drop (bound n.length count))

/-- The name of the first `count` segments, if there are any; a negative count drops that many. -/
def take? (n : Name) (count : Int) : Option Name :=
  ofSegments? (n.segments.take (bound n.length count))

def escapeSlashes (cs : List Char) : List Char :=
  cs.flatMap fun c => if c == '/' then ['\\', '/'] else [c]

/-- Segments between slashes; a slash inside a segment follows a backslash. -/
def joined (segments : List Segment) : List Char :=
  List.intercalate ['/'] (segments.map fun s => escapeSlashes s.text.toList)

def shown (n : Name) : String := String.ofList (joined n.segments)

/-! ### Laws -/

@[simp] theorem segments_single (s : Segment) : (single s).segments = [s] := rfl

@[simp] theorem leaf_single (s : Segment) : (single s).leaf = s := rfl

theorem initOf_append_lastOf (s : Segment) (rest : List Segment) :
    initOf s rest ++ [lastOf s rest] = s :: rest := by
  induction rest generalizing s with
  | nil => rfl
  | cons t rest ih => simp [initOf, lastOf, ih]

/-- A name is its leaf under its parents. -/
theorem parents_append_leaf (n : Name) : n.parents ++ [n.leaf] = n.segments :=
  initOf_append_lastOf n.first n.rest

/-- A name that continues another path has its own parents behind that path. -/
theorem parents_of_segments {n m : Name} {p : List Segment} (h : n.segments = p ++ m.segments) :
    n.parents = p ++ m.parents := by
  rw [← n.parents_append_leaf, ← m.parents_append_leaf, ← List.append_assoc] at h
  exact (List.append_inj' h rfl).1

/-- A name that continues another path has its own leaf. -/
theorem leaf_of_segments {n m : Name} {p : List Segment} (h : n.segments = p ++ m.segments) :
    n.leaf = m.leaf := by
  rw [← n.parents_append_leaf, ← m.parents_append_leaf, ← List.append_assoc] at h
  exact (List.cons_eq_cons.mp (List.append_inj' h rfl).2).1

@[simp] theorem ofSegments?_segments (n : Name) : ofSegments? n.segments = some n := rfl

theorem segments_injective {n m : Name} (h : n.segments = m.segments) : n = m :=
  Option.some.inj (by rw [← ofSegments?_segments n, h, ofSegments?_segments])

end Name
end NamingDirectory
