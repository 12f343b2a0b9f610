import NamingDirectory.Memory.Heap

/-!
# Operations on memory contexts

A tree of contexts in which nothing is created by the way: an operation on a name needs every segment
above the leaf to be bound to a context. Names are given as finished names or as texts, and a text is
read with the separator of the context that the operation starts from.
-/

namespace NamingDirectory.Memory

/-- Nothing is bound at the path that ends with the segment. -/
def notBound (s : Segment) (path : List Segment) : Fault :=
  .refuse .notFound ("Name not bound: " ++ s.text) (.text (String.ofList (Name.joined path)))

/-- Something that is no context is bound at the path that ends with the segment. -/
def notAContext (s : Segment) (path : List Segment) : Fault :=
  .refuse .notAContext ("Not a context: " ++ s.text) (.text (String.ofList (Name.joined path)))

def alreadyBound (n : Name) : Fault :=
  .refuse .alreadyBound ("Name already bound: " ++ n.leaf.text) (.text n.shown)

/-- Follows segments from one context to the next. `passed` are the segments that led here. -/
def follow (h : Heap) (passed : List Segment) (id : Nat) : List Segment → Except Fault Nat
  | [] => .ok id
  | s :: rest =>
    match h.get? id s with
    | none => .error (notBound s (passed ++ [s]))
    | some (.context child) => follow h (passed ++ [s]) child rest
    | some _ => .error (notAContext s (passed ++ [s]))

/-- The context that holds the leaf of a name. -/
def parentOf (h : Heap) (id : Nat) (n : Name) : Except Fault Nat := follow h [] id n.parents

/-- A finished name, or a text read with the separator of a context. -/
def nameFor (h : Heap) (id : Nat) (name : Value) : Except Fault Name :=
  (Name.Grammar.composite (h.context id).separator).resolve name

def readName (h : Heap) (id : Nat) (text : Value) : Except Fault Name :=
  (Name.Grammar.composite (h.context id).separator).parse text

/-- The context that holds the leaf of a name, and the leaf, if the name leads there. -/
def place? (h : Heap) (id : Nat) (name : Value) : Option (Nat × Segment) :=
  (do
    let n ← nameFor h id name
    return (← parentOf h id n, n.leaf)).toOption

def lookup (h : Heap) (id : Nat) (name : Value) : Except Fault Value := do
  let n ← nameFor h id name
  let parent ← parentOf h id n
  match h.get? parent n.leaf with
  | some v => return v
  | none => throw (notBound n.leaf n.segments)

/-- Binds a value at a name, whatever was bound there. -/
def rebind (h : Heap) (id : Nat) (name value : Value) : Except Fault Heap := do
  let n ← nameFor h id name
  let parent ← parentOf h id n
  return h.put parent n.leaf value

/-- Creates a context at a name where nothing is bound. The new context reads names as the one that the
operation starts from. Its number is the size of the heap before. -/
def create (h : Heap) (id : Nat) (name : Value) : Except Fault Heap := do
  let n ← nameFor h id name
  let parent ← parentOf h id n
  match h.get? parent n.leaf with
  | some _ => throw (alreadyBound n)
  | none => return (h.push (h.context id).separator).put parent n.leaf (.context h.size)

def unbind (h : Heap) (id : Nat) (name : Value) : Except Fault Heap := do
  let n ← nameFor h id name
  let parent ← parentOf h id n
  return h.erase parent n.leaf

end NamingDirectory.Memory
