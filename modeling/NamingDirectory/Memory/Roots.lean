import NamingDirectory.Memory.Context

/-!
# Named memory roots

The roots of the memory trees are shared by name: one root for each key, created when it is first asked
for.
-/

namespace NamingDirectory.Memory

def scheme : List Char := "memory://".toList

/-- The key of a root: its URL without blanks at the ends, the scheme, and slashes at the ends. -/
def keyOfText (url : String) : String :=
  let cs := Text.trim url.toList
  let path := if scheme.isPrefixOf cs then cs.drop scheme.length else cs
  let key := Text.stripped '/' (String.ofList path)
  if key.isEmpty then "default" else key

/-- The key of the root that a value names, or the fault that it names none. -/
def rootKey (url : Value) : Except Fault String :=
  url.readText (fun s => .ok (keyOfText s)) fun _ =>
    .error (.defect .wrongKind "startswith first arg must be bytes or a tuple of bytes, not str")

/-- The roots by their keys. -/
abbrev Roots := OrderedMap String Nat

/-- The root with a given key, in a heap that has a new one if there was none. -/
def Roots.open (roots : Roots) (h : Heap) (key : String) : Nat × Roots × Heap :=
  match roots.get? key with
  | some id => (id, roots, h)
  | none => (h.size, roots.put key h.size, h.push .slash)

end NamingDirectory.Memory
