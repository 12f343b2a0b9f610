import NamingDirectory.Decimal.Shortest
import NamingDirectory.OrderedMap
import NamingDirectory.Name
import NamingDirectory.Text.Quoted

/-!
# Values

What can be bound at a name, configured under a key, or handed to an operation: plain data, names,
and the contexts of the providers. A context is a handle: memory contexts live in a heap under their
number, and a directory entry is known by its directory, its distinguished name and the serial number
of the handle, by which two handles on one entry are told apart.
-/

namespace NamingDirectory

inductive Value where
  | null
  | bool (b : Bool)
  | int (i : Int)
  | float (x : Binary64)
  | text (s : String)
  | bytes (bs : List UInt8)
  | list (items : List Value)
  | tuple (items : List Value)
  | dict (entries : List (Value × Value))
  | name (n : Name)
  /-- The empty set. -/
  | emptySet
  | object
  /-- The list whose only item is itself. -/
  | circular
  /-- The memory context with the given number. -/
  | context (id : Nat)
  /-- A directory entry used as a context. -/
  | entry (directory serial : Nat) (dn : Value)
  /-- A node of a scripted provider; one that is not `full` can only look up and rebind. -/
  | scripted (full : Bool) (label : String)

namespace Value

instance : Inhabited Value := ⟨.null⟩

/-- The word by which a fault names the kind of a value. -/
def kind : Value → String
  | .null => "NoneType"
  | .bool _ => "bool"
  | .int _ => "int"
  | .float _ => "float"
  | .text _ => "str"
  | .bytes _ => "bytes"
  | .list _ | .circular => "list"
  | .tuple _ => "tuple"
  | .dict _ => "dict"
  | .name _ => "HierarchicalName"
  | .emptySet => "set"
  | .object => "object"
  | .context _ => "InMemoryContext"
  | .entry .. => "LdapContext"
  | .scripted true _ => "Node"
  | .scripted false _ => "Half"

/-- Whether a value counts as not given: nothing, false, zero, and what has no parts. -/
def isVoid : Value → Bool
  | .null | .emptySet => true
  | .bool b => !b
  | .int i => i == 0
  | .float x => x.isZero
  | .text s => s.isEmpty
  | .bytes bs => bs.isEmpty
  | .list items | .tuple items => items.isEmpty
  | .dict entries => entries.isEmpty
  | _ => false

/-- The value, or another one in its place if it counts as not given. -/
def orElse (v w : Value) : Value := if v.isVoid then w else v

theorem context_or_ne (v : Value) : (∃ id, v = .context id) ∨ ∀ id, v ≠ .context id := by
  cases v with
  | context id => exact .inl ⟨id, rfl⟩
  | _ => exact .inr fun id hid => by cases hid

/-- Whether a value is a full node of a directory tree. -/
def isNode : Value → Bool
  | .context _ | .entry .. | .scripted true _ => true
  | _ => false

/-! ### Text -/

def boolWord (b : Bool) : String := if b then "True" else "False"

def commaJoined (items : List String) : String := ", ".intercalate items

/-- Items between parentheses; a single one is followed by a comma. -/
def tupleText (items : List String) : String :=
  match items with
  | [item] => "(" ++ item ++ ",)"
  | items => "(" ++ commaJoined items ++ ")"

mutual

/-- The text of a value inside another one, with texts in quotes. `keys` are the keys bound in a
memory context, in order. -/
def quoted (keys : Nat → List String) : Value → String
  | .null => "None"
  | .bool b => boolWord b
  | .int i => toString i
  | .float x => x.text Decimal.plain
  | .text s => Text.quoted s
  | .bytes bs => Text.quotedBytes bs
  | .list items => "[" ++ commaJoined (quotedItems keys items) ++ "]"
  | .tuple items => tupleText (quotedItems keys items)
  | .dict entries => "\x7b" ++ commaJoined (quotedEntries keys entries) ++ "\x7d"
  | .name n =>
    "HierarchicalName(segments=" ++ tupleText (n.segments.map fun s => Text.quoted s.text) ++ ")"
  | .emptySet => "set()"
  | .object => "<object>"
  | .circular => "[[...]]"
  | .context id => "InMemoryContext([" ++ commaJoined ((keys id).map Text.quoted) ++ "])"
  | .entry _ _ dn => "LdapContext(" ++ quoted keys dn ++ ")"
  | .scripted _ label => "<" ++ label ++ ">"

def quotedItems (keys : Nat → List String) : List Value → List String
  | [] => []
  | v :: items => quoted keys v :: quotedItems keys items

def quotedEntries (keys : Nat → List String) : List (Value × Value) → List String
  | [] => []
  | (k, v) :: entries => (quoted keys k ++ ": " ++ quoted keys v) :: quotedEntries keys entries

end

/-- The text of a value on its own: a text is itself, and a name its path. -/
def shown (keys : Nat → List String) : Value → String
  | .text s => s
  | .name n => n.shown
  | v => v.quoted keys

def plain (v : Value) : String := v.shown fun _ => []

/-! ### Equality of keys -/

/-- The integer that a number is equal to, if there is one; truth values are one and zero. -/
def integer? : Value → Option Int
  | .bool b => some (if b then 1 else 0)
  | .int i => some i
  | .float x => if x.equalsInt x.truncate then some x.truncate else none
  | _ => none

def isWord (i : Int) : Bool := -9223372036854775808 ≤ i && i ≤ 9223372036854775807

def isInt (v : Value) (i : Int) : Bool := v.integer? == some i

mutual

/-- Whether two values are the same key of a dictionary. Numbers are compared by what they stand for,
whatever their kind. -/
def same : Value → Value → Bool
  | .null, .null | .emptySet, .emptySet | .object, .object | .circular, .circular => true
  | .text s, .text t => s == t
  | .bytes bs, .bytes cs => bs == cs
  | .list xs, .list ys => sameItems xs ys
  | .tuple xs, .tuple ys => sameItems xs ys
  | .dict xs, .dict ys => sameEntries xs ys
  | .name n, .name m => n == m
  | .context i, .context j => i == j
  | .entry d s _, .entry d' s' _ => d == d' && s == s'
  | .scripted f l, .scripted f' l' => f == f' && l == l'
  | .float x, .float y => x.equals y
  | .float x, .int i => x.equalsInt i
  | .int i, .float x => x.equalsInt i
  | .float x, .bool b => x.equalsInt (if b then 1 else 0)
  | .bool b, .float x => x.equalsInt (if b then 1 else 0)
  | .int i, .int j => i == j
  | .bool b, .bool c => b == c
  | .int i, .bool b => i == if b then 1 else 0
  | .bool b, .int i => i == if b then 1 else 0
  | _, _ => false

def sameItems : List Value → List Value → Bool
  | [], [] => true
  | x :: xs, y :: ys => same x y && sameItems xs ys
  | _, _ => false

def sameEntries : List (Value × Value) → List (Value × Value) → Bool
  | [], [] => true
  | (k, v) :: xs, (k', v') :: ys => same k k' && same v v' && sameEntries xs ys
  | _, _ => false

end

instance : BEq Value := ⟨same⟩

/-! ### Parts -/

/-- The items that a value yields one after the other, if it is made of items. -/
def items? : Value → Option (List Value)
  | .text s => some (s.toList.map fun c => .text (String.singleton c))
  | .bytes bs => some (bs.map fun b => .int b.toNat)
  | .list items | .tuple items => some items
  | .dict entries => some (entries.map (·.1))
  | .name n => some (n.segments.map fun s => .text s.text)
  | .emptySet => some []
  | .circular => some [.circular]
  | _ => none

mutual

/-- The first part of a value that can change, if there is one. -/
def changeable? : Value → Option Value
  | .list items => some (.list items)
  | .dict entries => some (.dict entries)
  | .emptySet => some .emptySet
  | .circular => some .circular
  | .tuple items => changeableItem? items
  | _ => none

def changeableItem? : List Value → Option Value
  | [] => none
  | v :: items => (changeable? v).or (changeableItem? items)

end

/-- Bytes as the ASCII text whose codes they are, if they are. -/
def asciiText? (bs : List UInt8) : Option String :=
  if bs.all (· < 0x80) then some (String.ofList (bs.map fun b => Char.ofNat b.toNat)) else none

/-- Bytes as a text, with a mark in the place of each that is no code of ASCII. -/
def markedText (bs : List UInt8) : String :=
  String.ofList (bs.map fun b => if b < 0x80 then Char.ofNat b.toNat else '\ufffd')

/-- The value at a key of a dictionary, nothing if there is none. -/
def field (entries : List (Value × Value)) (key : String) : Value :=
  (OrderedMap.get? entries (.text key)).getD .null

end Value
end NamingDirectory
