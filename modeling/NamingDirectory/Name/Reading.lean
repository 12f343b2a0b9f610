import NamingDirectory.Composite
import NamingDirectory.Dn
import NamingDirectory.Fault

/-!
# Reading names

The two grammars in which a provider accepts names, and names built from given segments. Operations
accept a finished name in the place of a text (`Grammar.resolve`).
-/

namespace NamingDirectory

/-- The separator that consists of a text, or the fault that it is none. -/
def Separator.ofText (s : String) : Except Fault Separator :=
  match ofText? s with
  | some sep => .ok sep
  | none => .error (.defect .badValue ("Invalid separator: " ++ Text.quoted s))

namespace Name

/-- No segments are given for a name. -/
def noSegments : Fault := .refuse .invalidName "Name must have at least one segment" .null

/-- The name with given segments, or the fault that they make none. `keys` are the keys bound in a memory
context. -/
def ofItems (keys : Nat → List String) (items : List Value) : Except Fault Name :=
  let segments? := items.mapM fun
    | .text s => Segment.ofText? s
    | _ => none
  match segments?.map ofSegments? with
  | some (some n) => .ok n
  | some none => .error noSegments
  | none =>
    let shown := (Value.tuple items).shown keys
    .error (.refuse .invalidName ("Empty or non-string segment in " ++ shown) .null)

/-- The name whose segments are the items of a value. -/
def ofValue (keys : Nat → List String) (v : Value) : Except Fault Name := v.items >>= ofItems keys

/-- A possible name, or the fault that no segments are left for one. -/
def orRefuse : Option Name → Except Fault Name
  | some n => .ok n
  | none => .error noSegments

/-- The segment at an index, or the fault that there is none. -/
def get (n : Name) (i : Int) : Except Fault Value :=
  match n.get? i with
  | some s => .ok (.text s.text)
  | none =>
    if Value.isWord i then .error (.defect .outOfRange "tuple index out of range")
    else .error (.defect .outOfRange "cannot fit 'int' into an index-sized integer")

/-- The name without its first segments, or the fault that none are left. -/
def drop (n : Name) (count : Int) : Except Fault Name := orRefuse (n.drop? count)

/-- The name of the first segments, or the fault that there are none. -/
def take (n : Name) (count : Int) : Except Fault Name := orRefuse (n.take? count)

/-- The index that a value gives, if it gives one. -/
def index? : Value → Option Int
  | .int i => some i
  | .bool b => some (if b then 1 else 0)
  | _ => none

/-- The segment at the index that a value gives, or the fault that it gives none. -/
def getAt (n : Name) (v : Value) : Except Fault Value :=
  match index? v with
  | some i => n.get i
  | none =>
    .error (.defect .wrongKind ("tuple indices must be integers or slices, not " ++ v.kind))

/-- Cuts a name where a value says; nothing is no cut. -/
def cutAt (n : Name) (cut : Int → Except Fault Name) (v : Value) : Except Fault Name :=
  match v, index? v with
  | .null, _ => .ok n
  | _, some i => cut i
  | _, none =>
    .error (.defect .wrongKind
      "slice indices must be integers or None or have an __index__ method")

def unchangeable : Fault := .defect .frozen "cannot assign to field 'segments'"

/-- How the texts of names are read. -/
inductive Grammar where
  | composite (separator : Separator)
  | dn
deriving DecidableEq

namespace Grammar

/-- Composite names with slashes. -/
def slashes : Grammar := .composite .slash

def read (g : Grammar) (text : String) : Except Fault Name :=
  match g with
  | .composite sep =>
    match Composite.parse sep text with
    | .ok n => .ok n
    | .error p => .error (.refuse .invalidName (p.message text) .null)
  | .dn =>
    let s := Text.trimmed text
    if s.isEmpty then .error (.refuse .invalidName "Empty DN" .null)
    else match Dn.parse s with
      | .ok n => orRefuse n
      | .error p =>
        let message := "Malformed DN " ++ Text.quoted text ++ ": " ++ p.message
        .error (.refusal .invalidName (.text message) .null
          (some (.defect .invalidDn p.message)))

/-- Bytes are no text of a name, and blank ones an empty text. -/
def readBytes (g : Grammar) (bs : List UInt8) : Except Fault Name :=
  if bs.all Text.isBlankByte then g.read ""
  else .error (.defect .wrongKind <| match g with
    | .composite _ => "sequence item 0: expected str instance, int found"
    | .dn => "argument should be integer or bytes-like object, not 'str'")

/-- Reads a value as the text of a name. What counts as not given is the empty text. -/
def parse (g : Grammar) (v : Value) : Except Fault Name := v.readText g.read g.readBytes

/-- A finished name stands for itself; anything else is read. -/
def resolve (g : Grammar) (v : Value) : Except Fault Name :=
  match v with
  | .name n => .ok n
  | v => g.parse v

@[simp] theorem parse_text (g : Grammar) (text : String) : g.parse (.text text) = g.read text := rfl

theorem resolve_of_parse {g : Grammar} {v : Value} {n : Name} (h : g.parse v = .ok n) :
    g.resolve v = .ok n := by
  cases v with
  | name m => cases h
  | _ => exact h

theorem parse_error_of_resolve {g : Grammar} {v : Value} {e : Fault} (h : g.resolve v = .error e) :
    g.parse v = .error e := by
  unfold resolve at h
  split at h
  · cases h
  · exact h

end Grammar
end Name
end NamingDirectory
