import NamingDirectory.Value

/-!
# Faults

What can go wrong, told apart by who reports it: a provider refuses, the naming client fails at one
of its stages, a value is put to a use that it does not have, or the settings are not valid. A fault
carries the name that it is about and the fault that caused it.
-/

namespace NamingDirectory

inductive Refusal where
  | general
  | notFound
  | alreadyBound
  /-- A segment above the leaf is bound to something that is no context. -/
  | notAContext
  | invalidName
deriving DecidableEq

/-- The stages at which the naming client fails. -/
inductive Stage where
  | general
  | parse
  | intermediateLookup
  | intermediateCreate
  | leafBind
  | lookup
  | unavailable
deriving DecidableEq

inductive Defect where
  /-- A value lacks the operation that is asked of it. -/
  | missingMember
  | wrongKind
  /-- A value is of the right kind and yet not acceptable. -/
  | badValue
  | missingKey
  | outOfRange
  | overflow
  | undecodable
  | notAscii
  /-- A field of a finished object was assigned. -/
  | frozen
  | fileExists
  | notADirectory
  | isADirectory
  | noSuchFile
  /-- The system refuses for a reason of another kind. -/
  | system
  /-- No prepared answer is left. -/
  | exhausted
  /-- The signal that an iteration is over. -/
  | iterationOver
  | invalidDn
  | invalidPort
  | invalidServer
  /-- Any other failure of the directory protocol, known by its label. -/
  | protocol (label : String)
  /-- A failure from outside, known by its label. -/
  | external (label : String)
  /-- A demand to stop, known by its label. Nothing handles it. -/
  | interrupt (label : String)
deriving DecidableEq

def Defect.isProtocol : Defect → Bool
  | .invalidDn | .invalidPort | .invalidServer | .protocol _ => true
  | _ => false

/-- A setting that is not valid: what is wrong with it, and where it was given. -/
structure SettingProblem where
  problem : String
  location : String
deriving DecidableEq

inductive Fault where
  | refusal (kind : Refusal) (message name : Value) (cause : Option Fault)
  | failure (stage : Stage) (message name : Value) (cause : Option Fault)
  | defect (kind : Defect) (message : String)
  | settings (problems : List SettingProblem)
  /-- The signal that an iteration is over, raised where there is none. -/
  | strayEnd (signal : Fault)

namespace Fault

def cause? : Fault → Option Fault
  | .refusal _ _ _ cause | .failure _ _ _ cause => cause
  | .strayEnd signal => some signal
  | .defect .. | .settings _ => none

/-- The stage at which the naming client failed, if the fault is one of its own. -/
def stage? : Fault → Option Stage
  | .failure stage .. => some stage
  | _ => none

/-- Whether a fault demands to stop, so that nothing may handle it. -/
def isInterrupt : Fault → Bool
  | .defect (.interrupt _) _ => true
  | _ => false

/-- A fault as it leaves the steps of a session. None of them iterates, so a signal that an iteration is
over is not passed on as one. -/
def contained : Fault → Fault
  | .defect .iterationOver message => .strayEnd (.defect .iterationOver message)
  | e => e

def isProtocol : Fault → Bool
  | .defect kind _ => kind.isProtocol
  | _ => false

/-- Whether a provider says that nothing is bound at a name. -/
def isNotFound : Fault → Bool
  | .refusal .notFound .. => true
  | _ => false

/-- The text of a fault. The client's own faults name what they are about, in brackets. -/
def text (keys : Nat → List String) : Fault → String
  | .refusal _ message _ _ => message.shown keys
  | .failure _ message .null _ => message.shown keys
  | .failure _ message name _ => message.shown keys ++ " [" ++ name.shown keys ++ "]"
  | .defect _ message => message
  | .settings _ => ""
  | .strayEnd _ => "generator raised StopIteration"

/-- The fault of asking for the text of a fault that has none: its message is no text, and there is no name
to show beside it. -/
def untold? : Fault → Option Fault
  | .failure _ (.text _) .null _ => none
  | .failure _ message .null _ =>
    some (.defect .wrongKind ("__str__ returned non-string (type " ++ message.kind ++ ")"))
  | _ => none

/-- The text of a fault that is about no memory context. -/
def plain (e : Fault) : String := e.text fun _ => []

/-- A provider refuses, with a text of its own. -/
def refuse (kind : Refusal) (message : String) (name : Value) : Fault :=
  .refusal kind (.text message) name none

def missing (v : Value) (member : String) : Fault :=
  .defect .missingMember ("'" ++ v.kind ++ "' object has no attribute '" ++ member ++ "'")

def notIterable (v : Value) : Fault :=
  .defect .wrongKind ("'" ++ v.kind ++ "' object is not iterable")

def missingKey (key : Value) : Fault := .defect .missingKey (key.quoted fun _ => [])

end Fault

namespace Value

/-- The members that a value has as a node of a directory tree. -/
def members : Value → List String
  | .context _ => ["lookup", "rebind", "create_subcontext", "parse_name", "unbind", "list"]
  | .entry .. =>
    ["lookup", "rebind", "create_subcontext", "parse_name", "_dn", "_rdn_attributes", "cfg"]
  | .scripted true _ => ["lookup", "rebind", "create_subcontext", "parse_name"]
  | .scripted false _ => ["lookup", "rebind"]
  | _ => []

def demand (v : Value) (member : String) : Except Fault Unit :=
  if v.members.contains member then .ok () else .error (.missing v member)

def items (v : Value) : Except Fault (List Value) :=
  match v.items? with
  | some items => .ok items
  | none => .error (.notIterable v)

/-- A value that is to be a key, or the fault that a part of it can change. -/
def asKey (v : Value) : Except Fault Value :=
  match v.changeable? with
  | none => .ok v
  | some part => .error (.defect .wrongKind ("unhashable type: '" ++ part.kind ++ "'"))

/-- Adds the pair that an item stands for to the entries before it. -/
def addPair (entries : List (Value × Value)) (place : Nat) (item : Value) :
    Except Fault (List (Value × Value)) :=
  let element := "dictionary update sequence element #" ++ toString place
  match item.items? with
  | some [k, v] => do return OrderedMap.put entries (← k.asKey) v
  | some items =>
    .error (.defect .badValue
      (element ++ " has length " ++ toString items.length ++ "; 2 is required"))
  | none => .error (.defect .wrongKind ("cannot convert " ++ element ++ " to a sequence"))

/-- The entries of a dictionary, or of the pairs that a value is made of; what counts as not given has
none. -/
def asEntries (v : Value) : Except Fault (List (Value × Value)) :=
  match v with
  | .dict entries => .ok entries
  | v =>
    if v.isVoid then .ok []
    else do
      (← v.items).zipIdx.foldlM (fun entries e => addPair entries e.2 e.1) []

def count (v : Value) : Except Fault Nat :=
  match v.items? with
  | some items => .ok items.length
  | none => .error (.defect .wrongKind ("object of type '" ++ v.kind ++ "' has no len()"))

/-- The first item of a value. A dictionary is asked for its key zero. -/
def head (v : Value) : Except Fault Value :=
  match v with
  | .dict entries =>
    match OrderedMap.get? entries (.int 0) with
    | some v => .ok v
    | none => .error (.missingKey (.int 0))
  | .emptySet => .error (.defect .wrongKind "'set' object is not subscriptable")
  | v =>
    match v.items? with
    | some (item :: _) => .ok item
    | some [] => .error (.defect .outOfRange "index out of range")
    | none => .error (.defect .wrongKind ("'" ++ v.kind ++ "' object is not subscriptable"))

/-- Reads a value that is expected to be a text; one that counts as not given is the empty text. Bytes
are read in their own way. -/
def readText {α : Type} (v : Value) (ofText : String → Except Fault α)
    (ofBytes : List UInt8 → Except Fault α) : Except Fault α :=
  match v with
  | .text s => ofText s
  | .bytes (b :: bs) => ofBytes (b :: bs)
  | v => if v.isVoid then ofText "" else .error (.missing v "strip")

end Value
end NamingDirectory
