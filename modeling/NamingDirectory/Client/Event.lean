import NamingDirectory.Log.Record

/-!
# Events of the naming client

What the client and the opening of a root context report as they go. Each event becomes one log record;
a configuration is reported with its secrets masked.
-/

namespace NamingDirectory

/-- What the client and the opening of a root context report. -/
inductive Event where
  | bindBegun (name : Value)
  | bindDone (name : Value)
  /-- A bind looks for the context of one of its leading segments. -/
  | stepSought (segment : Value)
  /-- The context of a leading segment was there. -/
  | stepFound (segment : Value)
  /-- The context of a leading segment was not there and is created. -/
  | stepMissing (segment : Value)
  | lookupBegun (name : Value)
  /-- The properties that a root context is opened with. -/
  | configured (properties : List (Value × Value))
  /-- No root context came of an opening. -/
  | openingFailed (fault : Option Fault)

namespace Event

def occurs (part : List Char) : List Char → Bool
  | [] => part.isEmpty
  | c :: cs => part.isPrefixOf (c :: cs) || occurs part cs

def isSecret (key : String) : Bool :=
  occurs "credentials".toList key.toList || occurs "password".toList key.toList

/-- Whether a key of any kind marks a secret: a text that contains one of the words, or a collection that
holds one of them. -/
def marksSecret (key : Value) : Except Fault Bool :=
  match key with
  | .text s => .ok (isSecret s)
  | .bytes _ => .error (.defect .wrongKind "a bytes-like object is required, not 'str'")
  | v =>
    match v.items? with
    | some items => .ok (items.any fun i => i == .text "credentials" || i == .text "password")
    | none => .error (.defect .wrongKind ("argument of type '" ++ v.kind ++ "' is not iterable"))

def concealed (entry : Value × Value) : Value × Value :=
  match marksSecret entry.1 with
  | .ok true => (entry.1, .text "***")
  | _ => entry

/-- The report of a configuration, or the fault that a value is none. -/
def ofProperties (v : Value) : Except Fault Event :=
  match v with
  | .dict entries => do
    let _ ← entries.mapM fun entry => marksSecret entry.1
    return .configured entries
  | v => .error (.missing v "items")

def level : Event → Log.Level
  | .bindDone _ => .debug
  | .configured _ => .info
  | .openingFailed _ => .error
  | _ => .trace

def message (keys : Nat → List String) : Event → String
  | .bindBegun name => "Binding: " ++ name.shown keys
  | .bindDone name => "Bound name: " ++ name.shown keys
  | .stepSought segment => "Intermediate lookup: " ++ segment.shown keys
  | .stepFound segment => "Found intermediate context: " ++ segment.shown keys
  | .stepMissing segment => "Creating subcontext: " ++ segment.shown keys
  | .lookupBegun name => "Lookup: " ++ name.shown keys
  | .configured properties =>
    "Directory context properties: " ++ (Value.dict (properties.map concealed)).shown keys
  | .openingFailed _ => "Could not obtain root context"

def fault? : Event → Option Fault
  | .openingFailed e => e
  | _ => none

def record (keys : Nat → List String) (logger : String) (event : Event) : Log.Record :=
  ⟨event.level, logger, event.message keys, event.fault?⟩

/-- The logger to which events go if no other is given. -/
def logger : String := "dirbind.naming"

end Event
end NamingDirectory
