import NamingDirectory.Dialogue
import NamingDirectory.Ldap.Endpoint

/-!
# Requests to a directory server

What is asked of a connection to a directory server, and what it answers. A reply says whether the call
raised a fault, and otherwise whether it succeeded, with a result and the entries that were found.
-/

namespace NamingDirectory.Ldap

abbrev Attributes := OrderedMap Value Value

inductive Request where
  | open
  | startTls
  | bind
  /-- Reads the entry at a distinguished name, with some of its attributes. -/
  | search (dn : String) (attributes : List Value)
  /-- Replaces the values of one attribute. -/
  | modify (dn : String) (name : Value) (text : String)
  | add (dn : String) (attributes : Attributes)
  | unbind

/-- How a connection is made. -/
structure Connection where
  endpoint : Endpoint
  timeout : Binary64
  user : Value
  password : Value
  /-- Whether the certificate of the server is checked. -/
  validate : Bool

/-- What happens on the way that is no request. -/
inductive Notice where
  | connect (connection : Connection)
  | unbindFailed (fault : Fault)

/-- The filter of every search: whatever has an object class. -/
def searchFilter : String := "(objectClass=*)"

structure Reply where
  raised : Option Fault
  ok : Bool
  /-- A dictionary, or nothing. -/
  result : Value
  entries : List Attributes

/-- The entries of a result. -/
structure Outcome where
  entries : List (Value × Value)

namespace Outcome

def reports (o : Outcome) (number : Int) (description : String) : Bool :=
  (Value.field o.entries "result").isInt number ||
    Value.field o.entries "description" == .text description

def isNoSuchObject (o : Outcome) : Bool := o.reports 32 "noSuchObject"

def isEntryAlreadyExists (o : Outcome) : Bool := o.reports 68 "entryAlreadyExists"

/-- The description of a result, and the message in parentheses if there is one. -/
def text (o : Outcome) : String :=
  let description := (Value.field o.entries "description").orElse (.text "unknown error")
  let message := Value.field o.entries "message"
  if message.isVoid then description.plain
  else description.plain ++ " (" ++ message.plain ++ ")"

end Outcome

/-- The result of a reply, or the fault that it is no dictionary. -/
def Reply.outcome (r : Reply) : Except Fault Outcome := r.result.asEntries.map (⟨·⟩)

/-- A dialogue with a directory server that ends in a fault or in a result. -/
abbrev Op (α : Type) := ExceptT Fault (Dialogue Notice Request Reply) α

/-- Asks a connection, and fails if the call raises a fault. -/
def call (request : Request) : Op Reply :=
  ExceptT.mk <| .ask request fun reply => .done <|
    match reply.raised with
    | some e => .error e
    | none => .ok reply

/-- Fails unless the condition of a pure step holds. -/
def lift {α : Type} (result : Except Fault α) : Op α := ExceptT.mk (.done result)

end NamingDirectory.Ldap
