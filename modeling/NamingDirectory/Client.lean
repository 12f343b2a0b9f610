import NamingDirectory.Client.Event
import NamingDirectory.Dialogue
import NamingDirectory.Name.Reading

/-!
# The naming client

Binding and looking up over any provider. Both are dialogues with the nodes of a directory tree: what a
node answers, a result or a fault, decides how the client goes on.

`bind` first asks the root to bind the whole name. If that fails it has the root take the name apart,
goes down segment by segment, creates each context that is missing, and binds the leaf in the last one.
Every fault that comes out is a `Fault.failure` about the caller's name, except for demands to stop and
for what comes of a fault that has no text.
-/

namespace NamingDirectory

/-- What a node of a directory tree can be asked. -/
inductive Action where
  | lookup (name : Value)
  | rebind (name value : Value)
  | createContext (name : Value)
  | readName (text : Value)

structure Request where
  node : Value
  action : Action

abbrev Answer := Except Fault Value

namespace Client

abbrev Talk := Dialogue Event Request Answer

/-- What is said of a failure at a stage. The detail is the segment or the name that the stage is
about. -/
def message (stage : Stage) (detail : Value) (cause : Fault) : String :=
  match stage with
  | .parse => "Unable to tokenize name: " ++ cause.plain
  | .intermediateLookup =>
    "Unanticipated error doing intermediate lookup [" ++ detail.plain ++ "]: " ++ cause.plain
  | .intermediateCreate =>
    "Error creating intermediate context [" ++ detail.plain ++ "]: " ++ cause.plain
  | .leafBind => "Error performing intermediate bind [" ++ detail.plain ++ "]: " ++ cause.plain
  | .lookup => "Unable to lookup name: " ++ cause.plain
  | .unavailable => "Could not obtain root context: " ++ cause.plain
  | .general => cause.plain

/-- The fault that a call failed at a stage. A demand to stop passes as it is, and a cause that has no text
gives way to the fault of asking for it. -/
def failed (stage : Stage) (detail name : Value) (cause : Fault) : Fault :=
  if cause.isInterrupt then cause
  else cause.untold?.getD (.failure stage (.text (message stage detail cause)) name (some cause))

/-- The fault that a segment above the leaf is bound to something that is no node. -/
def notANode (segment name : Value) : Fault :=
  let text := "Intermediate name is bound to a non-context value [" ++ segment.plain ++ "]"
  .failure .intermediateLookup (.text text) name none

/-- Asks for one step down: the node bound to a segment, which is created if nothing is. -/
def descend (name node : Value) (s : Segment) : Talk (Except Fault Value) :=
  let segment := Value.text s.text
  let step := Value.name (.single s)
  .note (.stepSought segment) <| .ask ⟨node, .lookup step⟩ fun
    | .ok found =>
      if found.isNode then .note (.stepFound segment) (.done (.ok found))
      else .done (.error (notANode segment name))
    | .error e =>
      if e.isNotFound then
        .note (.stepMissing segment) <| .ask ⟨node, .createContext step⟩ fun
          | .ok child => .done (.ok child)
          | .error e => .done (.error (failed .intermediateCreate segment name e))
      else .done (.error (failed .intermediateLookup segment name e))

def bindLeaf (name value node leaf : Value) : Talk (Except Fault Unit) :=
  .note (.bindBegun leaf) <| .ask ⟨node, .rebind leaf value⟩ fun
    | .ok _ => .done (.ok ())
    | .error e => .done (.error (failed .leafBind leaf name e))

/-- Goes down the segments, the first one and the rest, and binds the value at the last. -/
def walk (name value : Value) : (node : Value) → Segment → List Segment → Talk (Except Fault Unit)
  | node, s, [] => bindLeaf name value node (.name (.single s))
  | node, s, t :: rest =>
    (descend name node s).bind fun
      | .ok child => walk name value child t rest
      | .error e => .done (.error e)

/-- Goes on with a value that was given for the parts of a name and is no name: it can be bound at as it
is if it has one part or none, and otherwise one step down is all that it is good for. -/
def walkUnnamed (name value root parts : Value) : Talk (Except Fault Unit) :=
  match parts.count with
  | .error e => .done (.error e)
  | .ok n =>
    if n ≤ 1 then bindLeaf name value root parts
    else match parts.head with
      | .error e => .done (.error e)
      | .ok segment =>
        match Name.ofItems (fun _ => []) [segment] with
        | .ok step =>
          (descend name root step.first).bind fun
            | .ok _ => .done (.error (.missing parts "suffix"))
            | .error e => .done (.error e)
        | .error e =>
          .note (.stepSought segment)
            (.done (.error (failed .intermediateLookup segment name e)))

/-- Takes the name apart and goes down its segments. -/
def walkFrom (name value root : Value) : Talk (Except Fault Unit) :=
  .ask ⟨root, .readName name⟩ fun
    | .ok (.name n) => walk name value root n.first n.rest
    | .ok parts => walkUnnamed name value root parts
    | .error e => .done (.error (failed .parse .null name e))

def conclude (name : Value) : Except Fault Unit → Talk (Except Fault Unit)
  | .ok () => .note (.bindDone name) (.done (.ok ()))
  | .error e => .done (.error e)

def bind (name value root : Value) : Talk (Except Fault Unit) :=
  .note (.bindBegun name) <| .ask ⟨root, .rebind name value⟩ fun
    | .ok _ => conclude name (.ok ())
    | .error e =>
      if e.isInterrupt then .done (.error e)
      else (walkFrom name value root).bind (conclude name)

def lookup (name node : Value) : Talk Answer :=
  .note (.lookupBegun name) <| .ask ⟨node, .lookup name⟩ fun
    | .ok v => .done (.ok v)
    | .error e => .done (.error (failed .lookup .null name e))

end Client
end NamingDirectory
