import NamingDirectory.Client

/-!
# A scripted provider

A provider whose nodes give prepared answers, one after the other, whichever node is asked and whatever
it is asked. A node that is not full can only look up and rebind.
-/

namespace NamingDirectory

namespace Action

def member : Action → String
  | .lookup _ => "lookup"
  | .rebind .. => "rebind"
  | .createContext _ => "create_subcontext"
  | .readName _ => "parse_name"

def arguments : Action → List Value
  | .lookup name => [name]
  | .rebind name value => [name, value]
  | .createContext name => [name]
  | .readName text => [text]

/-- Whether a node that is not full can do it. -/
def isBasic : Action → Bool
  | .lookup _ | .rebind .. => true
  | _ => false

end Action

/-- A call that reached a scripted node. -/
structure ScriptedCall where
  label : String
  action : Action

/-- The answers that are left, and the calls so far. -/
structure Script where
  answers : List Answer
  calls : List ScriptedCall

namespace Script

/-- The answer to a request, and the script after it. -/
def answer (s : Script) (request : Request) : Answer × Script :=
  match request.node with
  | .scripted full label =>
    if full || request.action.isBasic then
      let calls := s.calls ++ [⟨label, request.action⟩]
      match s.answers with
      | [] => (.error (.defect .exhausted "script exhausted"), ⟨[], calls⟩)
      | a :: rest => (a, ⟨rest, calls⟩)
    else (.error (.missing request.node request.action.member), s)
  | node => (.error (.missing node request.action.member), s)

end Script
end NamingDirectory
