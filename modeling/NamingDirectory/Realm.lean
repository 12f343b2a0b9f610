import NamingDirectory.Ldap.Entry
import NamingDirectory.Ldap.Server
import NamingDirectory.Memory.Roots
import NamingDirectory.Scripted

/-!
# The realm of the naming client

All that naming operations act on: the heap of memory contexts, the directories and the server behind
them, and a script for the nodes of a scripted provider. What goes over the wire and what is logged is
recorded in order.

`Realm.answer` is the answer of any node to any request. A dialogue of the client is run against it with
`Realm.run`.
-/

namespace NamingDirectory

inductive Traffic where
  | connect (connection : Ldap.Connection)
  | request (request : Ldap.Request)

structure Realm where
  heap : Memory.Heap
  directories : List Ldap.Directory
  /-- The serial number of the next handle on a directory entry. -/
  serial : Nat
  server : Ldap.Server
  script : Script
  wire : List Traffic
  log : List Log.Record

namespace Realm

def empty : Realm := ⟨.empty, [], 0, .idle, ⟨[], []⟩, [], []⟩

def record (r : Realm) (entry : Log.Record) : Realm := { r with log := r.log ++ [entry] }

def hear (logger : String) (event : Event) (r : Realm) : Realm :=
  r.record (event.record r.heap.keys logger)

/-! ### Directories -/

/-- The logger of the directory sessions. -/
def directoryLogger : String := "dirbind.ldap.client"

/-- The server's reply to a request, which is recorded. -/
def reply (request : Ldap.Request) (r : Realm) : Ldap.Reply × Realm :=
  let (reply, server) := r.server.answer request
  (reply, { r with server, wire := r.wire ++ [.request request] })

def attend (notice : Ldap.Notice) (r : Realm) : Realm :=
  match notice with
  | .connect connection => { r with wire := r.wire ++ [.connect connection] }
  | .unbindFailed e => r.record ⟨.debug, directoryLogger, "LDAP unbind failed", some e⟩

def operate {α : Type} (op : Ldap.Op α) (r : Realm) : Except Fault α × Realm :=
  op.run.run reply attend r

/-- A new handle on an entry of a directory. -/
def handle (directory : Nat) (dn : Value) (r : Realm) : Value × Realm :=
  (.entry directory r.serial dn, { r with serial := r.serial + 1 })

def addDirectory (d : Ldap.Directory) (r : Realm) : Value × Realm :=
  handle r.directories.length d.settings.base { r with directories := r.directories ++ [d] }

/-- What an entry of a directory answers. -/
def askEntry (directory : Nat) (d : Ldap.Directory) (dn : Value) (action : Action) (r : Realm) :
    Answer × Realm :=
  match action with
  | .lookup name =>
    match r.operate (Ldap.lookup d dn name) with
    | (.ok (.entry dn), r) =>
      let (v, r) := r.handle directory (.text dn)
      (.ok v, r)
    | (.ok (.value v), r) => (.ok v, r)
    | (.error e, r) => (.error e, r)
  | .rebind name value =>
    let (result, r) := r.operate (Ldap.rebind d dn name value)
    (result.map fun _ => .null, r)
  | .createContext name =>
    match r.operate (Ldap.createContext d dn name) with
    | (.ok dn, r) =>
      let (v, r) := r.handle directory (.text dn)
      (.ok v, r)
    | (.error e, r) => (.error e, r)
  | .readName text => ((d.grammar.parse text).map .name, r)

/-! ### Memory contexts -/

/-- The realm with a new heap, if an operation gave one, and the given answer. -/
def withHeap (r : Realm) (result : Except Fault Memory.Heap) (v : Value) : Answer × Realm :=
  match result with
  | .ok heap => (.ok v, { r with heap })
  | .error e => (.error e, r)

/-- What a memory context answers. -/
def askContext (id : Nat) (action : Action) (r : Realm) : Answer × Realm :=
  match action with
  | .lookup name => (Memory.lookup r.heap id name, r)
  | .rebind name value => r.withHeap (Memory.rebind r.heap id name value) .null
  | .createContext name =>
    r.withHeap (Memory.create r.heap id name) (.context r.heap.size)
  | .readName text => ((Memory.readName r.heap id text).map .name, r)

/-! ### Any node -/

def answer (request : Request) (r : Realm) : Answer × Realm :=
  match request.node with
  | .context id => r.askContext id request.action
  | .entry directory _ dn =>
    match r.directories[directory]? with
    | some d => r.askEntry directory d dn request.action
    | none => (.error (.missing request.node request.action.member), r)
  | _ =>
    let (a, script) := r.script.answer request
    (a, { r with script })

def run {α : Type} (talk : Client.Talk α) (r : Realm) : α × Realm :=
  Dialogue.run answer (hear Event.logger) talk r

def bind (name value root : Value) (r : Realm) : Except Fault Unit × Realm :=
  r.run (Client.bind name value root)

def lookup (name node : Value) (r : Realm) : Answer × Realm :=
  r.run (Client.lookup name node)

/-! ### Operations outside dialogues -/

def addContext (separator : Separator) (r : Realm) : Value × Realm :=
  (.context r.heap.size, { r with heap := r.heap.push separator })

/-- Removes what is bound at a name. Only memory contexts can do it. -/
def unbind (node name : Value) (r : Realm) : Answer × Realm :=
  match node with
  | .context id => r.withHeap (Memory.unbind r.heap id name) .null
  | _ => (.error (.missing node "unbind"), r)

/-- The keys bound in a node. Only memory contexts can tell. -/
def list (node : Value) (r : Realm) : Answer :=
  match node with
  | .context id => .ok (.list ((r.heap.keys id).map .text))
  | _ => .error (.missing node "list")

/-- The directory of a node, or the fault that it lacks a member. -/
def directoryOf (node : Value) (member : String) (r : Realm) :
    Except Fault (Ldap.Directory × Value) :=
  match node with
  | .entry directory _ dn =>
    match r.directories[directory]? with
    | some d => .ok (d, dn)
    | none => .error (.missing node member)
  | _ => .error (.missing node member)

def settingsOf (node : Value) (r : Realm) : Except Fault Ldap.Settings :=
  (r.directoryOf node "cfg").map fun found => found.1.settings

/-- The distinguished name of a name below a node. A text is read by the node first. -/
def dnOf (node name : Value) (r : Realm) : Answer := do
  let (d, own) ← r.directoryOf node "_dn"
  let name ← match name with
    | .text _ => (answer ⟨node, .readName name⟩ r).1
    | name => pure name
  match name with
  | .name n => return .text (← Ldap.entryDn d own n)
  | v => throw (.missing v "segments")

/-- The attributes that a segment gives to an entry below a node. -/
def rdnAttributesOf (node segment : Value) (r : Realm) : Answer := do
  let (d, _) ← r.directoryOf node "_rdn_attributes"
  return .dict (← Ldap.rdnAttributes d segment)

/-! ### Laws -/

@[simp] theorem heap_hear (logger : String) (event : Event) (r : Realm) :
    (hear logger event r).heap = r.heap := rfl

@[simp] theorem run_done {α : Type} (a : α) (r : Realm) : r.run (.done a) = (a, r) := rfl

@[simp] theorem run_note {α : Type} (event : Event) (next : Client.Talk α) (r : Realm) :
    r.run (.note event next) = (hear Event.logger event r).run next := rfl

@[simp] theorem run_ask {α : Type} (request : Request) (next : Answer → Client.Talk α) (r : Realm) :
    r.run (.ask request next) = (answer request r).2.run (next (answer request r).1) := rfl

/-- One dialogue after another is run from where the first one ends. -/
theorem run_bind {α β : Type} (talk : Client.Talk α) (next : α → Client.Talk β) (r : Realm) :
    r.run (talk.bind next) = (r.run talk).2.run (next (r.run talk).1) :=
  Dialogue.run_bind answer (hear Event.logger) talk next r

@[simp] theorem answer_context (id : Nat) (action : Action) (r : Realm) :
    answer ⟨.context id, action⟩ r = r.askContext id action := rfl

end Realm
end NamingDirectory
