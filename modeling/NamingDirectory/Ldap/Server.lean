import NamingDirectory.Ldap.Wire

/-!
# A directory server in memory

A server that answers requests from a store of entries, by their distinguished names. An entry can be
added where none is and where its parent is, and modified or read where it is. Answers that are prepared
for a kind of request come before those of the store, and a server without a store finds nothing and
agrees to everything.
-/

namespace NamingDirectory.Ldap

inductive Method where
  | open | startTls | bind | search | modify | add | unbind
deriving DecidableEq

def Request.method : Request → Method
  | .open => .open
  | .startTls => .startTls
  | .bind => .bind
  | .search .. => .search
  | .modify .. => .modify
  | .add .. => .add
  | .unbind => .unbind

/-- The entries of a directory: the values of their attributes, by distinguished names. -/
abbrev Store := OrderedMap String (OrderedMap Value (List Value))

structure Server where
  /-- The answers that are prepared for each kind of request, the next one first. -/
  prepared : OrderedMap Method (List Reply)
  store : Option Store

def resultValue (number : Int) (description : String) : Value :=
  .dict [(.text "result", .int number), (.text "description", .text description),
    (.text "message", .text "")]

namespace Reply

def success : Value := .dict [(.text "result", .int 0), (.text "description", .text "success")]

def agreed : Reply := ⟨none, true, success, []⟩

def noSuchObject : Reply := ⟨none, false, resultValue 32 "noSuchObject", []⟩

def alreadyExists : Reply := ⟨none, false, resultValue 68 "entryAlreadyExists", []⟩

end Reply

/-- The part of a distinguished name after its first comma that no backslash escapes. -/
def parentDn? : List Char → Option (List Char)
  | [] => none
  | '\\' :: _ :: cs => parentDn? cs
  | c :: cs => if c == ',' then some cs else parentDn? cs

namespace Store

def hasParent (s : Store) (dn : String) : Bool :=
  match parentDn? dn.toList with
  | some parent => s.has (String.ofList parent)
  | none => false

/-- The values of an attribute that was given one value or a list of them. -/
def values : Value → List Value
  | .list vs => vs
  | v => [v]

/-- The store's answer to a request. -/
def answer (s : Store) : Request → Reply × Store
  | .search dn names =>
    match s.get? dn with
    | none => (.noSuchObject, s)
    | some attributes =>
      let found := names.filterMap fun name =>
        (attributes.get? name).map fun vs => (name, Value.list vs)
      ({ Reply.agreed with entries := [OrderedMap.ofEntries found] }, s)
  | .modify dn name text =>
    match s.get? dn with
    | none => (.noSuchObject, s)
    | some attributes => (.agreed, s.put dn (attributes.put name [.text text]))
  | .add dn attributes =>
    if s.has dn then (.alreadyExists, s)
    else if s.hasParent dn then
      (.agreed, s.put dn (attributes.map fun a => (a.1, values a.2)))
    else (.noSuchObject, s)
  | _ => (.agreed, s)

end Store

namespace Server

def idle : Server := ⟨[], none⟩

/-- The server's answer to a request. -/
def answer (server : Server) (request : Request) : Reply × Server :=
  match server.prepared.get? request.method with
  | some (reply :: rest) =>
    (reply, { server with prepared := server.prepared.put request.method rest })
  | _ =>
    match server.store with
    | none => (.agreed, server)
    | some s => ((s.answer request).1, { server with store := some (s.answer request).2 })

end Server
end NamingDirectory.Ldap
