import Mathlib.Data.List.Forall2
import NamingDirectory.Proofs.Ldap.Operation
import NamingDirectory.Realm

/-!
# Passwords are not seen

Two realms that differ in the passwords of their directories alone, and in what went over the wire
(`Realm.Resembles`). No operation tells them apart: its result, what it reports and what it changes is the
same in both (`Realm.answer_resembles`), and so is what a dialogue of the client comes to
(`Realm.run_resembles`). The password is a part of the connection that a session announces, and of nothing
else.

The relation says of each field of a realm whether it is the same, so that it can be seen what may differ, and
each function that changes a realm keeps it. An operation is compared with the same one of the directory with
another password (`Discreet`). As a password goes into none of the names, attributes and texts that an
operation works out, the two are the same outside of their sessions, and in a session up to the announcement
(`discreet_session`).

The wire is not compared, because the password goes over it. What the server replies to somebody who binds is
decided by the server, and the server is the same in both.
-/

namespace NamingDirectory

namespace Ldap

def Settings.withPassword (s : Settings) (p : Value) : Settings := { s with password := p }

def Directory.withPassword (d : Directory) (p : Value) : Directory :=
  { d with settings := d.settings.withPassword p }

end Ldap

/-- Whether two realms are the same but for the passwords of directories and the wire. -/
structure Realm.Resembles (r r' : Realm) : Prop where
  heap : r'.heap = r.heap
  directories : List.Forall₂ (fun d d' => ∃ p, d' = Ldap.Directory.withPassword d p) r.directories r'.directories
  serial : r'.serial = r.serial
  server : r'.server = r.server
  script : r'.script = r.script
  log : r'.log = r.log

namespace Realm

variable {r r' : Realm}

theorem Resembles.refl (r : Realm) : r.Resembles r := by
  refine ⟨rfl, ?_, rfl, rfl, rfl, rfl⟩
  rw [List.forall₂_same]
  exact fun d _ => ⟨d.settings.password, rfl⟩

theorem Resembles.record (h : r.Resembles r') (entry : Log.Record) :
    (r.record entry).Resembles (r'.record entry) :=
  ⟨h.heap, h.directories, h.serial, h.server, h.script, congrArg (· ++ [entry]) h.log⟩

theorem Resembles.hear (h : r.Resembles r') (logger : String) (event : Event) :
    (Realm.hear logger event r).Resembles (Realm.hear logger event r') := by
  rw [Realm.hear, Realm.hear, h.heap]
  exact h.record _

/-- Announcing connections is not seen, whatever they are. -/
theorem Resembles.connect (h : r.Resembles r') (c c' : Ldap.Connection) :
    (attend (.connect c) r).Resembles (attend (.connect c') r') :=
  ⟨h.heap, h.directories, h.serial, h.server, h.script, h.log⟩

theorem Resembles.attend (h : r.Resembles r') (notice : Ldap.Notice) :
    (Realm.attend notice r).Resembles (Realm.attend notice r') := by
  cases notice with
  | connect c => exact h.connect c c
  | unbindFailed e => exact h.record _

theorem Resembles.reply (h : r.Resembles r') (request : Ldap.Request) :
    (Realm.reply request r').1 = (Realm.reply request r).1 ∧
      (Realm.reply request r).2.Resembles (Realm.reply request r').2 := by
  simp only [Realm.reply, h.server, true_and]
  exact ⟨h.heap, h.directories, h.serial, rfl, h.script, h.log⟩

/-! ### Operations of directories

Dialogues with the server are compared as they are run, and not as they are written, since the announcement of
a connection has the password in it. Each operation is taken apart into what is worked out and a session, and
only the session is looked at. -/

section Discreet

variable {α β : Type}

/-- Whether no realm tells two operations apart. -/
def Discreet (talk talk' : Dialogue Ldap.Notice Ldap.Request Ldap.Reply α) : Prop :=
  ∀ r r', Resembles r r' →
    (talk'.run Realm.reply Realm.attend r').1 = (talk.run Realm.reply Realm.attend r).1 ∧
      (talk.run Realm.reply Realm.attend r).2.Resembles (talk'.run Realm.reply Realm.attend r').2

theorem Discreet.refl (talk : Dialogue Ldap.Notice Ldap.Request Ldap.Reply α) : Discreet talk talk := by
  induction talk with
  | done a => exact fun r r' h => ⟨rfl, h⟩
  | note notice next ih => exact fun r r' h => ih _ _ (h.attend notice)
  | ask request next ih =>
    intro r r' h
    obtain ⟨hreply, hnext⟩ := h.reply request
    simp only [Dialogue.run, hreply]
    exact ih _ _ _ hnext

theorem Discreet.bind {talk talk' : Dialogue Ldap.Notice Ldap.Request Ldap.Reply α}
    {next next' : α → Dialogue Ldap.Notice Ldap.Request Ldap.Reply β} (h : Discreet talk talk')
    (hnext : ∀ a, Discreet (next a) (next' a)) : Discreet (talk.bind next) (talk'.bind next') := by
  intro r r' hr
  obtain ⟨hresult, hafter⟩ := h r r' hr
  rw [Dialogue.run_bind, Dialogue.run_bind, hresult]
  exact hnext _ _ _ hafter

/-- One step after another, if neither is told from its counterpart. -/
theorem Discreet.step {op op' : Ldap.Op α} {next next' : α → Ldap.Op β} (h : Discreet op.run op'.run)
    (hnext : ∀ a, Discreet (next a).run (next' a).run) : Discreet (op >>= next).run (op' >>= next').run := by
  rw [ExceptT.run_bind, ExceptT.run_bind]
  apply Discreet.bind h
  intro result
  cases result with
  | ok a => exact hnext a
  | error e => exact .refl _

/-- A session announces the password, and has no other use for it. -/
theorem discreet_session (d : Ldap.Directory) (p : Value) (body : Ldap.Op α) :
    Discreet (Ldap.session d body).run (Ldap.session (d.withPassword p) body).run := by
  intro r r' h
  exact Discreet.refl _ _ _ (h.connect (Ldap.connection d) (Ldap.connection (d.withPassword p)))

theorem discreet_lookup (d : Ldap.Directory) (p own name : Value) :
    Discreet (Ldap.lookup d own name).run (Ldap.lookup (d.withPassword p) own name).run := by
  rw [Ldap.lookup_eq, Ldap.lookup_eq]
  apply Discreet.step (.refl _)
  intro n
  apply Discreet.step (.refl _)
  intro dn
  apply Discreet.step (discreet_session d p _)
  intro answer
  exact .refl _

theorem discreet_rebind (d : Ldap.Directory) (p own name v : Value) :
    Discreet (Ldap.rebind d own name v).run (Ldap.rebind (d.withPassword p) own name v).run := by
  rw [Ldap.rebind_eq, Ldap.rebind_eq]
  apply Discreet.step (.refl _)
  intro n
  apply Discreet.step (.refl _)
  intro dn
  apply Discreet.step (.refl _)
  intro text
  apply Discreet.step (discreet_session d p _)
  intro refused?
  exact .refl _

theorem discreet_createContext (d : Ldap.Directory) (p own name : Value) :
    Discreet (Ldap.createContext d own name).run (Ldap.createContext (d.withPassword p) own name).run := by
  rw [Ldap.createContext_eq, Ldap.createContext_eq]
  apply Discreet.step (.refl _)
  intro n
  apply Discreet.step (.refl _)
  intro dn
  apply Discreet.step (.refl _)
  intro attributes
  apply Discreet.step (discreet_session d p _)
  intro answer
  exact .refl _

end Discreet

/-! ### Answers

From operations to nodes, and from nodes to dialogues with them. A node of another kind than an entry has
nothing to do with directories, and all that an entry needs of its directory is there in the other realm as
well, up to the password. -/

/-- Whether two outcomes are the same but for what sets two realms apart. -/
def SameOutcome {α : Type} (out out' : α × Realm) : Prop := out'.1 = out.1 ∧ out.2.Resembles out'.2

theorem SameOutcome.exists_parts {α : Type} {out out' : α × Realm} (h : SameOutcome out out') :
    ∃ a after after', out = (a, after) ∧ out' = (a, after') ∧ after.Resembles after' :=
  ⟨out.1, out.2, out'.2, rfl, Prod.ext h.1 rfl, h.2⟩

/-- There is the same directory in both, but for its password. -/
theorem Resembles.directory (h : r.Resembles r') (i : Nat) :
    (r.directories[i]? = none ∧ r'.directories[i]? = none) ∨
      ∃ d p, r.directories[i]? = some d ∧ r'.directories[i]? = some (Ldap.Directory.withPassword d p) := by
  have hall := h.directories
  generalize r.directories = ds, r'.directories = ds' at hall
  induction hall generalizing i with
  | nil => exact .inl ⟨rfl, rfl⟩
  | @cons d d' ds ds' hd _ ih =>
    cases i with
    | zero =>
      obtain ⟨p, rfl⟩ := hd
      exact .inr ⟨d, p, rfl, rfl⟩
    | succ i => exact ih i

/-- An operation comes out the same in both realms if no realm tells it from its counterpart. -/
theorem Resembles.operate {α : Type} {op op' : Ldap.Op α} (h : r.Resembles r')
    (hop : Discreet op.run op'.run) : SameOutcome (r.operate op) (r'.operate op') :=
  hop r r' h

theorem Resembles.handle (h : r.Resembles r') (directory : Nat) (dn : Value) :
    SameOutcome (Realm.handle directory dn r) (Realm.handle directory dn r') := by
  refine ⟨by rw [Realm.handle, Realm.handle, h.serial], ?_⟩
  exact ⟨h.heap, h.directories, congrArg (· + 1) h.serial, h.server, h.script, h.log⟩

/-- Adding a directory, whatever its password. -/
theorem Resembles.addDirectory (h : r.Resembles r') (d : Ldap.Directory) (p : Value) :
    SameOutcome (Realm.addDirectory d r) (Realm.addDirectory (d.withPassword p) r') := by
  have hadded : Resembles { r with directories := r.directories ++ [d] }
      { r' with directories := r'.directories ++ [d.withPassword p] } :=
    ⟨h.heap, List.rel_append h.directories (.cons ⟨p, rfl⟩ .nil), h.serial, h.server, h.script, h.log⟩
  rw [Realm.addDirectory, Realm.addDirectory, h.directories.length_eq]
  exact hadded.handle _ _

theorem Resembles.withHeap (h : r.Resembles r') (result : Except Fault Memory.Heap) (v : Value) :
    SameOutcome (r.withHeap result v) (r'.withHeap result v) := by
  cases result with
  | ok heap => exact ⟨rfl, rfl, h.directories, h.serial, h.server, h.script, h.log⟩
  | error e => exact ⟨rfl, h⟩

/-- Memory contexts answer the same, as they know of no directory. -/
theorem Resembles.askContext (h : r.Resembles r') (id : Nat) (action : Action) :
    SameOutcome (r.askContext id action) (r'.askContext id action) := by
  cases action with
  | lookup name =>
    simp only [Realm.askContext, h.heap]
    exact ⟨rfl, h⟩
  | rebind name v =>
    simp only [Realm.askContext, h.heap]
    exact h.withHeap _ _
  | createContext name =>
    simp only [Realm.askContext, h.heap]
    exact h.withHeap _ _
  | readName text =>
    simp only [Realm.askContext, h.heap]
    exact ⟨rfl, h⟩

/-- Entries answer the same, whatever password their directory has. -/
theorem Resembles.askEntry (h : r.Resembles r') (directory : Nat) (d : Ldap.Directory) (p dn : Value)
    (action : Action) :
    SameOutcome (Realm.askEntry directory d dn action r)
      (Realm.askEntry directory (d.withPassword p) dn action r') := by
  cases action with
  | lookup name =>
    obtain ⟨result, after, after', hop, hop', hafter⟩ :=
      (h.operate (discreet_lookup d p dn name)).exists_parts
    simp only [Realm.askEntry, hop, hop']
    cases result with
    | error e => exact ⟨rfl, hafter⟩
    | ok found =>
      cases found with
      | value v => exact ⟨rfl, hafter⟩
      | entry dn =>
        -- An entry comes as a new handle, whose number is the same in both realms.
        obtain ⟨hhandle, hheld⟩ := hafter.handle directory (.text dn)
        exact ⟨congrArg Except.ok hhandle, hheld⟩
  | rebind name v =>
    obtain ⟨hresult, hafter⟩ := h.operate (discreet_rebind d p dn name v)
    simp only [Realm.askEntry, hresult]
    exact ⟨rfl, hafter⟩
  | createContext name =>
    obtain ⟨result, after, after', hop, hop', hafter⟩ :=
      (h.operate (discreet_createContext d p dn name)).exists_parts
    simp only [Realm.askEntry, hop, hop']
    cases result with
    | error e => exact ⟨rfl, hafter⟩
    | ok dn =>
      obtain ⟨hhandle, hheld⟩ := hafter.handle directory (.text dn)
      exact ⟨congrArg Except.ok hhandle, hheld⟩
  | readName text => exact ⟨rfl, h⟩

/-- No node tells the two realms apart. -/
theorem answer_resembles (h : r.Resembles r') (request : Request) :
    SameOutcome (answer request r) (answer request r') := by
  obtain ⟨node, action⟩ := request
  have hscript : SameOutcome
      ((r.script.answer ⟨node, action⟩).1, { r with script := (r.script.answer ⟨node, action⟩).2 })
      ((r'.script.answer ⟨node, action⟩).1, { r' with script := (r'.script.answer ⟨node, action⟩).2 }) := by
    rw [h.script]
    exact ⟨rfl, h.heap, h.directories, h.serial, h.server, rfl, h.log⟩
  cases node with
  | context id => exact h.askContext id action
  | entry directory serial dn =>
    simp only [answer]
    rcases h.directory directory with ⟨hnone, hnone'⟩ | ⟨d, p, hsome, hsome'⟩
    · rw [hnone, hnone']
      exact ⟨rfl, h⟩
    · rw [hsome, hsome']
      exact h.askEntry directory d p dn action
  | _ => exact hscript

/-- A dialogue comes to the same in both realms, by induction on what it asks. -/
theorem run_resembles {α : Type} (h : r.Resembles r') (talk : Client.Talk α) :
    SameOutcome (r.run talk) (r'.run talk) := by
  induction talk generalizing r r' with
  | done a => exact ⟨rfl, h⟩
  | note event next ih => exact ih (h.hear Event.logger event)
  | ask request next ih =>
    obtain ⟨hanswer, hafter⟩ := answer_resembles h request
    rw [run_ask, run_ask, hanswer]
    exact ih _ hafter

end Realm
end NamingDirectory
