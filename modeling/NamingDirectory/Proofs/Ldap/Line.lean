import NamingDirectory.Proofs.Client.Course
import NamingDirectory.Realm

/-!
# The line to the server

A dialogue with the nodes of a directory comes down to a dialogue with its server: each request to a node is
an operation, and each operation asks the server. `Realm.line` is that dialogue. What stands behind the server
is left open in it, so a law about it is a law about every server there can be.

`run_eq_line` says that nothing is lost: to run a dialogue in a realm is to run its line with the server of
the realm.

A realm holds more than its server: handles, memory contexts, scripted nodes and the log. The line keeps all
of this as its state from one request to the next (`relay`), and asks the server for the rest. While the line
is run, the server's part of a realm is taken from one realm and the other parts from another one
(`onServerOf`), and the two are found to agree step by step.
-/

namespace NamingDirectory

namespace Dialogue

variable {ε ε' ρ ρ' β β' α γ σ : Type}

/-- The dialogue that answers each request of another one by a dialogue of its own. Only a state is kept
from one request to the next. -/
def relay (serve : ρ → σ → Dialogue ε' ρ' β' (β × σ)) (hear : ε → σ → σ) :
    Dialogue ε ρ β α → σ → Dialogue ε' ρ' β' (α × σ)
  | .done a, s => .done (a, s)
  | .note e next, s => next.relay serve hear (hear e s)
  | .ask r next, s => (serve r s).bind fun out => (next out.1).relay serve hear out.2

/-- A dialogue after another is relayed after it, from the state that the first one leaves. -/
theorem relay_bind (serve : ρ → σ → Dialogue ε' ρ' β' (β × σ)) (hear : ε → σ → σ)
    (d : Dialogue ε ρ β α) (f : α → Dialogue ε ρ β γ) (s : σ) :
    (d.bind f).relay serve hear s =
      (d.relay serve hear s).bind fun out => (f out.1).relay serve hear out.2 := by
  induction d generalizing s with
  | done a => rfl
  | note e next ih => exact ih (hear e s)
  | ask r next ih =>
    rw [bind, relay, relay, bind_assoc]
    exact congrArg _ (funext fun out => ih out.1 out.2)

end Dialogue

namespace Realm

open Dialogue Ldap

/-- The operation that an entry carries out for a request. -/
def perform (d : Directory) (own : Value) : Action → Op Found
  | .lookup name => Ldap.lookup d own name
  | .rebind name value => Ldap.rebind d own name value >>= fun _ => pure (.value .null)
  | .createContext name => Ldap.createContext d own name >>= fun dn => pure (.entry dn)
  | .readName text => lift ((d.grammar.parse text).map fun n => .value (.name n))

/-- The answer that comes of an operation. An entry is answered with a new handle on it. -/
def receive (directory : Nat) (r : Realm) : Except Fault Found → Answer × Realm
  | .ok (.entry dn) => (.ok (r.handle directory (.text dn)).1, (r.handle directory (.text dn)).2)
  | .ok (.value v) => (.ok v, r)
  | .error e => (.error e, r)

/-- A dialogue with a directory server. -/
abbrev Line (α : Type) := Dialogue Notice Ldap.Request Reply α

/-- What the server has to be asked for the answer of a node. Only the entries of a directory ask it
anything. -/
def serve (request : Request) (r : Realm) : Line (Answer × Realm) :=
  match request.node with
  | .entry directory _ own =>
    match r.directories[directory]? with
    | some d =>
      (perform d own request.action).run.bind fun result => .done (r.receive directory result)
    | none => .done (answer request r)
  | _ => .done (answer request r)

/-- The dialogue with the server that a dialogue with nodes comes down to. -/
def line {α : Type} (talk : Client.Talk α) (r : Realm) : Line (α × Realm) :=
  talk.relay serve (hear Event.logger) r

@[simp] theorem line_note {α : Type} (event : Event) (next : Client.Talk α) (r : Realm) :
    r.line (.note event next) = (hear Event.logger event r).line next := rfl

/-- The line of a dialogue after another is one line after the other. -/
theorem line_bind {α β : Type} (talk : Client.Talk α) (next : α → Client.Talk β) (r : Realm) :
    r.line (talk.bind next) = (r.line talk).bind fun out => out.2.line (next out.1) :=
  relay_bind serve (hear Event.logger) talk next r

/-- On a line an entry does not answer by itself: its operation is carried on with the server, and the
dialogue goes on from what the realm makes of the end. -/
theorem line_ask_entry {α : Type} {r : Realm} {directory : Nat} {d : Directory}
    (hd : r.directories[directory]? = some d) (serial : Nat) (own : Value) (action : Action)
    (next : Answer → Client.Talk α) :
    r.line (.ask ⟨.entry directory serial own, action⟩ next) =
      (perform d own action).run.bind fun result =>
        (r.receive directory result).2.line (next (r.receive directory result).1) := by
  have hserve : serve ⟨.entry directory serial own, action⟩ r =
      (perform d own action).run.bind fun result => .done (r.receive directory result) := by
    simp only [serve, hd]
  rw [line, relay, hserve, bind_assoc]
  rfl

/-! ### Running the line

What is run on a line is run with the server alone, and what the log says of it comes along. -/

/-- A realm on the server of another one, with what was recorded there and a log of its own. -/
def onServerOf (r s : Realm) (log : List Log.Record) : Realm :=
  { r with server := s.server, wire := s.wire, log }

/-- Asking the server changes nothing in the realm but what is recorded. -/
theorem run_reply_onServerOf {α : Type} (d : Line α) (r s : Realm) (log : List Log.Record) :
    ∃ log', d.run reply attend (r.onServerOf s log) =
      ((d.run reply attend s).1, r.onServerOf (d.run reply attend s).2 log') := by
  induction d generalizing s log with
  | done a => exact ⟨log, rfl⟩
  | note notice next ih =>
    cases notice with
    | connect c => exact ih (attend (.connect c) s) log
    | unbindFailed e => exact ih (attend (.unbindFailed e) s) _
  | ask request next ih => exact ih _ (reply request s).2 log

/-- What a dialogue with the server ends in, and how it leaves the server, is a matter of the server alone. -/
theorem run_reply_congr {α : Type} (d : Line α) {r s : Realm} (h : r.server = s.server) :
    (d.run reply attend r).1 = (d.run reply attend s).1 ∧
      (d.run reply attend r).2.server = (d.run reply attend s).2.server := by
  induction d generalizing r s with
  | done a => exact ⟨rfl, h⟩
  | note notice next ih =>
    cases notice with
    | connect c => exact ih h
    | unbindFailed e => exact ih h
  | ask request next ih =>
    have hreply : (reply request r).1 = (reply request s).1 ∧
        (reply request r).2.server = (reply request s).2.server := by
      simp only [reply, h, and_self]
    rw [Dialogue.run, Dialogue.run, hreply.1]
    exact ih _ hreply.2

/-- An operation on a directory leaves the memory contexts alone. -/
@[simp] theorem heap_operate {α : Type} (op : Op α) (r : Realm) : (r.operate op).2.heap = r.heap := by
  obtain ⟨log, hrun⟩ := run_reply_onServerOf op.run r r r.log
  exact congrArg (fun out => out.2.heap) hrun

theorem operate_lift {α : Type} (result : Except Fault α) (r : Realm) :
    r.operate (lift result) = (result, r) := rfl

/-- One operation after another is carried out from where the first one ends, if it does not fail. -/
theorem operate_bind {α β : Type} (op : Op α) (next : α → Op β) (r : Realm) :
    r.operate (op >>= next) =
      match r.operate op with
      | (.ok a, r) => r.operate (next a)
      | (.error e, r) => (.error e, r) := by
  rw [operate, ExceptT.run_bind]
  refine (Dialogue.run_bind reply attend op.run _ r).trans ?_
  rw [operate]
  cases op.run.run reply attend r with
  | mk result r =>
    cases result with
    | ok a => rfl
    | error e => rfl

/-- What an entry answers is what comes of its operation. -/
theorem askEntry_eq_receive (directory : Nat) (d : Directory) (own : Value) (action : Action)
    (r : Realm) :
    r.askEntry directory d own action =
      receive directory (r.operate (perform d own action)).2
        (r.operate (perform d own action)).1 := by
  cases action with
  | lookup name =>
    simp only [askEntry, perform]
    cases r.operate (Ldap.lookup d own name) with
    | mk result r =>
      rcases result with e | dn | v
      · rfl
      · rfl
      · rfl
  | rebind name value =>
    simp only [askEntry, perform, operate_bind]
    cases r.operate (Ldap.rebind d own name value) with
    | mk result r =>
      cases result with
      | error e => rfl
      | ok _ => rfl
  | createContext name =>
    simp only [askEntry, perform, operate_bind]
    cases r.operate (Ldap.createContext d own name) with
    | mk result r =>
      cases result with
      | error e => rfl
      | ok dn => rfl
  | readName text =>
    simp only [askEntry, perform, operate_lift]
    cases d.grammar.parse text with
    | error e => rfl
    | ok n => rfl

/-- A change to the heap does not ask the server. -/
theorem withHeap_onServerOf (r s : Realm) (log : List Log.Record) (result : Except Fault Memory.Heap)
    (v : Value) :
    (r.onServerOf s log).withHeap result v =
      ((r.withHeap result v).1, (r.withHeap result v).2.onServerOf s log) := by
  cases result with
  | ok heap => rfl
  | error e => rfl

/-- Memory contexts and scripted nodes answer the same on any server, and leave the server as it is. -/
theorem answer_onServerOf_of_offline {request : Request}
    (h : ∀ directory serial own, request.node ≠ .entry directory serial own) (r s : Realm)
    (log : List Log.Record) :
    answer request (r.onServerOf s log) =
      ((answer request r).1, (answer request r).2.onServerOf s log) := by
  obtain ⟨node, action⟩ := request
  cases node with
  | context id =>
    cases action with
    | lookup name => rfl
    | rebind name value => exact withHeap_onServerOf r s log _ _
    | createContext name => exact withHeap_onServerOf r s log _ _
    | readName text => rfl
  | entry directory serial own => exact absurd rfl (h directory serial own)
  | _ => rfl

/-- A node answers what its line to the server makes it answer. -/
theorem answer_eq_serve (request : Request) (r s : Realm) (log : List Log.Record) :
    let out := (serve request r).run reply attend s
    ∃ log', answer request (r.onServerOf s log) = (out.1.1, out.1.2.onServerOf out.2 log') := by
  obtain ⟨node, action⟩ := request
  cases node with
  | entry directory serial own =>
    have hsame : (r.onServerOf s log).directories = r.directories := rfl
    cases hd : r.directories[directory]? with
    | none =>
      simp only [answer, serve, hsame, hd]
      exact ⟨log, rfl⟩
    | some d =>
      obtain ⟨log', hrun⟩ := run_reply_onServerOf (perform d own action).run r s log
      simp only [answer, serve, hsame, hd, askEntry_eq_receive, operate, hrun, Dialogue.run_bind]
      refine ⟨log', ?_⟩
      rcases ((perform d own action).run.run reply attend s).1 with e | dn | v
      · rfl
      · rfl
      · rfl
  | _ =>
    refine ⟨log, ?_⟩
    rw [answer_onServerOf_of_offline (by rintro _ _ _ ⟨⟩)]
    rfl

/-- To run a dialogue in a realm is to run its line with a server, up to what is logged. -/
theorem run_onServerOf {α : Type} (talk : Client.Talk α) (r s : Realm) (log : List Log.Record) :
    let out := (line talk r).run reply attend s
    ∃ log', (r.onServerOf s log).run talk = (out.1.1, out.1.2.onServerOf out.2 log') := by
  induction talk generalizing r s log with
  | done a => exact ⟨log, rfl⟩
  | note e next ih => exact ih (hear Event.logger e r) s _
  | ask request next ih =>
    obtain ⟨log', hanswer⟩ := answer_eq_serve request r s log
    simp only [line, relay, Dialogue.run_bind, run_ask, hanswer]
    exact ih _ _ _ log'

/-- With a realm's own server the line of a dialogue is the dialogue. -/
theorem run_eq_line {α : Type} (talk : Client.Talk α) (r : Realm) :
    let out := (line talk r).run reply attend r
    ∃ log, r.run talk = (out.1.1, out.1.2.onServerOf out.2 log) :=
  run_onServerOf talk r r r.log

end Realm
end NamingDirectory
