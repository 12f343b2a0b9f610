import NamingDirectory.Proofs.Ldap.DistinguishedName
import NamingDirectory.Proofs.Ldap.Line
import NamingDirectory.Proofs.Ldap.Operation

/-!
# Connections

An operation on an entry makes one connection at most. `Session` says what is then asked of it, whatever the
server replies: it is opened, somebody binds, entries are read or written, and it is closed.

A connection is closed if it could be opened and, where it has to be, secured. If the server refuses to secure
it, it is left as it is: open, and never closed (`Session.closes_iff`).

What is done in a session consists of reading and writing entries only (`Accesses`), which is shown for each
operation from the operations that it is made of. It neither closes the connection nor opens another one, so
whether a session closes its connection is decided by how it begins. A reply may raise any fault at any
request, the refusals of a provider included, so nothing is supposed of the server here.
-/

namespace NamingDirectory.Ldap

open Dialogue

/-! ### Calls of a course

A request of a course and what is said of its reply, in a form that goes over the parts of a course. -/

/-- Whether a request was made in a course, and had such a reply. -/
def Replied (request : Request) (such : Reply → Prop) (t : List Exchange) : Prop :=
  ∃ reply, .call request reply ∈ t ∧ such reply

abbrev Asked (request : Request) (t : List Exchange) : Prop := Replied request (fun _ => True) t

/-- Whether a request was made and did not fail. -/
abbrev Returned (request : Request) (t : List Exchange) : Prop :=
  Replied request (fun reply => reply.raised = none) t

/-- Whether a request was made and failed. -/
abbrev Raised (request : Request) (t : List Exchange) : Prop :=
  Replied request (fun reply => reply.raised ≠ none) t

section Replied

variable {request request' : Request} {such : Reply → Prop} {reply : Reply} {notice : Notice}
  {t t' : List Exchange}

@[simp] theorem replied_nil : ¬ Replied request such [] := by
  simp [Replied]

@[simp] theorem replied_cons_event :
    Replied request such (.event notice :: t) ↔ Replied request such t := by
  simp [Replied]

@[simp] theorem replied_cons_call :
    Replied request such (.call request' reply :: t) ↔
      request = request' ∧ such reply ∨ Replied request such t := by
  constructor
  · rintro ⟨reply', hmem, hsuch⟩
    rcases List.mem_cons.mp hmem with heq | hmem
    · cases heq
      exact .inl ⟨rfl, hsuch⟩
    · exact .inr ⟨reply', hmem, hsuch⟩
  · rintro (⟨rfl, hsuch⟩ | ⟨reply', hmem, hsuch⟩)
    · exact ⟨reply, List.mem_cons_self, hsuch⟩
    · exact ⟨reply', List.mem_cons_of_mem _ hmem, hsuch⟩

@[simp] theorem replied_append :
    Replied request such (t ++ t') ↔ Replied request such t ∨ Replied request such t' := by
  simp only [Replied, List.mem_append, or_and_right, exists_or]

end Replied

/-- Whether the connection of a course is closed: there is one request to close it, and no request after
that. -/
def Closes (t : List Exchange) : Prop :=
  ∃ before reply after, t = before ++ .call .unbind reply :: after ∧ ¬ Asked .unbind before ∧
    ∀ request, ¬ Asked request after

theorem Closes.asked {t : List Exchange} (h : Closes t) : Asked .unbind t := by
  obtain ⟨before, reply, after, rfl, -, -⟩ := h
  simp

/-! ### Reading and writing entries

What comes between the bind of a session and its end. -/

/-- Whether a request reads or writes an entry. -/
def Request.isAccess : Request → Bool
  | .search .. | .modify .. | .add .. => true
  | _ => false

/-- Whether there are only requests in a course that read or write entries. -/
def IsAccess (t : List Exchange) : Prop :=
  ∀ x ∈ t, ∃ request reply, x = .call request reply ∧ request.isAccess

/-- An operation that only reads or writes entries. -/
def Accesses {α : Type} (op : Op α) : Prop := ∀ t a, Course op.run t a → IsAccess t

section Accesses

variable {α β : Type} {op : Op α} {next : α → Op β} {request : Request} {t t' : List Exchange}

theorem isAccess_nil : IsAccess [] := nofun

theorem isAccess_call {reply : Reply} (h : request.isAccess) : IsAccess [.call request reply] := by
  intro x hx
  cases List.mem_singleton.mp hx
  exact ⟨request, reply, rfl, h⟩

theorem isAccess_append (h : IsAccess t) (h' : IsAccess t') : IsAccess (t ++ t') := by
  intro x hx
  rcases List.mem_append.mp hx with hx | hx
  · exact h x hx
  · exact h' x hx

theorem IsAccess.not_replied {such : Reply → Prop} (h : IsAccess t) (hrequest : ¬ request.isAccess) :
    ¬ Replied request such t := by
  rintro ⟨reply, hmem, -⟩
  obtain ⟨_, _, heq, haccess⟩ := h _ hmem
  cases heq
  exact hrequest haccess

theorem accesses_call (h : request.isAccess) : Accesses (call request) := by
  intro t a hcall
  obtain ⟨reply, rfl, -⟩ := course_call_iff.mp hcall
  exact isAccess_call h

theorem accesses_lift (result : Except Fault α) : Accesses (lift result) := by
  intro t a hlift
  obtain ⟨rfl, -⟩ := course_lift_iff.mp hlift
  exact isAccess_nil

/-- One operation after another reads and writes entries if each of them does. -/
theorem Accesses.bind (h : Accesses op) (hnext : ∀ a, Accesses (next a)) : Accesses (op >>= next) := by
  intro t b hcourse
  rcases course_bind_iff.mp hcourse with ⟨e, hop, -⟩ | ⟨t₁, a, t₂, hop, hrest, rfl⟩
  · exact h t _ hop
  · exact isAccess_append (h t₁ _ hop) (hnext a t₂ b hrest)

theorem accesses_consult (h : request.isAccess) : Accesses (consult request) := by
  refine (accesses_call h).bind fun reply => ?_
  exact (accesses_lift _).bind fun outcome => accesses_lift (.ok (reply, outcome))

theorem accesses_store (d : Directory) (dn : String) (n : Name) (text : String) :
    Accesses (store d dn n text) := by
  intro t a hstore
  cases course_store hstore with
  | unasked => exact isAccess_nil
  | replaced => exact isAccess_call rfl
  | added _ _ => exact isAccess_append (isAccess_call rfl) (isAccess_call rfl)

end Accesses

/-! ### Sessions

The two ends of a session, and then what is between them. `Opening` says whether it succeeds, because a
session goes on only then. -/

/-- The requests that open a connection and secure it where that is set, and whether they succeed. -/
inductive Opening (d : Directory) : List Exchange → Bool → Prop
  | failed {opened : Reply} : opened.raised ≠ none → Opening d [.call .open opened] false
  | plain {opened : Reply} : d.settings.startTls.isVoid → opened.raised = none →
      Opening d [.call .open opened] true
  | unsecured {opened secured : Reply} : ¬ d.settings.startTls.isVoid → opened.raised = none →
      secured.raised ≠ none → Opening d [.call .open opened, .call .startTls secured] false
  | secured {opened secured : Reply} : ¬ d.settings.startTls.isVoid → opened.raised = none →
      secured.raised = none → Opening d [.call .open opened, .call .startTls secured] true

/-- The end of a session. That a connection could not be closed is noted if it is a fault of the
protocol. -/
inductive Closing : List Exchange → Prop
  | silent (reply : Reply) : Closing [.call .unbind reply]
  | noted (reply : Reply) (e : Fault) : Closing [.call .unbind reply, .event (.unbindFailed e)]

/-- The exchanges of a session. -/
inductive Session (d : Directory) : List Exchange → Prop
  | unopened {opening : List Exchange} : Opening d opening false →
      Session d (.event (.connect (connection d)) :: opening)
  | closed {opening accesses closing : List Exchange} {bound : Reply} : Opening d opening true →
      IsAccess accesses → accesses = [] ∨ bound.Agrees → Closing closing →
      Session d (.event (.connect (connection d)) ::
        (opening ++ .call .bind bound :: (accesses ++ closing)))

section Sessions

variable {α : Type} {d : Directory} {t : List Exchange}

/-- Opening a connection takes one of the four ways. -/
theorem opening_of_course {a : Except Fault Unit} (h : Course (openConnection d).run t a) :
    Opening d t a.isOk := by
  rcases course_bind_iff.mp h with ⟨e, hopen, rfl⟩ | ⟨t₁, opened, t₂, hopen, hrest, rfl⟩
  · obtain ⟨opened, rfl, ⟨e', hraised, -⟩ | ⟨-, he⟩⟩ := course_call_iff.mp hopen
    · exact .failed (by simp [hraised])
    · cases he
  · obtain ⟨opened, rfl, ⟨e', -, he⟩ | ⟨hopened, -⟩⟩ := course_call_iff.mp hopen
    · cases he
    · by_cases hplain : d.settings.startTls.isVoid
      · simp only [hplain, Bool.not_true, Bool.false_eq_true, if_false] at hrest
        obtain ⟨rfl, rfl⟩ := course_done_iff.mp hrest
        exact .plain hplain hopened
      · simp only [hplain, Bool.not_false, if_true] at hrest
        rcases course_bind_iff.mp hrest with ⟨e, hsecure, rfl⟩ | ⟨t₁, secured, t₂, hsecure, hend, rfl⟩
        · obtain ⟨secured, rfl, ⟨e', hraised, -⟩ | ⟨-, he⟩⟩ := course_call_iff.mp hsecure
          · exact .unsecured hplain hopened (by simp [hraised])
          · cases he
        · obtain ⟨secured, rfl, ⟨e', -, he⟩ | ⟨hsecured, -⟩⟩ := course_call_iff.mp hsecure
          · cases he
          · obtain ⟨rfl, rfl⟩ := course_done_iff.mp hend
            exact .secured hplain hopened hsecured

theorem closing_of_course {result a : Except Fault α} (h : Course (close result).run t a) :
    Closing t := by
  obtain ⟨reply, t, rfl, hreply⟩ := course_ask_iff.mp h
  split at hreply
  · obtain ⟨rfl, -⟩ := course_done_iff.mp hreply
    exact .silent reply
  · split at hreply
    · obtain ⟨_, rfl, hdone⟩ := course_note_iff.mp hreply
      obtain ⟨rfl, -⟩ := course_done_iff.mp hdone
      exact .noted reply _
    · obtain ⟨rfl, -⟩ := course_done_iff.mp hreply
      exact .silent reply

/-- Somebody binds with one request, and has succeeded only if the server agrees to it. -/
theorem course_authenticate {a : Except Fault Unit} (h : Course authenticate.run t a) :
    ∃ bound, t = [.call .bind bound] ∧ (a = .ok () → bound.Agrees) := by
  -- Only a fault is changed on its way out of the step, and no reply.
  have hbind : ∀ t (a : Except Fault Reply),
      Course (ExceptT.adapt Fault.contained (call .bind)).run t a →
        ∃ bound, t = [.call .bind bound] ∧ ∀ reply, a = .ok reply → reply = bound ∧ bound.raised = none := by
    intro t a hadapt
    obtain ⟨t₁, result, t₂, hcall, hdone, rfl⟩ := Dialogue.course_bind_iff.mp hadapt
    obtain ⟨rfl, rfl⟩ := course_done_iff.mp hdone
    obtain ⟨bound, rfl, ⟨e, -, rfl⟩ | ⟨hraised, rfl⟩⟩ := course_call_iff.mp hcall
    · exact ⟨bound, rfl, nofun⟩
    · refine ⟨bound, rfl, ?_⟩
      rintro reply ⟨⟩
      exact ⟨rfl, hraised⟩
  rcases course_bind_iff.mp h with ⟨e, hadapt, rfl⟩ | ⟨t₁, reply, t₂, hadapt, hrest, rfl⟩
  · obtain ⟨bound, rfl, -⟩ := hbind t _ hadapt
    exact ⟨bound, rfl, nofun⟩
  · obtain ⟨bound, rfl, hreply⟩ := hbind t₁ _ hadapt
    obtain ⟨rfl, hraised⟩ := hreply reply rfl
    refine ⟨reply, ?_⟩
    cases hok : reply.ok with
    | true =>
      simp only [hok, Bool.not_true, Bool.false_eq_true, if_false] at hrest
      obtain ⟨rfl, -⟩ := course_done_iff.mp hrest
      exact ⟨rfl, fun _ => ⟨hraised, hok⟩⟩
    | false =>
      simp only [hok, Bool.not_false, if_true] at hrest
      rcases course_lift_bind_iff.mp hrest with ⟨e, -, rfl, rfl⟩ | ⟨outcome, -, hthrow⟩
      · exact ⟨rfl, nofun⟩
      · obtain ⟨rfl, rfl⟩ := course_done_iff.mp hthrow
        exact ⟨rfl, nofun⟩

/-- A session is what `Session` says, whatever is read and written in it. -/
theorem session_of_course {body : Op α} (hbody : Accesses body) {a : Except Fault α}
    (h : Course (session d body).run t a) : Session d t := by
  obtain ⟨t, rfl, hopened⟩ := course_note_iff.mp h
  obtain ⟨opening, opened, rest, hopen, hrest, rfl⟩ := Dialogue.course_bind_iff.mp hopened
  have hopening := opening_of_course hopen
  cases opened with
  | error e =>
    obtain ⟨rfl, -⟩ := course_done_iff.mp hrest
    rw [List.append_nil]
    exact .unopened hopening
  | ok _ =>
    obtain ⟨held, result, closing, hheld, hclose, rfl⟩ := Dialogue.course_bind_iff.mp hrest
    have hclosing := closing_of_course hclose
    rcases course_bind_iff.mp hheld with ⟨e, hauth, -⟩ | ⟨t₁, _, accesses, hauth, hinner, rfl⟩
    · -- Nobody could bind, so nothing was read or written.
      obtain ⟨bound, rfl, -⟩ := course_authenticate hauth
      exact .closed hopening isAccess_nil (.inl rfl) hclosing
    · obtain ⟨bound, rfl, hagrees⟩ := course_authenticate hauth
      have haccess := hbody accesses _ hinner
      rw [List.append_assoc]
      show Session d (_ :: (opening ++ .call .bind bound :: (accesses ++ closing)))
      exact .closed hopening haccess (.inr (hagrees rfl)) hclosing

end Sessions

/-! ### Operations

Each operation works out a name before its session, and may work out a value after it. -/

/-- An operation that has one session or none. -/
def HasSession {α : Type} (d : Directory) (op : Op α) : Prop :=
  ∀ t a, Course op.run t a → t = [] ∨ Session d t

section HasSession

variable {α β : Type} {d : Directory} {op : Op α}

theorem hasSession_session {body : Op α} (h : Accesses body) : HasSession d (session d body) :=
  fun _ _ hcourse => .inr (session_of_course h hcourse)

theorem hasSession_lift (result : Except Fault α) : HasSession d (lift result) :=
  fun _ _ hcourse => .inl (course_lift_iff.mp hcourse).1

/-- What is worked out before a session asks for nothing. -/
theorem HasSession.lift_bind {next : α → Op β} (h : ∀ a, HasSession d (next a))
    (result : Except Fault α) : HasSession d (lift result >>= next) := by
  intro t b hcourse
  rcases course_lift_bind_iff.mp hcourse with ⟨e, -, rfl, -⟩ | ⟨a, -, hnext⟩
  · exact .inl rfl
  · exact h a t b hnext

/-- What is worked out after a session asks for nothing. -/
theorem HasSession.bind_lift (h : HasSession d op) (f : α → Except Fault β) :
    HasSession d (op >>= fun a => lift (f a)) := by
  intro t b hcourse
  rcases course_bind_iff.mp hcourse with ⟨e, hop, -⟩ | ⟨t₁, a, t₂, hop, hlift, rfl⟩
  · exact h t _ hop
  · obtain ⟨rfl, -⟩ := course_lift_iff.mp hlift
    rw [List.append_nil]
    exact h t₁ _ hop

/-- A lookup reads one entry and makes a value of it after the session. -/
theorem hasSession_lookup (d : Directory) (own name : Value) : HasSession d (lookup d own name) := by
  rw [lookup_eq]
  refine HasSession.lift_bind (fun n => HasSession.lift_bind (fun dn => ?_) _) _
  exact (hasSession_session (accesses_consult rfl)).bind_lift _

/-- A rebind works out the text before the session. -/
theorem hasSession_rebind (d : Directory) (own name value : Value) :
    HasSession d (rebind d own name value) := by
  rw [rebind_eq]
  refine HasSession.lift_bind (fun n => HasSession.lift_bind (fun dn => ?_) _) _
  refine HasSession.lift_bind (fun text => ?_) _
  exact (hasSession_session (accesses_store d dn n text)).bind_lift _

/-- A creation works out its attributes before the session. -/
theorem hasSession_createContext (d : Directory) (own name : Value) :
    HasSession d (createContext d own name) := by
  rw [createContext_eq]
  refine HasSession.lift_bind (fun n => HasSession.lift_bind (fun dn => ?_) _) _
  refine HasSession.lift_bind (fun attributes => ?_) _
  exact (hasSession_session (accesses_consult rfl)).bind_lift _

/-- Every operation on an entry has one session or none. -/
theorem hasSession_perform (d : Directory) (own : Value) (action : Action) :
    HasSession d (Realm.perform d own action) := by
  cases action with
  | lookup name => exact hasSession_lookup d own name
  | rebind name value =>
    exact (hasSession_rebind d own name value).bind_lift fun _ => .ok (Found.value .null)
  | createContext name =>
    exact (hasSession_createContext d own name).bind_lift fun dn => .ok (Found.entry dn)
  | readName text => exact hasSession_lift _

end HasSession

/-! ### Closing

The one request to close a connection comes last, and it comes just if the connection was opened and secured. -/

section Closes

variable {d : Directory} {t opening accesses closing : List Exchange} {bound : Reply}

/-- Opening a connection does not close it. -/
theorem Opening.not_asked_unbind {secured : Bool} (h : Opening d opening secured) :
    ¬ Asked .unbind opening := by
  cases h with
  | failed => simp
  | plain => simp
  | unsecured => simp
  | secured => simp

/-- A connection that was opened and secured is closed at the end. -/
theorem closes_of_opening (hopening : Opening d opening true) (haccesses : IsAccess accesses)
    (hclosing : Closing closing) :
    Closes (.event (.connect (connection d)) ::
      (opening ++ .call .bind bound :: (accesses ++ closing))) := by
  have haccessed : ¬ Asked .unbind accesses := haccesses.not_replied Bool.false_ne_true
  have hbefore : ¬ Asked .unbind (.event (.connect (connection d)) ::
      (opening ++ .call .bind bound :: accesses)) := by
    simp [hopening.not_asked_unbind, haccessed]
  cases hclosing with
  | silent reply => exact ⟨_, reply, [], by simp, hbefore, by simp⟩
  | noted reply e => exact ⟨_, reply, [.event (.unbindFailed e)], by simp, hbefore, by simp⟩

/-- A session that was opened with success was secured if it had to be. -/
theorem not_raised_startTls (hopening : Opening d opening true) (haccesses : IsAccess accesses)
    (hclosing : Closing closing) :
    ¬ Raised .startTls (.event (.connect (connection d)) ::
      (opening ++ .call .bind bound :: (accesses ++ closing))) := by
  have hopened : ¬ Raised .startTls opening := by
    cases hopening with
    | plain => simp
    | secured _ _ hsecured => simp [hsecured]
  have haccessed : ¬ Raised .startTls accesses := haccesses.not_replied Bool.false_ne_true
  cases hclosing with
  | silent reply => simp [hopened, haccessed]
  | noted reply e => simp [hopened, haccessed]

/-- Where closing was asked for, it was asked for once and at the end. -/
theorem Session.closes_of_asked (h : Session d t) (hasked : Asked .unbind t) : Closes t := by
  cases h with
  | unopened hopening =>
    exact absurd (replied_cons_event.mp hasked) hopening.not_asked_unbind
  | closed hopening haccesses _ hclosing => exact closes_of_opening hopening haccesses hclosing

/-- Where the connection was opened, it is closed unless it could not be secured. -/
theorem Session.closes_iff (h : Session d t) (hreturned : Returned .open t) :
    Closes t ↔ ¬ Raised .startTls t := by
  cases h with
  | unopened hopening =>
    have hunclosed : ¬ Closes (.event (.connect (connection d)) :: _) := fun hcloses =>
      hopening.not_asked_unbind (replied_cons_event.mp hcloses.asked)
    refine iff_of_false hunclosed ?_
    cases hopening with
    | failed hraised => simp [hraised] at hreturned
    | unsecured _ _ hsecured => simp [hsecured]
  | closed hopening haccesses _ hclosing =>
    exact iff_of_true (closes_of_opening hopening haccesses hclosing)
      (not_raised_startTls hopening haccesses hclosing)

end Closes

/-- The connection of an operation on an entry, with any server. If it could be opened, it is closed by one
last request, unless the server refused to secure it, which leaves it open. No other connection is asked to
close. -/
theorem closes_iff_secured (d : Directory) (own : Value) (action : Action)
    (server : Partner Notice Request Reply) :
    let t := ((Realm.perform d own action).run.against server []).2
    (Returned .open t → (Closes t ↔ ¬ Raised .startTls t)) ∧ (Asked .unbind t → Closes t) := by
  intro t
  obtain ⟨t', hcourse, ht⟩ := course_against server (Realm.perform d own action).run []
  rw [List.nil_append] at ht
  rw [show t = t' from ht]
  rcases hasSession_perform d own action t' _ hcourse with rfl | hsession
  · simp
  · exact ⟨hsession.closes_iff, hsession.closes_of_asked⟩

/-- A server that fails at one request and agrees to all others. -/
def failingAt (e : Fault) (fails : Request → Bool) : Partner Notice Request Reply := fun _ request =>
  if fails request then { Reply.agreed with raised := some e } else .agreed

/-- A failing search does not keep the connection from being closed. -/
theorem closes_iff_secured_search :
    let server := failingAt (.defect (.protocol "busy") "busy") Request.isAccess
    let t := ((Realm.perform plainDirectory (.text "dc=x") (.lookup (.text "a"))).run.against server []).2
    Returned .open t ∧ ¬ Raised .startTls t ∧ Asked .unbind t ∧ Closes t := by
  intro server t
  have ht : t = [.event (.connect (connection plainDirectory)), .call .open .agreed,
      .call .bind .agreed,
      .call (inquiry plainDirectory "cn=a,dc=x")
        { Reply.agreed with raised := some (.defect (.protocol "busy") "busy") },
      .call .unbind .agreed] := rfl
  have hopened : Returned .open t := by simp [ht, Reply.agreed]
  have hplain : ¬ Raised .startTls t := by simp [ht, inquiry]
  have hasked : Asked .unbind t := by simp [ht]
  obtain ⟨hcloses, -⟩ := closes_iff_secured plainDirectory (.text "dc=x") (.lookup (.text "a")) server
  exact ⟨hopened, hplain, hasked, (hcloses hopened).mpr hplain⟩

/-- A directory whose connections have to be secured. -/
def securedDirectory : Directory :=
  { plainDirectory with settings := { plainDirectory.settings with startTls := .bool true } }

/-- If the server refuses to secure a connection, it stays open when the operation is over. -/
theorem unsecured_stays_open :
    let server := failingAt (.defect (.protocol "LDAPStartTLSError") "startTLS failed") (· matches .startTls)
    let t := ((Realm.perform securedDirectory (.text "dc=x") (.lookup (.text "a"))).run.against server []).2
    Returned .open t ∧ ¬ Asked .unbind t ∧ ¬ Closes t := by
  intro server t
  have ht : t = [.event (.connect (connection securedDirectory)), .call .open .agreed,
      .call .startTls
        { Reply.agreed with raised := some (.defect (.protocol "LDAPStartTLSError") "startTLS failed") }] :=
    rfl
  have hunasked : ¬ Asked .unbind t := by simp [ht]
  refine ⟨by simp [ht, Reply.agreed], hunasked, ?_⟩
  intro hcloses
  exact hunasked hcloses.asked

end NamingDirectory.Ldap
