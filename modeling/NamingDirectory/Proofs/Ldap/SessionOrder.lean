import NamingDirectory.Proofs.Ldap.Confinement
import NamingDirectory.Proofs.Ldap.Connection

/-!
# The order of sessions

Whatever is done with the nodes of a directory, its server sees one session after the other, each on a
connection of its own and complete before the next begins (`inTurn_line`). In a session no entry is read or
written unless the connection is open, secured where that is set, and bound; nobody binds before it is
secured; and nothing comes after the request to close it (`Session.inOrder`).

How many connections there are is bounded by the requests to nodes, since each makes one at most. A bind asks
the root for the whole name, then each context above the leaf twice at most, and the last one for the leaf.

What a request needs is said of all that came before it (`Permitted`), so a session is permitted part by part,
each part behind those that were permitted already: the opening, the credentials, what is read and written,
and the end. That a whole line is made of sessions is then an induction on the dialogue, with one request to a
node as its step (`course_serve`). The bound on connections is an induction on the same dialogue, in which the
requests are counted (`ConnectsAtMost`).

The requests of one session, in the order in which they may come:

    open    start TLS, if it is set    bind    search, modify or add    unbind

If the first or the second fails, the session ends with it. Whatever comes of the others, it ends with the
last.
-/

namespace NamingDirectory

namespace Ldap

open Dialogue

/-! ### One session

The connections of a session and the order of its requests, from what `Session` says. A session is built from
its start, so each request is permitted by what stands before it, and what comes later cannot change that.
Only a request to close matters for what comes behind it, and it is the last one. -/

def isConnect : Exchange → Bool
  | .event (.connect _) => true
  | _ => false

/-- How many connections are made in a course. -/
def connections (t : List Exchange) : Nat := t.countP isConnect

/-- Whether a connection was opened in a course, and secured where that is set. -/
def IsOpened (d : Directory) (t : List Exchange) : Prop :=
  Returned .open t ∧ (¬ d.settings.startTls.isVoid → Returned .startTls t)

/-- What a request of a session needs to have come before it: no request at all comes after the one to
close, nobody binds before the connection is opened, and entries are for those who have bound. -/
structure Permitted (d : Directory) (before : List Exchange) (request : Request) : Prop where
  unclosed : ¬ Asked .unbind before
  credentials : request = .bind → IsOpened d before
  access : request.isAccess → IsOpened d before ∧ Replied .bind Reply.Agrees before

/-- Whether every request of a course has before it what it needs. -/
def IsPermitted (d : Directory) (t : List Exchange) : Prop :=
  ∀ before request reply after, t = before ++ .call request reply :: after → Permitted d before request

/-- A session as it has to be: it begins with its only connection, every request has before it what it
needs, and it ends by closing the connection, or else with a failure to open or to secure it. -/
structure InOrder (d : Directory) (t : List Exchange) : Prop where
  connects : ∃ calls, t = .event (.connect (connection d)) :: calls ∧ connections calls = 0
  permitted : IsPermitted d t
  ended : Asked .unbind t ∨ Raised .open t ∨ Raised .startTls t

section Sessions

variable {d : Directory} {t t' opening accesses closing : List Exchange} {request : Request}
  {reply bound : Reply} {notice : Notice}

@[simp] theorem connections_call : connections (.call request reply :: t) = connections t := rfl

@[simp] theorem connections_append : connections (t ++ t') = connections t + connections t' :=
  List.countP_append

theorem IsAccess.connections_eq (h : IsAccess t) : connections t = 0 := by
  rw [connections, List.countP_eq_zero]
  intro x hx
  obtain ⟨request, reply, rfl, -⟩ := h x hx
  exact Bool.false_ne_true

theorem Opening.connections_eq {secured : Bool} (h : Opening d opening secured) :
    connections opening = 0 := by
  cases h with
  | failed => rfl
  | plain => rfl
  | unsecured => rfl
  | secured => rfl

theorem Closing.connections_eq (h : Closing closing) : connections closing = 0 := by
  cases h with
  | silent => rfl
  | noted => rfl

/-- A connection that was opened has been opened, whatever comes next. -/
theorem IsOpened.append (h : IsOpened d t) (t' : List Exchange) : IsOpened d (t ++ t') :=
  ⟨replied_append.mpr (.inl h.1), fun hset => replied_append.mpr (.inl (h.2 hset))⟩

theorem isPermitted_nil : IsPermitted d [] := by
  intro before request reply after h
  simp at h

/-- What comes next is permitted if it is no request, or one that has before it what it needs. -/
theorem IsPermitted.concat (h : IsPermitted d t) {x : Exchange}
    (hx : ∀ request reply, x = .call request reply → Permitted d t request) :
    IsPermitted d (t ++ [x]) := by
  intro before request reply after heq
  rcases append_eq_append_call heq with ⟨after', rfl⟩ | ⟨before', rfl, hlast⟩
  · exact h before request reply after' rfl
  · rcases List.singleton_eq_append_iff.mp hlast with ⟨rfl, hlast⟩ | ⟨-, hnil⟩
    · rw [List.append_nil]
      exact hx request reply (List.cons_eq_cons.mp hlast).1
    · cases hnil

/-- Events need nothing to have come before them. -/
theorem IsPermitted.event (h : IsPermitted d t) (notice : Notice) :
    IsPermitted d (t ++ [.event notice]) :=
  h.concat nofun

theorem IsPermitted.call (h : IsPermitted d t) (hrequest : Permitted d t request) (reply : Reply) :
    IsPermitted d (t ++ [.call request reply]) := by
  apply h.concat
  intro request' reply' heq
  cases heq
  exact hrequest

/-- While nothing was closed, a request that gives no credentials and reaches no entry needs nothing. -/
theorem permitted_of_upkeep (request : Request) (hunclosed : ¬ Asked .unbind t)
    (hbind : request ≠ .bind) (haccess : ¬ request.isAccess) : Permitted d t request where
  unclosed := hunclosed
  credentials := fun h => absurd h hbind
  access := fun h => absurd h haccess

/-- On a connection where somebody has bound, entries may be read and written. -/
theorem IsPermitted.append_accesses (h : IsPermitted d t) (hunclosed : ¬ Asked .unbind t)
    (hopened : IsOpened d t) (hagrees : Replied .bind Reply.Agrees t) (haccesses : IsAccess accesses) :
    IsPermitted d (t ++ accesses) := by
  -- Along the accesses; what each one needs is still there for the next.
  induction accesses generalizing t with
  | nil => rwa [List.append_nil]
  | cons x accesses ih =>
    obtain ⟨⟨request, reply, rfl, hrequest⟩, hothers⟩ := List.forall_mem_cons.mp haccesses
    have hpermitted : Permitted d t request :=
      { unclosed := hunclosed
        credentials := fun _ => hopened
        access := fun _ => ⟨hopened, hagrees⟩ }
    have hunbind : Request.unbind ≠ request := by
      rintro rfl
      cases hrequest
    rw [List.append_cons]
    apply ih (h.call hpermitted reply) _ (hopened.append _) (replied_append.mpr (.inl hagrees)) hothers
    simp [hunclosed, hunbind]

/-- Opening and securing a connection needs nothing but that it was not closed. -/
theorem Opening.isPermitted {secured : Bool} (h : Opening d opening secured) (c : Connection) :
    IsPermitted d (.event (.connect c) :: opening) := by
  have hconnect : IsPermitted d [.event (.connect c)] := isPermitted_nil.event _
  have hopen : ∀ opened, IsPermitted d ([.event (.connect c)] ++ [.call .open opened]) := fun opened =>
    hconnect.call (permitted_of_upkeep .open (by simp) nofun Bool.false_ne_true) opened
  have hsecure : ∀ opened secured, IsPermitted d
      ([.event (.connect c)] ++ [.call .open opened] ++ [.call .startTls secured]) := fun opened secured =>
    (hopen opened).call (permitted_of_upkeep .startTls (by simp) nofun Bool.false_ne_true) secured
  cases h with
  | failed => exact hopen _
  | plain => exact hopen _
  | unsecured => exact hsecure _ _
  | secured => exact hsecure _ _

theorem Opening.isOpened (h : Opening d opening true) (c : Connection) :
    IsOpened d (.event (.connect c) :: opening) := by
  cases h with
  | plain hplain hopened => exact ⟨by simp [hopened], fun hset => absurd hplain hset⟩
  | secured _ hopened hsecured => exact ⟨by simp [hopened], fun _ => by simp [hsecured]⟩

theorem Closing.asked (h : Closing closing) : Asked .unbind closing := by
  cases h with
  | silent => simp
  | noted => simp

theorem IsPermitted.append_closing (h : IsPermitted d t) (hunclosed : ¬ Asked .unbind t)
    (hclosing : Closing closing) : IsPermitted d (t ++ closing) := by
  have hunbind : ∀ reply, IsPermitted d (t ++ [.call .unbind reply]) := fun reply =>
    h.call (permitted_of_upkeep .unbind hunclosed nofun Bool.false_ne_true) reply
  cases hclosing with
  | silent reply => exact hunbind reply
  | noted reply e =>
    rw [List.append_cons]
    exact (hunbind reply).event _

/-- After the connection is opened come the credentials, what is read and written, and the end. -/
theorem isPermitted_closed (hopening : Opening d opening true) (haccesses : IsAccess accesses)
    (hagrees : accesses = [] ∨ bound.Agrees) (hclosing : Closing closing) :
    IsPermitted d (.event (.connect (connection d)) :: opening ++ [.call .bind bound] ++ accesses ++
      closing) := by
  have hopened := hopening.isOpened (connection d)
  have hunclosed : ¬ Asked .unbind (.event (.connect (connection d)) :: opening) := by
    simp [hopening.not_asked_unbind]
  have hunclosed' : ¬ Asked .unbind
      (.event (.connect (connection d)) :: opening ++ [.call .bind bound]) := by
    simp [hopening.not_asked_unbind]
  have haccessed : ¬ Asked .unbind accesses := haccesses.not_replied Bool.false_ne_true
  have hbind : Permitted d (.event (.connect (connection d)) :: opening) .bind :=
    { unclosed := hunclosed
      credentials := fun _ => hopened
      access := nofun }
  have hbound := (hopening.isPermitted (connection d)).call hbind bound
  -- Closing comes last and is asked for in no part before, so nothing is asked after it.
  refine IsPermitted.append_closing ?_ ?_ hclosing
  · rcases hagrees with rfl | hagrees
    · -- Without the server's consent nothing is read or written.
      rwa [List.append_nil]
    · exact hbound.append_accesses hunclosed' (hopened.append _) (by simp [hagrees]) haccesses
  · exact fun h => (replied_append.mp h).elim hunclosed' haccessed

/-- A session is as it has to be. -/
theorem Session.inOrder (h : Session d t) : InOrder d t := by
  cases h with
  | unopened hopening =>
    refine ⟨⟨_, rfl, hopening.connections_eq⟩, hopening.isPermitted _, ?_⟩
    cases hopening with
    | failed hraised => exact .inr (.inl (by simp [hraised]))
    | unsecured _ _ hsecured => exact .inr (.inr (by simp [hsecured]))
  | closed hopening haccesses hagrees hclosing =>
    constructor
    case connects =>
      refine ⟨_, rfl, ?_⟩
      simp [hopening.connections_eq, haccesses.connections_eq, hclosing.connections_eq]
    case permitted =>
      have hpermitted := isPermitted_closed hopening haccesses hagrees hclosing
      simpa using hpermitted
    case ended => exact .inl (by simp [hclosing.asked])

theorem InOrder.connections_eq (h : InOrder d t) : connections t = 1 := by
  obtain ⟨calls, rfl, hcalls⟩ := h.connects
  show (_ :: calls).countP isConnect = 1
  rw [List.countP_cons_of_pos rfl]
  exact congrArg (· + 1) hcalls

end Sessions

/-! ### One session after the other

Courses that are cut into sessions. Between the requests to nodes a line has no exchanges at all: memory
contexts and scripted nodes ask nothing of a server, and a request that cannot be worked out makes no session. -/

/-- Whether a course is made of sessions in order, each with one of the given directories. -/
def InTurn (directories : List Directory) (t : List Exchange) : Prop :=
  ∃ sessions : List (Directory × List Exchange),
    t = (sessions.map Prod.snd).flatten ∧ ∀ x ∈ sessions, x.1 ∈ directories ∧ InOrder x.1 x.2

section InTurn

variable {directories : List Directory} {d : Directory} {t t' : List Exchange}

theorem inTurn_nil : InTurn directories [] := ⟨[], rfl, nofun⟩

theorem inTurn_session (hd : d ∈ directories) (h : InOrder d t) : InTurn directories t := by
  refine ⟨[(d, t)], by simp, ?_⟩
  intro x hx
  cases List.mem_singleton.mp hx
  exact ⟨hd, h⟩

theorem InTurn.append (h : InTurn directories t) (h' : InTurn directories t') :
    InTurn directories (t ++ t') := by
  obtain ⟨sessions, rfl, hsessions⟩ := h
  obtain ⟨sessions', rfl, hsessions'⟩ := h'
  refine ⟨sessions ++ sessions', by simp, ?_⟩
  exact List.forall_mem_append.mpr ⟨hsessions, hsessions'⟩

end InTurn

end Ldap

namespace Realm

open Dialogue Ldap

section Lines

variable {α β : Type} {r : Realm} {t : List Exchange}

theorem directories_receive (k : Nat) (r : Realm) (result : Except Fault Found) :
    (r.receive k result).2.directories = r.directories := by
  rcases result with e | dn | v
  · rfl
  · rfl
  · rfl

theorem directories_withHeap (r : Realm) (result : Except Fault Memory.Heap) (v : Value) :
    (r.withHeap result v).2.directories = r.directories := by
  cases result with
  | ok heap => rfl
  | error e => rfl

theorem directories_askContext (id : Nat) (action : Action) (r : Realm) :
    (r.askContext id action).2.directories = r.directories := by
  cases action with
  | lookup name => rfl
  | rebind name value => exact directories_withHeap r _ _
  | createContext name => exact directories_withHeap r _ _
  | readName text => rfl

/-- A request to a node makes one session at most, and adds no directory. -/
theorem course_serve {request : Request} {out : Answer × Realm} (h : Course (serve request r) t out) :
    (t = [] ∨ ∃ d ∈ r.directories, InOrder d t) ∧ out.2.directories = r.directories := by
  obtain ⟨node, action⟩ := request
  cases node with
  | entry k serial own =>
    simp only [serve] at h
    split at h
    · next d hd =>
      obtain ⟨t₁, result, t₂, hperform, hdone, rfl⟩ := Dialogue.course_bind_iff.mp h
      obtain ⟨rfl, rfl⟩ := course_done_iff.mp hdone
      refine ⟨?_, directories_receive k r result⟩
      rw [List.append_nil]
      rcases hasSession_perform d own action t₁ result hperform with hnil | hsession
      · exact .inl hnil
      · exact .inr ⟨d, List.mem_of_getElem? hd, hsession.inOrder⟩
    · next hd =>
      obtain ⟨rfl, rfl⟩ := course_done_iff.mp h
      refine ⟨.inl rfl, ?_⟩
      simp only [answer, hd]
  | context id =>
    obtain ⟨rfl, rfl⟩ := course_done_iff.mp h
    exact ⟨.inl rfl, directories_askContext id action r⟩
  | _ =>
    obtain ⟨rfl, rfl⟩ := course_done_iff.mp h
    exact ⟨.inl rfl, rfl⟩

/-- The line of a dialogue is made of sessions in order. -/
theorem inTurn_line {talk : Client.Talk α} {out : α × Realm} (h : Course (r.line talk) t out) :
    InTurn r.directories t := by
  -- Along the dialogue; the directories stay the same.
  induction talk generalizing r t with
  | done a =>
    obtain ⟨rfl, -⟩ := course_done_iff.mp h
    exact inTurn_nil
  | note e next ih => exact ih (r := hear Event.logger e r) h
  | ask request next ih =>
    obtain ⟨t₁, ⟨a, r'⟩, t₂, hserve, hnext, rfl⟩ := Dialogue.course_bind_iff.mp h
    obtain ⟨hsession, hsame⟩ := course_serve hserve
    have hrest := ih a (r := r') hnext
    rw [show r'.directories = r.directories from hsame] at hrest
    rcases hsession with rfl | ⟨d, hd, hsession⟩
    · exact hrest
    · exact (inTurn_session hd hsession).append hrest

end Lines

end Realm

/-! ### How many connections

By the requests that a dialogue makes to nodes, whatever the realm makes of each of them. The client's
dialogues add up: two for one level of a walk, one for the leaf and one for the whole name. -/

namespace Client

open Dialogue Ldap

/-- A dialogue that makes at most `m` connections, in any realm and whatever the server replies. -/
def ConnectsAtMost {α : Type} (m : Nat) (talk : Talk α) : Prop :=
  ∀ (r : Realm) t out, Course (r.line talk) t out → connections t ≤ m

section Count

variable {α β : Type} {m m' : Nat} {talk : Talk α} {next : Answer → Talk α} {request : Request}

theorem connectsAtMost_done (m : Nat) (a : α) : ConnectsAtMost m (.done a : Talk α) := by
  intro r t out h
  obtain ⟨rfl, -⟩ := course_done_iff.mp h
  exact Nat.zero_le m

theorem ConnectsAtMost.note (h : ConnectsAtMost m talk) (e : Event) :
    ConnectsAtMost m (.note e talk) :=
  fun r => h (Realm.hear Event.logger e r)

/-- A request to a node makes one connection at most. -/
theorem ConnectsAtMost.ask (h : ∀ a, ConnectsAtMost m (next a)) :
    ConnectsAtMost (m + 1) (.ask request next) := by
  intro r t out hcourse
  obtain ⟨t₁, ⟨a, r'⟩, t₂, hserve, hnext, rfl⟩ := Dialogue.course_bind_iff.mp hcourse
  have hrest : connections t₂ ≤ m := h a r' t₂ out hnext
  have hone : connections t₁ ≤ 1 := by
    rcases (Realm.course_serve hserve).1 with rfl | ⟨d, -, hsession⟩
    · exact Nat.zero_le 1
    · exact Nat.le_of_eq hsession.connections_eq
  rw [connections_append]
  omega

/-- Dialogues one after the other: their connections add up. -/
theorem ConnectsAtMost.bind {next : α → Talk β} (h : ConnectsAtMost m talk)
    (hnext : ∀ a, ConnectsAtMost m' (next a)) : ConnectsAtMost (m + m') (talk.bind next) := by
  intro r t out hcourse
  rw [Realm.line_bind] at hcourse
  obtain ⟨t₁, ⟨a, r'⟩, t₂, htalk, hrest, rfl⟩ := Dialogue.course_bind_iff.mp hcourse
  have hfirst : connections t₁ ≤ m := h r t₁ _ htalk
  have hsecond : connections t₂ ≤ m' := hnext a r' t₂ out hrest
  rw [connections_append]
  omega

theorem connectsAtMost_descend (name node : Value) (s : Segment) :
    ConnectsAtMost 2 (descend name node s) := by
  apply ConnectsAtMost.note
  apply ConnectsAtMost.ask
  intro a
  cases a with
  | ok found =>
    dsimp only
    split
    · exact (connectsAtMost_done 1 _).note _
    · exact connectsAtMost_done 1 _
  | error e =>
    dsimp only
    split
    · apply ConnectsAtMost.note
      apply ConnectsAtMost.ask
      intro a
      cases a with
      | ok child => exact connectsAtMost_done 0 _
      | error e => exact connectsAtMost_done 0 _
    · exact connectsAtMost_done 1 _

theorem connectsAtMost_bindLeaf (name value node leaf : Value) :
    ConnectsAtMost 1 (bindLeaf name value node leaf) := by
  apply ConnectsAtMost.note
  apply ConnectsAtMost.ask
  intro a
  cases a with
  | ok _ => exact connectsAtMost_done 0 _
  | error e => exact connectsAtMost_done 0 _

/-- A walk makes two connections for each segment above the leaf, and one for the leaf. -/
theorem connectsAtMost_walk (name value node : Value) (s : Segment) (rest : List Segment) :
    ConnectsAtMost (2 * rest.length + 1) (walk name value node s rest) := by
  induction rest generalizing node s with
  | nil => exact connectsAtMost_bindLeaf name value node _
  | cons t rest ih =>
    have hlength : 2 * (t :: rest).length + 1 = 2 + (2 * rest.length + 1) := by
      rw [List.length_cons]
      omega
    rw [hlength, walk]
    apply (connectsAtMost_descend name node s).bind
    intro answer
    cases answer with
    | ok child => exact ih child t
    | error e => exact connectsAtMost_done _ _

theorem connectsAtMost_conclude (name : Value) (result : Except Fault Unit) :
    ConnectsAtMost 0 (conclude name result) := by
  cases result with
  | ok _ => exact (connectsAtMost_done 0 _).note _
  | error e => exact connectsAtMost_done 0 _

end Count

end Client

namespace Ldap

open Dialogue

section Bind

variable {r : Realm} {k serial : Nat} {d : Directory} {own name value : Value} {n : Name}
  {t : List Exchange} {out : Except Fault Unit × Realm}

/-- To have the name read takes no connection. -/
theorem connections_walkFrom (hd : r.directories[k]? = some d) (hn : d.grammar.resolve name = .ok n)
    (h : Course (r.line (Client.walkFrom name value (.entry k serial own))) t out) :
    connections t ≤ 2 * n.rest.length + 1 := by
  rw [Client.walkFrom, Realm.line_ask_entry hd] at h
  obtain ⟨t₁, result, t₂, hread, hrest, rfl⟩ := Dialogue.course_bind_iff.mp h
  obtain ⟨rfl, rfl⟩ := course_lift_iff.mp hread
  cases hparse : d.grammar.parse name with
  | error e =>
    rw [hparse] at hrest
    obtain ⟨rfl, -⟩ := course_done_iff.mp hrest
    exact Nat.zero_le _
  | ok n' =>
    cases hn.symm.trans (Name.Grammar.resolve_of_parse hparse)
    rw [hparse] at hrest
    exact Client.connectsAtMost_walk name value (.entry k serial own) n.first n.rest r t₂ out hrest

/-- A bind: one connection for the whole name, and then those of the walk. -/
theorem connections_bind (hd : r.directories[k]? = some d) (hn : d.grammar.resolve name = .ok n)
    (h : Course (r.line (Client.bind name value (.entry k serial own))) t out) :
    connections t ≤ 2 * n.length := by
  have hlength : n.length = n.rest.length + 1 := rfl
  rw [Client.bind, Realm.line_note, Realm.line_ask_entry (by exact hd)] at h
  obtain ⟨t₁, result, t₂, hrebind, hrest, rfl⟩ := Dialogue.course_bind_iff.mp h
  have hdirect : connections t₁ ≤ 1 := by
    rcases hasSession_perform d own (.rebind name value) t₁ result hrebind with rfl | hsession
    · exact Nat.zero_le 1
    · exact Nat.le_of_eq hsession.inOrder.connections_eq
  -- A recovery, or none; the report at the end makes no connection in either case.
  have hwalk : connections t₂ ≤ 2 * n.rest.length + 1 := by
    rcases result with e | dn | v
    · simp only [Realm.receive] at hrest
      split at hrest
      · exact Client.connectsAtMost_done _ _ _ t₂ out hrest
      · rw [Realm.line_bind] at hrest
        obtain ⟨t₃, ⟨result, r'⟩, t₄, hwalk, hend, rfl⟩ := Dialogue.course_bind_iff.mp hrest
        have hconclude : connections t₄ ≤ 0 :=
          Client.connectsAtMost_conclude name result r' t₄ out hend
        have hfirst : connections t₃ ≤ 2 * n.rest.length + 1 :=
          connections_walkFrom (by exact hd) hn hwalk
        rw [connections_append]
        omega
    · exact Nat.le_trans (Client.connectsAtMost_conclude name _ _ t₂ out hrest) (Nat.zero_le _)
    · exact Nat.le_trans (Client.connectsAtMost_conclude name _ _ t₂ out hrest) (Nat.zero_le _)
  rw [connections_append]
  omega

end Bind

/-- The sessions of a realm, with any server. Whatever operations, binds and lookups are carried out one
after the other, each chosen in the light of what came before, the server sees one session after the other,
each with a directory of the realm, complete, and in order. An operation makes one connection at most, and a
bind twice as many as its name has segments. -/
theorem sessions_in_order (r : Realm) (server : Partner Notice Request Reply) :
    (∀ (α : Type) (talk : Client.Talk α), InTurn r.directories ((r.line talk).against server []).2) ∧
      (∀ request : NamingDirectory.Request,
        connections ((r.line (.ask request .done)).against server []).2 ≤ 1) ∧
      ∀ k serial d own name value n, r.directories[k]? = some d → d.grammar.resolve name = .ok n →
        connections ((r.line (Client.bind name value (.entry k serial own))).against server []).2 ≤
          2 * n.length := by
  have hcourse : ∀ {α : Type} (talk : Client.Talk α),
      ∃ out, Course (r.line talk) ((r.line talk).against server []).2 out := by
    intro α talk
    obtain ⟨t, hcourse, ht⟩ := course_against server (r.line talk) []
    rw [List.nil_append] at ht
    rw [ht]
    exact ⟨_, hcourse⟩
  refine ⟨?sessions, ?single, ?bind⟩
  case sessions =>
    intro α talk
    obtain ⟨out, h⟩ := hcourse talk
    exact Realm.inTurn_line h
  case single =>
    intro request
    obtain ⟨out, h⟩ := hcourse (.ask request .done)
    have hask : Client.ConnectsAtMost 1 (.ask request (.done : Answer → Client.Talk Answer)) :=
      Client.ConnectsAtMost.ask fun a => Client.connectsAtMost_done 0 a
    exact hask r _ out h
  case bind =>
    intro k serial d own name value n hd hn
    obtain ⟨out, h⟩ := hcourse (Client.bind name value (.entry k serial own))
    exact connections_bind hd hn h

/-- A bind of two segments below an entry with nothing in it makes all four connections. -/
theorem sessions_in_order_barren :
    let r : Realm := { Realm.empty with directories := [securedDirectory] }
    let talk := Client.bind (.text "a/b") (.int 1) (.entry 0 0 (.text "dc=x"))
    let n : Name := ⟨⟨"a", by decide⟩, [⟨"b", by decide⟩]⟩
    r.directories[0]? = some securedDirectory ∧ securedDirectory.grammar.resolve (.text "a/b") = .ok n ∧
      InTurn [securedDirectory] ((r.line talk).against barren []).2 ∧
      connections ((r.line talk).against barren []).2 = 4 ∧
      connections ((r.line talk).against barren []).2 ≤ 2 * n.length := by
  intro r talk n
  obtain ⟨hturn, -, hbind⟩ := sessions_in_order r barren
  have hn : securedDirectory.grammar.resolve (.text "a/b") = .ok n := by rfl
  have hcount := hbind 0 0 securedDirectory (.text "dc=x") (.text "a/b") (.int 1) n rfl hn
  exact ⟨rfl, hn, hturn _ talk, rfl, hcount⟩

end Ldap
end NamingDirectory
