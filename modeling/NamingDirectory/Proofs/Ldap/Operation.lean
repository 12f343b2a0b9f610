import NamingDirectory.Proofs.Fault
import NamingDirectory.Proofs.Json.Reading
import NamingDirectory.Proofs.Ldap.Exchange

/-!
# Operations on entries

Every operation on an entry works something out, holds one session, and works its result out of what the
session brought: `lookup_eq`, `rebind_eq` and `createContext_eq` say so. What is done in a session has a name
of its own, and so has what is made of it.

With that the exchanges of each operation are told by the requests that read or write an entry. A lookup asks
for one entry, and says that nothing is there only if the server said so (`course_lookup`). A rebind replaces
a value, and adds an entry only right after the server said that there is none (`course_rebind`). A creation
adds one entry (`course_createContext`).

`Sought`, `Written` and `Created` say this of the courses of an operation, and say no more of the rest of a
course than that it is upkeep. They hold with any server, as long as no call raises a refusal; what comes
after builds on them and does not look into a session again.
-/

namespace NamingDirectory.Ldap

open Dialogue

/-! ### Three parts

The equations are no more than the operations written another way. The parts that they have in common, a name
that is taken apart first and a session in the middle, are then gone through once. -/

/-- Asks the server, whose reply has to tell how it came out. -/
def consult (request : Request) : Op (Reply × Outcome) :=
  call request >>= fun reply => lift reply.outcome >>= fun outcome => pure (reply, outcome)

/-- The request for the entry at a distinguished name. -/
def inquiry (d : Directory) (dn : String) : Request :=
  .search dn [objectClass, d.settings.valueAttribute]

/-- What a lookup makes of the server's reply. -/
def foundIn (d : Directory) (dn : String) (n : Name) (answer : Reply × Outcome) : Except Fault Found :=
  if answer.1.ok then
    match answer.1.entries with
    | [] => .error (noEntry dn n)
    | attributes :: _ => interpret d dn n attributes
  else .error (if answer.2.isNoSuchObject then noEntry dn n else requestFailed "search" answer.2 n)

/-- A lookup works the name and the distinguished name out, asks one question in a session, and makes its
result of the answer. Nothing fails between the session and the end but what the answer gives cause for. -/
theorem lookup_eq (d : Directory) (own name : Value) :
    lookup d own name =
      lift (d.grammar.resolve name) >>= fun n =>
      lift (entryDn d own n) >>= fun dn =>
      session d (consult (inquiry d dn)) >>= fun answer =>
      lift (foundIn d dn n answer) := by
  rw [lookup]
  refine congrArg _ (funext fun n => congrArg _ (funext fun dn => congrArg _ (funext fun answer => ?_)))
  obtain ⟨reply, outcome⟩ := answer
  dsimp only [foundIn]
  cases reply.ok with
  | true =>
    cases reply.entries with
    | nil => rfl
    | cons attributes rest => rfl
  | false => rfl

/-- Replaces the value of the entry at a distinguished name, or adds an entry there. What comes back is
the server's refusal to add it, if it refused. -/
def store (d : Directory) (dn : String) (n : Name) (text : String) : Op (Option Outcome) :=
  lift d.settings.valueAttribute.asKey >>= fun key =>
  call (.modify dn key text) >>= fun modified =>
  if modified.ok then pure none
  else
    lift modified.outcome >>= fun outcome =>
    if outcome.isNoSuchObject then
      lift (leafAttributes d n text) >>= fun attributes =>
      call (.add dn attributes) >>= fun added =>
      if added.ok then pure none else lift added.outcome >>= fun outcome => pure (some outcome)
    else lift (.error (requestFailed "modify" outcome n))

/-- What a rebind makes of a refusal. -/
def storedAfter (dn : String) (n : Name) : Option Outcome → Except Fault Unit
  | none => .ok ()
  | some outcome =>
    .error (if outcome.isNoSuchObject then noParent dn n else requestFailed "add" outcome n)

/-- A rebind works the text out before the session, and stores it there. So a value without a form never opens
a connection. -/
theorem rebind_eq (d : Directory) (own name value : Value) :
    rebind d own name value =
      lift (d.grammar.resolve name) >>= fun n =>
      lift (entryDn d own n) >>= fun dn =>
      lift (encode value n) >>= fun text =>
      session d (store d dn n text) >>= fun refused? =>
      lift (storedAfter dn n refused?) := by
  rw [rebind]
  refine congrArg _ (funext fun n => congrArg _ (funext fun dn => congrArg _ (funext fun text => ?_)))
  congr 1
  · refine congrArg _ ?_
    refine congrArg _ (funext fun key => congrArg _ (funext fun modified => ?_))
    cases modified.ok with
    | true => rfl
    | false =>
      rw [if_neg Bool.false_ne_true, if_neg Bool.false_ne_true]
      refine congrArg _ (funext fun outcome => ?_)
      cases outcome.isNoSuchObject with
      | true => rfl
      | false => rfl
  · funext refused?
    cases refused? with
    | none => rfl
    | some outcome => rfl

/-- What a creation makes of the server's reply. -/
def createdAfter (dn : String) (n : Name) (answer : Reply × Outcome) : Except Fault String :=
  if answer.1.ok then .ok dn
  else .error (
    if answer.2.isEntryAlreadyExists then
      .refuse .alreadyBound ("Entry already exists: " ++ dn) (.text n.shown)
    else if answer.2.isNoSuchObject then noParent dn n
    else requestFailed "add" answer.2 n)

/-- A creation works the attributes out before the session, and adds an entry there. What can be wrong with
the attributes is therefore not turned into a refusal, as it would be in a session. -/
theorem createContext_eq (d : Directory) (own name : Value) :
    createContext d own name =
      lift (d.grammar.resolve name) >>= fun n =>
      lift (entryDn d own n) >>= fun dn =>
      lift (contextAttributes d n) >>= fun attributes =>
      session d (consult (.add dn attributes)) >>= fun answer =>
      lift (createdAfter dn n answer) := by
  rw [createContext]
  refine congrArg _ (funext fun n => congrArg _ (funext fun dn => congrArg _ (funext fun attributes =>
    congrArg _ (funext fun answer => ?_))))
  obtain ⟨reply, outcome⟩ := answer
  dsimp only [createdAfter]
  cases reply.ok with
  | true => rfl
  | false =>
    cases outcome.isEntryAlreadyExists with
    | true => rfl
    | false =>
      cases outcome.isNoSuchObject with
      | true => rfl
      | false => rfl

/-! ### What a reply says

The three things that a reply can say of an entry, told by its fields. What an operation asks for by a single
request is told here once: there is upkeep around the request, or the session failed without asking it. -/

/-- The server says that there is no such entry. -/
def Reply.Denies (reply : Reply) : Prop :=
  reply.raised = none ∧ reply.ok = false ∧ ∃ outcome, reply.outcome = .ok outcome ∧ outcome.isNoSuchObject

/-- The server finds no entry: there is none, or the search brought none. -/
def Reply.FindsNothing (reply : Reply) : Prop :=
  reply.Denies ∨ reply.raised = none ∧ reply.ok = true ∧ reply.entries = []

/-- The server has carried out what it was asked for. -/
def Reply.Agrees (reply : Reply) : Prop := reply.raised = none ∧ reply.ok = true

section Consult

variable {request : Request} {t : List Exchange} {a : Except Fault (Reply × Outcome)}

/-- Asking for an outcome is one exchange, and brings the reply with what it says. -/
theorem course_consult (h : Course (consult request).run t a) (ht : Unrefused t) :
    ∃ reply, t = [.call request reply] ∧ Spares a ∧
      ∀ answer, a = .ok answer →
        answer.1 = reply ∧ reply.raised = none ∧ reply.outcome = .ok answer.2 := by
  rcases course_bind_iff.mp h with ⟨e, hcall, rfl⟩ | ⟨t₁, reply, t₂, hcall, hrest, rfl⟩
  · obtain ⟨reply, rfl, ⟨e', hraised, he⟩ | ⟨-, he⟩⟩ := course_call_iff.mp hcall
    · cases he
      refine ⟨reply, rfl, spares_error_iff.mpr ?_, nofun⟩
      exact not_isNotFound_of_not_isRefusal (ht request reply e List.mem_cons_self hraised)
    · cases he
  · obtain ⟨reply', rfl, ⟨e', -, he⟩ | ⟨hraised, he⟩⟩ := course_call_iff.mp hcall
    · cases he
    · cases he
      rcases course_lift_bind_iff.mp hrest with ⟨e, houtcome, rfl, rfl⟩ | ⟨outcome, houtcome, hend⟩
      · exact ⟨reply, rfl, spares_error_iff.mpr (spares_outcome reply e houtcome), nofun⟩
      · obtain ⟨rfl, rfl⟩ := course_done_iff.mp hend
        refine ⟨reply, rfl, spares_ok _, ?_⟩
        rintro answer ⟨⟩
        exact ⟨rfl, hraised, houtcome⟩

/-- A session that asks for one outcome: either there is upkeep around the one call, or upkeep is all there
was and the session failed. -/
theorem course_session_consult {d : Directory} (h : Course (session d (consult request)).run t a)
    (ht : Unrefused t) :
    Spares a ∧ ((IsUpkeep t ∧ ∃ e, a = .error e) ∨
      ∃ t₁ reply t₂, t = t₁ ++ .call request reply :: t₂ ∧ IsUpkeep t₁ ∧ IsUpkeep t₂ ∧
        ∀ answer, a = .ok answer →
          answer.1 = reply ∧ reply.raised = none ∧ reply.outcome = .ok answer.2) := by
  cases course_session h ht with
  | unopened hupkeep he => exact ⟨spares_error_iff.mpr he, .inl ⟨hupkeep, _, rfl⟩⟩
  | @held t₁ t₂ t₃ result h₁ hbody h₃ =>
    obtain ⟨reply, rfl, hspares, hanswer⟩ :=
      course_consult hbody (unrefused_append_iff.mp (unrefused_append_iff.mp ht).1).2
    refine ⟨spares_mapError_asRefusal hspares, .inr ⟨t₁, reply, t₃, by simp, h₁, h₃, ?_⟩⟩
    intro answer ha
    cases result with
    | error e => cases ha
    | ok answer' =>
      cases ha
      exact hanswer answer rfl
  | @unclosed t₁ t₂ t₃ result e h₁ hbody h₃ he =>
    obtain ⟨reply, rfl, -, -⟩ :=
      course_consult hbody (unrefused_append_iff.mp (unrefused_append_iff.mp ht).1).2
    exact ⟨spares_error_iff.mpr he, .inr ⟨t₁, reply, t₃, by simp, h₁, h₃, nofun⟩⟩

end Consult

/-! ### Lookups

A lookup that finds nothing has been told so, and one that finds something was told what. -/

/-- What a lookup at a distinguished name may end in after the server's reply. -/
structure Tells (dn : String) (reply : Reply) (result : Except Fault Found) : Prop where
  nothing : reply.FindsNothing ∨ Spares result
  something : ∀ found, result = .ok found →
    reply.Agrees ∧ (found = .entry dn ∨ ∃ v, found = .value v ∧ ¬ v.isNode)

/-- The exchanges of a lookup, and what it ends in. -/
inductive Sought (d : Directory) (own : Value) (n : Name) : List Exchange → Except Fault Found → Prop
  | unasked {t : List Exchange} {e : Fault} : IsUpkeep t → ¬ e.isNotFound → Sought d own n t (.error e)
  | asked {t₁ t₂ : List Exchange} {dn : String} {reply : Reply} {result : Except Fault Found} :
      entryDn d own n = .ok dn → IsUpkeep t₁ → IsUpkeep t₂ → Tells dn reply result →
      Sought d own n (t₁ ++ .call (inquiry d dn) reply :: t₂) result

section Lookup

variable {d : Directory} {own : Value} {n : Name} {dn : String} {t : List Exchange}
  {result : Except Fault Found} {attributes : Attributes} {found : Found}

theorem spares_entryDn (d : Directory) (own : Value) (n : Name) : Spares (entryDn d own n) := by
  unfold entryDn
  split
  · exact spares_ok _
  · split
    · exact spares_ok _
    · exact spares_error_iff.mpr Bool.false_ne_true

/-- The text of an entry is read as plain data. -/
theorem not_isNode_storedValue {v : Value} (h : storedValue d dn n attributes = .ok v) : ¬ v.isNode := by
  obtain ⟨key, -, h⟩ := bind_eq_ok_iff.mp h
  dsimp only at h
  split at h
  · cases h
    exact Bool.false_ne_true
  · obtain ⟨first, -, h⟩ := bind_eq_ok_iff.mp h
    split at h
    · next hread =>
      cases h
      exact Json.not_isNode_of_read hread
    · cases h

/-- What an entry is taken for is the entry itself or plain data. -/
theorem interpret_ok (h : interpret d dn n attributes = .ok found) :
    found = .entry dn ∨ ∃ v, found = .value v ∧ ¬ v.isNode := by
  obtain ⟨marked, -, h⟩ := bind_eq_ok_iff.mp h
  split at h
  · cases h
    exact .inl rfl
  · obtain ⟨v, hv, h⟩ := bind_eq_ok_iff.mp h
    cases h
    exact .inr ⟨v, rfl, not_isNode_storedValue hv⟩

/-- What is made of a reply is what the reply tells. -/
theorem tells_foundIn {reply : Reply} {outcome : Outcome} (hraised : reply.raised = none)
    (houtcome : reply.outcome = .ok outcome) : Tells dn reply (foundIn d dn n (reply, outcome)) := by
  rw [foundIn]
  split
  · next hok =>
    split
    · next hentries => exact ⟨.inl (.inr ⟨hraised, hok, hentries⟩), nofun⟩
    · exact ⟨.inr (spares_interpret d dn n _), fun found hfound => ⟨⟨hraised, hok⟩, interpret_ok hfound⟩⟩
  · next hok =>
    refine ⟨?_, nofun⟩
    cases hnone : outcome.isNoSuchObject with
    | true => exact .inl (.inl ⟨hraised, by simpa using hok, outcome, houtcome, hnone⟩)
    | false => exact .inr (spares_error_iff.mpr Bool.false_ne_true)

theorem course_lookup (h : Course (lookup d own (.name n)).run t result) (ht : Unrefused t) :
    Sought d own n t result := by
  rw [lookup_eq] at h
  rcases course_lift_bind_iff.mp h with ⟨e, he, -, -⟩ | ⟨n', hn, h⟩
  · cases he
  cases hn
  rcases course_lift_bind_iff.mp h with ⟨e, he, rfl, rfl⟩ | ⟨dn, hdn, h⟩
  · exact .unasked isUpkeep_nil (spares_entryDn d own n e he)
  rcases course_bind_iff.mp h with ⟨e, hsession, rfl⟩ | ⟨t₁, answer, t₂, hsession, hend, rfl⟩
  · obtain ⟨hspares, ⟨hupkeep, -⟩ | ⟨t₁, reply, t₂, rfl, h₁, h₂, -⟩⟩ := course_session_consult hsession ht
    · exact .unasked hupkeep (spares_error_iff.mp hspares)
    · exact .asked hdn h₁ h₂ ⟨.inr (spares_error_iff.mpr (spares_error_iff.mp hspares)), nofun⟩
  · obtain ⟨rfl, rfl⟩ := course_lift_iff.mp hend
    rw [List.append_nil] at ht ⊢
    obtain ⟨-, ⟨-, e, he⟩ | ⟨t₁, reply, t₂, rfl, h₁, h₂, hanswer⟩⟩ := course_session_consult hsession ht
    · cases he
    · obtain ⟨rfl, hraised, houtcome⟩ := hanswer answer rfl
      exact .asked hdn h₁ h₂ (tells_foundIn hraised houtcome)

end Lookup

/-! ### Rebinds

What is written is the text of the value, to the entry at the name, by one request or by two. The second one
depends on the reply to the first in the same session, so nothing can be asked between them. -/

/-- The exchanges of a rebind. -/
inductive Written (d : Directory) (own name value : Value) : List Exchange → Prop
  | unasked {t : List Exchange} : IsUpkeep t → Written d own name value t
  | replaced {n : Name} {dn text : String} {t₁ t₂ : List Exchange} {reply : Reply} :
      d.grammar.resolve name = .ok n → entryDn d own n = .ok dn → Json.text value = .ok text →
      IsUpkeep t₁ → IsUpkeep t₂ →
      Written d own name value (t₁ ++ .call (.modify dn d.settings.valueAttribute text) reply :: t₂)
  | added {n : Name} {dn text : String} {t₁ t₂ : List Exchange} {reply reply' : Reply}
      {attributes : Attributes} :
      d.grammar.resolve name = .ok n → entryDn d own n = .ok dn → Json.text value = .ok text →
      IsUpkeep t₁ → IsUpkeep t₂ → reply.Denies → leafAttributes d n text = .ok attributes →
      Written d own name value (t₁ ++ .call (.modify dn d.settings.valueAttribute text) reply ::
        .call (.add dn attributes) reply' :: t₂)

section Rebind

variable {d : Directory} {own name value : Value} {n : Name} {dn text : String} {t : List Exchange}

/-- What a rebind asks of an open connection. -/
inductive Stored (d : Directory) (dn : String) (n : Name) (text : String) : List Exchange → Prop
  | unasked : Stored d dn n text []
  | replaced {reply : Reply} :
      Stored d dn n text [.call (.modify dn d.settings.valueAttribute text) reply]
  | added {reply reply' : Reply} {attributes : Attributes} : reply.Denies →
      leafAttributes d n text = .ok attributes →
      Stored d dn n text [.call (.modify dn d.settings.valueAttribute text) reply,
        .call (.add dn attributes) reply']

theorem asKey_ok {v key : Value} (h : v.asKey = .ok key) : key = v := by
  unfold Value.asKey at h
  split at h
  · cases h; rfl
  · cases h

/-- What is asked of an open connection. The addition comes right after the reply that there is no entry. -/
theorem course_store {a : Except Fault (Option Outcome)} (h : Course (store d dn n text).run t a) :
    Stored d dn n text t := by
  -- The key of the attributes, the modification, and what its reply says: nothing, or to add the entry.
  rcases course_lift_bind_iff.mp h with ⟨e, -, rfl, -⟩ | ⟨key, hkey, hmodify⟩
  · exact .unasked
  cases asKey_ok hkey
  rcases course_bind_iff.mp hmodify with ⟨e, hcall, rfl⟩ | ⟨t₁, modified, t₂, hcall, hrest, rfl⟩
  · obtain ⟨reply, rfl, -⟩ := course_call_iff.mp hcall
    exact .replaced
  obtain ⟨reply, rfl, ⟨e, -, he⟩ | ⟨hraised, he⟩⟩ := course_call_iff.mp hcall
  · cases he
  cases he
  split at hrest
  · obtain ⟨rfl, rfl⟩ := course_done_iff.mp hrest
    exact .replaced
  next hok =>
  rcases course_lift_bind_iff.mp hrest with ⟨e, -, rfl, -⟩ | ⟨outcome, houtcome, hrest⟩
  · exact .replaced
  split at hrest
  · next hnone =>
    -- Only the reply that there is no such entry leads on to the addition.
    have hdenied : modified.Denies := ⟨hraised, by simpa using hok, outcome, houtcome, hnone⟩
    rcases course_lift_bind_iff.mp hrest with ⟨e, -, rfl, -⟩ | ⟨attributes, hattributes, hadd⟩
    · exact .replaced
    rcases course_bind_iff.mp hadd with ⟨e, hcall, rfl⟩ | ⟨t₁, added, t₃, hcall, hend, rfl⟩
    · obtain ⟨reply', rfl, -⟩ := course_call_iff.mp hcall
      exact .added hdenied hattributes
    · obtain ⟨reply', rfl, -⟩ := course_call_iff.mp hcall
      split at hend
      · obtain ⟨rfl, rfl⟩ := course_done_iff.mp hend
        exact .added hdenied hattributes
      · rcases course_lift_bind_iff.mp hend with ⟨e, -, rfl, -⟩ | ⟨outcome', -, hend⟩
        · exact .added hdenied hattributes
        · obtain ⟨rfl, rfl⟩ := course_done_iff.mp hend
          exact .added hdenied hattributes
  · obtain ⟨rfl, rfl⟩ := course_lift_iff.mp hrest
    exact .replaced

theorem encode_eq_ok_iff : encode value n = .ok text ↔ Json.text value = .ok text := by
  unfold encode
  split
  · next h => rw [h]; simp
  · next h => rw [h]; simp

theorem course_rebind {a : Except Fault Unit} (h : Course (rebind d own name value).run t a)
    (ht : Unrefused t) : Written d own name value t := by
  rw [rebind_eq] at h
  rcases course_lift_bind_iff.mp h with ⟨e, -, rfl, -⟩ | ⟨n, hn, h⟩
  · exact .unasked isUpkeep_nil
  rcases course_lift_bind_iff.mp h with ⟨e, -, rfl, -⟩ | ⟨dn, hdn, h⟩
  · exact .unasked isUpkeep_nil
  rcases course_lift_bind_iff.mp h with ⟨e, -, rfl, -⟩ | ⟨text, htext, h⟩
  · exact .unasked isUpkeep_nil
  have htext : Json.text value = .ok text := encode_eq_ok_iff.mp htext
  -- What comes of the session adds nothing to the exchanges.
  have hsession : ∃ a, Course (session d (store d dn n text)).run t a := by
    rcases course_bind_iff.mp h with ⟨e, hsession, -⟩ | ⟨t₁, answer, t₂, hsession, hend, rfl⟩
    · exact ⟨_, hsession⟩
    · obtain ⟨rfl, -⟩ := course_lift_iff.mp hend
      exact ⟨_, by rwa [List.append_nil]⟩
  obtain ⟨a, hsession⟩ := hsession
  have hcourse : ∀ t₁ t₂ t₃ result, IsUpkeep t₁ → IsUpkeep t₃ →
      Course (store d dn n text).run t₂ result → Written d own name value (t₁ ++ t₂ ++ t₃) := by
    intro t₁ t₂ t₃ result h₁ h₃ hstore
    cases course_store hstore with
    | unasked => exact .unasked (by simp [h₁, h₃])
    | replaced => simpa using Written.replaced hn hdn htext h₁ h₃
    | added hdenied hattributes => simpa using Written.added hn hdn htext h₁ h₃ hdenied hattributes
  cases course_session hsession ht with
  | unopened hupkeep _ => exact .unasked hupkeep
  | held h₁ hstore h₃ => exact hcourse _ _ _ _ h₁ h₃ hstore
  | unclosed h₁ hstore h₃ _ => exact hcourse _ _ _ _ h₁ h₃ hstore

end Rebind

/-! ### Creations

A creation asks once. What it gives is the distinguished name that it asked for. -/

/-- The exchanges of the creation of a context, and what it ends in. -/
inductive Created (d : Directory) (own : Value) (n : Name) : List Exchange → Except Fault String → Prop
  | unasked {t : List Exchange} {e : Fault} : IsUpkeep t → Created d own n t (.error e)
  | asked {t₁ t₂ : List Exchange} {dn : String} {attributes : Attributes} {reply : Reply}
      {result : Except Fault String} : entryDn d own n = .ok dn → contextAttributes d n = .ok attributes →
      IsUpkeep t₁ → IsUpkeep t₂ → (∀ dn', result = .ok dn' → dn' = dn) →
      Created d own n (t₁ ++ .call (.add dn attributes) reply :: t₂) result

theorem createdAfter_ok {dn dn' : String} {n : Name} {answer : Reply × Outcome}
    (h : createdAfter dn n answer = .ok dn') : dn' = dn := by
  rw [createdAfter] at h
  split at h
  · cases h; rfl
  · cases h

theorem course_createContext {d : Directory} {own : Value} {n : Name} {t : List Exchange}
    {result : Except Fault String} (h : Course (createContext d own (.name n)).run t result)
    (ht : Unrefused t) : Created d own n t result := by
  rw [createContext_eq] at h
  rcases course_lift_bind_iff.mp h with ⟨e, -, rfl, rfl⟩ | ⟨n', hn, h⟩
  · exact .unasked isUpkeep_nil
  cases hn
  rcases course_lift_bind_iff.mp h with ⟨e, -, rfl, rfl⟩ | ⟨dn, hdn, h⟩
  · exact .unasked isUpkeep_nil
  rcases course_lift_bind_iff.mp h with ⟨e, -, rfl, rfl⟩ | ⟨attributes, hattributes, h⟩
  · exact .unasked isUpkeep_nil
  rcases course_bind_iff.mp h with ⟨e, hsession, rfl⟩ | ⟨t₁, answer, t₂, hsession, hend, rfl⟩
  · obtain ⟨-, ⟨hupkeep, -⟩ | ⟨t₁, reply, t₂, rfl, h₁, h₂, -⟩⟩ := course_session_consult hsession ht
    · exact .unasked hupkeep
    · exact .asked hdn hattributes h₁ h₂ nofun
  · obtain ⟨rfl, rfl⟩ := course_lift_iff.mp hend
    rw [List.append_nil] at ht ⊢
    obtain ⟨-, ⟨-, e, he⟩ | ⟨t₁, reply, t₂, rfl, h₁, h₂, -⟩⟩ := course_session_consult hsession ht
    · cases he
    · exact .asked hdn hattributes h₁ h₂ fun dn' => createdAfter_ok

end NamingDirectory.Ldap
