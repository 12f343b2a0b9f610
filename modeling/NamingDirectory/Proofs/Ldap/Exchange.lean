import NamingDirectory.Ldap.Entry
import NamingDirectory.Proofs.Client.Course

/-!
# Exchanges with the server

The courses that an operation on a directory can take with its server, step by step. What only opens or closes
a connection is upkeep, and a session is upkeep around what is done in it (`course_session`).

The server may answer anything, and any call may raise a fault but for the refusals of a provider, which are
not the server's to raise (`Unrefused`). So no fault of the upkeep says that nothing is bound at a name:
results that do not are said to spare.

This matters because a bind takes such a fault for a missing context and goes on to create one. So what is
followed through an operation here is not which fault it ends in, but only that the fault is none of that
kind:

    Quiet op    every course of op is upkeep, and its result spares
    Spares      kept by binds, maps and folds over results

The functions that make something of a reply are gone through one by one. None of them raises a refusal of its
own, so all of them spare, whatever the reply holds.
-/

namespace NamingDirectory

def Fault.isRefusal : Fault → Bool
  | .refusal .. => true
  | _ => false

namespace Ldap

open Dialogue

abbrev Exchange := Mark Notice Request Reply

/-! ### Courses of operations

An operation is a dialogue that ends in a result or a fault, and goes on after a result only. These equations
take its courses apart. -/

section Courses

variable {α β : Type} {op : Op α} {next : α → Op β} {t : List Exchange} {a : Except Fault α}
  {b : Except Fault β}

/-- One operation after another: it ends with the fault of the first, or goes on from its result. -/
theorem course_bind_iff :
    Course (op >>= next).run t b ↔
      (∃ e, Course op.run t (.error e) ∧ b = .error e) ∨
        ∃ t₁ a t₂, Course op.run t₁ (.ok a) ∧ Course (next a).run t₂ b ∧ t = t₁ ++ t₂ := by
  rw [ExceptT.run_bind]
  refine Dialogue.course_bind_iff.trans ⟨?_, ?_⟩
  · rintro ⟨t₁, a, t₂, h₁, h₂, rfl⟩
    cases a with
    | error e =>
      obtain ⟨rfl, rfl⟩ := course_done_iff.mp h₂
      exact .inl ⟨e, by rwa [List.append_nil], rfl⟩
    | ok a => exact .inr ⟨t₁, a, t₂, h₁, h₂, rfl⟩
  · rintro (⟨e, h, rfl⟩ | ⟨t₁, a, t₂, h₁, h₂, rfl⟩)
    · exact ⟨t, .error e, [], h, .done _, (List.append_nil t).symm⟩
    · exact ⟨t₁, .ok a, t₂, h₁, h₂, rfl⟩

theorem lift_ok_bind (a : α) : lift (.ok a) >>= next = next a := rfl

theorem lift_error_bind (e : Fault) : lift (.error e) >>= next = lift (.error e) := rfl

theorem course_lift_iff {result : Except Fault α} :
    Course (lift result).run t a ↔ t = [] ∧ a = result :=
  course_done_iff

/-- A call is one exchange, and fails just if its reply is a fault. -/
theorem course_call_iff {request : Request} {a : Except Fault Reply} :
    Course (call request).run t a ↔
      ∃ reply, t = [.call request reply] ∧
        ((∃ e, reply.raised = some e ∧ a = .error e) ∨ reply.raised = none ∧ a = .ok reply) := by
  refine course_ask_iff.trans ⟨?_, ?_⟩
  · rintro ⟨reply, _, rfl, hdone⟩
    obtain ⟨rfl, rfl⟩ := course_done_iff.mp hdone
    refine ⟨reply, rfl, ?_⟩
    cases reply.raised with
    | none => exact .inr ⟨rfl, rfl⟩
    | some e => exact .inl ⟨e, rfl, rfl⟩
  · rintro ⟨reply, rfl, h⟩
    refine ⟨reply, [], rfl, course_done_iff.mpr ⟨rfl, ?_⟩⟩
    rcases h with ⟨e, hraised, rfl⟩ | ⟨hraised, rfl⟩
    · rw [hraised]
    · rw [hraised]

/-- After a step that only works something out comes what is done with its result. -/
theorem course_lift_bind_iff {result : Except Fault α} :
    Course (lift result >>= next).run t b ↔
      (∃ e, result = .error e ∧ t = [] ∧ b = .error e) ∨
        ∃ a, result = .ok a ∧ Course (next a).run t b := by
  rw [course_bind_iff]
  constructor
  · rintro (⟨e, hlift, rfl⟩ | ⟨t₁, a, t₂, hlift, hnext, rfl⟩)
    · obtain ⟨rfl, he⟩ := course_lift_iff.mp hlift
      exact .inl ⟨e, he.symm, rfl, rfl⟩
    · obtain ⟨rfl, ha⟩ := course_lift_iff.mp hlift
      exact .inr ⟨a, ha.symm, hnext⟩
  · rintro (⟨e, rfl, rfl, rfl⟩ | ⟨a, rfl, hnext⟩)
    · exact .inl ⟨e, course_lift_iff.mpr ⟨rfl, rfl⟩, rfl⟩
    · exact .inr ⟨[], a, t, course_lift_iff.mpr ⟨rfl, rfl⟩, hnext, rfl⟩

end Courses

/-- An exchange of a course of two parts stands in one of them. -/
theorem append_eq_append_call {t t' before after : List Exchange} {x : Exchange}
    (h : t ++ t' = before ++ x :: after) :
    (∃ after', t = before ++ x :: after') ∨
      ∃ before', before = t ++ before' ∧ t' = before' ++ x :: after := by
  rcases List.append_eq_append_iff.mp h with ⟨back, rfl, rfl⟩ | ⟨back, rfl, hback⟩
  · exact .inr ⟨back, rfl, rfl⟩
  · cases back with
    | nil => exact .inr ⟨[], by simp, by simpa using hback.symm⟩
    | cons y back =>
      obtain ⟨rfl, rfl⟩ := List.cons_eq_cons.mp hback
      exact .inl ⟨back, rfl⟩

/-! ### Upkeep and refusals

Conditions on each exchange of a course, which therefore go over its parts. Upkeep is told by the kind of a
request alone; whether a server raises a refusal is told by its replies. -/

/-- Whether a step of a session neither reads nor writes an entry. -/
def isUpkeep : Exchange → Bool
  | .call (.search ..) _ | .call (.modify ..) _ | .call (.add ..) _ => false
  | _ => true

def IsUpkeep (t : List Exchange) : Prop := ∀ x ∈ t, isUpkeep x

/-- No call raises a refusal: those are for providers to raise. -/
def Unrefused (t : List Exchange) : Prop :=
  ∀ request reply e, .call request reply ∈ t → reply.raised = some e → ¬ e.isRefusal

section Upkeep

variable {t t' : List Exchange}

@[simp] theorem isUpkeep_nil : IsUpkeep [] := fun _ h => absurd h List.not_mem_nil

@[simp] theorem isUpkeep_cons_iff {x : Exchange} : IsUpkeep (x :: t) ↔ isUpkeep x ∧ IsUpkeep t :=
  List.forall_mem_cons

/-- The upkeep of two parts is upkeep of both. -/
@[simp] theorem isUpkeep_append_iff : IsUpkeep (t ++ t') ↔ IsUpkeep t ∧ IsUpkeep t' :=
  List.forall_mem_append

/-- No call of two parts raises a refusal just if none of either does. -/
theorem unrefused_append_iff : Unrefused (t ++ t') ↔ Unrefused t ∧ Unrefused t' := by
  simp only [Unrefused, List.mem_append, or_imp, forall_and]

end Upkeep

/-! ### Faults that say nothing about the entry

The kind of a fault that says that nothing is there is a refusal's. A fault of the protocol, or of a value
that has the wrong kind, becomes a refusal at most of the general kind. What goes through a function of the
model is such a fault or a defect, and each lemma of this section is about one function. -/

/-- A result that does not say that nothing is there. -/
def Spares {α : Type} (result : Except Fault α) : Prop := ∀ e, result = .error e → ¬ e.isNotFound

section Spares

variable {α β : Type}

@[simp] theorem spares_ok (a : α) : Spares (.ok a) := nofun

@[simp] theorem spares_error_iff {e : Fault} :
    Spares (.error e : Except Fault α) ↔ ¬ e.isNotFound := by
  constructor
  · exact fun h => h e rfl
  · intro h e' he'
    cases he'
    exact h

theorem Spares.bind {result : Except Fault α} {next : α → Except Fault β} (h : Spares result)
    (hnext : ∀ a, Spares (next a)) : Spares (result >>= next) := by
  cases result with
  | error e => exact spares_error_iff.mpr (spares_error_iff.mp h)
  | ok a => exact hnext a

theorem Spares.map {result : Except Fault α} {f : α → β} (h : Spares result) :
    Spares (result.map f) := by
  cases result with
  | error e => exact spares_error_iff.mpr (spares_error_iff.mp h)
  | ok a => exact spares_ok (f a)

theorem Spares.mapM {f : α → Except Fault β} (h : ∀ a, Spares (f a)) (l : List α) :
    Spares (l.mapM f) := by
  induction l with
  | nil => exact spares_ok []
  | cons a l ih =>
    rw [List.mapM_cons]
    exact (h a).bind fun b => ih.bind fun bs => spares_ok (b :: bs)

end Spares

/-- Containing a fault makes none of that kind. -/
theorem not_isNotFound_contained {e : Fault} (h : ¬ e.isNotFound) : ¬ e.contained.isNotFound := by
  unfold Fault.contained
  split
  · exact Bool.false_ne_true
  · exact h

/-- Turning a fault of the protocol into a refusal makes a general one. -/
theorem not_isNotFound_asRefusal {e : Fault} (h : ¬ e.isNotFound) : ¬ (asRefusal e).isNotFound := by
  rw [asRefusal]
  split
  · exact Bool.false_ne_true
  · exact h

theorem not_isNotFound_of_not_isRefusal {e : Fault} (h : ¬ e.isRefusal) : ¬ e.isNotFound := by
  cases e with
  | refusal => exact absurd rfl h
  | _ => exact Bool.false_ne_true

theorem spares_mapError_asRefusal {α : Type} {result : Except Fault α} (h : Spares result) :
    Spares (result.mapError asRefusal) := by
  cases result with
  | ok a => exact spares_ok a
  | error e => exact spares_error_iff.mpr (not_isNotFound_asRefusal (spares_error_iff.mp h))

theorem spares_items (v : Value) : Spares v.items := by
  unfold Value.items
  split
  · exact spares_ok _
  · exact spares_error_iff.mpr Bool.false_ne_true

theorem spares_asKey (v : Value) : Spares v.asKey := by
  unfold Value.asKey
  split
  · exact spares_ok _
  · exact spares_error_iff.mpr Bool.false_ne_true

theorem spares_addPair (entries : List (Value × Value)) (place : Nat) (item : Value) :
    Spares (Value.addPair entries place item) := by
  unfold Value.addPair
  split
  · exact (spares_asKey _).bind fun key => spares_ok _
  · exact spares_error_iff.mpr Bool.false_ne_true
  · exact spares_error_iff.mpr Bool.false_ne_true

theorem Spares.foldlM {α β : Type} {f : β → α → Except Fault β} (h : ∀ b a, Spares (f b a))
    (l : List α) (b : β) : Spares (l.foldlM f b) := by
  induction l generalizing b with
  | nil => exact spares_ok b
  | cons a l ih =>
    rw [List.foldlM_cons]
    exact (h b a).bind ih

/-- What is not made up like a dictionary makes no outcome, which is a defect and no refusal. -/
theorem spares_outcome (reply : Reply) : Spares reply.outcome := by
  refine Spares.map ?_
  unfold Value.asEntries
  split
  · exact spares_ok _
  · split
    · exact spares_ok _
    · exact (spares_items _).bind fun items =>
        Spares.foldlM (fun entries (item : Value × Nat) => spares_addPair entries item.2 item.1) _ _

theorem spares_lowered (v : Value) : Spares (Settings.lowered v) := by
  unfold Settings.lowered
  split
  · exact spares_ok _
  · exact spares_ok _
  · exact spares_error_iff.mpr Bool.false_ne_true

theorem spares_marksContext (s : Settings) (classes : Value) : Spares (s.marksContext classes) :=
  (spares_items _).bind fun items =>
    (Spares.mapM spares_lowered items).bind fun _ =>
      (spares_items classes).bind fun _ => spares_ok _

theorem spares_head (v : Value) : Spares v.head := by
  unfold Value.head
  split
  · split
    · exact spares_ok _
    · exact spares_error_iff.mpr Bool.false_ne_true
  · exact spares_error_iff.mpr Bool.false_ne_true
  · split
    · exact spares_ok _
    · exact spares_error_iff.mpr Bool.false_ne_true
    · exact spares_error_iff.mpr Bool.false_ne_true

/-- An entry's text that is no JSON is refused, but in the general way. -/
theorem spares_storedValue (d : Directory) (dn : String) (n : Name) (attributes : Attributes) :
    Spares (storedValue d dn n attributes) := by
  refine (spares_asKey _).bind fun key => ?_
  dsimp only
  split
  · exact spares_ok _
  · refine (spares_head _).bind fun first => ?_
    split
    · exact spares_ok _
    · exact spares_error_iff.mpr Bool.false_ne_true

/-- Whatever an entry holds, it is there. -/
theorem spares_interpret (d : Directory) (dn : String) (n : Name) (attributes : Attributes) :
    Spares (interpret d dn n attributes) := by
  refine (spares_marksContext _ _).bind fun marked => ?_
  split
  · exact spares_ok _
  · exact (spares_storedValue d dn n attributes).bind fun v => spares_ok _

/-! ### Sessions

A session opens a connection, binds, does something and closes. All but the third are quiet: whatever they end
in, nobody can take it for a missing entry. Closing may put a fault of its own in the place of a result, and
that spares as well. -/

/-- An operation of upkeep alone, which never says that nothing is there. -/
def Quiet {α : Type} (op : Op α) : Prop :=
  ∀ t result, Course op.run t result → Unrefused t → IsUpkeep t ∧ Spares result

section Quiet

variable {α β : Type}

theorem quiet_call {request : Request} (h : ∀ reply, isUpkeep (.call request reply)) :
    Quiet (call request) := by
  intro t result hcall ht
  obtain ⟨reply, rfl, hreply⟩ := course_call_iff.mp hcall
  refine ⟨by simpa using h reply, ?_⟩
  rcases hreply with ⟨e, hraised, rfl⟩ | ⟨-, rfl⟩
  · -- What the server raises is no provider's refusal.
    exact spares_error_iff.mpr
      (not_isNotFound_of_not_isRefusal (ht request reply e List.mem_cons_self hraised))
  · exact spares_ok reply

theorem quiet_lift {result : Except Fault α} (h : Spares result) : Quiet (lift result) := by
  intro t a hlift _
  obtain ⟨rfl, rfl⟩ := course_lift_iff.mp hlift
  exact ⟨isUpkeep_nil, h⟩

theorem Quiet.bind {op : Op α} {next : α → Op β} (h : Quiet op) (hnext : ∀ a, Quiet (next a)) :
    Quiet (op >>= next) := by
  intro t b hcourse ht
  rcases course_bind_iff.mp hcourse with ⟨e, hop, rfl⟩ | ⟨t₁, a, t₂, hop, hrest, rfl⟩
  · obtain ⟨hupkeep, hspares⟩ := h t (.error e) hop ht
    exact ⟨hupkeep, spares_error_iff.mpr (spares_error_iff.mp hspares)⟩
  · obtain ⟨ht₁, ht₂⟩ := unrefused_append_iff.mp ht
    obtain ⟨hupkeep, -⟩ := h t₁ (.ok a) hop ht₁
    obtain ⟨hupkeep', hspares⟩ := hnext a t₂ b hrest ht₂
    exact ⟨isUpkeep_append_iff.mpr ⟨hupkeep, hupkeep'⟩, hspares⟩

theorem Quiet.adapt {op : Op α} (h : Quiet op) : Quiet (ExceptT.adapt Fault.contained op) := by
  intro t a hcourse ht
  obtain ⟨t₁, result, t₂, hop, hdone, rfl⟩ := Dialogue.course_bind_iff.mp hcourse
  obtain ⟨rfl, rfl⟩ := course_done_iff.mp hdone
  obtain ⟨hupkeep, hspares⟩ := h t₁ result hop (unrefused_append_iff.mp ht).1
  refine ⟨isUpkeep_append_iff.mpr ⟨hupkeep, isUpkeep_nil⟩, ?_⟩
  cases result with
  | ok a => exact spares_ok a
  | error e => exact spares_error_iff.mpr (not_isNotFound_contained (spares_error_iff.mp hspares))

theorem quiet_openConnection (d : Directory) : Quiet (openConnection d) := by
  refine (quiet_call fun _ => rfl).bind fun _ => ?_
  split
  · exact (quiet_call fun _ => rfl).bind fun _ => quiet_lift (spares_ok ())
  · exact quiet_lift (spares_ok ())

/-- Binding, which may be refused, but with a general refusal. -/
theorem quiet_authenticate : Quiet authenticate := by
  refine (Quiet.adapt (quiet_call fun _ => rfl)).bind fun reply => ?_
  split
  · exact (quiet_lift (spares_outcome reply)).bind fun _ =>
      quiet_lift (spares_error_iff.mpr Bool.false_ne_true)
  · exact quiet_lift (spares_ok ())

end Quiet

/-- The courses of a session around what is done in it, and what they end in. -/
inductive SessionCourse {α : Type} (body : Op α) : List Exchange → Except Fault α → Prop
  /-- No connection could be opened, or nobody could bind. -/
  | unopened {t : List Exchange} {e : Fault} : IsUpkeep t → ¬ e.isNotFound →
      SessionCourse body t (.error e)
  | held {t₁ t₂ t₃ : List Exchange} {result : Except Fault α} : IsUpkeep t₁ →
      Course body.run t₂ result → IsUpkeep t₃ →
      SessionCourse body (t₁ ++ t₂ ++ t₃) (result.mapError asRefusal)
  /-- The connection could not be closed. -/
  | unclosed {t₁ t₂ t₃ : List Exchange} {result : Except Fault α} {e : Fault} : IsUpkeep t₁ →
      Course body.run t₂ result → IsUpkeep t₃ → ¬ e.isNotFound →
      SessionCourse body (t₁ ++ t₂ ++ t₃) (.error e)

section Sessions

variable {α : Type} {t : List Exchange}

/-- Closing keeps the result, or puts a fault in its place that spares. -/
theorem course_close {result a : Except Fault α} (h : Course (close result).run t a)
    (ht : Unrefused t) : IsUpkeep t ∧ (a = result ∨ ∃ e, a = .error e ∧ ¬ e.isNotFound) := by
  obtain ⟨reply, t', rfl, hreply⟩ := course_ask_iff.mp h
  cases hraised : reply.raised with
  | none =>
    simp only [hraised] at hreply
    obtain ⟨rfl, rfl⟩ := course_done_iff.mp hreply
    exact ⟨by simp [isUpkeep], .inl rfl⟩
  | some e =>
    have he : ¬ e.isNotFound :=
      not_isNotFound_of_not_isRefusal (ht _ reply e List.mem_cons_self hraised)
    simp only [hraised] at hreply
    split at hreply
    · obtain ⟨_, rfl, hdone⟩ := course_note_iff.mp hreply
      obtain ⟨rfl, rfl⟩ := course_done_iff.mp hdone
      exact ⟨by simp [isUpkeep], .inl rfl⟩
    · obtain ⟨rfl, rfl⟩ := course_done_iff.mp hreply
      exact ⟨by simp [isUpkeep], .inr ⟨_, rfl, not_isNotFound_contained he⟩⟩

/-- A session takes the courses of `SessionCourse`: upkeep, what is done in it, upkeep. -/
theorem course_session {d : Directory} {body : Op α} {a : Except Fault α}
    (h : Course (session d body).run t a) (ht : Unrefused t) : SessionCourse body t a := by
  obtain ⟨t, rfl, hopened⟩ := course_note_iff.mp h
  have ht : Unrefused t := (unrefused_append_iff (t := [_])).mp ht |>.2
  obtain ⟨t₁, opened, t₂, hopen, hrest, rfl⟩ := Dialogue.course_bind_iff.mp hopened
  obtain ⟨ht₁, ht₂⟩ := unrefused_append_iff.mp ht
  obtain ⟨hupkeep, hspares⟩ := quiet_openConnection d t₁ opened hopen ht₁
  cases opened with
  | error e =>
    obtain ⟨rfl, rfl⟩ := course_done_iff.mp hrest
    -- The connection was not opened, and the fault has become a refusal of the general kind.
    refine .unopened (by simpa [isUpkeep] using hupkeep) ?_
    exact not_isNotFound_contained (not_isNotFound_asRefusal (spares_error_iff.mp hspares))
  | ok _ =>
    obtain ⟨t₃, result, t₄, hbody, hclose, rfl⟩ := Dialogue.course_bind_iff.mp hrest
    obtain ⟨ht₃, ht₄⟩ := unrefused_append_iff.mp ht₂
    obtain ⟨hclosed, hend⟩ := course_close hclose ht₄
    rcases course_bind_iff.mp hbody with ⟨e, hauth, rfl⟩ | ⟨t₅, _, t₆, hauth, hinner, rfl⟩
    · -- Nobody could bind, so the body was not begun.
      obtain ⟨hupkeep', hspares'⟩ := quiet_authenticate t₃ (.error e) hauth ht₃
      have he : ¬ (asRefusal e).isNotFound := not_isNotFound_asRefusal (spares_error_iff.mp hspares')
      have hall : IsUpkeep (.event (.connect (connection d)) :: (t₁ ++ (t₃ ++ t₄))) := by
        simp [isUpkeep, hupkeep, hupkeep', hclosed]
      rcases hend with rfl | ⟨e', rfl, he'⟩
      · exact .unopened hall he
      · exact .unopened hall he'
    · obtain ⟨hupkeep', -⟩ := quiet_authenticate t₅ (.ok _) hauth (unrefused_append_iff.mp ht₃).1
      have hall : IsUpkeep (.event (.connect (connection d)) :: (t₁ ++ t₅)) := by
        simp [isUpkeep, hupkeep, hupkeep']
      -- What was done before the body goes with the opening.
      have hassoc : .event (.connect (connection d)) :: (t₁ ++ (t₅ ++ t₆ ++ t₄)) =
          (.event (.connect (connection d)) :: (t₁ ++ t₅)) ++ t₆ ++ t₄ := by simp
      rw [hassoc]
      rcases hend with rfl | ⟨e', rfl, he'⟩
      · exact .held hall hinner hclosed
      · exact .unclosed hall hinner hclosed he'

end Sessions

end Ldap
end NamingDirectory
