import NamingDirectory.Proofs.Client.Protocol

/-!
# What the client fails with

A bind that the root does not carry out at once goes on call by call, and each call belongs to one stage.
`blame?` says which answers fail a stage, and which fault of the provider is then behind the failure. The
first such answer decides what the bind comes to (`WalkCourse.reports`): a failure of that stage, about the
caller's name, with that very fault as its cause. Without such an answer the bind returns. What the root said
to the direct rebind has no part in it.

All of this is about courses, and proved by induction on them: a level is to blame in its last step or not at
all, so a descent is to blame where it stops, and a walk at its leaf at the latest. That the direct rebind has
no part is said of the courses too: with another fault in its place the rest of a course is a course still
(`bind_reports`).

Two things are asked of a provider (`Orderly`). Its faults have a text, because the message of a failure
quotes it, and are no demands to stop, because these are passed on as they are; and a name that it takes apart
comes out as a name.
-/

namespace NamingDirectory

/-- Whether a fault can be reported: it is no demand to stop, and it has a text. -/
def Fault.isReportable (e : Fault) : Bool := !e.isInterrupt && e.untold?.isNone

namespace Client

open Dialogue

/-- A provider that answers with whatever value or with whatever fault that can be reported, and that
takes a name apart into a name. -/
structure Orderly (provider : Partner Event Request Answer) : Prop where
  reportable : ∀ past request e, provider past request = .error e → e.isReportable
  readsNames : ∀ past node text v, provider past ⟨node, .readName text⟩ = .ok v → ∃ n, v = .name n

/-- A stage that failed, and the fault of the provider that is behind it, if there is one. -/
structure Blame where
  stage : Stage
  cause : Option Fault

/-- What a step of the recovery is to blame for. A lookup that finds nothing is not to blame, but one that
finds what is no node is. -/
def blame? : Step → Option Blame
  | .call ⟨_, .readName _⟩ (.error e) => some ⟨.parse, some e⟩
  | .call ⟨_, .lookup _⟩ (.error e) =>
    if e.isNotFound then none else some ⟨.intermediateLookup, some e⟩
  | .call ⟨_, .lookup _⟩ (.ok found) => if found.isNode then none else some ⟨.intermediateLookup, none⟩
  | .call ⟨_, .createContext _⟩ (.error e) => some ⟨.intermediateCreate, some e⟩
  | .call ⟨_, .rebind ..⟩ (.error e) => some ⟨.leafBind, some e⟩
  | _ => none

/-- What a result says if the first blame is the given one: it is the failure of that stage, about the
caller's name and with that cause, or a return if there is none. -/
def Reports (name : Value) (blame : Option Blame) (result : Except Fault Unit) : Prop :=
  match blame with
  | none => result = .ok ()
  | some ⟨stage, cause⟩ => ∃ message, result = .error (.failure stage (.text message) name cause)

/-- All faults among the answers of a course can be reported. -/
def AllReportable (course : List Step) : Prop :=
  ∀ request e, .call request (.error e) ∈ course → e.isReportable

/-! ### One fault

A fault that can be reported becomes the cause of the failure, and its text a part of the message. -/

theorem failed_of_isReportable {e : Fault} (he : e.isReportable) (stage : Stage) (detail name : Value) :
    failed stage detail name e =
      .failure stage (.text (message stage detail e)) name (some e) := by
  rw [Fault.isReportable, Bool.and_eq_true, Bool.not_eq_true', Option.isNone_iff_eq_none] at he
  rw [failed, he.1, he.2]
  rfl

theorem not_isInterrupt_of_isReportable {e : Fault} (he : e.isReportable) : ¬ e.isInterrupt := by
  rw [Fault.isReportable, Bool.and_eq_true, Bool.not_eq_true'] at he
  rw [he.1]
  exact Bool.false_ne_true

/-- The failure that the client makes of a fault says what the blame says. A fault without a text is left as
it is, hence the hypothesis. -/
theorem reports_failed {e : Fault} (he : e.isReportable) (stage : Stage) (detail name : Value) :
    Reports name (some ⟨stage, some e⟩) (.error (failed stage detail name e)) := by
  rw [failed_of_isReportable he]
  exact ⟨_, rfl⟩

/-! ### The courses of a recovery

By the way the courses are made: one level, a descent of levels, a walk. -/

section Courses

variable {name value root node : Value} {s : Segment} {n : Name} {path : List Segment} {t t' : List Step}
  {a : Answer} {result : Except Fault Unit} {blame : Option Blame}

/-- What holds of all faults of a course holds of those in each part of it. -/
theorem AllReportable.append_left (h : AllReportable (t ++ t')) : AllReportable t :=
  fun request e he => h request e (List.mem_append_left t' he)

theorem AllReportable.append_right (h : AllReportable (t ++ t')) : AllReportable t' :=
  fun request e he => h request e (List.mem_append_right t he)

/-- Going down one level is to blame just if it leads to no child, and then as the failure says. -/
theorem Level.reports (h : Level name node s t a) (ht : AllReportable t) :
    Reports name (t.findSome? blame?) (a.map fun _ => ()) := by
  cases h with
  | found hnode =>
    simp only [List.findSome?, blame?, hnode, if_true]
    rfl
  | created hmissing =>
    simp only [List.findSome?, blame?, hmissing, if_true]
    rfl
  | blocked hnode =>
    simp only [List.findSome?, blame?, hnode, Bool.false_eq_true, if_false]
    exact ⟨_, rfl⟩
  | @unknown e hmissing =>
    -- The two levels that fail by a fault of the node, which is the cause of the failure.
    have he : e.isReportable := ht ⟨node, .lookup (.name (.single s))⟩ e (by simp)
    simp only [List.findSome?, blame?, hmissing, Bool.false_eq_true, if_false]
    exact reports_failed he .intermediateLookup (.text s.text) name
  | @refused e e' hmissing =>
    have he' : e'.isReportable := ht ⟨node, .createContext (.name (.single s))⟩ e' (by simp)
    simp only [List.findSome?, blame?, hmissing, if_true]
    exact reports_failed he' .intermediateCreate (.text s.text) name

theorem Reports.eq_none (h : Reports name blame (.ok ())) : blame = none := by
  cases blame with
  | none => rfl
  | some blame =>
    obtain ⟨message, hmessage⟩ := h
    cases hmessage

/-- After steps that are not to blame, the blame is that of the others. -/
theorem findSome?_blame?_append (ht : t.findSome? blame? = none) :
    (t ++ t').findSome? blame? = t'.findSome? blame? := by
  rw [List.findSome?_append, ht, Option.none_or]

theorem Descent.reports (h : Descent name node path t a) (ht : AllReportable t) :
    Reports name (t.findSome? blame?) (a.map fun _ => ()) := by
  -- A level that leads on is not to blame, so the blame lies further down.
  induction h with
  | here => rfl
  | down hlevel hrest ih =>
    rw [findSome?_blame?_append (hlevel.reports ht.append_left).eq_none]
    exact ih ht.append_right
  | stop hlevel => exact hlevel.reports ht

/-- A walk reports the first step that is to blame. A descent that led all the way has none, which leaves the
bind of the leaf. -/
theorem WalkCourse.reports (h : WalkCourse name value root n t result) (ht : AllReportable t) :
    Reports name (t.findSome? blame?) result := by
  cases h with
  | bound hdescent =>
    rw [findSome?_blame?_append (hdescent.reports ht.append_left).eq_none]
    rfl
  | @leafFailed node e t hdescent =>
    have he : e.isReportable :=
      ht.append_right ⟨node, .rebind (.name (.single n.leaf)) value⟩ e (by simp [rebinding])
    rw [findSome?_blame?_append (hdescent.reports ht.append_left).eq_none]
    exact reports_failed he .leafBind (.name (.single n.leaf)) name
  | stopped hdescent =>
    have hblame := hdescent.reports ht
    exact hblame

/-! ### The rebinds that return

Only two requests of a bind are rebinds with its value: the first one of all, and the last one of the walk. -/

/-- Whether a node has carried out a rebind of the value. -/
def HasRebound (value : Value) (course : List Step) : Prop :=
  ∃ node name v, .call ⟨node, .rebind name value⟩ (.ok v) ∈ course

/-- Going down asks for no rebind. -/
theorem Descent.not_hasRebound (h : Descent name node path t a) : ¬ HasRebound value t := by
  rintro ⟨node', name', v, hv⟩
  induction h with
  | here => cases hv
  | down hlevel _ ih =>
    rcases List.mem_append.mp hv with hv | hv
    · cases hlevel <;> simp at hv
    · exact ih hv
  | stop hlevel => cases hlevel <;> simp at hv

theorem hasRebound_append_iff :
    HasRebound value (t ++ t') ↔ HasRebound value t ∨ HasRebound value t' := by
  simp only [HasRebound, List.mem_append, exists_or]

/-- A walk returns exactly when its rebind of the leaf does. -/
theorem WalkCourse.hasRebound_iff (h : WalkCourse name value root n t result) :
    HasRebound value t ↔ result = .ok () := by
  cases h with
  | @bound node v t hdescent =>
    refine iff_of_true (hasRebound_append_iff.mpr (.inr ?_)) rfl
    exact ⟨node, .name (.single n.leaf), v, by simp [rebinding]⟩
  | leafFailed hdescent =>
    rw [hasRebound_append_iff]
    refine iff_of_false ?_ (by simp)
    rintro (hbound | ⟨node', name', v, hv⟩)
    · exact hdescent.not_hasRebound hbound
    · simp [rebinding] at hv
  | stopped hdescent => exact iff_of_false hdescent.not_hasRebound (by simp)

/-- The recovery, with the reading of the name, which may be to blame before all levels. -/
theorem walkFrom_reports (h : Course (walkFrom name value root) t result) (hnames : ReadsNames t)
    (ht : AllReportable t) :
    Reports name (t.findSome? blame?) result ∧ (HasRebound value t ↔ result = .ok ()) := by
  rcases course_walkFrom_iff.mp ⟨h, hnames⟩ with ⟨e, rfl, rfl⟩ | ⟨n, t', rfl, hwalk⟩
  · have he : e.isReportable := ht _ e List.mem_cons_self
    exact ⟨reports_failed he .parse .null name, by simp [HasRebound]⟩
  · have hreports := hwalk.reports (ht.append_right (t := [_]))
    refine ⟨hreports, ?_⟩
    rw [← hwalk.hasRebound_iff]
    simp [HasRebound]

/-- What a course of a bind has come to, judged by what comes after the direct rebind. That the course with
another first fault is a course of the bind too is what makes the end independent of this fault. -/
theorem bind_reports (h : Course (bind name value root) t result) (hnames : ReadsNames t)
    (ht : AllReportable t) :
    ∃ direct rest, t = rebinding root name value direct ++ rest ∧
      (∀ v, direct = .ok v → result = .ok ()) ∧
      (∀ e, direct = .error e →
        Reports name (rest.findSome? blame?) result ∧
        ∀ e', e'.isReportable →
          Course (bind name value root) (rebinding root name value (.error e') ++ rest) result) ∧
      (result = .ok () ↔ HasRebound value t) := by
  rcases course_attempt_iff.mp h with
    ⟨v, rfl, rfl⟩ | ⟨e, hstop, rfl, -⟩ | ⟨e, t, -, hrecovery, rfl⟩
  · refine ⟨.ok v, _, rfl, fun _ _ => rfl, by rintro _ ⟨⟩, iff_of_true rfl ?_⟩
    exact ⟨root, name, v, by simp [rebinding]⟩
  · -- A demand to stop is no fault that can be reported.
    have he : e.isReportable := ht ⟨root, .rebind name value⟩ e (by simp [rebinding])
    exact absurd hstop (not_isInterrupt_of_isReportable he)
  · -- The recovery does not look at the first fault, so any other fault leads to the same rest.
    obtain ⟨hreports, hrebound⟩ := walkFrom_reports hrecovery
      (readsNames_append_iff.mp (readsNames_append_iff.mp hnames).2).1 ht.append_right.append_left
    refine ⟨.error e, _, rfl, by rintro _ ⟨⟩, ?_, ?_⟩
    · intro e _
      constructor
      · cases result with
        | ok _ =>
          rw [findSome?_blame?_append hreports.eq_none]
          rfl
        | error e => simpa [concluding] using hreports
      · intro e' he'
        exact course_attempt_iff.mpr
          (.inr (.inr ⟨e', t, not_isInterrupt_of_isReportable he', hrecovery, rfl⟩))
    · rw [← hrebound]
      cases result <;> simp [HasRebound, rebinding, concluding]

end Courses

/-! ### Against a provider

What is asked of a provider is what the laws of courses ask of the courses that it takes part in. -/

section Against

variable {provider : Partner Event Request Answer} {α : Type}

theorem Orderly.allReportable (h : Orderly provider) (talk : Talk α) :
    AllReportable (talk.against provider []).2 := by
  intro request e he
  rcases answer_of_mem_against he with hnone | ⟨earlier, hanswer⟩
  · cases hnone
  · exact h.reportable earlier request e hanswer.symm

theorem Orderly.readsNames_against (h : Orderly provider) (talk : Talk α) :
    ReadsNames (talk.against provider []).2 := by
  intro node text v hv
  rcases answer_of_mem_against hv with hnone | ⟨earlier, hanswer⟩
  · cases hnone
  · exact h.readsNames earlier node text v hanswer.symm

end Against

/-- What a bind and a lookup come to with any orderly provider. A bind starts with the direct rebind. If
that returns, so does the bind; if not, the first step after it that is to blame decides the failure, and
any other fault of the direct rebind would have led to the same end. A bind returns just when one of its
rebinds does. A lookup passes on what the node says, a fault as the cause of its failure. -/
theorem failure_uniform (provider : Partner Event Request Answer) (horderly : Orderly provider)
    (name value root : Value) :
    let bound := (bind name value root).against provider []
    let found := (lookup name root).against provider []
    (∃ direct rest, bound.2 = rebinding root name value direct ++ rest ∧
      (∀ v, direct = .ok v → bound.1 = .ok ()) ∧
      (∀ e, direct = .error e →
        Reports name (rest.findSome? blame?) bound.1 ∧
        ∀ e', e'.isReportable →
          Course (bind name value root) (rebinding root name value (.error e') ++ rest) bound.1) ∧
      (bound.1 = .ok () ↔ HasRebound value bound.2)) ∧
    ∃ answer, found.2 = [.event (.lookupBegun name), .call ⟨root, .lookup name⟩ answer] ∧
      (∀ v, answer = .ok v → found.1 = .ok v) ∧
      ∀ e, answer = .error e →
        ∃ message, found.1 = .error (.failure .lookup (.text message) name (some e)) := by
  intro bound found
  constructor
  · obtain ⟨t, hcourse, hbound⟩ := course_against provider (bind name value root) []
    have hbound : bound.2 = t := hbound
    rw [hbound]
    exact bind_reports hcourse (hbound ▸ horderly.readsNames_against _)
      (hbound ▸ horderly.allReportable _)
  · obtain ⟨t, hcourse, hfound⟩ := course_against provider (lookup name root) []
    have hfound : found.2 = t := hfound
    have hreportable : AllReportable t := hfound ▸ horderly.allReportable _
    obtain ⟨_, rfl, hasked⟩ := course_note_iff.mp hcourse
    obtain ⟨answer, _, rfl, hanswered⟩ := course_ask_iff.mp hasked
    cases answer with
    | ok v =>
      obtain ⟨rfl, hresult⟩ := course_done_iff.mp hanswered
      refine ⟨.ok v, hfound, fun v' hv' => ?_, nofun⟩
      cases hv'
      exact hresult
    | error e =>
      obtain ⟨rfl, hresult⟩ := course_done_iff.mp hanswered
      refine ⟨.error e, hfound, nofun, fun e' he' => ?_⟩
      cases he'
      rw [failed_of_isReportable (hreportable ⟨root, .lookup name⟩ e (by simp))] at hresult
      exact ⟨_, hresult⟩

/-- A provider that finds nothing and binds nothing. The contexts that it creates are no full nodes. -/
def halfway : Partner Event Request Answer := fun _ request =>
  match request.node, request.action with
  | _, .readName _ => .ok (.name ⟨⟨"one", by decide⟩, [⟨"two", by decide⟩, ⟨"three", by decide⟩]⟩)
  | .scripted false label, .createContext _ =>
    .error (.missing (.scripted false label) "create_subcontext")
  | _, .createContext _ => .ok (.scripted false "half")
  | _, _ => .error (.refuse .notFound "Name not bound" .null)

/-- All that these partners raise is a refusal or a missing operation, and both have a text. -/
theorem orderly_halfway : Orderly halfway := by
  constructor
  · rintro _ ⟨node, action⟩ e he
    simp only [halfway] at he
    split at he <;> cases he <;> rfl
  · rintro _ node text v hv
    cases hv
    exact ⟨_, rfl⟩

/-- At the second level the context that was just created lacks an operation. That is the cause, and not
what the root said first. -/
theorem failure_uniform_halfway :
    Orderly halfway ∧
      (∃ message, ((bind (.text "one/two/three") .null (.scripted true "root")).against halfway []).1 =
        .error (.failure .intermediateCreate (.text message) (.text "one/two/three")
          (some (.missing (.scripted false "half") "create_subcontext")))) ∧
      ∃ message, ((lookup (.text "one/two/three") (.scripted true "root")).against halfway []).1 =
        .error (.failure .lookup (.text message) (.text "one/two/three")
          (some (.refuse .notFound "Name not bound" .null))) := by
  obtain ⟨⟨direct, rest, hcourse, -, hfailed, -⟩, answer, hasked, -, hanswer⟩ :=
    failure_uniform halfway orderly_halfway (.text "one/two/three") .null (.scripted true "root")
  refine ⟨orderly_halfway, ?_, ?_⟩
  · cases hcourse
    exact (hfailed _ rfl).1
  · cases hasked
    exact hanswer _ rfl

end Client
end NamingDirectory
