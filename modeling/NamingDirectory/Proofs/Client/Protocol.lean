import NamingDirectory.Client
import NamingDirectory.Proofs.Client.Course

/-!
# The protocol of a bind

What a bind asks of the nodes and what it reports, in which order, whatever the nodes answer. Going down one
level is a `Level`, down a list of segments a `Descent`, and a whole bind a `BindCourse`; each says which
courses there are and what they end in. The definitions know of no dialogue. One lemma for each function of
the client ties them to it (`course_descend_iff`, `course_walk_iff`, `course_walkFrom_iff`).

A course is given in full, with its reports and requests and with the answers that lead to it, so there is one
constructor for each way that a bind can go:

    rebind, then                                   what a bind comes to
      returned                                     done
      stopped                                      the demand to stop
      failed, name not read                        a failure to parse
      failed, name read, levels and leaf           what the walk comes to

A provider may answer anything at all, but for one thing. When it is asked to take a name apart it answers
with a name or with a fault; `ReadsNames` says so of a course. Hence the last theorem is an equality of two
sets of courses, and not only an inclusion: each of the protocol's courses is taken with some provider.
-/

namespace NamingDirectory.Client

open Dialogue

abbrev Step := Mark Event Request Answer

/-- The courses of going down one level, for a segment below a node, and what they end in. -/
inductive Level (name node : Value) (s : Segment) : List Step → Answer → Prop
  /-- The segment leads to a node. -/
  | found {child : Value} : child.isNode →
      Level name node s
        [.event (.stepSought (.text s.text)),
          .call ⟨node, .lookup (.name (.single s))⟩ (.ok child),
          .event (.stepFound (.text s.text))]
        (.ok child)
  /-- The segment leads nowhere, and whatever comes of the order for a context there is the child. -/
  | created {e : Fault} {child : Value} : e.isNotFound →
      Level name node s
        [.event (.stepSought (.text s.text)),
          .call ⟨node, .lookup (.name (.single s))⟩ (.error e),
          .event (.stepMissing (.text s.text)),
          .call ⟨node, .createContext (.name (.single s))⟩ (.ok child)]
        (.ok child)
  /-- The segment leads to what is no node. -/
  | blocked {found : Value} : ¬ found.isNode →
      Level name node s
        [.event (.stepSought (.text s.text)),
          .call ⟨node, .lookup (.name (.single s))⟩ (.ok found)]
        (.error (notANode (.text s.text) name))
  /-- The segment could not be looked up. -/
  | unknown {e : Fault} : ¬ e.isNotFound →
      Level name node s
        [.event (.stepSought (.text s.text)),
          .call ⟨node, .lookup (.name (.single s))⟩ (.error e)]
        (.error (failed .intermediateLookup (.text s.text) name e))
  /-- The segment leads nowhere, and no context could be created there. -/
  | refused {e e' : Fault} : e.isNotFound →
      Level name node s
        [.event (.stepSought (.text s.text)),
          .call ⟨node, .lookup (.name (.single s))⟩ (.error e),
          .event (.stepMissing (.text s.text)),
          .call ⟨node, .createContext (.name (.single s))⟩ (.error e')]
        (.error (failed .intermediateCreate (.text s.text) name e'))

/-- The courses of going down a list of segments, each level from the child of the level before. -/
inductive Descent (name : Value) : Value → List Segment → List Step → Answer → Prop
  | here {node : Value} : Descent name node [] [] (.ok node)
  | down {node child : Value} {s : Segment} {rest : List Segment} {t t' : List Step} {a : Answer} :
      Level name node s t (.ok child) → Descent name child rest t' a →
      Descent name node (s :: rest) (t ++ t') a
  | stop {node : Value} {s : Segment} {rest : List Segment} {t : List Step} {e : Fault} :
      Level name node s t (.error e) → Descent name node (s :: rest) t (.error e)

/-- The report and the request of a bind at one node. -/
def rebinding (node name value : Value) (answer : Answer) : List Step :=
  [.event (.bindBegun name), .call ⟨node, .rebind name value⟩ answer]

/-- The courses of the walk down a name from a root: down its parents, and then the bind of its leaf. -/
inductive WalkCourse (name value root : Value) (n : Name) : List Step → Except Fault Unit → Prop
  | bound {node v : Value} {t : List Step} : Descent name root n.parents t (.ok node) →
      WalkCourse name value root n
        (t ++ rebinding node (.name (.single n.leaf)) value (.ok v)) (.ok ())
  | leafFailed {node : Value} {e : Fault} {t : List Step} : Descent name root n.parents t (.ok node) →
      WalkCourse name value root n
        (t ++ rebinding node (.name (.single n.leaf)) value (.error e))
        (.error (failed .leafBind (.name (.single n.leaf)) name e))
  | stopped {e : Fault} {t : List Step} : Descent name root n.parents t (.error e) →
      WalkCourse name value root n t (.error e)

/-- The report that a name is bound, if it is. -/
def concluding (name : Value) : Except Fault Unit → List Step
  | .ok () => [.event (.bindDone name)]
  | .error _ => []

/-- The courses of a bind, and what they end in. -/
inductive BindCourse (name value root : Value) : List Step → Except Fault Unit → Prop
  /-- The root binds the whole name. -/
  | direct {v : Value} :
      BindCourse name value root
        (rebinding root name value (.ok v) ++ [.event (.bindDone name)]) (.ok ())
  /-- The root demands to stop. -/
  | interrupted {e : Fault} : e.isInterrupt →
      BindCourse name value root (rebinding root name value (.error e)) (.error e)
  /-- The root fails to bind the name, and then to take it apart. -/
  | unreadable {e e' : Fault} : ¬ e.isInterrupt →
      BindCourse name value root
        (rebinding root name value (.error e) ++ [.call ⟨root, .readName name⟩ (.error e')])
        (.error (failed .parse .null name e'))
  /-- The root fails to bind the name and takes it apart. -/
  | walked {e : Fault} {n : Name} {t : List Step} {result : Except Fault Unit} : ¬ e.isInterrupt →
      WalkCourse name value root n t result →
      BindCourse name value root
        (rebinding root name value (.error e) ++ [.call ⟨root, .readName name⟩ (.ok (.name n))] ++ t ++
          concluding name result)
        result

/-- A name that is taken apart comes out as a name, if it comes out at all. -/
def ReadsNames (course : List Step) : Prop :=
  ∀ node text v, .call ⟨node, .readName text⟩ (.ok v) ∈ course → ∃ n, v = .name n

/-! ### What a walk is made of

A walk never asks for a name to be taken apart. This is what is needed of it when `ReadsNames` is said of a
whole bind: only the one call before the walk can break it. -/

/-- Whether a step goes down a level or binds at a node. -/
def isOfWalk : Step → Bool
  | .event (.stepSought _) | .event (.stepFound _) | .event (.stepMissing _) => true
  | .call ⟨_, .lookup _⟩ _ | .call ⟨_, .createContext _⟩ _ => true
  | .event (.bindBegun _) | .call ⟨_, .rebind ..⟩ _ => true
  | _ => false

/-- Each of the five ways down one level consists of steps of a walk. -/
theorem Level.all_isOfWalk {name node : Value} {s : Segment} {t : List Step} {a : Answer}
    (h : Level name node s t a) : ∀ step ∈ t, isOfWalk step := by
  cases h <;> simp [isOfWalk]

theorem Descent.all_isOfWalk {name node : Value} {path : List Segment} {t : List Step} {a : Answer}
    (h : Descent name node path t a) : ∀ step ∈ t, isOfWalk step := by
  induction h with
  | here => exact fun step hstep => absurd hstep List.not_mem_nil
  | down hlevel _ ih =>
    intro step hstep
    rcases List.mem_append.mp hstep with hstep | hstep
    · exact hlevel.all_isOfWalk step hstep
    · exact ih step hstep
  | stop hlevel => exact hlevel.all_isOfWalk

theorem isOfWalk_rebinding (node name value : Value) (answer : Answer) :
    ∀ step ∈ rebinding node name value answer, isOfWalk step := by
  simp [rebinding, isOfWalk]

theorem WalkCourse.all_isOfWalk {name value root : Value} {n : Name} {t : List Step}
    {result : Except Fault Unit} (h : WalkCourse name value root n t result) :
    ∀ step ∈ t, isOfWalk step := by
  cases h with
  | bound hdescent =>
    exact List.forall_mem_append.mpr ⟨hdescent.all_isOfWalk, isOfWalk_rebinding _ _ _ _⟩
  | leafFailed hdescent =>
    exact List.forall_mem_append.mpr ⟨hdescent.all_isOfWalk, isOfWalk_rebinding _ _ _ _⟩
  | stopped hdescent => exact hdescent.all_isOfWalk

/-! ### Only the recovery asks for a name to be taken apart

All other steps read names trivially, as they are no such calls. So the condition on a whole course comes down
to the one answer with which the recovery begins. -/

theorem readsNames_of_isOfWalk {t : List Step} (h : ∀ step ∈ t, isOfWalk step) : ReadsNames t := by
  intro node text v hv
  cases h _ hv

/-- A condition on all steps of a course is one on the steps of its parts. -/
theorem readsNames_append_iff {t t' : List Step} :
    ReadsNames (t ++ t') ↔ ReadsNames t ∧ ReadsNames t' := by
  simp only [ReadsNames, List.mem_append, or_imp, forall_and]

theorem readsNames_rebinding (node name value : Value) (answer : Answer) :
    ReadsNames (rebinding node name value answer) :=
  readsNames_of_isOfWalk (isOfWalk_rebinding node name value answer)

theorem readsNames_concluding (name : Value) (result : Except Fault Unit) :
    ReadsNames (concluding name result) := by
  intro other text v hv
  cases result <;> simp [concluding] at hv

/-! ### The client takes these courses

Function by function, from one level to the whole bind. Each equation takes the dialogue of the function apart
step by step, and splits on the answer as the function does. -/

/-- Going down one level takes the courses of a level. -/
theorem course_descend_iff {name node : Value} {s : Segment} {t : List Step} {a : Answer} :
    Course (descend name node s) t a ↔ Level name node s t a := by
  rw [descend]
  constructor
  · intro h
    obtain ⟨_, rfl, hasked⟩ := course_note_iff.mp h
    obtain ⟨answer, _, rfl, hanswered⟩ := course_ask_iff.mp hasked
    -- The answer to the lookup decides whether a context is ordered at all.
    cases answer with
    | ok found =>
      by_cases hnode : found.isNode = true
      · simp only [hnode, if_true, course_note_iff, course_done_iff] at hanswered
        obtain ⟨_, rfl, rfl, rfl⟩ := hanswered
        exact .found hnode
      · simp only [hnode, Bool.false_eq_true, if_false, course_done_iff] at hanswered
        obtain ⟨rfl, rfl⟩ := hanswered
        exact .blocked hnode
    | error e =>
      by_cases hmissing : e.isNotFound = true
      · simp only [hmissing, if_true] at hanswered
        obtain ⟨_, rfl, hordered⟩ := course_note_iff.mp hanswered
        obtain ⟨created, _, rfl, hcreated⟩ := course_ask_iff.mp hordered
        cases created with
        | ok child =>
          obtain ⟨rfl, rfl⟩ := course_done_iff.mp hcreated
          exact .created hmissing
        | error e' =>
          obtain ⟨rfl, rfl⟩ := course_done_iff.mp hcreated
          exact .refused hmissing
      · simp only [hmissing, Bool.false_eq_true, if_false, course_done_iff] at hanswered
        obtain ⟨rfl, rfl⟩ := hanswered
        exact .unknown hmissing
  · intro h
    cases h with
    | @found child hnode =>
      refine .note ?_
      refine .ask (Except.ok child) ?_
      simp [hnode]
    | @created e child hmissing =>
      refine .note ?_
      refine .ask (Except.error e) ?_
      simp only [hmissing, if_true]
      refine .note ?_
      exact .ask (Except.ok child) (.done _)
    | @blocked found hnode =>
      refine .note ?_
      refine .ask (Except.ok found) ?_
      simp [hnode]
    | @unknown e hmissing =>
      refine .note ?_
      refine .ask (Except.error e) ?_
      simp [hmissing]
    | @refused e e' hmissing =>
      refine .note ?_
      refine .ask (Except.error e) ?_
      simp only [hmissing, if_true]
      refine .note ?_
      exact .ask (Except.error e') (.done _)

/-- The bind of a leaf takes the courses of the walk down a name of one segment. -/
theorem course_bindLeaf_iff {name value node : Value} {s : Segment} {t : List Step}
    {result : Except Fault Unit} :
    Course (bindLeaf name value node (.name (.single s))) t result ↔
      WalkCourse name value node (.single s) t result := by
  rw [bindLeaf]
  have hhere : Descent name node (Name.single s).parents [] (.ok node) := .here
  constructor
  · intro h
    obtain ⟨_, rfl, hasked⟩ := course_note_iff.mp h
    obtain ⟨answer, _, rfl, hanswered⟩ := course_ask_iff.mp hasked
    cases answer with
    | ok v =>
      obtain ⟨rfl, rfl⟩ := course_done_iff.mp hanswered
      exact .bound hhere
    | error e =>
      obtain ⟨rfl, rfl⟩ := course_done_iff.mp hanswered
      exact .leafFailed hhere
  · intro h
    cases h with
    | @bound _ v _ hdescent =>
      cases hdescent
      refine .note ?_
      exact .ask (Except.ok v) (.done _)
    | @leafFailed _ e _ hdescent =>
      cases hdescent
      refine .note ?_
      exact .ask (Except.error e) (.done _)
    | stopped hdescent => cases hdescent

/-- A walk that does not end at its first segment starts with a level, and goes on from the child. -/
theorem walkCourse_cons_iff {name value node : Value} {s u : Segment} {rest : List Segment}
    {t : List Step} {result : Except Fault Unit} :
    WalkCourse name value node ⟨s, u :: rest⟩ t result ↔
      (∃ t₁ child t₂, Level name node s t₁ (.ok child) ∧ WalkCourse name value child ⟨u, rest⟩ t₂ result ∧
          t = t₁ ++ t₂) ∨
        ∃ e, Level name node s t (.error e) ∧ result = .error e := by
  constructor
  · intro h
    cases h with
    | bound hdescent =>
      cases hdescent with
      | down hlevel hrest => exact .inl ⟨_, _, _, hlevel, .bound hrest, List.append_assoc ..⟩
    | leafFailed hdescent =>
      cases hdescent with
      | down hlevel hrest => exact .inl ⟨_, _, _, hlevel, .leafFailed hrest, List.append_assoc ..⟩
    | stopped hdescent =>
      cases hdescent with
      | down hlevel hrest => exact .inl ⟨_, _, _, hlevel, .stopped hrest, rfl⟩
      | stop hlevel => exact .inr ⟨_, hlevel, rfl⟩
  · rintro (⟨t₁, child, t₂, hlevel, hwalk, rfl⟩ | ⟨e, hlevel, rfl⟩)
    · cases hwalk with
      | bound hrest =>
        rw [← List.append_assoc]
        exact .bound (.down hlevel hrest)
      | leafFailed hrest =>
        rw [← List.append_assoc]
        exact .leafFailed (.down hlevel hrest)
      | stopped hrest => exact .stopped (.down hlevel hrest)
    · exact .stopped (.stop hlevel)

/-- The walk takes the courses of a walk down the same name, by induction on its segments. -/
theorem course_walk_iff {name value node : Value} {s : Segment} {rest : List Segment} {t : List Step}
    {result : Except Fault Unit} :
    Course (walk name value node s rest) t result ↔ WalkCourse name value node ⟨s, rest⟩ t result := by
  -- Along the segments, from whatever node the level before leads to.
  induction rest generalizing node s t with
  | nil => exact course_bindLeaf_iff
  | cons u rest ih =>
    rw [walk, course_bind_iff, walkCourse_cons_iff]
    constructor
    · rintro ⟨t₁, a, t₂, hlevel, hnext, rfl⟩
      rw [course_descend_iff] at hlevel
      cases a with
      | ok child => exact .inl ⟨t₁, child, t₂, hlevel, ih.mp hnext, rfl⟩
      | error e =>
        obtain ⟨rfl, rfl⟩ := course_done_iff.mp hnext
        rw [List.append_nil]
        exact .inr ⟨e, hlevel, rfl⟩
    · rintro (⟨t₁, child, t₂, hlevel, hwalk, rfl⟩ | ⟨e, hlevel, rfl⟩)
      · exact ⟨t₁, .ok child, t₂, course_descend_iff.mpr hlevel, ih.mpr hwalk, rfl⟩
      · exact ⟨t, .error e, [], course_descend_iff.mpr hlevel, .done _, (List.append_nil t).symm⟩

/-- The end of a bind reports the name if it is bound, and passes the result on. -/
theorem course_conclude_iff {name : Value} {a result : Except Fault Unit} {t : List Step} :
    Course (conclude name a) t result ↔ t = concluding name a ∧ result = a := by
  cases a with
  | ok u =>
    rw [conclude, course_note_iff, concluding]
    constructor
    · rintro ⟨_, rfl, hdone⟩
      obtain ⟨rfl, rfl⟩ := course_done_iff.mp hdone
      exact ⟨rfl, rfl⟩
    · rintro ⟨rfl, rfl⟩
      exact ⟨[], rfl, .done _⟩
  | error e => exact course_done_iff

/-- The courses of the recovery, in which a name comes out as a name. The condition cannot be left out: with
any other answer the client goes the way of `walkUnnamed`, which is no walk down a name. -/
theorem course_walkFrom_iff {name value root : Value} {t : List Step} {result : Except Fault Unit} :
    Course (walkFrom name value root) t result ∧ ReadsNames t ↔
      (∃ e, t = [.call ⟨root, .readName name⟩ (.error e)] ∧
          result = .error (failed .parse .null name e)) ∨
        ∃ n t', t = .call ⟨root, .readName name⟩ (.ok (.name n)) :: t' ∧
          WalkCourse name value root n t' result := by
  rw [walkFrom]
  constructor
  · rintro ⟨h, hnames⟩
    obtain ⟨answer, t', rfl, hanswered⟩ := course_ask_iff.mp h
    cases answer with
    | ok parts =>
      -- Parts that are no name are not in question here, so the recovery is a walk.
      obtain ⟨n, rfl⟩ := hnames root name parts List.mem_cons_self
      exact .inr ⟨n, t', rfl, course_walk_iff.mp hanswered⟩
    | error e =>
      obtain ⟨rfl, rfl⟩ := course_done_iff.mp hanswered
      exact .inl ⟨e, rfl, rfl⟩
  · rintro (⟨e, rfl, rfl⟩ | ⟨n, t', rfl, hwalk⟩)
    · refine ⟨.ask (Except.error e) (.done _), ?_⟩
      intro node text v hv
      simp at hv
    · refine ⟨.ask (Except.ok (Value.name n)) (course_walk_iff.mpr hwalk), ?_⟩
      intro node text v hv
      rcases List.mem_cons.mp hv with hv | hv
      · cases hv
        exact ⟨n, rfl⟩
      · exact readsNames_of_isOfWalk hwalk.all_isOfWalk node text v hv

/-- The courses of a bind: that of the attempt, and those of the recovery between its failure and the
end. -/
theorem course_attempt_iff {name value root : Value} {t : List Step} {result : Except Fault Unit} :
    Course (bind name value root) t result ↔
      (∃ v, t = rebinding root name value (.ok v) ++ concluding name (.ok ()) ∧ result = .ok ()) ∨
        (∃ e, e.isInterrupt ∧ t = rebinding root name value (.error e) ∧ result = .error e) ∨
          ∃ e t', ¬ e.isInterrupt ∧ Course (walkFrom name value root) t' result ∧
            t = rebinding root name value (.error e) ++ (t' ++ concluding name result) := by
  rw [bind]
  constructor
  · intro h
    obtain ⟨_, rfl, hasked⟩ := course_note_iff.mp h
    obtain ⟨answer, _, rfl, hanswered⟩ := course_ask_iff.mp hasked
    cases answer with
    | ok v =>
      obtain ⟨rfl, rfl⟩ := course_conclude_iff.mp hanswered
      exact .inl ⟨v, rfl, rfl⟩
    | error e =>
      by_cases hstop : e.isInterrupt = true
      · simp only [hstop, if_true, course_done_iff] at hanswered
        obtain ⟨rfl, rfl⟩ := hanswered
        exact .inr (.inl ⟨e, hstop, rfl, rfl⟩)
      · simp only [hstop, Bool.false_eq_true, if_false] at hanswered
        obtain ⟨t', a, _, hrecovery, hend, rfl⟩ := course_bind_iff.mp hanswered
        obtain ⟨rfl, rfl⟩ := course_conclude_iff.mp hend
        exact .inr (.inr ⟨e, t', hstop, hrecovery, rfl⟩)
  · rintro (⟨v, rfl, rfl⟩ | ⟨e, hstop, rfl, rfl⟩ | ⟨e, t', hstop, hrecovery, rfl⟩)
    · refine .note ?_
      exact .ask (Except.ok v) (course_conclude_iff.mpr ⟨rfl, rfl⟩)
    · refine .note ?_
      refine .ask (Except.error e) ?_
      simp [hstop]
    · refine .note ?_
      refine .ask (Except.error e) ?_
      simp only [hstop, Bool.false_eq_true, if_false]
      exact course_bind_iff.mpr
        ⟨t', result, _, hrecovery, course_conclude_iff.mpr ⟨rfl, rfl⟩, rfl⟩

/-- Against a provider that takes names apart into names, a bind goes the courses of a bind, and goes
each of them against some provider. -/
theorem bind_against_iff (name value root : Value) (course : List Step) (result : Except Fault Unit) :
    ((∃ provider, (bind name value root).against provider [] = (result, course)) ∧
        ReadsNames course) ↔
      BindCourse name value root course result := by
  have hanswer : Nonempty Answer := ⟨.ok .null⟩
  rw [← course_iff_against, course_attempt_iff]
  constructor
  · -- The restriction to names bears on the recovery alone.
    rintro ⟨⟨v, rfl, rfl⟩ | ⟨e, hstop, rfl, rfl⟩ | ⟨e, t, hstop, hrecovery, rfl⟩, hnames⟩
    · exact .direct
    · exact .interrupted hstop
    · have ht : ReadsNames t := (readsNames_append_iff.mp (readsNames_append_iff.mp hnames).2).1
      rcases course_walkFrom_iff.mp ⟨hrecovery, ht⟩ with ⟨e', rfl, rfl⟩ | ⟨n, t', rfl, hwalk⟩
      · exact .unreadable hstop
      · exact .walked hstop hwalk
  · intro h
    have hfailed : ∀ e, ReadsNames (rebinding root name value (.error e)) := fun e =>
      readsNames_rebinding root name value (.error e)
    cases h with
    | @direct v =>
      refine ⟨.inl ⟨v, rfl, rfl⟩, ?_⟩
      exact readsNames_append_iff.mpr
        ⟨readsNames_rebinding root name value (.ok v), readsNames_concluding name (.ok ())⟩
    | @interrupted e hstop => exact ⟨.inr (.inl ⟨e, hstop, rfl, rfl⟩), hfailed e⟩
    | @unreadable e e' hstop =>
      obtain ⟨hrecovery, ht⟩ := course_walkFrom_iff.mpr (.inl ⟨e', rfl, rfl⟩)
      exact ⟨.inr (.inr ⟨e, _, hstop, hrecovery, rfl⟩), readsNames_append_iff.mpr ⟨hfailed e, ht⟩⟩
    | @walked e n t _ hstop hwalk =>
      obtain ⟨hrecovery, ht⟩ := course_walkFrom_iff.mpr (.inr ⟨n, t, rfl, hwalk⟩)
      rw [List.append_assoc _ _ t, List.append_assoc]
      refine ⟨.inr (.inr ⟨e, _, hstop, hrecovery, rfl⟩), ?_⟩
      exact readsNames_append_iff.mpr ⟨hfailed e,
        readsNames_append_iff.mpr ⟨ht, readsNames_concluding name result⟩⟩

end NamingDirectory.Client
