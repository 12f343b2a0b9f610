import NamingDirectory.Proofs.Client.Interleaving
import NamingDirectory.Proofs.Memory.Tree
import NamingDirectory.Proofs.Memory.Walk

/-!
# Racing binds

Several binds of the naming client on one tree of memory contexts, at names none of which is another one or
above it. Their calls are answered one at a time, in any order.

What stands at a path above one of the names stays there, so a context that a bind holds is never out of date
(`May.kept`), and nobody touches the leaf of another (`May.leaf`). All that can go wrong is that a bind finds
a context missing, and that another one creates it before it does (`Outrun`). As the last one to create a
context is not outrun, not all can fail (`exists_not_outrun`).

The proof is by rely and guarantee, in three layers:

* `Sound` is the invariant of a moment. It relates the heap to the course of the race so far: what is there
  now and was not there at first was created by a bind, and its mark is in the course.
* `May A` is what the binds of a set do between two moments, and it holds of nothing as well as of several
  turns after another (`conduct_may`). Each kind of turn is shown once to be such a step: one that changes no
  binding (`may_of_heap_eq`), one that writes a leaf (`may_put`) and one that creates a context (`may_grow`).
* `Does` says that a part of a bind, started at a sound moment, makes such steps as long as the others do, and
  ends as it should. The parts are put together as the client does it: `does_descend` for one segment,
  `does_walk` by induction on the segments, `does_bind` for the whole bind.

What is promised of the race (`LosesNothing`) is then read off any two of its moments.
-/

namespace NamingDirectory.Memory

open Dialogue (Mark Scene Concurrent Keeps)

/-- Binds that start at once: a realm with a tree of memory contexts, and for each bind a text, the name that
the root reads it as, and a value that is no node. No name is another one or above it. -/
structure Race (ι : Type) where
  realm : Realm
  root : Nat
  text : ι → String
  name : ι → Name
  value : ι → Value
  isTree : realm.heap.IsTree root
  reads : ∀ i, readName realm.heap root (.text (text i)) = .ok (name i)
  isPlain : ∀ i, (value i).isNode = false
  apart : ∀ i j, i ≠ j → ¬(name i).segments <+: (name j).segments

namespace Race

/-- One moment of a race: the realm, and the course of all binds so far. -/
abbrev Moment (ι : Type) := Scene ι Event Request Answer Realm

variable {ι : Type} (race : Race ι)

/-- The race before its first turn. -/
def start : Concurrent ι Event Request Answer (Except Fault Unit) Realm where
  talk i := Client.bind (.text (race.text i)) (race.value i) (.context race.root)
  scene := ⟨race.realm, []⟩

/-- The race after turns in the given order. -/
def after [DecidableEq ι] (order : List ι) :
    Concurrent ι Event Request Answer (Except Fault Unit) Realm :=
  race.start.turns Realm.answer (Realm.hear Event.logger) order

/-- What a path leads to from the root. -/
def seen (s : Moment ι) (q : List Segment) : Option Value :=
  s.state.heap.at? (.context race.root) q

/-- What a path led to before the race. -/
def seenFirst (q : List Segment) : Option Value := race.realm.heap.at? (.context race.root) q

/-- Whether a path is properly above the name of a bind. -/
def IsAbove (q : List Segment) (i : ι) : Prop :=
  q <+: (race.name i).segments ∧ q ≠ (race.name i).segments

/-- Whether no value is in the way of a bind before the race. -/
def IsClear (i : ι) : Prop :=
  ∀ q w, race.IsAbove q i → race.seenFirst q = some w → ∃ c, w = .context c

/-- The mark of a bind that has created a context. -/
def created (i : ι) (node name child : Value) : ι × Mark Event Request Answer :=
  (i, .call ⟨node, .createContext name⟩ (.ok child))

/-- The mark of a bind that has looked and found nothing bound to a segment. -/
def missed (i : ι) (c : Nat) (s : Segment) : ι × Mark Event Request Answer :=
  (i, .call ⟨.context c, .lookup (.name (.single s))⟩ (.error (notBound s [s])))

/-- The mark of a bind that was to create a context where something is bound. -/
def barred (i : ι) (c : Nat) (s : Segment) : ι × Mark Event Request Answer :=
  (i, .call ⟨.context c, .createContext (.name (.single s))⟩ (.error (alreadyBound (.single s))))

/-- Whether a bind ended with a fault because it was outrun: nothing was bound to a segment when it looked, and
when it went on to create the context there, another one had created it. -/
def Outrun (i : ι) (e : Fault) (course : List (ι × Mark Event Request Answer)) : Prop :=
  ∃ before between after c s j child,
    course = before ++ missed i c s :: (between ++ barred i c s :: after) ∧
    j ≠ i ∧ created j (.context c) (.name (.single s)) child ∈ between ∧
    (∀ node name v, created i node name v ∉ between ++ after) ∧
    e = .failure .intermediateCreate
      (.text (Client.message .intermediateCreate (.text s.text) (alreadyBound (.single s))))
      (.text (race.text i)) (some (alreadyBound (.single s)))

/-! ### Paths above names

No name is above another, so a path above a name ends before any leaf. -/

section Paths

variable {race} {q below : List Segment} {s : Segment} {i j : ι}

/-- What is left of a name below a path says that the path is above it. -/
theorem isAbove_of_append (hbelow : below ≠ []) (hq : q ++ below = (race.name i).segments) :
    race.IsAbove q i := by
  refine ⟨⟨below, hq⟩, ?_⟩
  rintro rfl
  exact hbelow (List.append_right_eq_self.mp hq)

/-- What is above something that is above a name is above the name. -/
theorem IsAbove.of_concat (h : race.IsAbove (q ++ [s]) i) : race.IsAbove q i := by
  obtain ⟨⟨below, hbelow⟩, -⟩ := h
  apply isAbove_of_append (List.cons_ne_nil s below)
  rw [← hbelow, List.append_assoc, List.singleton_append]

/-- No name is above another one, nor at or above itself. -/
theorem not_prefix_of_isAbove (h : race.IsAbove q j) (i : ι) : ¬(race.name i).segments <+: q := by
  intro hpre
  by_cases hij : i = j
  · subst hij
    exact h.2 (h.1.eq_of_length_le hpre.length_le)
  · exact race.apart i j hij (hpre.trans h.1)

end Paths

/-! ### What holds all the time

The invariant of a moment, and what changes from one moment to a later one. Both speak of paths above names
only: what else is in the tree does not matter to a bind. -/

/-- What holds at each moment: there is a tree, nothing above the names is gone, whatever is new there was
created by one of the binds, and what they created stands. -/
structure Sound (s : Moment ι) : Prop where
  isTree : s.state.heap.IsTree race.root
  separator_eq : (s.state.heap.context race.root).separator =
    (race.realm.heap.context race.root).separator
  kept : ∀ q i w, race.IsAbove q i → race.seenFirst q = some w → race.seen s q = some w
  accounted : ∀ q t i c w, race.IsAbove (q ++ [t]) i → race.seen s q = some (.context c) →
    race.seen s (q ++ [t]) = some w →
    race.seenFirst (q ++ [t]) = some w ∨
      ∃ j id, w = .context id ∧ created j (.context c) (.name (.single t)) w ∈ s.course
  standing : ∀ i node name v, created i node name v ∈ s.course →
    ∃ q t c id, node = .context c ∧ name = .name (.single t) ∧ v = .context id ∧
      race.IsAbove (q ++ [t]) i ∧ race.seen s q = some (.context c) ∧
      race.seen s (q ++ [t]) = some (.context id)

/-- What the binds of a set may do between them: go on with their courses, and change nothing that stands
above a name, nor the leaf of a bind that is not of the set. -/
structure May (A : Set ι) (s s' : Moment ι) : Prop where
  course : ∃ marks, s'.course = s.course ++ marks ∧ ∀ x ∈ marks, x.1 ∈ A
  sound : race.Sound s → race.Sound s'
  kept : race.Sound s → ∀ q i w, race.IsAbove q i → race.seen s q = some w → race.seen s' q = some w
  leaf : race.Sound s → ∀ i ∉ A,
    race.seen s' (race.name i).segments = race.seen s (race.name i).segments

/-- What may be done can be done in several steps, and by more binds than one. -/
theorem conduct_may : Concurrent.Conduct race.May := by
  constructor
  case refl =>
    intro A s
    exact ⟨⟨[], by simp, by simp⟩, id, fun _ _ _ _ _ => id, fun _ _ _ => rfl⟩
  case trans =>
    intro A s s' s'' h h'
    obtain ⟨marks, hmarks, hA⟩ := h.course
    obtain ⟨marks', hmarks', hA'⟩ := h'.course
    constructor
    case course =>
      refine ⟨marks ++ marks', by rw [hmarks', hmarks, List.append_assoc], ?_⟩
      intro x hx
      rcases List.mem_append.mp hx with hx | hx
      · exact hA x hx
      · exact hA' x hx
    case sound => exact fun hs => h'.sound (h.sound hs)
    case kept => exact fun hs q i w hq hw => h'.kept (h.sound hs) q i w hq (h.kept hs q i w hq hw)
    case leaf => exact fun hs i hi => (h'.leaf (h.sound hs) i hi).trans (h.leaf hs i hi)
  case mono =>
    intro A B s s' hAB h
    obtain ⟨marks, hmarks, hA⟩ := h.course
    exact ⟨⟨marks, hmarks, fun x hx => hAB (hA x hx)⟩, h.sound, h.kept,
      fun hs i hi => h.leaf hs i fun hA => hi (hAB hA)⟩

/-! ### What one turn does

A turn adds one mark to the course and changes one binding at most. What it may do is shown for each kind of
turn, whatever bind has it, and from then on the heap is not looked at any more.

A turn that creates a context is the only one to add something above a name, and the mark of the creation is
what accounts for it later. -/

section Turns

variable {race} {s s' : Moment ι} {i : ι} {mark : Mark Event Request Answer} {q : List Segment}
  {t : Segment} {c : Nat}

/-- The next moment has one more mark. -/
def Follows (i : ι) (mark : Mark Event Request Answer) (s s' : Moment ι) : Prop :=
  s'.course = s.course ++ [(i, mark)]

theorem Follows.course (h : Follows i mark s s') :
    ∃ marks, s'.course = s.course ++ marks ∧ ∀ x ∈ marks, x.1 ∈ ({i} : Set ι) := by
  refine ⟨[(i, mark)], h, ?_⟩
  intro x hx
  rw [List.mem_singleton.mp hx]
  rfl

theorem Follows.mem_course (h : Follows i mark s s') {x : ι × Mark Event Request Answer}
    (hx : x ∈ s.course) : x ∈ s'.course := by
  rw [h]
  exact List.mem_append_left _ hx

/-- Whether a mark is none of a creation. -/
def IsQuiet (mark : Mark Event Request Answer) : Prop :=
  ∀ node name v, mark ≠ .call ⟨node, .createContext name⟩ (.ok v)

/-- What was created before a turn that creates nothing is what is created after it. -/
theorem Follows.mem_of_created (h : Follows i mark s s') (hmark : IsQuiet mark) {j : ι}
    {node name v : Value} (hx : created j node name v ∈ s'.course) : created j node name v ∈ s.course := by
  rw [h] at hx
  rcases List.mem_append.mp hx with hx | hx
  · exact hx
  · cases List.mem_singleton.mp hx
    exact absurd rfl (hmark node name v)

/-- A turn that creates nothing, and changes nothing above the names. -/
theorem Sound.quiet (hs : race.Sound s) (h : Follows i mark s s') (hmark : IsQuiet mark)
    (htree : s'.state.heap.IsTree race.root)
    (hseparator : (s'.state.heap.context race.root).separator = (s.state.heap.context race.root).separator)
    (habove : ∀ p k, race.IsAbove p k → race.seen s' p = race.seen s p) : race.Sound s' := by
  constructor
  case isTree => exact htree
  case separator_eq => exact hseparator.trans hs.separator_eq
  case kept =>
    intro p k w hp hw
    rw [habove p k hp]
    exact hs.kept p k w hp hw
  case accounted =>
    intro p u k d w hp hd hw
    rw [habove p k hp.of_concat] at hd
    rw [habove _ k hp] at hw
    rcases hs.accounted p u k d w hp hd hw with hfirst | ⟨j, id, hid, hmem⟩
    · exact .inl hfirst
    · exact .inr ⟨j, id, hid, h.mem_course hmem⟩
  case standing =>
    intro j node name v hmem
    obtain ⟨p, u, d, id, hnode, hname, hv, hp, hd, hid⟩ :=
      hs.standing j node name v (h.mem_of_created hmark hmem)
    refine ⟨p, u, d, id, hnode, hname, hv, hp, ?_, ?_⟩
    · rw [habove p j hp.of_concat]
      exact hd
    · rw [habove _ j hp]
      exact hid

/-- A turn that changes no binding. -/
theorem may_of_heap_eq (h : Follows i mark s s') (hmark : IsQuiet mark)
    (hheap : s'.state.heap = s.state.heap) : race.May {i} s s' := by
  have hseen : race.seen s' = race.seen s := by
    funext q
    rw [seen, seen, hheap]
  constructor
  case course => exact h.course
  case sound =>
    intro hs
    apply hs.quiet h hmark
    · rw [hheap]
      exact hs.isTree
    · rw [hheap]
    · intro p k _
      rw [hseen]
  case kept =>
    intro _ q k w _ hw
    rw [hseen]
    exact hw
  case leaf =>
    intro _ k _
    rw [hseen]

/-- A turn that binds the value of a bind at its name. -/
theorem may_put (h : Follows i mark s s') (hmark : IsQuiet mark) (hs : race.Sound s)
    (hc : race.seen s q = some (.context c)) (hq : q ++ [t] = (race.name i).segments)
    (hheap : s'.state.heap = s.state.heap.put c t (race.value i)) :
    race.May {i} s s' ∧ race.seen s' (race.name i).segments = some (race.value i) := by
  have hseen : ∀ p, race.seen s' p = if p = (race.name i).segments then some (race.value i)
      else if (race.name i).segments <+: p then none else race.seen s p := by
    intro p
    rw [seen, hheap, hs.isTree.at?_put hc t (race.isPlain i) p, hq]
    rfl
  -- Neither a path above a name nor the name of another is at the leaf or below it.
  have houtside : ∀ p, ¬(race.name i).segments <+: p → race.seen s' p = race.seen s p := by
    intro p hpre
    have hne : p ≠ (race.name i).segments := by
      rintro rfl
      exact hpre List.prefix_rfl
    rw [hseen, if_neg hne, if_neg hpre]
  have habove : ∀ p k, race.IsAbove p k → race.seen s' p = race.seen s p :=
    fun p k hp => houtside p (not_prefix_of_isAbove hp i)
  refine ⟨?_, by rw [hseen, if_pos rfl]⟩
  constructor
  case course => exact h.course
  case sound =>
    intro _
    apply hs.quiet h hmark _ _ habove
    · rw [hheap]
      exact hs.isTree.put hc t (race.isPlain i)
    · rw [hheap, Heap.separator_put]
  case kept =>
    intro _ p k w hp hw
    rw [habove p k hp]
    exact hw
  case leaf =>
    intro _ k hk
    exact houtside _ (race.apart i k (Ne.symm hk))

/-- A creation adds one path to what is seen, and nothing else is seen any differently. -/
theorem Sound.seen_grow (hs : race.Sound s) (hc : race.seen s q = some (.context c))
    (hnone : s.state.heap.get? c t = none) {separator : Separator}
    (hheap : s'.state.heap = (s.state.heap.push separator).put c t (.context s.state.heap.size))
    (p : List Segment) :
    race.seen s' p = if p = q ++ [t] then some (.context s.state.heap.size) else race.seen s p := by
  rw [seen, hheap, hs.isTree.at?_grow hc hnone separator p]
  rfl

theorem Sound.seen_grow_of_eq_some (hs : race.Sound s) (hc : race.seen s q = some (.context c))
    (hnone : s.state.heap.get? c t = none) {separator : Separator}
    (hheap : s'.state.heap = (s.state.heap.push separator).put c t (.context s.state.heap.size))
    {p : List Segment} {w : Value} (hw : race.seen s p = some w) : race.seen s' p = some w := by
  rw [hs.seen_grow hc hnone hheap, if_neg]
  · exact hw
  · rintro rfl
    rw [seen, Heap.at?_concat hc, hnone] at hw
    cases hw

/-- A turn that creates a context above a name. The mark of the creation accounts for the context. -/
theorem Sound.grow (hs : race.Sound s)
    (h : Follows i (.call ⟨.context c, .createContext (.name (.single t))⟩
      (.ok (.context s.state.heap.size))) s s')
    (hc : race.seen s q = some (.context c)) (hq : race.IsAbove (q ++ [t]) i)
    (hnone : s.state.heap.get? c t = none) {separator : Separator}
    (hheap : s'.state.heap = (s.state.heap.push separator).put c t (.context s.state.heap.size)) :
    race.Sound s' := by
  have hseen := hs.seen_grow hc hnone hheap
  have hold : ∀ p w, race.seen s p = some w → race.seen s' p = some w :=
    fun p w hw => hs.seen_grow_of_eq_some hc hnone hheap hw
  constructor
  case isTree => rw [hheap]; exact hs.isTree.grow hc hnone separator
  case separator_eq =>
    rw [hheap, Heap.separator_put, Heap.context_push, if_neg (Nat.ne_of_lt hs.isTree.root_lt_size)]
    exact hs.separator_eq
  case kept =>
    intro p k w hp hw
    exact hold p w (hs.kept p k w hp hw)
  case accounted =>
    intro p u k d w hp hd hw
    rw [hseen] at hd hw
    by_cases hnew : p ++ [u] = q ++ [t]
    · -- The new context itself, which the last mark accounts for.
      obtain ⟨rfl, hut⟩ := List.append_inj' hnew rfl
      cases hut
      have hne : p ≠ p ++ [t] := by simp
      rw [if_neg hne, hc] at hd
      rw [if_pos rfl] at hw
      cases hd
      cases hw
      refine .inr ⟨i, s.state.heap.size, rfl, ?_⟩
      rw [h]
      exact List.mem_append_right _ (List.mem_singleton.mpr rfl)
    · rw [if_neg hnew] at hw
      by_cases hpq : p = q ++ [t]
      · -- Nothing is bound in the new context yet.
        have hbefore : s.state.heap.at? (.context race.root) (q ++ [t]) = none := by
          rw [Heap.at?_concat hc, hnone]
        rw [seen, hpq, Heap.at?_append, hbefore] at hw
        cases hw
      · rw [if_neg hpq] at hd
        rcases hs.accounted p u k d w hp hd hw with hfirst | ⟨j, id, hid, hmem⟩
        · exact .inl hfirst
        · exact .inr ⟨j, id, hid, h.mem_course hmem⟩
  case standing =>
    intro j node name v hmem
    rw [h] at hmem
    rcases List.mem_append.mp hmem with hmem | hmem
    · obtain ⟨p, u, d, id, hnode, hname, hv, hp, hd, hid⟩ := hs.standing j node name v hmem
      exact ⟨p, u, d, id, hnode, hname, hv, hp, hold p _ hd, hold _ _ hid⟩
    · cases List.mem_singleton.mp hmem
      exact ⟨q, t, c, s.state.heap.size, rfl, rfl, rfl, hq, hold q _ hc, by rw [hseen, if_pos rfl]⟩

/-- A turn that creates a context above the name of a bind. -/
theorem may_grow
    (h : Follows i (.call ⟨.context c, .createContext (.name (.single t))⟩
      (.ok (.context s.state.heap.size))) s s')
    (hs : race.Sound s) (hc : race.seen s q = some (.context c)) (hq : race.IsAbove (q ++ [t]) i)
    (hnone : s.state.heap.get? c t = none) (separator : Separator)
    (hheap : s'.state.heap = (s.state.heap.push separator).put c t (.context s.state.heap.size)) :
    race.May {i} s s' ∧ race.seen s' (q ++ [t]) = some (.context s.state.heap.size) := by
  have hseen := hs.seen_grow hc hnone hheap
  refine ⟨?_, by rw [hseen, if_pos rfl]⟩
  constructor
  case course => exact h.course
  case sound => exact fun _ => hs.grow h hc hq hnone hheap
  case kept => exact fun _ p k w _ hw => hs.seen_grow_of_eq_some hc hnone hheap hw
  case leaf =>
    intro _ k _
    rw [hseen, if_neg]
    intro heq
    exact not_prefix_of_isAbove hq k (heq ▸ List.prefix_rfl)

end Turns

/-! ### What one bind does

From here on a bind is followed along its own course, with any steps of the others in between. Each lemma on a
part says how the part ends, in a form that the steps of the others keep: a context that is held is still
there, a value at a name is still there, and what was missing may have been created meanwhile, but not by this
bind. -/

section Binds

variable {race} {s s' : Moment ι} {i : ι} {q rest : List Segment} {t : Segment} {c : Nat}
  {result : Except Fault Unit}

/-- How a bind ends: with its value at its name, or with a fault, and then it was outrun if no value was in its
way. -/
def Ends (race : Race ι) (i : ι) (result : Except Fault Unit) (s : Moment ι) : Prop :=
  race.Sound s ∧
    match result with
    | .ok () => race.seen s (race.name i).segments = some (race.value i)
    | .error e => race.IsClear i → race.Outrun i e s.course

/-- Whether a part of a bind keeps its part, whatever the other binds do. -/
abbrev Does {α : Type} (race : Race ι) (i : ι) (ends : α → Moment ι → Prop) (talk : Client.Talk α)
    (s : Moment ι) : Prop :=
  Keeps Realm.answer (Realm.hear Event.logger) (race.May {i}ᶜ) (race.May {i}) i ends talk s

/-- How a bind has ended is not changed by the others. -/
theorem Ends.after (h : race.Ends i result s) (hs : race.May {i}ᶜ s s') : race.Ends i result s' := by
  obtain ⟨hsound, hresult⟩ := h
  refine ⟨hs.sound hsound, ?_⟩
  cases result with
  | ok _ =>
    have hsame := hs.leaf hsound i (fun hi => hi rfl)
    exact hsame.trans hresult
  | error e =>
    intro hclear
    obtain ⟨before, between, after, c, t, j, child, hcourse, hj, hmem, hnone, he⟩ := hresult hclear
    obtain ⟨marks, hmarks, hothers⟩ := hs.course
    refine ⟨before, between, after ++ marks, c, t, j, child, ?_, hj, hmem, ?_, he⟩
    · rw [hmarks, hcourse]
      simp only [List.append_assoc, List.cons_append]
    · intro node name v hmem
      rw [← List.append_assoc] at hmem
      rcases List.mem_append.mp hmem with hmem | hmem
      · exact hnone node name v hmem
      · exact hothers _ hmem rfl

theorem isQuiet_event (e : Event) : IsQuiet (.event e) := by
  intro node name v h
  cases h

theorem isQuiet_error (request : Request) (e : Fault) : IsQuiet (.call request (.error e)) := by
  intro node name v h
  cases h

theorem isQuiet_call (node : Value) {action : Action} (h : ∀ name, action ≠ .createContext name)
    (a : Answer) : IsQuiet (.call ⟨node, action⟩ a) := by
  intro _ name _ hmark
  cases hmark
  exact h name rfl

/-- A turn in which a bind only reports something. -/
theorem may_note (e : Event) : race.May {i} s (s.note (Realm.hear Event.logger) i e) :=
  may_of_heap_eq rfl (isQuiet_event e) rfl

theorem does_conclude (h : race.Ends i result s) (name : Value) :
    race.Does i (race.Ends i) (Client.conclude name result) s := by
  cases result with
  | ok _ =>
    intro s₁ hs₁
    have h₁ := h.after hs₁
    refine ⟨may_note _, ?_⟩
    intro s₂ hs₂
    have hnoted : race.Ends i (.ok ()) (s₁.note (Realm.hear Event.logger) i (.bindDone name)) :=
      ⟨(may_note _).sound h₁.1, h₁.2⟩
    exact hnoted.after hs₂
  | error e =>
    intro s₁ hs₁
    exact h.after hs₁

/-- Whether a bind holds a context rightly: it is at the path that the bind has come. -/
structure Holds (race : Race ι) (q : List Segment) (c : Nat) (s : Moment ι) : Prop where
  sound : race.Sound s
  seen_eq : race.seen s q = some (.context c)

/-- A context above a name is held rightly whatever is done meanwhile. -/
theorem Holds.after {A : Set ι} (h : race.Holds q c s) (hq : race.IsAbove q i) (hs : race.May A s s') :
    race.Holds q c s' :=
  ⟨hs.sound h.sound, hs.kept h.sound q i _ hq h.seen_eq⟩

/-- The last step: the leaf is bound in the context that the bind holds. -/
theorem does_bindLeaf (h : race.Holds q c s) (hq : q ++ [t] = (race.name i).segments) :
    race.Does i (race.Ends i)
      (Client.bindLeaf (.text (race.text i)) (race.value i) (.context c) (.name (.single t))) s := by
  have habove : race.IsAbove q i := isAbove_of_append (List.cons_ne_nil t []) hq
  intro s₁ hs₁
  have hnote : race.May {i} s₁ (s₁.note (Realm.hear Event.logger) i (.bindBegun (.name (.single t)))) :=
    may_note _
  refine ⟨hnote, ?_⟩
  intro s₂ hs₂
  have h₂ := ((h.after habove hs₁).after habove hnote).after habove hs₂
  let bound := s₂.ask Realm.answer i ⟨.context c, .rebind (.name (.single t)) (race.value i)⟩
  have hbound : race.May {i} s₂ bound ∧ race.seen bound (race.name i).segments = some (race.value i) :=
    may_put rfl (isQuiet_call _ (by simp) _) h₂.sound h₂.seen_eq hq rfl
  refine ⟨hbound.1, ?_⟩
  intro s₃ hs₃
  have hends : race.Ends i (.ok ()) bound := ⟨hbound.1.sound h₂.sound, hbound.2⟩
  exact hends.after hs₃

/-- How a step down ends: at the context of the segment, or as the whole bind does. -/
def Descends (race : Race ι) (i : ι) (q : List Segment) (t : Segment) (result : Except Fault Value)
    (s : Moment ι) : Prop :=
  match result with
  | .ok child => ∃ id, child = .context id ∧ race.Holds (q ++ [t]) id s
  | .error e => race.Ends i (.error e) s

theorem Descends.after {result : Except Fault Value} (h : race.Descends i q t result s)
    (hq : race.IsAbove (q ++ [t]) i) (hs : race.May {i}ᶜ s s') : race.Descends i q t result s' := by
  cases result with
  | ok child =>
    obtain ⟨id, rfl, hheld⟩ := h
    exact ⟨id, rfl, hheld.after hq hs⟩
  | error e =>
    have hends : race.Ends i (.error e) s := h
    exact hends.after hs

/-- What a context answers to a lookup of one segment. -/
theorem lookup_eq (s : Moment ι) (c : Nat) (t : Segment) :
    Realm.answer ⟨.context c, .lookup (.name (.single t))⟩ s.state =
      match s.state.heap.get? c t with
      | some v => (.ok v, s.state)
      | none => (.error (notBound t [t]), s.state) := by
  rw [Realm.answer_context, Realm.askContext, lookup_single]
  cases s.state.heap.get? c t <;> rfl

theorem create_eq (s : Moment ι) (c : Nat) (t : Segment) :
    Realm.answer ⟨.context c, .createContext (.name (.single t))⟩ s.state =
      match s.state.heap.get? c t with
      | some _ => (.error (alreadyBound (.single t)), s.state)
      | none =>
        (.ok (.context s.state.heap.size),
          { s.state with
            heap := (s.state.heap.push (s.state.heap.context c).separator).put c t
              (.context s.state.heap.size) }) := by
  rw [Realm.answer_context, Realm.askContext, create_single]
  cases s.state.heap.get? c t <;> rfl

/-- A turn in which a bind asks something that changes no binding. -/
theorem may_ask {request : Request}
    (hmark : IsQuiet (.call request (Realm.answer request s.state).1))
    (hheap : (Realm.answer request s.state).2.heap = s.state.heap) :
    race.May {i} s (s.ask Realm.answer i request) :=
  may_of_heap_eq rfl hmark hheap

/-- Whether a bind looked and found that nothing is bound to a segment, and nobody had created a context
there. -/
def Misses (race : Race ι) (i : ι) (q : List Segment) (t : Segment) (c : Nat) (s : Moment ι) : Prop :=
  race.seenFirst (q ++ [t]) = none ∧
    ∃ before between, s.course = before ++ missed i c t :: between ∧
      (∀ j child, created j (.context c) (.name (.single t)) child ∉ before) ∧
      ∀ node name v, created i node name v ∉ between

theorem Misses.grow (h : race.Misses i q t c s) {marks : List (ι × Mark Event Request Answer)}
    (hcourse : s'.course = s.course ++ marks) (hmarks : ∀ node name v, created i node name v ∉ marks) :
    race.Misses i q t c s' := by
  obtain ⟨hfirst, before, between, hbefore, hnobody, hnone⟩ := h
  refine ⟨hfirst, before, between ++ marks, ?_, hnobody, ?_⟩
  · rw [hcourse, hbefore, List.append_assoc, List.cons_append]
  · intro node name v hmem
    rcases List.mem_append.mp hmem with hmem | hmem
    · exact hnone node name v hmem
    · exact hmarks node name v hmem

theorem Misses.after (h : race.Misses i q t c s) (hs : race.May {i}ᶜ s s') : race.Misses i q t c s' := by
  obtain ⟨marks, hmarks, hothers⟩ := hs.course
  apply h.grow hmarks
  intro node name v hmem
  exact hothers _ hmem rfl

theorem Misses.note (h : race.Misses i q t c s) (e : Event) :
    race.Misses i q t c (s.note (Realm.hear Event.logger) i e) := by
  apply h.grow rfl
  intro node name v hmem
  cases List.mem_singleton.mp hmem

/-! ### One step down

A lookup, and a creation if nothing was found. In between others have their turns, so the creation may come
too late. Then the course shows it: the lookup that found nothing, somebody's creation of that context, and
the creation that was refused. -/

/-- What a bind finds missing was not there before the race, and was not created so far. -/
theorem misses_of_none (h : race.Holds q c s) (hq : race.IsAbove (q ++ [t]) i)
    (hnone : s.state.heap.get? c t = none) :
    race.Misses i q t c
      (s.ask Realm.answer i ⟨.context c, .lookup (.name (.single t))⟩) := by
  have hunseen : race.seen s (q ++ [t]) = none := by
    rw [seen, Heap.at?_concat h.seen_eq, hnone]
  refine ⟨?_, s.course, [], ?_, ?_, fun _ _ _ hmem => nomatch hmem⟩
  · -- What was there before the race would still be there.
    cases hfirst : race.seenFirst (q ++ [t]) with
    | none => rfl
    | some w =>
      have hkept := h.sound.kept _ i w hq hfirst
      rw [hunseen] at hkept
      cases hkept
  · show s.course ++ [_] = _
    rw [lookup_eq, hnone]
    rfl
  · intro j child hmem
    -- What was created stands, in the one place where the context is.
    obtain ⟨p, u, d, id, hnode, hname, -, -, hd, hid⟩ := h.sound.standing j _ _ _ hmem
    cases hnode
    cases hname
    have hpath : p = q := h.sound.isTree.unshared p q c hd h.seen_eq
    rw [hpath, hunseen] at hid
    cases hid

/-- A bind that finds the context created after all was outrun: the course has its lookup, then the creation
by somebody else, and now the creation that is refused. -/
theorem outrun_of_misses (h : race.Holds q c s) (hq : race.IsAbove (q ++ [t]) i)
    (hmisses : race.Misses i q t c s) {w : Value} (hw : s.state.heap.get? c t = some w) :
    race.Outrun i (Client.failed .intermediateCreate (.text t.text) (.text (race.text i))
        (alreadyBound (.single t)))
      (s.course ++ [barred i c t]) := by
  obtain ⟨hfirst, before, between, hcourse, hnobody, hnone⟩ := hmisses
  have hseen : race.seen s (q ++ [t]) = some w := by
    rw [seen, Heap.at?_concat h.seen_eq, hw]
  rcases h.sound.accounted q t i c w hq h.seen_eq hseen with hthen | ⟨j, id, rfl, hmem⟩
  · rw [hfirst] at hthen
    cases hthen
  -- Not before the lookup, so after it: whoever created the context did it in between.
  · have hbetween : created j (.context c) (.name (.single t)) (.context id) ∈ between := by
      rw [hcourse] at hmem
      rcases List.mem_append.mp hmem with hmem | hmem
      · exact absurd hmem (hnobody j _)
      · rcases List.mem_cons.mp hmem with hmem | hmem
        · cases hmem
        · exact hmem
    refine ⟨before, between, [], c, t, j, .context id, ?_, ?_, hbetween, ?_, rfl⟩
    · rw [hcourse, List.append_assoc, List.cons_append]
    · rintro rfl
      exact hnone _ _ _ hbetween
    · rw [List.append_nil]
      exact hnone

/-- The second half of a step down: the context that was missing is created. -/
theorem does_create (h : race.Holds q c s) (hq : race.IsAbove (q ++ [t]) i)
    (hmisses : race.Misses i q t c s) :
    race.Does i (race.Descends i q t)
      (.ask ⟨.context c, .createContext (.name (.single t))⟩ fun
        | .ok child => .done (.ok child)
        | .error e =>
          .done (.error (Client.failed .intermediateCreate (.text t.text) (.text (race.text i)) e))) s := by
  intro s₁ hs₁
  have h₁ := h.after hq.of_concat hs₁
  have hmisses₁ := hmisses.after hs₁
  let asked := s₁.ask Realm.answer i ⟨.context c, .createContext (.name (.single t))⟩
  cases hget : s₁.state.heap.get? c t with
  | none =>
    -- The segment is still unbound, so the creation goes through.
    have hanswer := create_eq s₁ c t
    rw [hget] at hanswer
    have hfollows : Follows i (.call ⟨.context c, .createContext (.name (.single t))⟩
        (.ok (.context s₁.state.heap.size))) s₁ asked := by
      show s₁.course ++ [_] = _
      rw [hanswer]
    obtain ⟨hmay, hseen⟩ : race.May {i} s₁ asked ∧
        race.seen asked (q ++ [t]) = some (.context s₁.state.heap.size) := by
      apply may_grow hfollows h₁.sound h₁.seen_eq hq hget (s₁.state.heap.context c).separator
      show (Realm.answer _ s₁.state).2.heap = _
      rw [hanswer]
    refine ⟨hmay, ?_⟩
    rw [hanswer]
    intro s₂ hs₂
    have hdescends : race.Descends i q t (.ok (.context s₁.state.heap.size)) asked :=
      ⟨s₁.state.heap.size, rfl, hmay.sound h₁.sound, hseen⟩
    exact hdescends.after hq hs₂
  | some w =>
    -- Another bind created it since the lookup. This is the one way in which a bind is outrun.
    have hanswer := create_eq s₁ c t
    rw [hget] at hanswer
    have hmay : race.May {i} s₁ asked := by
      apply may_ask
      · rw [hanswer]
        exact isQuiet_error _ _
      · rw [hanswer]
    refine ⟨hmay, ?_⟩
    rw [hanswer]
    intro s₂ hs₂
    have houtrun := outrun_of_misses h₁ hq hmisses₁ hget
    have hcourse : asked.course = s₁.course ++ [barred i c t] := by
      show s₁.course ++ [_] = _
      rw [hanswer]
      rfl
    rw [← hcourse] at houtrun
    have hends : race.Ends i (.error (Client.failed .intermediateCreate (.text t.text)
        (.text (race.text i)) (alreadyBound (.single t)))) asked :=
      ⟨hmay.sound h₁.sound, fun _ => houtrun⟩
    exact hends.after hs₂

/-- Where a value is in the way, it was there before the race. -/
theorem not_isClear_of_value (h : race.Holds q c s) (hq : race.IsAbove (q ++ [t]) i) {w : Value}
    (hw : s.state.heap.get? c t = some w) (hvalue : w.isNode = false) : ¬race.IsClear i := by
  intro hclear
  have hseen : race.seen s (q ++ [t]) = some w := by
    rw [seen, Heap.at?_concat h.seen_eq, hw]
  rcases h.sound.accounted q t i c w hq h.seen_eq hseen with hfirst | ⟨j, id, rfl, -⟩
  · obtain ⟨id, rfl⟩ := hclear _ w hq hfirst
    cases hvalue
  · cases hvalue

/-- One step down: the context that is there, or a new one. -/
theorem does_descend (h : race.Holds q c s) (hq : race.IsAbove (q ++ [t]) i) :
    race.Does i (race.Descends i q t)
      (Client.descend (.text (race.text i)) (.context c) t) s := by
  intro s₁ hs₁
  have hnote : race.May {i} s₁ (s₁.note (Realm.hear Event.logger) i (.stepSought (.text t.text))) :=
    may_note _
  refine ⟨hnote, ?_⟩
  intro s₂ hs₂
  have h₂ := ((h.after hq.of_concat hs₁).after hq.of_concat hnote).after hq.of_concat hs₂
  let asked := s₂.ask Realm.answer i ⟨.context c, .lookup (.name (.single t))⟩
  have hasked : race.May {i} s₂ asked := by
    apply may_ask (isQuiet_call _ (by simp) _)
    rw [lookup_eq]
    split <;> rfl
  have hheld : race.Holds q c asked := h₂.after hq.of_concat hasked
  refine ⟨hasked, ?_⟩
  have hanswer := lookup_eq s₂ c t
  cases hget : s₂.state.heap.get? c t with
  | none =>
    rw [hget] at hanswer
    -- What is missing now may be there at the creation, which is what `Misses` keeps track of.
    have hmisses : race.Misses i q t c asked := misses_of_none h₂ hq hget
    rw [hanswer]
    intro s₃ hs₃
    have hnote₃ : race.May {i} s₃
        (s₃.note (Realm.hear Event.logger) i (.stepMissing (.text t.text))) := may_note _
    refine ⟨hnote₃, ?_⟩
    exact does_create ((hheld.after hq.of_concat hs₃).after hq.of_concat hnote₃) hq
      ((hmisses.after hs₃).note _)
  | some w =>
    rw [hget] at hanswer
    -- What is bound above a name stays, so the answer still holds at the next turn of this bind.
    have hseen : race.seen asked (q ++ [t]) = some w := by
      apply hasked.kept h₂.sound _ i w hq
      rw [seen, Heap.at?_concat h₂.seen_eq, hget]
    rw [hanswer]
    cases hnode : w.isNode with
    | true =>
      obtain ⟨id, rfl⟩ := hheld.sound.isTree.holdsContexts _ w hseen hnode
      have hdescends : race.Descends i q t (.ok (.context id)) asked :=
        ⟨id, rfl, hheld.sound, hseen⟩
      intro s₃ hs₃
      refine ⟨may_note _, ?_⟩
      intro s₄ hs₄
      have hfound : race.Descends i q t (.ok (.context id))
          (s₃.note (Realm.hear Event.logger) i (.stepFound (.text t.text))) := by
        obtain ⟨child, hid, hchild⟩ := hdescends.after hq hs₃
        exact ⟨child, hid, hchild.after hq (may_note _)⟩
      exact hfound.after hq hs₄
    | false =>
      simp only [hnode, Bool.false_eq_true, if_false]
      intro s₃ hs₃
      have hends : race.Ends i (.error (Client.notANode (.text t.text) (.text (race.text i)))) asked :=
        ⟨hheld.sound, fun hclear => absurd hclear (not_isClear_of_value h₂ hq hget hnode)⟩
      exact hends.after hs₃

/-! ### The walk and the bind

The parts put together as the client does it. Before the walk there is the attempt to bind the whole name,
which writes at the same leaf or changes nothing. -/

/-- All steps down, and the leaf. The context that the bind holds is above its name until only the leaf is
left. -/
theorem does_walk (h : race.Holds q c s) (hq : q ++ t :: rest = (race.name i).segments) :
    race.Does i (race.Ends i)
      (Client.walk (.text (race.text i)) (race.value i) (.context c) t rest) s := by
  -- Along the segments; what carries the induction is that the context is held rightly.
  induction rest generalizing q t c s with
  | nil => exact does_bindLeaf h hq
  | cons u rest ih =>
    have hqt : (q ++ [t]) ++ u :: rest = (race.name i).segments := by
      rw [← hq, List.append_assoc, List.singleton_append]
    have habove : race.IsAbove (q ++ [t]) i := isAbove_of_append (List.cons_ne_nil u rest) hqt
    rw [Client.walk]
    apply Keeps.bind (conduct_may race |>.refl _)
    apply (does_descend h habove).mono
    intro result s₁ hdescends
    cases result with
    | ok child =>
      obtain ⟨id, rfl, hchild⟩ := hdescends
      exact ih hchild hqt
    | error e =>
      intro s₂ hs₂
      have hends : race.Ends i (.error e) s₁ := hdescends
      exact hends.after hs₂

/-- The root reads the name of a bind at any time as it did before the race. -/
theorem reads_of_sound (h : race.Sound s) (i : ι) :
    readName s.state.heap race.root (.text (race.text i)) = .ok (race.name i) := by
  rw [← race.reads i, readName, readName, h.separator_eq]

/-- The walk from the root, with the reading of the name before it. -/
theorem does_walkFrom (h : race.Sound s) (hi : race.IsAbove [] i) :
    race.Does i (race.Ends i)
      (Client.walkFrom (.text (race.text i)) (race.value i) (.context race.root)) s := by
  have hroot : race.Holds [] race.root s := ⟨h, Heap.at?_nil⟩
  intro s₁ hs₁
  have h₁ := hroot.after hi hs₁
  have hanswer : Realm.answer ⟨.context race.root, .readName (.text (race.text i))⟩ s₁.state =
      (.ok (.name (race.name i)), s₁.state) := by
    rw [Realm.answer_context, Realm.askContext, reads_of_sound h₁.sound]
    rfl
  have hasked : race.May {i} s₁
      (s₁.ask Realm.answer i ⟨.context race.root, .readName (.text (race.text i))⟩) := by
    apply may_ask (isQuiet_call _ (by simp) _)
    rw [hanswer]
  refine ⟨hasked, ?_⟩
  rw [hanswer]
  exact does_walk (h₁.after hi hasked) rfl

/-- A bind keeps its part from any moment on at which all is sound. -/
theorem does_bind (h : race.Sound s) (i : ι) :
    race.Does i (race.Ends i)
      (Client.bind (.text (race.text i)) (race.value i) (.context race.root)) s := by
  intro s₁ hs₁
  have hnote : race.May {i} s₁
      (s₁.note (Realm.hear Event.logger) i (.bindBegun (.text (race.text i)))) := may_note _
  refine ⟨hnote, ?_⟩
  intro s₂ hs₂
  have h₂ : race.Sound s₂ := hs₂.sound (hnote.sound (hs₁.sound h))
  let request : Request := ⟨.context race.root, .rebind (.text (race.text i)) (race.value i)⟩
  let asked := s₂.ask Realm.answer i request
  have hquiet : ∀ a, IsQuiet (.call request a) := isQuiet_call _ (by simp)
  rcases rebind_text_cases s₂.state.heap race.root (race.text i) (race.value i) with
    ⟨n, c, hn, hc, hok⟩ | ⟨kind, message, name, herror⟩
  · -- The whole name at once, if the contexts above the leaf are there.
    rw [reads_of_sound h₂] at hn
    cases hn
    have hanswer : Realm.answer request s₂.state =
        (.ok .null, { s₂.state with
          heap := s₂.state.heap.put c (race.name i).leaf (race.value i) }) := by
      show s₂.state.askContext race.root (.rebind _ _) = _
      rw [Realm.askContext, hok]
      rfl
    have hheap : asked.state.heap = s₂.state.heap.put c (race.name i).leaf (race.value i) := by
      show (Realm.answer request s₂.state).2.heap = _
      rw [hanswer]
    obtain ⟨hput, hleaf⟩ : race.May {i} s₂ asked ∧
        race.seen asked (race.name i).segments = some (race.value i) :=
      may_put rfl (hquiet _) h₂ hc (race.name i).parents_append_leaf hheap
    refine ⟨hput, ?_⟩
    rw [hanswer]
    have hends : race.Ends i (.ok ()) asked := ⟨hput.sound h₂, hleaf⟩
    exact does_conclude hends _
  · -- Otherwise the walk starts from the root, in whatever heap the others have left.
    have hanswer : Realm.answer request s₂.state = (.error (.refuse kind message name), s₂.state) := by
      show s₂.state.askContext race.root (.rebind _ _) = _
      rw [Realm.askContext, herror]
      rfl
    have hasked : race.May {i} s₂ asked := by
      apply may_ask (hquiet _)
      rw [hanswer]
    refine ⟨hasked, ?_⟩
    rw [hanswer]
    have hi : race.IsAbove [] i := isAbove_of_append (List.cons_ne_nil _ _) (List.nil_append _)
    apply Keeps.bind (conduct_may race |>.refl _)
    apply (does_walkFrom (hasked.sound h₂) hi).mono
    intro result s₃ hends
    exact does_conclude hends _

end Binds

/-! ### The race as a whole

Each bind keeps its part as long as the others keep theirs, so all of them do at any time, by induction on the
order of the turns. -/

section Whole

/-- Before the race nothing is new, so there is nothing to account for. -/
theorem sound_start : race.Sound race.start.scene := by
  constructor
  case isTree => exact race.isTree
  case separator_eq => rfl
  case kept => exact fun _ _ _ _ => id
  case accounted => exact fun _ _ _ _ _ _ _ => .inl
  case standing => exact fun _ _ _ _ hmem => nomatch hmem

variable [DecidableEq ι]

/-- At any time all binds keep their parts, and all is sound. -/
theorem keep_after (order : List ι) :
    Concurrent.AllKeep Realm.answer (Realm.hear Event.logger) race.May race.Ends (race.after order) ∧
      race.Sound (race.after order).scene := by
  have hstart : race.start.AllKeep Realm.answer (Realm.hear Event.logger) race.May race.Ends :=
    does_bind (sound_start race)
  obtain ⟨hall, hmay⟩ := Concurrent.keeps_turns (conduct_may race) hstart order
  exact ⟨hall, hmay.sound (sound_start race)⟩

/-- What the binds do together from one moment to a later one. -/
theorem may_after (past future : List ι) :
    race.May Set.univ (race.after past).scene (race.after (past ++ future)).scene := by
  have happend : race.after (past ++ future) =
      (race.after past).turns Realm.answer (Realm.hear Event.logger) future :=
    Concurrent.turns_append past future
  rw [happend]
  exact (Concurrent.keeps_turns (conduct_may race) (keep_after race past).1 future).2

end Whole

/-! ### Somebody comes through

In a race in which no value is in the way a bind fails only if it was outrun, and for that somebody had to
create a context after it looked. -/

/-- A course in which a context was created has a last such mark. -/
theorem exists_last_created (course : List (ι × Mark Event Request Answer))
    (h : ∃ i node name v, created i node name v ∈ course) :
    ∃ earlier i node name v later, course = earlier ++ created i node name v :: later ∧
      ∀ j node' name' v', created j node' name' v' ∉ later := by
  induction course with
  | nil =>
    obtain ⟨i, node, name, v, hmem⟩ := h
    cases hmem
  | cons x course ih =>
    by_cases hlater : ∃ i node name v, created i node name v ∈ course
    · obtain ⟨earlier, i, node, name, v, later, rfl, hnone⟩ := ih hlater
      exact ⟨x :: earlier, i, node, name, v, later, rfl, hnone⟩
    · obtain ⟨i, node, name, v, hmem⟩ := h
      rcases List.mem_cons.mp hmem with rfl | hmem
      · refine ⟨[], i, node, name, v, course, rfl, ?_⟩
        intro j node' name' v' hmem'
        exact hlater ⟨j, node', name', v', hmem'⟩
      · exact absurd ⟨i, node, name, v, hmem⟩ hlater

/-- The last one to create a context is not outrun: whoever outran it would have created one later. -/
theorem exists_not_outrun [Nonempty ι] (course : List (ι × Mark Event Request Answer)) :
    ∃ i, ∀ e, ¬race.Outrun i e course := by
  by_cases hany : ∃ i node name v, created i node name v ∈ course
  · obtain ⟨earlier, i, node, name, v, later, hlast, hnone⟩ := exists_last_created course hany
    refine ⟨i, ?_⟩
    rintro e ⟨before, between, after, c, s, j, child, hcourse, -, hother, hown, -⟩
    -- Its last creation was before it looked, the other one's was after that.
    have hafter : created i node name v ∉ missed i c s :: (between ++ barred i c s :: after) := by
      intro hmem
      rcases List.mem_cons.mp hmem with hmem | hmem
      · cases hmem
      · rcases List.mem_append.mp hmem with hmem | hmem
        · exact hown _ _ _ (List.mem_append_left _ hmem)
        · rcases List.mem_cons.mp hmem with hmem | hmem
          · cases hmem
          · exact hown _ _ _ (List.mem_append_right _ hmem)
    rw [hlast] at hcourse
    rcases List.append_eq_append_iff.mp hcourse with ⟨skipped, hbefore, hrest⟩ | ⟨skipped, -, hrest⟩
    · cases skipped with
      | nil => cases hrest
      | cons x skipped =>
        obtain ⟨-, hlater⟩ := List.cons.inj hrest
        apply hnone j _ _ _
        rw [hlater]
        exact List.mem_append_right _ (List.mem_cons_of_mem _ (List.mem_append_left _ hother))
    · apply hafter
      rw [hrest]
      exact List.mem_append_right _ (List.mem_cons_self ..)
  · obtain ⟨i⟩ := ‹Nonempty ι›
    refine ⟨i, ?_⟩
    rintro e ⟨before, between, after, c, s, j, child, rfl, -, hother, -, -⟩
    refine hany ⟨j, .context c, .name (.single s), child, ?_⟩
    exact List.mem_append_right _ (List.mem_cons_of_mem _ (List.mem_append_left _ hother))

/-! ### No update is lost

The promises, each about any moment of any order of turns, and read off the invariant there. -/

variable [DecidableEq ι]

/-- What is promised to binds that race, in any order of their turns. -/
structure LosesNothing (race : Race ι) : Prop where
  /-- A context above a name stays where it is, whatever turns follow. -/
  stays : ∀ past future q i c, race.IsAbove q i →
    race.seen (race.after past).scene q = some (.context c) →
    race.seen (race.after (past ++ future)).scene q = some (.context c)
  /-- So does each context that one of the binds created. -/
  stands : ∀ past future i node name v, created i node name v ∈ (race.after past).scene.course →
    ∃ q c, v = .context c ∧ race.IsAbove q i ∧
      race.seen (race.after (past ++ future)).scene q = some (.context c)
  /-- A bind that returned has its value at its name from then on. -/
  found : ∀ past future i, (race.after past).talk i = .done (.ok ()) →
    Memory.lookup (race.after (past ++ future)).scene.state.heap race.root (.text (race.text i)) =
      .ok (race.value i)
  /-- A bind with no value in its way fails in one case only. -/
  outrun : ∀ order i e, race.IsClear i → (race.after order).talk i = .done (.error e) →
    race.Outrun i e (race.after order).scene.course
  /-- If there was no value in the way of any, one of them returned when all are over. -/
  progress : ∀ order, (∀ i, race.IsClear i) →
    (∀ i, ∃ result, (race.after order).talk i = .done result) →
    ∃ i, (race.after order).talk i = .done (.ok ())
  /-- All are over some time, if each of them gets a turn again and again. -/
  finish : ∀ order : Nat → ι, (∀ i m, ∃ n, order (m + n) = i) →
    ∃ k, ∀ i, ∃ result, (race.after (Concurrent.first k order)).talk i = .done result

/-- Binds that race lose no update. -/
theorem losesNothing [Finite ι] [Nonempty ι] (race : Race ι) : race.LosesNothing := by
  constructor
  case stays =>
    intro past future q i c hq hc
    exact (may_after race past future).kept (keep_after race past).2 q i _ hq hc
  case stands =>
    intro past future i node name v hmem
    obtain ⟨q, t, -, id, -, -, rfl, hq, -, hid⟩ := (keep_after race past).2.standing i node name v hmem
    exact ⟨q ++ [t], id, rfl, hq, (may_after race past future).kept (keep_after race past).2 _ i _ hq hid⟩
  case found =>
    intro past future i hdone
    have happend : race.after (past ++ future) =
        (race.after past).turns Realm.answer (Realm.hear Event.logger) future :=
      Concurrent.turns_append past future
    have hstill : (race.after (past ++ future)).talk i = .done (.ok ()) := by
      rw [happend]
      exact Concurrent.talk_turns_of_done hdone future
    obtain ⟨hall, hsound⟩ := keep_after race (past ++ future)
    have hends : race.Ends i (.ok ()) (race.after (past ++ future)).scene :=
      hall.ends_of_done (conduct_may race) hstill
    exact lookup_of_at? (reads_of_sound hsound i) hends.2
  case outrun =>
    intro order i e hclear hdone
    have hends : race.Ends i (.error e) (race.after order).scene :=
      (keep_after race order).1.ends_of_done (conduct_may race) hdone
    exact hends.2 hclear
  case progress =>
    intro order hclear hover
    -- The one that created the last context cannot have failed.
    obtain ⟨i, hi⟩ := exists_not_outrun race (race.after order).scene.course
    obtain ⟨result, hdone⟩ := hover i
    cases result with
    | ok _ => exact ⟨i, hdone⟩
    | error e =>
      have hends : race.Ends i (.error e) (race.after order).scene :=
        (keep_after race order).1.ends_of_done (conduct_may race) hdone
      exact absurd (hends.2 (hclear i)) (hi e)
  case finish =>
    intro order hfair
    exact Concurrent.all_over_of_fair _ _ race.start hfair

/-- Two binds below the same missing context of an empty root. -/
def siblings : Race Bool where
  realm := { Realm.empty with heap := Heap.empty.push .slash }
  root := 0
  text i := cond i "p/x" "p/y"
  name i := ⟨⟨"p", by decide⟩, [⟨cond i "x" "y", by cases i <;> decide⟩]⟩
  value := .bool
  isTree := by
    have hnil : ∀ p v, (Heap.empty.push .slash).at? (.context 0) p = some v → p = [] ∧ v = .context 0 := by
      intro p v hv
      cases p with
      | nil => cases hv; exact ⟨rfl, rfl⟩
      | cons s p => cases hv
    constructor
    case unshared =>
      intro p q c hp hq
      rw [(hnil p _ hp).1, (hnil q _ hq).1]
    case lt_size =>
      intro p c hp
      cases (hnil p _ hp).2
      exact Nat.zero_lt_one
    case holdsContexts => exact fun p v hv _ => ⟨0, (hnil p v hv).2⟩
  reads i := by cases i <;> rfl
  isPlain _ := rfl
  apart i j hij := by
    cases i <;> cases j <;> first | exact absurd rfl hij | decide

/-- Two binds below one missing context. One of them is outrun when it is about to create the context. -/
theorem losesNothing_siblings :
    siblings.LosesNothing ∧
      (siblings.after (List.replicate 6 false ++ List.replicate 10 true ++ [false])).talk true =
        .done (.ok ()) ∧
      ∃ e, (siblings.after (List.replicate 6 false ++ List.replicate 10 true ++ [false])).talk false =
        .done (.error e) :=
  ⟨losesNothing siblings, rfl, _, rfl⟩

end Race
end NamingDirectory.Memory
