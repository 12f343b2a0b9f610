import NamingDirectory.Proofs.Memory.Walk

/-!
# The outcome of a bind in memory

On any heap of memory contexts, with sharing and cycles, a bind does one of three things. It goes along the
contexts that are there, as far as they lead (`Furthest`). At the last context above the leaf it writes the
leaf; at an unbound segment before that it hangs a chain of new contexts (`chain`) into the context that it
reached; and at a value in the way it gives up (`BindOutcome`). There is no rollback, and none is needed: once
the first context is created, the rest of the walk is in new contexts and cannot fail (`plant_fresh`). So a
bind that fails leaves the heap as it was.

The description is by where the contexts end and not by recursion, so that it says at once what is left: of
the old contexts one binding of one of them is changed, and all others stay as they are. The heap is to be
closed: a context that is bound but not there would swallow what is written in it.
-/

namespace NamingDirectory.Memory

open Client (notANode)

/-! ### How far the contexts lead

The place is well-defined: the first segment that is no context, or the leaf, ends the way. -/

/-- `j` is the largest number below the length of a path such that the first `j` segments lead from the
root through contexts, and `c` is the context that they lead to. -/
structure Furthest (h : Heap) (root : Nat) (path : List Segment) (j c : Nat) : Prop where
  lt_length : j < path.length
  leads : h.at? (.context root) (path.take j) = some (.context c)
  last : ∀ i, j < i → i < path.length → ∀ c', h.at? (.context root) (path.take i) ≠ some (.context c')

section Furthest

variable {h : Heap} {root j c : Nat} {path : List Segment}

/-- The contexts lead some way along every path. -/
theorem exists_furthest (h : Heap) (root : Nat) {path : List Segment} (hpath : path ≠ []) :
    ∃ j c, Furthest h root path j c := by
  induction path generalizing root with
  | nil => exact absurd rfl hpath
  | cons s path ih =>
    -- Either the first step is to a context above the leaf, or the root is as far as it goes.
    by_cases hstep : path ≠ [] ∧ ∃ child, h.get? root s = some (.context child)
    · obtain ⟨hne, child, hchild⟩ := hstep
      obtain ⟨j, c, hj⟩ := ih child hne
      refine ⟨j + 1, c, ?_, ?_, ?_⟩
      · have hlt := hj.lt_length
        rw [List.length_cons]
        omega
      · rw [List.take_succ_cons, Heap.at?_context_cons, hchild]
        exact hj.leads
      · intro i hi hlt c'
        obtain ⟨i, rfl⟩ : ∃ k, i = k + 1 := ⟨i - 1, by omega⟩
        rw [List.take_succ_cons, Heap.at?_context_cons, hchild]
        rw [List.length_cons] at hlt
        exact hj.last i (by omega) (by omega) c'
    · refine ⟨0, root, by simp, by simp, ?_⟩
      intro i hi hlt c' hc'
      obtain ⟨i, rfl⟩ : ∃ k, i = k + 1 := ⟨i - 1, by omega⟩
      rw [List.take_succ_cons] at hc'
      obtain ⟨child, hchild, -⟩ := Heap.step_of_at?_eq_context hc'
      apply hstep
      refine ⟨?_, child, hchild⟩
      rintro rfl
      simp at hlt

/-- After the furthest context comes the leaf, or a segment that it does not bind to a context. -/
theorem Furthest.get?_ne_context {s t : Segment} {rest : List Segment}
    (hj : Furthest h root path j c) (hrest : path.drop j = s :: t :: rest) (c' : Nat) :
    h.get? c s ≠ some (.context c') := by
  intro hc'
  have hlen : (path.drop j).length = rest.length + 2 := by rw [hrest]; rfl
  rw [List.length_drop] at hlen
  apply hj.last (j + 1) (by omega) (by omega) c'
  have htake : path.take (j + 1) = path.take j ++ [s] := by
    rw [List.take_add, hrest, List.take_succ_cons, List.take_zero]
  rw [htake, Heap.at?_concat hj.leads, hc']

end Furthest

/-! ### Chains of new contexts

What is planted in a context that has just been created does not depend on the rest of the heap. -/

/-- Contexts each of which binds one segment of a path, to the next of them and the last one to `v`. They
have consecutive numbers, the second one `next`. -/
def chain (separator : Separator) (v : Value) : (next : Nat) → List Segment → List Context
  | _, [] => []
  | _, [s] => [⟨separator, [(s, v)]⟩]
  | next, s :: t :: rest =>
    ⟨separator, [(s, .context next)]⟩ :: chain separator v (next + 1) (t :: rest)

theorem context_last (l : List Context) (c : Context) : (Heap.mk (l ++ [c])).context l.length = c := by
  simp [Heap.context]

/-- From a new context on, the walk makes a chain of new contexts and cannot fail. -/
theorem plant_fresh (name v : Value) (l : List Context) (separator : Separator) (s : Segment)
    (rest : List Segment) :
    plant name v ⟨l ++ [.empty separator]⟩ l.length (s :: rest) =
      (.ok (), ⟨l ++ chain separator v (l.length + 1) (s :: rest)⟩) := by
  -- The context to go on from is always the last one of the heap, and empty.
  induction rest generalizing l s with
  | nil => simp [Heap.put, context_last, chain, Context.empty, OrderedMap.put]
  | cons t rest ih =>
    have hs : (Heap.mk (l ++ [.empty separator])).get? l.length s = none := by
      rw [Heap.get?, context_last]
      rfl
    have hsize : (Heap.mk (l ++ [.empty separator])).size = l.length + 1 := by
      rw [Heap.size, List.length_append, List.length_singleton]
    have hgrown : (((Heap.mk (l ++ [.empty separator])).push separator).put l.length s
        (.context (l.length + 1))) =
        ⟨(l ++ [⟨separator, [(s, .context (l.length + 1))]⟩]) ++ [.empty separator]⟩ := by
      simp [Heap.push, Heap.put, Heap.context, Context.empty, OrderedMap.put]
    have hplant := ih (l ++ [⟨separator, [(s, .context (l.length + 1))]⟩]) t
    rw [List.length_append, List.length_singleton] at hplant
    rw [plant_of_unbound hs, context_last, hsize]
    show plant name v (((Heap.mk _).push separator).put _ s _) _ (t :: rest) = _
    rw [hgrown, hplant, chain, List.append_assoc]
    rfl

/-- At an unbound segment above the leaf the walk hangs a chain of new contexts into the context that it
reached, and changes nothing else. -/
theorem plant_grow {h : Heap} {c : Nat} (hc : c < h.size) {s : Segment} (hs : h.get? c s = none)
    (name v : Value) (t : Segment) (rest : List Segment) :
    plant name v h c (s :: t :: rest) =
      (.ok (), ⟨(h.put c s (.context h.size)).contexts ++
        chain (h.context c).separator v (h.size + 1) (t :: rest)⟩) := by
  have hne : c ≠ h.size := Nat.ne_of_lt hc
  have hgrown : (h.push (h.context c).separator).put c s (.context h.size) =
      ⟨(h.put c s (.context h.size)).contexts ++ [.empty (h.context c).separator]⟩ := by
    rw [Heap.put, Heap.context_push, if_neg hne]
    simp only [Heap.push, Heap.put]
    rw [List.set_append_left _ _ hc]
  have hsize : (h.put c s (.context h.size)).contexts.length = h.size := Heap.size_put h c s _
  rw [plant_of_unbound hs, hgrown]
  have hfresh := plant_fresh name v (h.put c s (.context h.size)).contexts (h.context c).separator t rest
  rw [hsize] at hfresh
  exact hfresh

/-! ### The outcome -/

/-- How binding `v` comes out, and what it leaves of a heap, when the contexts lead to `c` and no further,
with the given path still ahead. -/
inductive BindOutcome (h : Heap) (name v : Value) (c : Nat) :
    (ahead : List Segment) → Except Fault Unit → Heap → Prop
  /-- Only the leaf is ahead, and it is written. -/
  | bound (s : Segment) : BindOutcome h name v c [s] (.ok ()) (h.put c s v)
  /-- The next segment is unbound, and is bound to a chain of new contexts down to the leaf. -/
  | grown (s t : Segment) (rest : List Segment) (hs : h.get? c s = none) :
    BindOutcome h name v c (s :: t :: rest) (.ok ())
      ⟨(h.put c s (.context h.size)).contexts ++
        chain (h.context c).separator v (h.size + 1) (t :: rest)⟩
  /-- The next segment is above the leaf and bound to something that is no context. -/
  | blocked (s t : Segment) (rest : List Segment) (w : Value) (hs : h.get? c s = some w)
      (hw : ∀ id, w ≠ .context id) :
    BindOutcome h name v c (s :: t :: rest) (.error (notANode (.text s.text) name)) h

/-- The walk goes as far as the contexts lead, and one of the three outcomes is what it makes of the rest. -/
theorem bindOutcome_plant {h : Heap} {root j c : Nat} {path : List Segment}
    (hj : Furthest h root path j c) (hc : c < h.size) (name v : Value) :
    BindOutcome h name v c (path.drop j) (plant name v h root path).1 (plant name v h root path).2 := by
  have hne : path.drop j ≠ [] := by
    rw [ne_eq, List.drop_eq_nil_iff]
    exact Nat.not_le_of_lt hj.lt_length
  -- Contexts that are there are passed without a change, so the walk may as well start at the last of them.
  have hplant : plant name v h root path = plant name v h c (path.drop j) := by
    have happend : plant name v h root (path.take j ++ path.drop j) = plant name v h c (path.drop j) :=
      plant_append hj.leads hne
    rwa [List.take_append_drop] at happend
  rw [hplant]
  match hahead : path.drop j with
  | [] => exact absurd hahead hne
  | [s] =>
    rw [plant_single]
    exact .bound s
  | s :: t :: rest =>
    cases hs : h.get? c s with
    | none =>
      rw [plant_grow hc hs]
      exact .grown s t rest hs
    | some w =>
      have hw : ∀ id, w ≠ .context id := by
        rintro id rfl
        exact hj.get?_ne_context hahead id hs
      rw [plant_of_value hs hw]
      exact .blocked s t rest w hs hw

section Cases

variable {h h' : Heap} {name v : Value} {c : Nat} {ahead : List Segment} {result : Except Fault Unit}

/-- A bind succeeds if only the leaf is ahead, or the next segment is unbound. -/
theorem BindOutcome.ok_iff (hout : BindOutcome h name v c ahead result h') :
    result = .ok () ↔ ∀ s t rest, ahead = s :: t :: rest → h.get? c s = none := by
  cases hout with
  | bound s => exact iff_of_true rfl fun _ _ _ heq => by cases heq
  | grown s t rest hs => exact iff_of_true rfl fun _ _ _ heq => by cases heq; exact hs
  | blocked s t rest w hs hw =>
    refine iff_of_false (by simp) ?_
    intro hnone
    rw [hnone s t rest rfl] at hs
    cases hs

/-- At an unbound segment above the leaf a bind grows a chain. -/
theorem BindOutcome.grown_of_unbound {s t : Segment} {rest : List Segment}
    (hout : BindOutcome h name v c (s :: t :: rest) result h') (hs : h.get? c s = none) :
    result = .ok () ∧ h' = ⟨(h.put c s (.context h.size)).contexts ++
      chain (h.context c).separator v (h.size + 1) (t :: rest)⟩ := by
  cases hout with
  | grown s t rest hs => exact ⟨rfl, rfl⟩
  | blocked s t rest w hw => rw [hs] at hw; cases hw

/-- A bind whose name can be read fails at a value in the way only, and changes nothing then. -/
theorem BindOutcome.error {e : Fault} (hout : BindOutcome h name v c ahead (.error e) h') :
    e.stage? = some .intermediateLookup ∧ h' = h := by
  cases hout with
  | blocked s t rest w hs hw => exact ⟨rfl, rfl⟩

end Cases

/-- How a bind comes out in any closed heap of memory contexts, and what it leaves. A text that the root
cannot read is a failed parse. Otherwise the contexts lead a certain way and no further, and the bind
writes the leaf, adds a chain of contexts down to it, or is stopped by a value; it succeeds unless it is
stopped. If it fails, then by the name or at a context above the leaf, and it leaves all as it was. -/
theorem bind_outcome (r : Realm) (hholds : r.heap.HoldsContexts) (hclosed : r.heap.Closed)
    (root : Nat) (hroot : root < r.heap.size) (text : String) (v : Value) :
    let h := r.heap
    let result := (r.bind (.text text) v (.context root)).1
    let h' := (r.bind (.text text) v (.context root)).2.heap
    (∃ log, (r.bind (.text text) v (.context root)).2 = { r with heap := h', log }) ∧
    (∀ e, readName h root (.text text) = .error e →
      result = .error (.failure .parse (.text ("Unable to tokenize name: " ++ e.plain)) (.text text)
        (some e)) ∧ h' = h) ∧
    (∀ n, readName h root (.text text) = .ok n →
      (∃ j c, Furthest h root n.segments j c) ∧
      ∀ j c, Furthest h root n.segments j c →
        c < h.size ∧ BindOutcome h (.text text) v c (n.segments.drop j) result h' ∧
        (result = .ok () ↔
          ∀ s t rest, n.segments.drop j = s :: t :: rest → h.get? c s = none)) ∧
    (∀ e, result = .error e →
      (e.stage? = some .parse ∨ e.stage? = some .intermediateLookup) ∧ h' = h) := by
  intro h result h'
  obtain ⟨log, hbind⟩ := run_bind_text r hholds root text v
  have hresult : result = (attempt h root text v).1 := congrArg Prod.fst hbind
  have hheap : h' = (attempt h root text v).2 := congrArg (fun p => p.2.heap) hbind
  have hparse : ∀ e, readName h root (.text text) = .error e →
      result = .error (.failure .parse (.text ("Unable to tokenize name: " ++ e.plain)) (.text text)
        (some e)) ∧ h' = h := by
    intro e he
    obtain ⟨message, rfl⟩ := readName_text_error he
    rw [hresult, hheap, attempt, he]
    exact ⟨rfl, rfl⟩
  have hplant : ∀ n, readName h root (.text text) = .ok n → ∀ j c, Furthest h root n.segments j c →
      BindOutcome h (.text text) v c (n.segments.drop j) result h' := by
    intro n hn j c hj
    have hc : c < h.size := hclosed.lt_size_of_at? hroot hj.leads
    rw [hresult, hheap, attempt, hn]
    exact bindOutcome_plant hj hc (.text text) v
  refine ⟨⟨log, ?_⟩, hparse, ?_, ?_⟩
  · rw [hheap]
    exact congrArg Prod.snd hbind
  · intro n hn
    refine ⟨exists_furthest h root (List.cons_ne_nil _ _), ?_⟩
    intro j c hj
    exact ⟨hclosed.lt_size_of_at? hroot hj.leads, hplant n hn j c hj, (hplant n hn j c hj).ok_iff⟩
  · -- A fault is that of the name, or that of the one outcome which has a fault.
    intro e he
    cases hn : readName h root (.text text) with
    | error e' =>
      obtain ⟨hfailed, hsame⟩ := hparse e' hn
      rw [hfailed] at he
      cases he
      exact ⟨.inl rfl, hsame⟩
    | ok n =>
      obtain ⟨j, c, hj⟩ := exists_furthest h root (List.cons_ne_nil n.first n.rest)
      have hout := hplant n hn j c hj
      rw [he] at hout
      exact ⟨.inr hout.error.1, hout.error.2⟩

/-- Around a cycle and on below the second context: the new context reads names as that one does. -/
theorem bind_outcome_looped :
    Heap.looped.HoldsContexts ∧ Heap.looped.Closed ∧ 0 < Heap.looped.size ∧
      (({ Realm.empty with heap := .looped }).bind (.text "a/up/a/b.c/d") .null (.context 0)).1 =
        .ok () ∧
      (({ Realm.empty with heap := .looped }).bind (.text "a/up/a/b.c/d") .null (.context 0)).2.heap =
        ⟨(Heap.looped.put 1 ⟨"b.c", by decide⟩ (.context 2)).contexts ++
          [⟨⟨'.', by decide⟩, [(⟨"d", by decide⟩, .null)]⟩]⟩ := by
  refine ⟨Heap.holdsContexts_looped, Heap.closed_looped, by decide, ?_⟩
  have hread : readName .looped 0 (.text "a/up/a/b.c/d") =
      .ok ⟨⟨"a", by decide⟩, [⟨"up", by decide⟩, ⟨"a", by decide⟩, ⟨"b.c", by decide⟩,
        ⟨"d", by decide⟩]⟩ := rfl
  have hfar : Furthest .looped 0 [⟨"a", by decide⟩, ⟨"up", by decide⟩, ⟨"a", by decide⟩,
      ⟨"b.c", by decide⟩, ⟨"d", by decide⟩] 3 1 := by
    refine ⟨by decide, rfl, ?_⟩
    intro i hi hlt c' hc'
    obtain rfl : i = 4 := Nat.le_antisymm (Nat.le_of_lt_succ hlt) hi
    cases hc'
  have hout := ((bind_outcome { Realm.empty with heap := .looped } Heap.holdsContexts_looped
    Heap.closed_looped 0 (by decide) "a/up/a/b.c/d" .null).2.2.1 _ hread).2 3 1 hfar
  exact hout.2.1.grown_of_unbound rfl

end NamingDirectory.Memory
