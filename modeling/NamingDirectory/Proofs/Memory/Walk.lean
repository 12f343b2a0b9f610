import NamingDirectory.Proofs.Memory.Graph
import NamingDirectory.Realm

/-!
# Binding in memory

What the client's bind makes of a heap of memory contexts, without dialogues, events and the rest of the
realm. `plant` is the walk down the segments as a function on heaps, and `attempt` the walk with the reading
of the name before it; `run_walkFrom` and `run_bind_text` say that the dialogues do just that:

    attempt h root text v = (result, heap that is left)

The first attempt of a bind, on the whole name at once, is a shortcut: if it succeeds, the walk would have
entered the same contexts (`attempt_of_rebind`), and if it fails, it leaves nothing behind. Hence a bind is
always as good as its walk alone (`bind_eq_walkFrom`).

That a failed attempt is caught and followed by the walk needs its fault to be one of the directory's own. For
a text as the name it always is (`rebind_text_cases`): what can fail is the reading of the text and the way to
the context that holds the leaf, and both refuse.
-/

namespace NamingDirectory.Memory

open Client (notANode)

/-! ### Operations on one segment

On a name of a single segment an operation stays at the context that it is given, so its way down is the empty
one. The walk makes no other calls. -/

section Single

variable (h : Heap) (id : Nat) (s : Segment)

theorem lookup_single :
    lookup h id (.name (.single s)) =
      match h.get? id s with
      | some v => .ok v
      | none => .error (notBound s [s]) := rfl

theorem rebind_single (v : Value) : rebind h id (.name (.single s)) v = .ok (h.put id s v) := rfl

theorem create_single :
    create h id (.name (.single s)) =
      match h.get? id s with
      | some _ => .error (alreadyBound (.single s))
      | none => .ok ((h.push (h.context id).separator).put id s (.context h.size)) := rfl

end Single

/-! ### Faults of operations

Each is a refusal, of a kind of its own, and a bind goes on after every refusal. -/

/-- A text that a context cannot read is refused as no name. -/
theorem readName_text_error {h : Heap} {id : Nat} {text : String} {e : Fault}
    (he : readName h id (.text text) = .error e) :
    ∃ message, e = .refuse .invalidName message .null := by
  simp only [readName, Name.Grammar.parse, Value.readText, Name.Grammar.read] at he
  split at he
  · cases he
  · next problem _ =>
    cases he
    exact ⟨_, rfl⟩

/-- The way down is refused at the first segment that is unbound, or bound to what is no context. -/
theorem follow_error {h : Heap} {passed p : List Segment} {id : Nat} {e : Fault}
    (he : follow h passed id p = .error e) : ∃ kind message name, e = .refuse kind message name := by
  induction p generalizing passed id with
  | nil => cases he
  | cons s p ih =>
    rw [follow] at he
    split at he
    · cases he; exact ⟨_, _, _, rfl⟩
    · exact ih he
    · cases he; exact ⟨_, _, _, rfl⟩

/-- Rebinding a text takes it apart, goes to the context that holds its leaf, and writes there. -/
theorem rebind_text_cases (h : Heap) (id : Nat) (text : String) (v : Value) :
    (∃ n c, readName h id (.text text) = .ok n ∧ h.at? (.context id) n.parents = some (.context c) ∧
      rebind h id (.text text) v = .ok (h.put c n.leaf v)) ∨
    ∃ kind message name, rebind h id (.text text) v = .error (.refuse kind message name) := by
  have hread : nameFor h id (.text text) = readName h id (.text text) := rfl
  cases hn : readName h id (.text text) with
  | error e =>
    obtain ⟨message, rfl⟩ := readName_text_error hn
    right
    exact ⟨_, _, _, by rw [rebind, hread, hn]; rfl⟩
  | ok n =>
    cases hc : parentOf h id n with
    | error e =>
      obtain ⟨kind, message, name, rfl⟩ := follow_error hc
      right
      exact ⟨kind, message, name, by rw [rebind, hread, hn]; simp only [bind, Except.bind, hc]⟩
    | ok c =>
      left
      refine ⟨n, c, rfl, follow_eq_ok_iff.mp hc, ?_⟩
      rw [rebind, hread, hn]
      simp only [bind, Except.bind, hc]
      rfl

/-! ### The walk on a heap

By recursion on the path, with the heap as it is at each step. A context that is created is not entered as one
that was there: it is the last one of the grown heap, and it reads names as the one it hangs in. -/

/-- What is left of a heap when the client goes down a path from a context and binds a value at its end,
and how that comes out: it enters the contexts that are there, creates those that are missing, and gives
up before a value that is no context. -/
def plant (name v : Value) : Heap → Nat → List Segment → Except Fault Unit × Heap
  | h, _, [] => (.ok (), h)
  | h, id, [s] => (.ok (), h.put id s v)
  | h, id, s :: t :: rest =>
    match h.get? id s with
    | none =>
      plant name v ((h.push (h.context id).separator).put id s (.context h.size)) h.size (t :: rest)
    | some (.context child) => plant name v h child (t :: rest)
    | some _ => (.error (notANode (.text s.text) name), h)

/-- `plant`, once the text of a name is read with the separator of the root. -/
def attempt (h : Heap) (root : Nat) (text : String) (v : Value) : Except Fault Unit × Heap :=
  match readName h root (.text text) with
  | .ok n => plant (.text text) v h root n.segments
  | .error e => (.error (Client.failed .parse .null (.text text) e), h)

section Plant

variable {name v : Value} {h : Heap} {id c : Nat} {s t : Segment} {p q rest : List Segment}

@[simp] theorem plant_single : plant name v h id [s] = (.ok (), h.put id s v) := by
  rw [plant]

theorem plant_of_unbound (hs : h.get? id s = none) :
    plant name v h id (s :: t :: rest) =
      plant name v ((h.push (h.context id).separator).put id s (.context h.size)) h.size
        (t :: rest) := by
  rw [plant, hs]

theorem plant_of_context (hs : h.get? id s = some (.context c)) :
    plant name v h id (s :: t :: rest) = plant name v h c (t :: rest) := by
  rw [plant, hs]

/-- Above the leaf, what is no context is in the way: nothing has been written so far, or ever is. -/
theorem plant_of_value {w : Value} (hs : h.get? id s = some w) (hw : ∀ c, w ≠ .context c) :
    plant name v h id (s :: t :: rest) = (.error (notANode (.text s.text) name), h) := by
  rw [plant, hs]
  split
  · next heq => cases heq
  · next c heq => cases heq; exact absurd rfl (hw c)
  · rfl

/-- The walk enters the contexts that are there. -/
theorem plant_append (hp : h.at? (.context id) p = some (.context c)) (hq : q ≠ []) :
    plant name v h id (p ++ q) = plant name v h c q := by
  induction p generalizing id with
  | nil => cases hp; rfl
  | cons s p ih =>
    obtain ⟨child, hchild, hp⟩ := Heap.step_of_at?_eq_context hp
    have hpq : p ++ q ≠ [] := List.append_ne_nil_of_right_ne_nil p hq
    obtain ⟨t, rest, ht⟩ := List.exists_cons_of_ne_nil hpq
    rw [List.cons_append, ht, plant_of_context hchild, ← ht]
    exact ih hp

/-- Where a path leads through contexts, the walk writes at its end, and does nothing else. -/
theorem plant_leaf (hp : h.at? (.context id) p = some (.context c)) :
    plant name v h id (p ++ [s]) = (.ok (), h.put c s v) := by
  rw [plant_append hp (List.cons_ne_nil s []), plant_single]

end Plant

/-- When rebinding the whole name succeeds, the walk does the same. -/
theorem attempt_of_rebind {h h' : Heap} {root : Nat} {text : String} {v : Value}
    (hr : rebind h root (.text text) v = .ok h') : attempt h root text v = (.ok (), h') := by
  rcases rebind_text_cases h root text v with ⟨n, c, hn, hc, hok⟩ | ⟨kind, message, name, herr⟩
  · rw [hok] at hr
    cases hr
    simp only [attempt, hn]
    rw [← Name.parents_append_leaf, plant_leaf hc]
  · rw [herr] at hr
    cases hr

/-! ### Running the dialogues

Each dialogue of the client, run against the heap of a realm, comes out as the function on heaps does. Of the
rest of the realm only the log changes. -/

section Run

variable (r : Realm) (hh : r.heap.HoldsContexts)

include hh

/-- One step down: the context that is there, or else a new one. A value that is bound there is in the way,
and stays. -/
theorem run_descend (name : Value) (id : Nat) (s : Segment) :
    ∃ log, r.run (Client.descend name (.context id) s) =
      match r.heap.get? id s with
      | none =>
        (.ok (.context r.heap.size),
          { r with
            heap := (r.heap.push (r.heap.context id).separator).put id s (.context r.heap.size), log })
      | some (.context child) => (.ok (.context child), { r with log })
      | some _ => (.error (notANode (.text s.text) name), { r with log }) := by
  simp only [Client.descend, Realm.run_note, Realm.run_ask, Realm.answer_context, Realm.askContext,
    lookup_single, Realm.heap_hear]
  cases hw : r.heap.get? id s with
  | none =>
    -- That nothing is bound is the one fault that makes the client create a context.
    simp only [notBound, Fault.refuse, Fault.isNotFound, if_true, Realm.run_note, Realm.run_ask,
      Realm.answer_context, Realm.askContext, Realm.heap_hear, create_single, hw, Realm.withHeap,
      Realm.run_done]
    exact ⟨_, rfl⟩
  | some w =>
    by_cases hnode : w.isNode = true
    · obtain ⟨c, rfl⟩ := hh id s w hw hnode
      simp only [hnode, if_true, Realm.run_note, Realm.run_done]
      exact ⟨_, rfl⟩
    · -- No node, hence no context: the last of the three cases.
      have hne : ∀ c, w ≠ .context c := by
        rintro c rfl
        exact hnode rfl
      simp only [hnode]
      exact ⟨_, rfl⟩

theorem run_walk (name v : Value) (id : Nat) (s : Segment) (rest : List Segment) :
    ∃ log, r.run (Client.walk name v (.context id) s rest) =
      ((plant name v r.heap id (s :: rest)).1,
        { r with heap := (plant name v r.heap id (s :: rest)).2, log }) := by
  -- Along the segments; what carries the induction is that a new context is one more context.
  induction rest generalizing r id s with
  | nil =>
    simp only [Client.walk, Client.bindLeaf, Realm.run_note, Realm.run_ask, Realm.answer_context,
      Realm.askContext, rebind_single, Realm.heap_hear, Realm.withHeap, Realm.run_done, plant_single]
    exact ⟨_, rfl⟩
  | cons t rest ih =>
    obtain ⟨log, hdescend⟩ := run_descend r hh name id s
    rw [Client.walk, Realm.run_bind, hdescend]
    cases hw : r.heap.get? id s with
    | none =>
      rw [plant_of_unbound hw]
      exact ih _ (hh.grow _ id s) r.heap.size t
    | some w =>
      rcases w.context_or_ne with ⟨c, rfl⟩ | hne
      · rw [plant_of_context hw]
        exact ih { r with log } hh c t
      · rw [plant_of_value hw hne]
        simp only [Realm.run_done]
        exact ⟨_, rfl⟩

/-- With the reading of the name before it, the walk of the client is `attempt`. -/
theorem run_walkFrom (root : Nat) (text : String) (v : Value) :
    ∃ log, r.run (Client.walkFrom (.text text) v (.context root)) =
      ((attempt r.heap root text v).1,
        { r with heap := (attempt r.heap root text v).2, log }) := by
  rw [Client.walkFrom, Realm.run_ask, Realm.answer_context, Realm.askContext, attempt]
  cases hn : readName r.heap root (.text text) with
  | ok n => exact run_walk r hh (.text text) v root n.first n.rest
  | error e => exact ⟨_, rfl⟩

/-- The bind of the client at a text is `attempt`, whichever way its first try, the bind of the whole name,
comes out. -/
theorem run_bind_text (root : Nat) (text : String) (v : Value) :
    ∃ log, r.bind (.text text) v (.context root) =
      ((attempt r.heap root text v).1,
        { r with heap := (attempt r.heap root text v).2, log }) := by
  simp only [Realm.bind, Client.bind, Realm.run_note, Realm.run_ask, Realm.answer_context,
    Realm.askContext, Realm.heap_hear]
  rcases rebind_text_cases r.heap root text v with ⟨n, c, -, -, hok⟩ | ⟨kind, message, name, herr⟩
  · rw [attempt_of_rebind hok, hok]
    exact ⟨_, rfl⟩
  · rw [herr]
    -- The failed attempt changed the log alone, so the walk starts from the heap as it was.
    obtain ⟨log, hwalk⟩ := run_walkFrom (Realm.hear Event.logger (.bindBegun (.text text)) r) hh root
      text v
    simp only [Realm.withHeap, Fault.refuse, Fault.isInterrupt, Bool.false_eq_true, if_false,
      Realm.run_bind, hwalk, Realm.heap_hear]
    cases (attempt r.heap root text v).1 with
    | ok _ => exact ⟨_, rfl⟩
    | error e => exact ⟨_, rfl⟩

end Run

/-- A bind comes out, and leaves the heap, as the reading of the name and the walk down its segments alone
would. -/
theorem bind_eq_walkFrom (r : Realm) (hh : r.heap.HoldsContexts) (root : Nat) (text : String)
    (v : Value) :
    (r.bind (.text text) v (.context root)).1 =
        (r.run (Client.walkFrom (.text text) v (.context root))).1 ∧
      (r.bind (.text text) v (.context root)).2.heap =
        (r.run (Client.walkFrom (.text text) v (.context root))).2.heap := by
  obtain ⟨log, hbind⟩ := run_bind_text r hh root text v
  obtain ⟨log', hwalk⟩ := run_walkFrom r hh root text v
  rw [hbind, hwalk]
  exact ⟨rfl, rfl⟩

/-- Around a cycle to a value in the way: the fault is that of the walk alone. -/
theorem bind_eq_walkFrom_looped :
    Heap.looped.HoldsContexts ∧
      (({ Realm.empty with heap := .looped }).bind (.text "a/up/a/x/d") .null (.context 0)).1 =
        .error (notANode (.text "x") (.text "a/up/a/x/d")) :=
  ⟨Heap.holdsContexts_looped,
    (bind_eq_walkFrom { Realm.empty with heap := .looped } Heap.holdsContexts_looped 0 "a/up/a/x/d"
      .null).1.trans rfl⟩

end NamingDirectory.Memory
