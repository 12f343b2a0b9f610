import NamingDirectory.Memory.Context
import NamingDirectory.Client

/-!
# Path maps

What a tree of memory contexts is, seen from its root: a map from paths of segments to contexts and values, in
which everything above a mapped path is a context. The path of no segments is the root. A context in the map
is known by the number of its object, so the map also says when two paths, or one path at two times, mean the
same object.

The operations change the map at a path and drop what is below it (`set`, `remove`), or add to it
(`addContext`, `fill`). Nothing is said here about heaps; `Represents` relates the two.

The map is the specification of the heap, so it has to be plain enough to be believed. Each of its changes is
one `if` on paths, and what an operation can do is said once, as a relation (`Does`): an operation that
succeeds makes one of five changes, and one that fails makes none (`perform_cases`). What has to hold after an
operation is then proved along `Does`, with a case for each change, and for runs by `inTurn_refines` or by an
induction on the operations.
-/

namespace NamingDirectory.Memory

/-- What a path is mapped to. -/
inductive Node where
  | context (object : Nat)
  | value (v : Value)

namespace Node

/-- What a value is as the end of a path. Of all values only memory contexts have paths below them. -/
def ofValue : Value → Node
  | .context id => .context id
  | v => .value v

/-- The value that a lookup of a path gives. -/
def toValue : Node → Value
  | .context object => .context object
  | .value v => v

end Node

/-- An operation on a root. -/
inductive Operation where
  | lookup (name : Value)
  | rebind (name v : Value)
  | create (name : Value)
  | unbind (name : Value)
  /-- The bind of the naming client. -/
  | bind (text : String) (v : Value)

/-- Whether an operation binds no node of a directory tree. -/
def Operation.IsPlain : Operation → Prop
  | .rebind _ v | .bind _ v => v.isNode = false
  | _ => True

/-- Carries out operations one after the other, and collects the answers. -/
def inTurn {σ : Type} (perform : Operation → σ → Answer × σ) : List Operation → σ → List Answer × σ
  | [], state => ([], state)
  | op :: ops, state =>
    let (answer, state) := perform op state
    let (answers, state) := inTurn perform ops state
    (answer :: answers, state)

/-- What comes of operations comes of the first ones and then of the others. -/
theorem inTurn_append {σ : Type} (perform : Operation → σ → Answer × σ) (ops ops' : List Operation)
    (state : σ) :
    (inTurn perform (ops ++ ops') state).2 = (inTurn perform ops' (inTurn perform ops state).2).2 := by
  induction ops generalizing state with
  | nil => rfl
  | cons op ops ih => exact ih (perform op state).2

/-- If each operation answers alike on two states and keeps them related, then so does a run of operations. -/
theorem inTurn_refines {σ τ : Type} {perform : Operation → σ → Answer × σ}
    {perform' : Operation → τ → Answer × τ} {R : σ → τ → Prop}
    (hstep : ∀ op : Operation, op.IsPlain → ∀ s t, R s t →
      (perform op s).1 = (perform' op t).1 ∧ R (perform op s).2 (perform' op t).2)
    (ops : List Operation) (hops : ∀ op ∈ ops, op.IsPlain) {s : σ} {t : τ} (h : R s t) :
    (inTurn perform ops s).1 = (inTurn perform' ops t).1 ∧
      R (inTurn perform ops s).2 (inTurn perform' ops t).2 := by
  induction ops generalizing s t with
  | nil => exact ⟨rfl, h⟩
  | cons op ops ih =>
    obtain ⟨hop, hops⟩ := List.forall_mem_cons.mp hops
    obtain ⟨hanswer, h'⟩ := hstep op hop s t h
    obtain ⟨hanswers, h''⟩ := ih hops h'
    refine ⟨?_, h''⟩
    show (perform op s).1 :: (inTurn perform ops (perform op s).2).1 =
      (perform' op t).1 :: (inTurn perform' ops (perform' op t).2).1
    rw [hanswer, hanswers]

structure PathMap where
  /-- The separator with which texts are read as paths. -/
  separator : Separator
  node? : List Segment → Option Node
  /-- The number of the next new object. -/
  next : Nat

namespace PathMap

/-- Only the root. -/
def fresh (separator : Separator) (root : Nat) : PathMap :=
  ⟨separator, fun p => if p = [] then some (.context root) else none, root + 1⟩

/-- Maps a path to a value, and drops all paths that extend it. -/
def set (m : PathMap) (p : List Segment) (v : Value) : PathMap :=
  { m with
    node? := fun q => if q = p then some (.value v) else if p <+: q then none else m.node? q }

/-- Maps a path to a new context. -/
def addContext (m : PathMap) (p : List Segment) : PathMap :=
  { m with
    node? := fun q => if q = p then some (.context m.next) else m.node? q
    next := m.next + 1 }

/-- Drops a path, and all paths that extend it. -/
def remove (m : PathMap) (p : List Segment) : PathMap :=
  { m with node? := fun q => if p <+: q then none else m.node? q }

/-- Adds a new context at each missing path from the segments passed to those ahead. -/
def fill (m : PathMap) (passed : List Segment) : (ahead : List Segment) → PathMap
  | [] => m
  | s :: rest =>
    match m.node? (passed ++ [s]) with
    | none => (m.addContext (passed ++ [s])).fill (passed ++ [s]) rest
    | some _ => m.fill (passed ++ [s]) rest

/-- Checks that there is a context at every path from the segments passed to those ahead. The first
that is missing, or has a value, is at fault. -/
def check (m : PathMap) (passed : List Segment) : (ahead : List Segment) → Except Fault Unit
  | [] => .ok ()
  | s :: rest =>
    match m.node? (passed ++ [s]) with
    | none => .error (notBound s (passed ++ [s]))
    | some (.value _) => .error (notAContext s (passed ++ [s]))
    | some (.context _) => m.check (passed ++ [s]) rest

/-- The last segment of the first path, from the segments passed to those ahead, that has a value. -/
def obstacle? (m : PathMap) (passed : List Segment) : (ahead : List Segment) → Option Segment
  | [] => none
  | s :: rest =>
    match m.node? (passed ++ [s]) with
    | some (.value _) => some s
    | _ => m.obstacle? (passed ++ [s]) rest

/-! ### Operations -/

/-- The value at a path, if there are contexts all the way to it and something is mapped there. -/
def lookup (m : PathMap) (n : Name) : Answer :=
  match m.check [] n.parents with
  | .error e => .error e
  | .ok () =>
    match m.node? n.segments with
    | some node => .ok node.toValue
    | none => .error (notBound n.leaf n.segments)

/-- A path is set whatever was there, a context with all that is below it included. -/
def rebind (m : PathMap) (n : Name) (v : Value) : Answer × PathMap :=
  match m.check [] n.parents with
  | .error e => (.error e, m)
  | .ok () => (.ok .null, m.set n.segments v)

/-- A new context at a path that is not mapped yet. Its object is the next that there is. -/
def create (m : PathMap) (n : Name) : Answer × PathMap :=
  match m.check [] n.parents with
  | .error e => (.error e, m)
  | .ok () =>
    match m.node? n.segments with
    | some _ => (.error (alreadyBound n), m)
    | none => (.ok (.context m.next), m.addContext n.segments)

/-- A path is removed; there need not be anything at its end. -/
def unbind (m : PathMap) (n : Name) : Answer × PathMap :=
  match m.check [] n.parents with
  | .error e => (.error e, m)
  | .ok () => (.ok .null, m.remove n.segments)

/-- The missing contexts above the leaf are added, and then the leaf is rebound; a value above the leaf
is in the way. -/
def bind (m : PathMap) (text : String) (n : Name) (v : Value) : Answer × PathMap :=
  match m.obstacle? [] n.parents with
  | some s => (.error (Client.notANode (.text s.text) (.text text)), m)
  | none => (m.fill [] n.parents).rebind n v

/-- Reads a name and goes on with it. A name that cannot be read is answered by the fault. -/
def reading (m : PathMap) (name : Except Fault Name) (next : Name → Answer × PathMap) :
    Answer × PathMap :=
  match name with
  | .ok n => next n
  | .error e => (.error e, m)

/-- An operation on the map. The name is read with the separator of the map, as the root reads it; that the
bind of the client takes a text only, and reports a name that it cannot read as its own failure, is all that
sets it apart. -/
def perform (op : Operation) (m : PathMap) : Answer × PathMap :=
  let grammar := Name.Grammar.composite m.separator
  match op with
  | .lookup name => m.reading (grammar.resolve name) fun n => (m.lookup n, m)
  | .rebind name v => m.reading (grammar.resolve name) fun n => m.rebind n v
  | .create name => m.reading (grammar.resolve name) fun n => m.create n
  | .unbind name => m.reading (grammar.resolve name) fun n => m.unbind n
  | .bind text v =>
    let read := (grammar.parse (.text text)).mapError (Client.failed .parse .null (.text text))
    m.reading read fun n => m.bind text n v

/-! ### Laws

What each change does to a path. The first three laws say the definitions again, so that no proof has to look
into them; the others are about the paths on the way to a name. -/

variable {m : PathMap} {p q passed ahead : List Segment} {v : Value} {o : Nat}

theorem node?_set :
    (m.set p v).node? q = if q = p then some (.value v) else if p <+: q then none else m.node? q := rfl

theorem node?_addContext :
    (m.addContext p).node? q = if q = p then some (.context m.next) else m.node? q := rfl

theorem node?_remove : (m.remove p).node? q = if p <+: q then none else m.node? q := rfl

/-- A context at a path is not one at a longer path. -/
theorem obstacle?_addContext (hp : p <+: passed) :
    (m.addContext p).obstacle? passed ahead = m.obstacle? passed ahead := by
  induction ahead generalizing passed with
  | nil => rfl
  | cons s rest ih =>
    have hne : passed ++ [s] ≠ p := by
      rintro rfl
      have hle := hp.length_le
      rw [List.length_append, List.length_singleton] at hle
      omega
    rw [obstacle?, obstacle?, node?_addContext, if_neg hne,
      ih (hp.trans (List.prefix_append _ _))]

/-- Filling a path keeps what is mapped. -/
theorem node?_fill_of_eq_some {node : Node} (hq : m.node? q = some node) :
    (m.fill passed ahead).node? q = some node := by
  induction ahead generalizing m passed with
  | nil => exact hq
  | cons s rest ih =>
    rw [fill]
    split
    · next hnone =>
      apply ih
      rw [node?_addContext, if_neg]
      · exact hq
      · rintro rfl
        rw [hnone] at hq
        cases hq
    · exact ih hq

/-- Contexts that are added do not change how the map reads names. -/
@[simp] theorem separator_fill : (m.fill passed ahead).separator = m.separator := by
  induction ahead generalizing m passed with
  | nil => rfl
  | cons s rest ih =>
    rw [fill]
    split
    · exact ih
    · exact ih

/-- A path that is filled, and without a value in the way, is all contexts. -/
theorem check_fill (hclear : m.obstacle? passed ahead = none) :
    (m.fill passed ahead).check passed ahead = .ok () := by
  induction ahead generalizing m passed with
  | nil => rfl
  | cons s rest ih =>
    rw [obstacle?] at hclear
    rw [fill, check]
    -- What is mapped at this segment stays while the rest is filled.
    cases hs : m.node? (passed ++ [s]) with
    | none =>
      rw [hs] at hclear
      have hmapped : (m.addContext (passed ++ [s])).node? (passed ++ [s]) = some (.context m.next) := by
        rw [node?_addContext, if_pos rfl]
      simp only [node?_fill_of_eq_some hmapped]
      apply ih
      rw [obstacle?_addContext List.prefix_rfl]
      exact hclear
    | some node =>
      cases node with
      | context o =>
        rw [hs] at hclear
        simp only [node?_fill_of_eq_some hs]
        exact ih hclear
      | value v =>
        rw [hs] at hclear
        cases hclear

/-! ### What an operation does -/

/-- What is left of a map when an operation succeeds. The contexts above the leaf have to be there, but for a
bind, which adds those that are missing. -/
inductive Does (m : PathMap) : Operation → PathMap → Prop
  | lookup {name : Value} : Does m (.lookup name) m
  | rebind {name v : Value} {n : Name} : (Name.Grammar.composite m.separator).resolve name = .ok n →
      m.check [] n.parents = .ok () → Does m (.rebind name v) (m.set n.segments v)
  | create {name : Value} {n : Name} : (Name.Grammar.composite m.separator).resolve name = .ok n →
      m.check [] n.parents = .ok () → m.node? n.segments = none →
      Does m (.create name) (m.addContext n.segments)
  | unbind {name : Value} {n : Name} : (Name.Grammar.composite m.separator).resolve name = .ok n →
      m.check [] n.parents = .ok () → Does m (.unbind name) (m.remove n.segments)
  | bind {text : String} {v : Value} {n : Name} :
      (Name.Grammar.composite m.separator).resolve (.text text) = .ok n →
      m.obstacle? [] n.parents = none →
      Does m (.bind text v) ((m.fill [] n.parents).set n.segments v)

/-- An operation succeeds and does what it is for, or it fails and leaves the map as it was. -/
theorem perform_cases (op : Operation) (m : PathMap) :
    (∃ answer, (m.perform op).1 = .ok answer ∧ m.Does op (m.perform op).2) ∨
      ∃ e, m.perform op = (.error e, m) := by
  cases op with
  | lookup name =>
    rw [perform]
    cases (Name.Grammar.composite m.separator).resolve name with
    | error e => exact .inr ⟨e, rfl⟩
    | ok n =>
      simp only [reading]
      cases m.lookup n with
      | error e => exact .inr ⟨e, rfl⟩
      | ok v => exact .inl ⟨v, rfl, .lookup⟩
  | rebind name v =>
    rw [perform]
    cases hn : (Name.Grammar.composite m.separator).resolve name with
    | error e => exact .inr ⟨e, rfl⟩
    | ok n =>
      simp only [reading, rebind]
      cases hcheck : m.check [] n.parents with
      | error e => exact .inr ⟨e, rfl⟩
      | ok _ => exact .inl ⟨_, rfl, .rebind hn hcheck⟩
  | create name =>
    rw [perform]
    cases hn : (Name.Grammar.composite m.separator).resolve name with
    | error e => exact .inr ⟨e, rfl⟩
    | ok n =>
      simp only [reading, create]
      cases hcheck : m.check [] n.parents with
      | error e => exact .inr ⟨e, rfl⟩
      | ok _ =>
        cases hnone : m.node? n.segments with
        | none => exact .inl ⟨_, rfl, .create hn hcheck hnone⟩
        | some node => exact .inr ⟨_, rfl⟩
  | unbind name =>
    rw [perform]
    cases hn : (Name.Grammar.composite m.separator).resolve name with
    | error e => exact .inr ⟨e, rfl⟩
    | ok n =>
      simp only [reading, unbind]
      cases hcheck : m.check [] n.parents with
      | error e => exact .inr ⟨e, rfl⟩
      | ok _ => exact .inl ⟨_, rfl, .unbind hn hcheck⟩
  | bind text v =>
    have hresolve : (Name.Grammar.composite m.separator).resolve (.text text) =
        (Name.Grammar.composite m.separator).parse (.text text) := rfl
    rw [perform]
    cases hn : (Name.Grammar.composite m.separator).parse (.text text) with
    | error e => exact .inr ⟨_, rfl⟩
    | ok n =>
      show (∃ answer, (m.bind text n v).1 = .ok answer ∧ m.Does (.bind text v) (m.bind text n v).2) ∨
        ∃ e, m.bind text n v = (.error e, m)
      rw [bind]
      cases hway : m.obstacle? [] n.parents with
      | some s => exact .inr ⟨_, rfl⟩
      | none =>
        -- The path is filled, so the rebind goes through.
        simp only [rebind, check_fill hway]
        exact .inl ⟨_, rfl, .bind (hresolve.trans hn) hway⟩

/-! ### Objects

A path that has a context before and after an operation has the same object. -/

/-- Paths that are contexts in both maps have the same objects there. -/
def SameObjects (m m' : PathMap) : Prop :=
  ∀ p o o', m.node? p = some (.context o) → m'.node? p = some (.context o') → o' = o

theorem sameObjects_refl (m : PathMap) : m.SameObjects m := by
  intro p o o' ho ho'
  rw [ho] at ho'
  cases ho'
  rfl

/-- A path that is a context after another one was set was that context before. -/
theorem node?_of_set_context (hq : (m.set p v).node? q = some (.context o)) :
    m.node? q = some (.context o) := by
  rw [node?_set] at hq
  split at hq
  · cases hq
  · split at hq
    · cases hq
    · exact hq

theorem node?_of_remove_context (hq : (m.remove p).node? q = some (.context o)) :
    m.node? q = some (.context o) := by
  rw [node?_remove] at hq
  split at hq
  · cases hq
  · exact hq

/-- What an operation does when it succeeds keeps the contexts that stay. -/
theorem Does.sameObjects {op : Operation} {m' : PathMap} (h : m.Does op m') : m.SameObjects m' := by
  intro q o o' ho ho'
  cases h with
  | lookup => exact m.sameObjects_refl q o o' ho ho'
  | rebind => exact m.sameObjects_refl q o o' ho (node?_of_set_context ho')
  | create _ _ hnone =>
    -- The new context stands where nothing was mapped.
    rw [node?_addContext, if_neg] at ho'
    · exact m.sameObjects_refl q o o' ho ho'
    · rintro rfl
      rw [hnone] at ho
      cases ho
  | unbind => exact m.sameObjects_refl q o o' ho (node?_of_remove_context ho')
  | @bind _ _ n =>
    have hfilled : (m.fill [] n.parents).node? q = some (.context o) := node?_fill_of_eq_some ho
    exact sameObjects_refl _ q o o' hfilled (node?_of_set_context ho')

/-- No operation replaces a context by another one. What it overwrites or removes is gone, and a context that
is created stands where nothing was mapped. -/
theorem sameObjects_perform (op : Operation) (m : PathMap) : m.SameObjects (m.perform op).2 := by
  rcases m.perform_cases op with ⟨_, _, hdoes⟩ | ⟨e, he⟩
  · exact hdoes.sameObjects
  · rw [he]
    exact m.sameObjects_refl

/-- As long as a path is a context, it has the same object. -/
theorem node?_inTurn_of_context (ops : List Operation) (ho : m.node? p = some (.context o))
    (hstays : ∀ ops', ops' <+: ops → ∃ o', (inTurn perform ops' m).2.node? p = some (.context o')) :
    (inTurn perform ops m).2.node? p = some (.context o) := by
  induction ops generalizing m with
  | nil => exact ho
  | cons op ops ih =>
    -- After the first operation there is still a context, hence the same object, and so on from there.
    obtain ⟨o', ho'⟩ := hstays [op] (List.prefix_append [op] ops)
    obtain rfl : o' = o := sameObjects_perform op m p o o' ho ho'
    apply ih ho'
    intro ops' hpre
    exact hstays (op :: ops') (List.cons_prefix_cons.mpr ⟨rfl, hpre⟩)

end PathMap
end NamingDirectory.Memory
