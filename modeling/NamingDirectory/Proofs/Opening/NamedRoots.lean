import NamingDirectory.Proofs.Memory.Ownership
import NamingDirectory.Realm.Opening

/-!
# Named memory roots

Runs in which memory roots are opened by URL or by configuration, forgotten, and used. A key has one root
until the roots are forgotten, and another key, or the same one afterwards, has another root (`Run.Inv.live`,
`Run.Inv.gone`). What is done at one of them and below it is not seen through another
(`Run.roots_shared_and_isolated`).

A run never ends, so that any two moments of it can be compared, and `Inv n` is what is known before its act
`n`. It has two halves, which are kept apart in the step:

* Who owns what. A new root is owned by itself, and a context by the owner of the one that an operation
  created it from (`Run.own`). Each act keeps the heap within its owners (`Inv.advances`), because an
  operation is carried out on a context that was given before, and stays with the owner of that.
* Which root has which key. Each act leaves the named roots as they are, forgets them, or adds one
  (`roots_succ`), and what is known of them goes from one act to the next by these three cases.

That the roots of two keys are isolated is then a fact about owners, and no more about runs.
-/

namespace NamingDirectory

open Memory (Heap Operation Owners)

/-- What is done with named memory roots. -/
inductive Act where
  | memoryRoot (url : Value)
  | initialContext (config : Value) (env? : Option Environment) (logger : String)
  | reset
  /-- An operation on the memory context with a given number. -/
  | operate (id : Nat) (op : Operation)

namespace Act

def perform (s : Site) : Act → Answer × Site
  | .memoryRoot url => s.openMemory url
  | .initialContext config env? logger => s.openContext config env? logger
  | .reset => (.ok .null, s.forgetRoots)
  | .operate id op =>
    let (answer, realm) := Memory.perform id op s.realm
    (answer, { s with realm })

/-- The key of the memory root that an act opens: that of its URL, and a configuration has to ask for the
memory provider. -/
def key? (s : Site) : Act → Option String
  | .memoryRoot url => (Memory.rootKey url).toOption
  | .initialContext config env? _ =>
    match Properties.ofConfiguration config, s.environmentFor env? with
    | .ok props, .ok env =>
      if Opening.kind s.realm.heap.keys props env = "memory" then
        (Memory.rootKey (Opening.url s.realm.heap.keys props env)).toOption
      else none
    | _, _ => none
  | _ => none

end Act

/-! ### One act

Acts have to do with memory roots in three ways or not at all, whether by a URL or by a configuration.
`Act.Effect` tells the ways apart once, with all that a run has to know of the site afterwards. So no proof
about runs looks at URLs, properties or plans. -/

namespace Opening

variable {keys : Nat → List String} {props : Properties} {env : Environment}

theorem plan_of_memory (hkind : kind keys props env = "memory") :
    plan keys props env = (Memory.rootKey (url keys props env)).map .memory := by
  rw [plan, hkind]
  cases Memory.rootKey (url keys props env) <;> rfl

/-- No other provider opens a memory root. -/
theorem plan_ne_memory (hkind : kind keys props env ≠ "memory") (key : String) :
    plan keys props env ≠ .ok (.memory key) := by
  intro hplan
  simp only [plan, beq_iff_eq, hkind, if_false] at hplan
  split at hplan
  · cases hsettings : Ldap.Settings.ofUrl (url keys props env) (overrides keys props env) with
    | error e => simp [hsettings, bind, Except.bind] at hplan
    | ok settings =>
      cases hdirectory : Ldap.Directory.ofSettings settings with
      | error e => simp [hsettings, hdirectory, bind, Except.bind] at hplan
      | ok d => simp [hsettings, hdirectory, bind, Except.bind, pure, Except.pure] at hplan
  · cases hplan

end Opening

section Step

/-- Opening the root with a key gives the one that there is and changes nothing, or it gives a new one, which
goes to the end of the heap and is named. -/
theorem Site.openRoot_cases (key : String) (s : Site) :
    (∃ id, s.roots.get? key = some id ∧ s.openRoot key = (.context id, s)) ∨
    (s.roots.get? key = none ∧
      s.openRoot key =
        (.context s.realm.heap.size,
          { s with
            roots := s.roots.put key s.realm.heap.size
            realm := { s.realm with heap := s.realm.heap.push .slash } })) := by
  simp only [openRoot, Memory.Roots.open]
  cases s.roots.get? key with
  | none => exact .inr ⟨rfl, rfl⟩
  | some id => exact .inl ⟨id, rfl, rfl⟩

/-- The three things that an act does with memory roots, if it has to do with them. -/
inductive Act.Effect (act : Act) (s : Site) : Prop
  /-- It opens the root with its key. -/
  | opens (key : String) (s' : Site) (hkey : act.key? s = some key) (hreset : act ≠ .reset)
      (hperform : act.perform s = (.ok (s.openRoot key).1, s'))
      (hheap : s'.realm.heap = (s.openRoot key).2.realm.heap)
      (hroots : s'.roots = (s.openRoot key).2.roots)
  | resets (hact : act = .reset)
  | operates (id : Nat) (op : Operation) (hact : act = .operate id op)
  | none (a : Answer) (s' : Site) (hkey : act.key? s = none) (hreset : act ≠ .reset)
      (hperform : act.perform s = (a, s')) (hanswer : ∀ c, a ≠ .ok (.context c))
      (hheap : s'.realm.heap = s.realm.heap) (hroots : s'.roots = s.roots)

/-- A configuration opens a memory root just if it asks for the memory provider and has a URL with a key. -/
theorem Act.effect_initialContext (config : Value) (env? : Option Environment) (logger : String) (s : Site) :
    (Act.initialContext config env? logger).Effect s := by
  have hreset : Act.initialContext config env? logger ≠ .reset := by simp
  cases hprops : Properties.ofConfiguration config with
  | error e =>
    have hopen : s.openContext config env? logger = (.error e, s) := by rw [Site.openContext, hprops]
    have hkey : (Act.initialContext config env? logger).key? s = Option.none := by simp only [key?, hprops]
    exact .none _ _ hkey hreset hopen (by simp) rfl rfl
  | ok props =>
    have hopen := Site.openContext_of_properties hprops env? logger s
    cases henv : s.environmentFor env? with
    | error e =>
      rw [henv, Except.bind] at hopen
      have hkey : (Act.initialContext config env? logger).key? s = Option.none := by
        simp only [key?, hprops, henv]
      exact .none _ _ hkey hreset hopen (by simp) rfl rfl
    | ok env =>
      rw [henv, Except.bind] at hopen
      -- Of the two kinds only the memory provider opens anything, and its key is that of the URL.
      by_cases hkind : Opening.kind s.realm.heap.keys props env = "memory"
      · obtain ⟨key, hroot⟩ : ∃ key, Memory.rootKey (Opening.url s.realm.heap.keys props env) = .ok key :=
          ⟨_, rfl⟩
        have hkey : (Act.initialContext config env? logger).key? s = some key := by
          simp only [key?, hprops, henv, hkind, if_true, hroot, Except.toOption]
        rw [Opening.plan_of_memory hkind, hroot] at hopen
        exact .opens key _ hkey hreset hopen rfl rfl
      · have hkey : (Act.initialContext config env? logger).key? s = Option.none := by
          simp only [key?, hprops, henv, if_neg hkind]
        cases hplan : Opening.plan s.realm.heap.keys props env with
        | error e =>
          rw [hplan] at hopen
          exact .none _ _ hkey hreset hopen (by simp) rfl rfl
        | ok plan =>
          rw [hplan] at hopen
          cases plan with
          | memory key => exact absurd hplan (Opening.plan_ne_memory hkind key)
          | directory d =>
            apply Effect.none _ _ hkey hreset hopen _ rfl rfl
            intro c hc
            cases hc

theorem Act.effect (act : Act) (s : Site) : act.Effect s := by
  cases act with
  | memoryRoot url =>
    have hreset : Act.memoryRoot url ≠ .reset := by simp
    cases hroot : Memory.rootKey url with
    | error e =>
      have hkey : (Act.memoryRoot url).key? s = Option.none := by simp only [key?, hroot, Except.toOption]
      have hopen : s.openMemory url = (.error e, s) := by simp only [Site.openMemory, hroot]
      exact .none _ _ hkey hreset hopen (by simp) rfl rfl
    | ok key =>
      have hkey : (Act.memoryRoot url).key? s = some key := by simp only [key?, hroot, Except.toOption]
      have hopen : s.openMemory url = (.ok (s.openRoot key).1, (s.openRoot key).2) := by
        simp only [Site.openMemory, hroot]
      exact .opens key _ hkey hreset hopen rfl rfl
  | initialContext config env? logger => exact effect_initialContext config env? logger s
  | reset => exact .resets rfl
  | operate id op => exact .operates id op rfl

end Step

/-! ### Runs

The acts are chosen in advance, but any choice that a caller could make in the light of the answers is a run. -/

/-- The site before each act, when acts are done one after the other. -/
def siteBefore (start : Site) (act : Nat → Act) : Nat → Site
  | 0 => start
  | n + 1 => ((act n).perform (siteBefore start act n)).2

/-- A run that never ends, from a site without named roots. Operations bind no nodes, and are carried out on
contexts that were answered before. -/
structure Run where
  start : Site
  act : Nat → Act
  roots_start : start.roots = []
  holdsContexts_start : start.realm.heap.HoldsContexts
  isPlain : ∀ n id op, act n = .operate id op → op.IsPlain
  obtained : ∀ n id op, act n = .operate id op →
    ∃ m, m < n ∧ ((act m).perform (siteBefore start act m)).1 = .ok (.context id)

namespace Run

variable (run : Run)

def site (n : Nat) : Site := siteBefore run.start run.act n

def heap (n : Nat) : Heap := (run.site n).realm.heap

def roots (n : Nat) : Memory.Roots := (run.site n).roots

def answer (n : Nat) : Answer := ((run.act n).perform (run.site n)).1

theorem site_succ (n : Nat) : run.site (n + 1) = ((run.act n).perform (run.site n)).2 := rfl

/-- Whether an act opens the root with a key, and which context it is. -/
def Opens (n : Nat) (key : String) (id : Nat) : Prop :=
  (run.act n).key? (run.site n) = some key ∧ run.answer n = .ok (.context id)

/-- Whether no roots were forgotten after one act and before another. -/
def Remembers (m n : Nat) : Prop := ∀ k, m < k → k < n → run.act k ≠ .reset

/-- The contexts that are below a root before an act: itself, those that operations on one of them gave, and
those that one of them binds. -/
inductive Below (n root : Nat) : Nat → Prop
  | root : Below n root root
  | given {id c m : Nat} {op : Operation} : Below n root id → m < n → run.act m = .operate id op →
      run.answer m = .ok (.context c) → Below n root c
  | bound {id c : Nat} {s : Segment} : Below n root id → (run.heap n).get? id s = some (.context c) →
      Below n root c

/-! ### Owners

Owners are assigned by recursion on the run, so what is owned keeps its owner (`own_succ_of_lt`). Whose a
context is to be is settled by the act that makes it: what an operation creates goes to the owner of the
context that the operation is carried out on, and any other new context is a root and its own owner. -/

/-- Who owns which context before each act: what an operation creates is owned as the context that it is
carried out on, and a new root by itself. -/
def own : Nat → Owners
  | 0 => fun _ => none
  | n + 1 => fun c =>
    if c < (run.heap n).size then own n c
    else match run.act n with
      | .operate id _ => own n id
      | _ => some c

theorem own_succ_of_lt {n c : Nat} (hc : c < (run.heap n).size) : run.own (n + 1) c = run.own n c := by
  exact if_pos hc

/-- What is known before each act. -/
structure Inv (n : Nat) : Prop where
  ruled : (run.heap n).Ruled (run.own n)
  given : ∀ m, m < n → ∀ c, run.answer m = .ok (.context c) → ∃ o, (run.heap n).Has (run.own n) o c
  passed : ∀ m, m < n → ∀ id op c, run.act m = .operate id op → run.answer m = .ok (.context c) →
    run.own n c = run.own n id
  opened : ∀ m, m < n → ∀ key id, run.Opens m key id → (run.heap n).Has (run.own n) id id
  live : ∀ key id, (run.roots n).get? key = some id ↔
    ∃ m, m < n ∧ run.Opens m key id ∧ run.Remembers m n
  gone : ∀ m key id, m < n → run.Opens m key id → ¬run.Remembers m n →
    ∀ key', (run.roots n).get? key' ≠ some id
  injective : ∀ key key' id, (run.roots n).get? key = some id → (run.roots n).get? key' = some id →
    key = key'

theorem inv_zero : run.Inv 0 := by
  have hroots : ∀ key, (run.roots 0).get? key = none := by
    intro key
    show OrderedMap.get? run.start.roots key = none
    rw [run.roots_start]
    rfl
  constructor
  case ruled => exact ⟨run.holdsContexts_start, nofun, nofun⟩
  case given => exact nofun
  case passed => exact nofun
  case opened => exact nofun
  case live =>
    intro key id
    rw [hroots]
    exact ⟨nofun, fun ⟨m, hm, _⟩ => nomatch hm⟩
  case gone => exact nofun
  case injective =>
    intro key key' id hkey
    rw [hroots] at hkey
    cases hkey

variable {run} {n : Nat}

/-! ### One act of a run

The half of the step that is about owners. An act that leaves the heap alone keeps it within its owners
trivially, one that opens a root adds a context with nothing in it, and an operation stays with one owner by
`Memory.works_perform`. -/

/-- A context keeps its owner when only that is done that keeps the heap from shrinking. -/
theorem has_succ {o c : Nat} (hsize : (run.heap n).size ≤ (run.heap (n + 1)).size)
    (hc : (run.heap n).Has (run.own n) o c) : (run.heap (n + 1)).Has (run.own (n + 1)) o c :=
  ⟨Nat.lt_of_lt_of_le hc.1 hsize, (run.own_succ_of_lt hc.1).trans hc.2⟩

/-- What an act makes of the heap and its owners, and whose context it gives: that of the owner of the context
that it is carried out on, and a root of its own. -/
structure Advances (run : Run) (n : Nat) : Prop where
  size_le : (run.heap n).size ≤ (run.heap (n + 1)).size
  ruled : (run.heap (n + 1)).Ruled (run.own (n + 1))
  gives : ∀ c, run.answer n = .ok (.context c) → ∃ o, (run.heap (n + 1)).Has (run.own (n + 1)) o c ∧
    (∀ id op, run.act n = .operate id op → run.own (n + 1) id = some o) ∧
    (∀ key, (run.act n).key? (run.site n) = some key → o = c)

/-- Before the act is carried out, its new owners are no others for what is there. -/
theorem Inv.ruled_succ (hn : run.Inv n) : (run.heap n).Ruled (run.own (n + 1)) :=
  hn.ruled.congr fun _ hc => run.own_succ_of_lt hc

/-- An act that leaves the heap alone and gives no context. -/
theorem Inv.advances_of_heap_eq (hn : run.Inv n) (hheap : run.heap (n + 1) = run.heap n)
    (hanswer : ∀ c, run.answer n ≠ .ok (.context c)) : run.Advances n := by
  constructor
  case size_le => exact Nat.le_of_eq (congrArg Heap.size hheap).symm
  case ruled =>
    rw [hheap]
    exact hn.ruled_succ
  case gives =>
    intro c hc
    exact absurd hc (hanswer c)

/-- An act that opens a root, which is one that was opened before, or a new one. -/
theorem Inv.advances_of_openRoot (hn : run.Inv n) {key : String} (hnoOp : ∀ id op, run.act n ≠ .operate id op)
    (hheap : run.heap (n + 1) = ((run.site n).openRoot key).2.realm.heap)
    (hanswer : run.answer n = .ok ((run.site n).openRoot key).1) : run.Advances n := by
  rcases Site.openRoot_cases key (run.site n) with ⟨id, hid, hopen⟩ | ⟨-, hopen⟩
  · rw [hopen] at hheap hanswer
    have hsize : (run.heap n).size ≤ (run.heap (n + 1)).size := Nat.le_of_eq (congrArg Heap.size hheap).symm
    refine ⟨hsize, by rw [hheap]; exact hn.ruled_succ, ?_⟩
    intro c hc
    cases hanswer.symm.trans hc
    obtain ⟨m, hm, hopens, -⟩ := (hn.live key id).mp hid
    exact ⟨id, has_succ hsize (hn.opened m hm key id hopens), fun id' op hact => absurd hact (hnoOp id' op),
      fun _ _ => rfl⟩
  · rw [hopen] at hheap hanswer
    have hsize : (run.heap (n + 1)).size = (run.heap n).size + 1 := by rw [hheap]; exact Heap.size_push ..
    have hpush : Memory.Works (run.own (n + 1)) (run.heap n).size (run.heap n) (run.heap (n + 1)) := by
      rw [hheap]
      exact Memory.works_push .slash
    refine ⟨hpush.size_le, hpush.ruled hn.ruled_succ, ?_⟩
    intro c hc
    cases hanswer.symm.trans hc
    -- What is new is a root, as no operation created it.
    have hown : run.own (n + 1) (run.heap n).size = match run.act n with
        | .operate id _ => run.own n id
        | _ => some (run.heap n).size := if_neg (Nat.lt_irrefl _)
    refine ⟨(run.heap n).size, ⟨by rw [hsize]; exact Nat.lt_succ_self _, hown.trans ?_⟩,
      fun id' op hact => absurd hact (hnoOp id' op), fun _ _ => rfl⟩
    split
    · next id op hact => exact absurd hact (hnoOp id op)
    · rfl

/-- An operation on a context that was given before. -/
theorem Inv.advances_of_operate (hn : run.Inv n) {id : Nat} {op : Operation}
    (hact : run.act n = .operate id op) : run.Advances n := by
  obtain ⟨m, hm, hgiven⟩ := run.obtained n id op hact
  obtain ⟨o, hid⟩ := hn.given m hm id hgiven
  -- What the operation creates gets the owner of the context that it was given.
  have hown : ∀ c, (run.heap n).size ≤ c → run.own (n + 1) c = some o := by
    intro c hc
    rw [← hid.2, own, hact]
    exact if_neg (Nat.not_lt_of_le hc)
  have hid' : (run.heap n).Has (run.own (n + 1)) o id := ⟨hid.1, (run.own_succ_of_lt hid.1).trans hid.2⟩
  have hheap : run.heap (n + 1) = (Memory.perform id op (run.site n).realm).2.heap := by
    rw [heap, site_succ, hact]
    rfl
  have hanswer : run.answer n = (Memory.perform id op (run.site n).realm).1 := by
    rw [answer, hact]
    rfl
  obtain ⟨hworks, hgives⟩ := Memory.works_perform hn.ruled_succ hid' hown op (run.isPlain n id op hact)
  constructor
  case size_le =>
    rw [hheap]
    exact hworks.size_le
  case ruled =>
    rw [hheap]
    exact hworks.ruled hn.ruled_succ
  case gives =>
    rw [hheap, hanswer]
    intro c hc
    refine ⟨o, hgives c hc, ?_, ?_⟩
    · intro id' op' hact'
      rw [hact] at hact'
      cases hact'
      exact hid'.2
    · intro key hkey
      rw [hact] at hkey
      cases hkey

theorem Inv.advances (hn : run.Inv n) : run.Advances n := by
  cases (run.act n).effect (run.site n) with
  | opens key s' hkey hreset hperform hheap hroots =>
    apply hn.advances_of_openRoot
    · intro id op hact
      rw [hact] at hkey
      cases hkey
    · rw [heap, site_succ, hperform]
      exact hheap
    · rw [answer, hperform]
  | resets hact =>
    apply hn.advances_of_heap_eq
    · rw [heap, site_succ, hact]
      rfl
    · intro c hc
      rw [answer, hact] at hc
      cases hc
  | operates id op hact => exact hn.advances_of_operate hact
  | none a s' hkey hreset hperform hanswer hheap hroots =>
    apply hn.advances_of_heap_eq
    · rw [heap, site_succ, hperform]
      exact hheap
    · rw [answer, hperform]
      exact hanswer

/-! ### The named roots after an act

The other half, by the three cases of `roots_succ`: the roots are forgotten, or they are what they were, or
there is one more, under a key that had none. A new root is the next context of the heap. Since roots that
were opened before are in the heap already, no two keys share one, and what was forgotten does not come back. -/

/-- What an act makes of the named roots: it forgets them all, leaves them as they are, or names one more.
Only in the last two cases can it have opened a root, and then it has opened the one under its key. -/
theorem roots_succ (run : Run) (n : Nat) :
    (run.act n = .reset ∧ run.roots (n + 1) = [] ∧ ∀ key id, ¬run.Opens n key id) ∨
    (run.act n ≠ .reset ∧ run.roots (n + 1) = run.roots n ∧
      ∀ key id, run.Opens n key id → (run.roots n).get? key = some id) ∨
    (run.act n ≠ .reset ∧ ∃ key, (run.roots n).get? key = none ∧
      run.roots (n + 1) = (run.roots n).put key (run.heap n).size ∧
      run.heap (n + 1) = (run.heap n).push .slash ∧
      ∀ key' id, run.Opens n key' id ↔ key' = key ∧ id = (run.heap n).size) := by
  cases (run.act n).effect (run.site n) with
  | opens key s' hkey hreset hperform hheap hroots =>
    have hroots' : run.roots (n + 1) = ((run.site n).openRoot key).2.roots := by
      rw [roots, site_succ, hperform]
      exact hroots
    have hanswer : run.answer n = .ok ((run.site n).openRoot key).1 := by rw [answer, hperform]
    right
    rcases Site.openRoot_cases key (run.site n) with ⟨id, hid, hopen⟩ | ⟨hfree, hopen⟩
    · -- The key has a root, which is given again.
      left
      rw [hopen] at hroots' hanswer
      refine ⟨hreset, hroots', ?_⟩
      rintro key' id' ⟨hkey', hid'⟩
      cases hkey.symm.trans hkey'
      cases hanswer.symm.trans hid'
      exact hid
    · -- The key has none, and the new root is the next context of the heap.
      right
      have hheap' : run.heap (n + 1) = (run.heap n).push .slash := by
        rw [heap, site_succ, hperform]
        rw [hopen] at hheap
        exact hheap
      rw [hopen] at hroots' hanswer
      refine ⟨hreset, key, hfree, hroots', hheap', ?_⟩
      intro key' id'
      constructor
      · rintro ⟨hkey', hid'⟩
        cases hkey.symm.trans hkey'
        cases hanswer.symm.trans hid'
        exact ⟨rfl, rfl⟩
      · rintro ⟨rfl, rfl⟩
        exact ⟨hkey, hanswer⟩
  | resets hact =>
    left
    refine ⟨hact, by rw [roots, site_succ, hact]; rfl, ?_⟩
    rintro key id ⟨hkey, -⟩
    rw [hact] at hkey
    cases hkey
  | operates id op hact =>
    right; left
    refine ⟨by rw [hact]; exact nofun, by rw [roots, site_succ, hact]; rfl, ?_⟩
    rintro key id ⟨hkey, -⟩
    rw [hact] at hkey
    cases hkey
  | none a s' hkey hreset hperform hanswer hheap hroots =>
    right; left
    refine ⟨hreset, by rw [roots, site_succ, hperform]; exact hroots, ?_⟩
    rintro key id ⟨hkey', -⟩
    rw [hkey] at hkey'
    cases hkey'

/-- One more act leaves the roots remembered if it is no reset. -/
theorem remembers_succ {m : Nat} (hm : m < n) :
    run.Remembers m (n + 1) ↔ run.Remembers m n ∧ run.act n ≠ .reset := by
  constructor
  · intro h
    exact ⟨fun k hk hkn => h k hk (Nat.lt_succ_of_lt hkn), h n hm (Nat.lt_succ_self n)⟩
  · rintro ⟨h, hn⟩ k hk hkn
    rcases Nat.lt_succ_iff_lt_or_eq.mp hkn with hkn | rfl
    · exact h k hk hkn
    · exact hn

theorem remembers_self : run.Remembers n (n + 1) := by
  intro k hk hkn
  omega

/-- A root that is remembered after an act was remembered before it, or is opened by it. -/
theorem exists_remembered_succ {key : String} {id : Nat} :
    (∃ m, m < n + 1 ∧ run.Opens m key id ∧ run.Remembers m (n + 1)) ↔
      (run.act n ≠ .reset ∧ ∃ m, m < n ∧ run.Opens m key id ∧ run.Remembers m n) ∨ run.Opens n key id := by
  constructor
  · rintro ⟨m, hm, hopens, hremembers⟩
    rcases Nat.lt_succ_iff_lt_or_eq.mp hm with hm | rfl
    · obtain ⟨hremembers, hreset⟩ := (remembers_succ hm).mp hremembers
      exact .inl ⟨hreset, m, hm, hopens, hremembers⟩
    · exact .inr hopens
  · rintro (⟨hreset, m, hm, hopens, hremembers⟩ | hopens)
    · exact ⟨m, Nat.lt_succ_of_lt hm, hopens, (remembers_succ hm).mpr ⟨hremembers, hreset⟩⟩
    · exact ⟨n, Nat.lt_succ_self n, hopens, remembers_self⟩

theorem Inv.lt_size (hn : run.Inv n) {key : String} {id : Nat} (hid : (run.roots n).get? key = some id) :
    id < (run.heap n).size := by
  obtain ⟨m, hm, hopens, -⟩ := (hn.live key id).mp hid
  exact (hn.opened m hm key id hopens).1

/-- The named roots are those that were opened and not forgotten since. -/
theorem Inv.live_succ (hn : run.Inv n) (key : String) (id : Nat) :
    (run.roots (n + 1)).get? key = some id ↔
      ∃ m, m < n + 1 ∧ run.Opens m key id ∧ run.Remembers m (n + 1) := by
  rw [exists_remembered_succ, ← hn.live]
  rcases run.roots_succ n with ⟨hreset, hroots, hnone⟩ | ⟨hreset, hroots, hopen⟩ |
    ⟨hreset, new, hfree, hroots, -, hopen⟩
  · rw [hroots]
    refine ⟨nofun, ?_⟩
    rintro (⟨hnot, -⟩ | hopens)
    · exact absurd hreset hnot
    · exact absurd hopens (hnone key id)
  · rw [hroots]
    refine ⟨fun hid => .inl ⟨hreset, hid⟩, ?_⟩
    rintro (⟨-, hid⟩ | hopens)
    · exact hid
    · exact hopen key id hopens
  · -- The key of the new root was free, so no other root goes by it.
    rw [hroots, OrderedMap.get?_put, hopen]
    by_cases hkey : new = key
    · subst hkey
      simp [hfree, eq_comm]
    · have hkey' : key ≠ new := fun heq => hkey heq.symm
      simp [hkey, hkey', hreset]

/-- What was forgotten has no name any more, and gets none. -/
theorem Inv.gone_succ (hn : run.Inv n) (m : Nat) (key : String) (id : Nat) (hm : m < n + 1)
    (hopens : run.Opens m key id) (hforgot : ¬run.Remembers m (n + 1)) (key' : String) :
    (run.roots (n + 1)).get? key' ≠ some id := by
  rcases Nat.lt_succ_iff_lt_or_eq.mp hm with hm | rfl
  · rw [remembers_succ hm] at hforgot
    rcases run.roots_succ n with ⟨hreset, hroots, -⟩ | ⟨hreset, hroots, -⟩ | ⟨hreset, new, -, hroots, -⟩
    · rw [hroots]
      exact nofun
    · rw [hroots]
      exact hn.gone m key id hm hopens (fun h => hforgot ⟨h, hreset⟩) key'
    · rw [hroots, OrderedMap.get?_put]
      split
      · -- The new root is none that was opened before.
        intro hid
        cases hid
        exact Nat.lt_irrefl _ (hn.opened m hm key _ hopens).1
      · exact hn.gone m key id hm hopens (fun h => hforgot ⟨h, hreset⟩) key'
  · exact absurd remembers_self hforgot

theorem Inv.injective_succ (hn : run.Inv n) (key key' : String) (id : Nat)
    (hkey : (run.roots (n + 1)).get? key = some id) (hkey' : (run.roots (n + 1)).get? key' = some id) :
    key = key' := by
  rcases run.roots_succ n with ⟨-, hroots, -⟩ | ⟨-, hroots, -⟩ | ⟨-, new, -, hroots, -⟩
  · rw [hroots] at hkey
    cases hkey
  · rw [hroots] at hkey hkey'
    exact hn.injective key key' id hkey hkey'
  · rw [hroots, OrderedMap.get?_put] at hkey hkey'
    simp only [beq_iff_eq] at hkey hkey'
    split at hkey <;> split at hkey'
    · next hnew hnew' => exact hnew.symm.trans hnew'
    · cases hkey
      exact absurd (hn.lt_size hkey') (Nat.lt_irrefl _)
    · cases hkey'
      exact absurd (hn.lt_size hkey) (Nat.lt_irrefl _)
    · exact hn.injective key key' id hkey hkey'

/-! ### The invariant before every act

Each field of the invariant is about the acts so far. Of the earlier ones it was known, and is carried over to
the heap and the owners after this act; of the act itself it is what the two halves say. -/

/-- The invariant goes from one act to the next. -/
theorem Inv.succ (hn : run.Inv n) : run.Inv (n + 1) := by
  obtain ⟨hsize, hruled, hgives⟩ := hn.advances
  constructor
  case ruled => exact hruled
  case given =>
    intro m hm c hc
    rcases Nat.lt_succ_iff_lt_or_eq.mp hm with hm | rfl
    · obtain ⟨o, ho⟩ := hn.given m hm c hc
      exact ⟨o, has_succ hsize ho⟩
    · obtain ⟨o, ho, -⟩ := hgives c hc
      exact ⟨o, ho⟩
  case passed =>
    intro m hm id op c hact hc
    rcases Nat.lt_succ_iff_lt_or_eq.mp hm with hm | rfl
    · -- Both of them were there before this act.
      obtain ⟨m', hm', hid⟩ := run.obtained m id op hact
      obtain ⟨o, ho⟩ := hn.given m' (Nat.lt_trans hm' hm) id hid
      obtain ⟨o', ho'⟩ := hn.given m hm c hc
      rw [run.own_succ_of_lt ho.1, run.own_succ_of_lt ho'.1]
      exact hn.passed m hm id op c hact hc
    · obtain ⟨o, ho, hop, -⟩ := hgives c hc
      rw [ho.2, hop id op hact]
  case opened =>
    intro m hm key id hopens
    rcases Nat.lt_succ_iff_lt_or_eq.mp hm with hm | rfl
    · exact has_succ hsize (hn.opened m hm key id hopens)
    · obtain ⟨o, ho, -, hkey⟩ := hgives id hopens.2
      obtain rfl := hkey key hopens.1
      exact ho
  case live => exact hn.live_succ
  case gone => exact hn.gone_succ
  case injective => exact hn.injective_succ

theorem inv (run : Run) (n : Nat) : run.Inv n := by
  induction n with
  | zero => exact run.inv_zero
  | succ n ih => exact ih.succ

/-! ### Roots of a run

What is told of any two acts, from the invariant before the later one. Two that open a root get one and the
same if they have one key and no reset is between them, and different ones otherwise. -/

/-- An act that has a key opens the root with it. -/
theorem exists_opens {key : String} (hkey : (run.act n).key? (run.site n) = some key) :
    ∃ id, run.Opens n key id := by
  cases (run.act n).effect (run.site n) with
  | opens key' s' hkey' hreset hperform hheap hroots =>
    have hanswer : run.answer n = .ok ((run.site n).openRoot key').1 := by rw [answer, hperform]
    exact ⟨_, hkey, hanswer⟩
  | resets hact => rw [hact] at hkey; cases hkey
  | operates id op hact => rw [hact] at hkey; cases hkey
  | none a s' hkey' hreset hperform hanswer hheap hroots => rw [hkey] at hkey'; cases hkey'

theorem Opens.act_ne_reset {key : String} {id : Nat} (h : run.Opens n key id) : run.act n ≠ .reset := by
  intro hact
  have hkey := h.1
  rw [hact] at hkey
  cases hkey

/-- Two roots are one if their keys are, and no roots were forgotten between them. -/
theorem eq_iff {m : Nat} {key key' : String} {id id' : Nat} (hm : m < n) (hopens : run.Opens m key id)
    (hopens' : run.Opens n key' id') : id = id' ↔ key = key' ∧ run.Remembers m n := by
  have hinv := run.inv (n + 1)
  have hkey' : (run.roots (n + 1)).get? key' = some id' :=
    (hinv.live key' id').mpr ⟨n, Nat.lt_succ_self n, hopens', remembers_self⟩
  have hlater : m < n + 1 := Nat.lt_succ_of_lt hm
  constructor
  · rintro rfl
    have hremembers : run.Remembers m (n + 1) := by
      apply Classical.byContradiction
      intro hforgot
      exact hinv.gone m key id hlater hopens hforgot key' hkey'
    have hkey : (run.roots (n + 1)).get? key = some id :=
      (hinv.live key id).mpr ⟨m, hlater, hopens, hremembers⟩
    exact ⟨hinv.injective key key' id hkey hkey', ((remembers_succ hm).mp hremembers).1⟩
  · rintro ⟨rfl, hremembers⟩
    have hkey : (run.roots (n + 1)).get? key = some id :=
      (hinv.live key id).mpr
        ⟨m, hlater, hopens, (remembers_succ hm).mpr ⟨hremembers, hopens'.act_ne_reset⟩⟩
    exact Option.some.inj (hkey.symm.trans hkey')

/-- The root with a key that has none is a new empty context. -/
theorem new_of_forgotten {key : String} {id : Nat} (hopens : run.Opens n key id)
    (hforgot : ∀ m id', m < n → run.Opens m key id' → ¬run.Remembers m n) :
    (∀ m, m < n → run.answer m ≠ .ok (.context id)) ∧ id = (run.heap n).size ∧
      (run.heap (n + 1)).context id = .empty .slash := by
  have hinv := run.inv n
  rcases run.roots_succ n with ⟨-, -, hnone⟩ | ⟨-, -, hopen⟩ | ⟨-, new, -, -, hheap, hopen⟩
  · exact absurd hopens (hnone key id)
  · obtain ⟨m, hm, hopens', hremembers⟩ := (hinv.live key id).mp (hopen key id hopens)
    exact absurd hremembers (hforgot m id hm hopens')
  · obtain ⟨rfl, rfl⟩ := (hopen key id).mp hopens
    refine ⟨?_, rfl, ?_⟩
    · intro m hm hgiven
      obtain ⟨o, ho⟩ := hinv.given m hm _ hgiven
      exact Nat.lt_irrefl _ ho.1
    · rw [hheap, Heap.context_push, if_pos rfl]

/-- The contexts below a root are its own. -/
theorem Below.has {m root id : Nat} {key : String} (h : run.Below n root id) (hm : m < n)
    (hopens : run.Opens m key root) : (run.heap n).Has (run.own n) root id := by
  have hinv := run.inv n
  induction h with
  | root => exact hinv.opened m hm key root hopens
  | given _ hk hact hanswer ih =>
    obtain ⟨o, ho⟩ := hinv.given _ hk _ hanswer
    exact ⟨ho.1, (hinv.passed _ hk _ _ _ hact hanswer).trans ih.2⟩
  | bound _ hbound ih => exact hinv.ruled.binds _ _ _ root ih.2 hbound

/-- What is done below one root is not seen below another: a lookup or a listing through the other root gives
what it gave before. -/
theorem isolated {m m' root root' id id' : Nat} {key key' : String} (hm : m < n) (hm' : m' < n)
    (hopens : run.Opens m key root) (hopens' : run.Opens m' key' root') (hne : root ≠ root')
    (hid : run.Below n root id) (hid' : run.Below n root' id') (op : Operation) (hop : op.IsPlain) :
    (∀ name, Memory.lookup (Memory.perform id op (run.site n).realm).2.heap id' name =
        Memory.lookup (run.heap n) id' name) ∧
      (Memory.perform id op (run.site n).realm).2.heap.keys id' = (run.heap n).keys id' := by
  -- What the operation creates counts as below the first root.
  let own : Owners := fun c => if c < (run.heap n).size then run.own n c else some root
  have hown : ∀ c, c < (run.heap n).size → own c = run.own n c := fun c hc => if_pos hc
  have hnew : ∀ c, (run.heap n).size ≤ c → own c = some root := fun c hc => if_neg (Nat.not_lt_of_le hc)
  have hruled : (run.heap n).Ruled own := (run.inv n).ruled.congr hown
  have hhas := hid.has hm hopens
  have hhas' := hid'.has hm' hopens'
  have hid : (run.heap n).Has own root id := ⟨hhas.1, (hown _ hhas.1).trans hhas.2⟩
  have hid' : (run.heap n).Has own root' id' := ⟨hhas'.1, (hown _ hhas'.1).trans hhas'.2⟩
  obtain ⟨hworks, -⟩ := Memory.works_perform hruled hid hnew op hop
  exact ⟨hworks.lookup_eq hruled hid' hne.symm, hworks.keys_eq hid' hne.symm⟩

/-- In every run a root is opened whenever one is asked for. Two of them are the same context exactly if
their keys are the same and no roots were forgotten between them; the first one with a key after that is new
and empty; and no operation below one root is seen through another, be it by a lookup or by a list. -/
theorem roots_shared_and_isolated (run : Run) :
    (∀ n key, (run.act n).key? (run.site n) = some key → ∃ id, run.Opens n key id) ∧
    (∀ m n key key' id id', m < n → run.Opens m key id → run.Opens n key' id' →
      (id = id' ↔ key = key' ∧ run.Remembers m n)) ∧
    (∀ n key id, run.Opens n key id → (∀ m id', m < n → run.Opens m key id' → ¬run.Remembers m n) →
      (∀ m, m < n → run.answer m ≠ .ok (.context id)) ∧ id = (run.heap n).size ∧
        (run.heap (n + 1)).context id = .empty .slash) ∧
    ∀ n m m' key key' root root' id id', m < n → m' < n → run.Opens m key root →
      run.Opens m' key' root' → root ≠ root' → run.Below n root id → run.Below n root' id' →
      ∀ op : Operation, op.IsPlain →
        let realm := (Memory.perform id op (run.site n).realm).2
        (∀ name, Memory.lookup realm.heap id' name = Memory.lookup (run.heap n) id' name) ∧
          realm.list (.context id') = (run.site n).realm.list (.context id') := by
  refine ⟨fun n key => exists_opens, fun m n key key' id id' => eq_iff, fun n key id => new_of_forgotten, ?_⟩
  intro n m m' key key' root root' id id' hm hm' hopens hopens' hne hid hid' op hop
  obtain ⟨hlookup, hkeys⟩ := isolated hm hm' hopens hopens' hne hid hid' op hop
  refine ⟨hlookup, ?_⟩
  rw [Realm.list, Realm.list, hkeys]
  rfl

/-- Two roots, and a context below the first one. -/
def twoRoots : Run where
  start := .empty
  act
    | 0 => .memoryRoot (.text "memory://a")
    | 1 => .memoryRoot (.text " b/ ")
    | 2 => .operate 0 (.create (.text "x"))
    | _ => .reset
  roots_start := rfl
  holdsContexts_start := by
    intro id s v hv
    cases hv
  isPlain := by
    intro n id op hact
    match n with
    | 2 => cases hact; trivial
  obtained := by
    intro n id op hact
    match n with
    | 2 => cases hact; exact ⟨0, by decide, rfl⟩

/-- A value bound below the context of one root is not seen through the other root. -/
theorem roots_shared_and_isolated_twoRoots :
    twoRoots.Opens 0 "a" 0 ∧ twoRoots.Opens 1 "b" 1 ∧ (0 = 1 ↔ "a" = "b" ∧ twoRoots.Remembers 0 1) ∧
      (twoRoots.heap 2).context 1 = .empty .slash ∧
      ∀ name, Memory.lookup
          (Memory.perform 2 (.rebind (.text "y") .null) (twoRoots.site 3).realm).2.heap 1 name =
        Memory.lookup (twoRoots.heap 3) 1 name := by
  have hfirst : twoRoots.Opens 0 "a" 0 := ⟨rfl, rfl⟩
  have hsecond : twoRoots.Opens 1 "b" 1 := ⟨rfl, rfl⟩
  have hkeys : "a" ≠ "b" := by decide
  obtain ⟨-, hsame, hnew, hisolated⟩ := roots_shared_and_isolated twoRoots
  refine ⟨hfirst, hsecond, hsame 0 1 "a" "b" 0 1 (by decide) hfirst hsecond, ?_, ?_⟩
  · refine (hnew 1 "b" 1 hsecond ?_).2.2
    intro m id hm hopens
    obtain rfl : m = 0 := by omega
    exact absurd (Option.some.inj (hfirst.1.symm.trans hopens.1)) hkeys
  · have hbelow : twoRoots.Below 3 0 2 := by
      have hstep : twoRoots.answer 2 = .ok (.context 2) := rfl
      exact .given .root (by decide) rfl hstep
    exact (hisolated 3 0 1 "a" "b" 0 1 2 1 (by decide) (by decide) hfirst hsecond (by decide) hbelow .root
      (.rebind (.text "y") .null) rfl).1

end Run

end NamingDirectory
