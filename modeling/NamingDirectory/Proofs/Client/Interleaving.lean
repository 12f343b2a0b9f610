import Mathlib.Data.Set.Basic
import Mathlib.Order.Basic
import Mathlib.Data.Fintype.Order
import NamingDirectory.Proofs.Client.Course

/-!
# Dialogues that take turns

Several dialogues under way at once, with one state that answers them all. A turn of a dialogue is one event
or one request with its answer, and the turns of the others may come between any two of them.

`Keeps` is how such a dialogue is reasoned about without looking at the others: whatever they are allowed to
do before each of its turns, it does what it is allowed to, and it ends as it should. If each of the dialogues
keeps its part, they all do in any order of turns (`Concurrent.keeps_turns`). And as a dialogue is finite, it
is over some time, if it gets a turn again and again (`Concurrent.over_of_fair`).

What is allowed is given for sets of dialogues (`Conduct`). A dialogue relies on what all others may do
together and promises what it may do alone, so that the promises of the others are what each one relies on:

    may {j}  ≤  may {i}ᶜ    for j ≠ i.

An order of turns is a list, so a race can be looked at at any time, and not only when all is over. Orders
that never end come in with fairness only, by their first turns.
-/

namespace NamingDirectory.Dialogue

variable {ι ε ρ β α γ σ : Type}

/-- The state that answers, and the course of all dialogues so far, each mark with the dialogue that made
it. -/
structure Scene (ι ε ρ β σ : Type) where
  state : σ
  course : List (ι × Mark ε ρ β)

/-- Dialogues under way, each with what is left of it. -/
structure Concurrent (ι ε ρ β α σ : Type) where
  talk : ι → Dialogue ε ρ β α
  scene : Scene ι ε ρ β σ

variable (answer : ρ → σ → β × σ) (hear : ε → σ → σ)

namespace Scene

def note (i : ι) (e : ε) (s : Scene ι ε ρ β σ) : Scene ι ε ρ β σ :=
  ⟨hear e s.state, s.course ++ [(i, .event e)]⟩

def ask (i : ι) (r : ρ) (s : Scene ι ε ρ β σ) : Scene ι ε ρ β σ :=
  ⟨(answer r s.state).2, s.course ++ [(i, .call r (answer r s.state).1)]⟩

end Scene

/-! ### What one dialogue can be trusted with

By recursion on the dialogue. At each node the scene may have changed since the last turn, so the condition is
asked after any step that `rely` allows. -/

section Keeps

/-- Whether a dialogue keeps its part: however the others change the scene before its turns, as far as `rely`
lets them, each of its turns is one that `promise` allows, and it ends with a result and a scene that are
related by `ends`. -/
def Keeps (rely promise : Scene ι ε ρ β σ → Scene ι ε ρ β σ → Prop) (i : ι)
    (ends : α → Scene ι ε ρ β σ → Prop) : Dialogue ε ρ β α → Scene ι ε ρ β σ → Prop
  | .done a, s => ∀ s', rely s s' → ends a s'
  | .note e next, s => ∀ s', rely s s' →
      promise s' (s'.note hear i e) ∧ Keeps rely promise i ends next (s'.note hear i e)
  | .ask r next, s => ∀ s', rely s s' →
      promise s' (s'.ask answer i r) ∧
        Keeps rely promise i ends (next (answer r s'.state).1) (s'.ask answer i r)

variable {answer hear} {rely promise : Scene ι ε ρ β σ → Scene ι ε ρ β σ → Prop} {i : ι}
  {ends : α → Scene ι ε ρ β σ → Prop} {d : Dialogue ε ρ β α} {s s' : Scene ι ε ρ β σ}

/-- What the others do does not keep a dialogue from keeping its part. -/
theorem Keeps.after (htrans : ∀ s s' s'', rely s s' → rely s' s'' → rely s s'')
    (h : Keeps answer hear rely promise i ends d s) (hs : rely s s') :
    Keeps answer hear rely promise i ends d s' := by
  cases d with
  | done a =>
    intro s'' hs'
    exact h s'' (htrans s s' s'' hs hs')
  | note e next =>
    intro s'' hs'
    exact h s'' (htrans s s' s'' hs hs')
  | ask r next =>
    intro s'' hs'
    exact h s'' (htrans s s' s'' hs hs')

/-- One dialogue after another keeps its part if each of them does. The second one may start at any later
moment, after steps of the others. -/
theorem Keeps.bind (hrefl : ∀ s, rely s s) {f : α → Dialogue ε ρ β γ}
    {ends' : γ → Scene ι ε ρ β σ → Prop}
    (h : Keeps answer hear rely promise i
      (fun a s => Keeps answer hear rely promise i ends' (f a) s) d s) :
    Keeps answer hear rely promise i ends' (d.bind f) s := by
  induction d generalizing s with
  | done a => exact h s (hrefl s)
  | note e next ih =>
    intro s' hs
    obtain ⟨hpromise, hnext⟩ := h s' hs
    exact ⟨hpromise, ih hnext⟩
  | ask r next ih =>
    intro s' hs
    obtain ⟨hpromise, hnext⟩ := h s' hs
    exact ⟨hpromise, ih _ hnext⟩

theorem Keeps.mono {ends' : α → Scene ι ε ρ β σ → Prop}
    (h : Keeps answer hear rely promise i ends d s) (hends : ∀ a s, ends a s → ends' a s) :
    Keeps answer hear rely promise i ends' d s := by
  induction d generalizing s with
  | done a =>
    intro s' hs
    exact hends a s' (h s' hs)
  | note e next ih =>
    intro s' hs
    obtain ⟨hpromise, hnext⟩ := h s' hs
    exact ⟨hpromise, ih hnext⟩
  | ask r next ih =>
    intro s' hs
    obtain ⟨hpromise, hnext⟩ := h s' hs
    exact ⟨hpromise, ih _ hnext⟩

end Keeps

/-! ### Turns

A turn changes the scene and what is left of one dialogue. -/

namespace Concurrent

variable [DecidableEq ι]

/-- One turn of a dialogue; one that is over lets it pass. -/
def turn (i : ι) (c : Concurrent ι ε ρ β α σ) : Concurrent ι ε ρ β α σ :=
  match c.talk i with
  | .done _ => c
  | .note e next => ⟨Function.update c.talk i next, c.scene.note hear i e⟩
  | .ask r next =>
    ⟨Function.update c.talk i (next (answer r c.scene.state).1), c.scene.ask answer i r⟩

/-- Turns in the given order. -/
def turns (order : List ι) (c : Concurrent ι ε ρ β α σ) : Concurrent ι ε ρ β α σ :=
  order.foldl (fun c i => c.turn answer hear i) c

variable {answer hear} {c : Concurrent ι ε ρ β α σ}

theorem turns_append (past future : List ι) :
    c.turns answer hear (past ++ future) = (c.turns answer hear past).turns answer hear future := by
  exact List.foldl_append

theorem turns_concat (past : List ι) (i : ι) :
    c.turns answer hear (past ++ [i]) = (c.turns answer hear past).turn answer hear i := by
  rw [turns_append]
  rfl

theorem talk_turn_of_ne {i j : ι} (hij : i ≠ j) : (c.turn answer hear i).talk j = c.talk j := by
  unfold turn
  split
  · rfl
  · exact Function.update_of_ne hij.symm _ _
  · exact Function.update_of_ne hij.symm _ _

theorem talk_turn_of_note {i : ι} {e : ε} {next : Dialogue ε ρ β α} (h : c.talk i = .note e next) :
    (c.turn answer hear i).talk i = next := by
  unfold turn
  rw [h]
  exact Function.update_self ..

theorem talk_turn_of_ask {i : ι} {r : ρ} {next : β → Dialogue ε ρ β α} (h : c.talk i = .ask r next) :
    (c.turn answer hear i).talk i = next (answer r c.scene.state).1 := by
  unfold turn
  rw [h]
  exact Function.update_self ..

/-- What is over stays over, and as it ended. -/
theorem talk_turn_of_done {i : ι} {a : α} (h : c.talk i = .done a) (j : ι) :
    (c.turn answer hear j).talk i = .done a := by
  by_cases hij : j = i
  · subst hij
    unfold turn
    rw [h]
    exact h
  · rw [talk_turn_of_ne hij, h]

theorem talk_turns_of_done {i : ι} {a : α} (h : c.talk i = .done a) (order : List ι) :
    (c.turns answer hear order).talk i = .done a := by
  induction order generalizing c with
  | nil => exact h
  | cons j order ih => exact ih (talk_turn_of_done h j)

/-! ### Dialogues that all keep their part

The step is one turn, and the run is by induction on the order. -/

section Conduct

/-- What the dialogues of a set may do to a scene between them: nothing, one thing after another, and no less
than what those of a smaller set may do. -/
structure Conduct (may : Set ι → Scene ι ε ρ β σ → Scene ι ε ρ β σ → Prop) : Prop where
  refl : ∀ A s, may A s s
  trans : ∀ A s s' s'', may A s s' → may A s' s'' → may A s s''
  mono : ∀ {A B : Set ι} {s s'}, A ⊆ B → may A s s' → may B s s'

variable {may : Set ι → Scene ι ε ρ β σ → Scene ι ε ρ β σ → Prop}
  {ends : ι → α → Scene ι ε ρ β σ → Prop}

/-- Whether each of the dialogues keeps its part, as long as the others do what they may. -/
def AllKeep (answer : ρ → σ → β × σ) (hear : ε → σ → σ)
    (may : Set ι → Scene ι ε ρ β σ → Scene ι ε ρ β σ → Prop)
    (ends : ι → α → Scene ι ε ρ β σ → Prop) (c : Concurrent ι ε ρ β α σ) : Prop :=
  ∀ i, Keeps answer hear (may {i}ᶜ) (may {i}) i (ends i) (c.talk i) c.scene

/-- A turn that one dialogue may take leaves it and the others with their parts. -/
theorem AllKeep.step (hmay : Conduct may) (h : AllKeep answer hear may ends c) {i : ι}
    {next : Dialogue ε ρ β α} {s : Scene ι ε ρ β σ} (hs : may {i} c.scene s)
    (hnext : Keeps answer hear (may {i}ᶜ) (may {i}) i (ends i) next s) :
    AllKeep answer hear may ends ⟨Function.update c.talk i next, s⟩ := by
  intro j
  by_cases hij : j = i
  · subst hij
    show Keeps _ _ _ _ _ _ (Function.update c.talk j next j) s
    rw [Function.update_self]
    exact hnext
  · -- For the others this was one of the things that they reckon with.
    show Keeps _ _ _ _ _ _ (Function.update c.talk i next j) s
    rw [Function.update_of_ne hij]
    have hothers : may {j}ᶜ c.scene s := by
      apply hmay.mono _ hs
      intro k hk hkj
      exact hij (hkj.symm.trans hk)
    exact (h j).after (hmay.trans _) hothers

/-- One turn: the dialogue whose turn it is does what it promised, which the others rely on. -/
theorem keeps_turn (hmay : Conduct may) (h : AllKeep answer hear may ends c) (i : ι) :
    AllKeep answer hear may ends (c.turn answer hear i) ∧
      may {i} c.scene (c.turn answer hear i).scene := by
  have hi := h i
  unfold turn
  split
  · exact ⟨h, hmay.refl _ _⟩
  · next e next heq =>
    rw [heq] at hi
    obtain ⟨hpromise, hnext⟩ := hi c.scene (hmay.refl _ _)
    exact ⟨h.step hmay hpromise hnext, hpromise⟩
  · next r next heq =>
    rw [heq] at hi
    obtain ⟨hpromise, hnext⟩ := hi c.scene (hmay.refl _ _)
    exact ⟨h.step hmay hpromise hnext, hpromise⟩

/-- In any order of turns all dialogues keep their parts, and do together what they may. -/
theorem keeps_turns (hmay : Conduct may) (h : AllKeep answer hear may ends c) (order : List ι) :
    AllKeep answer hear may ends (c.turns answer hear order) ∧
      may Set.univ c.scene (c.turns answer hear order).scene := by
  induction order generalizing c with
  | nil => exact ⟨h, hmay.refl _ _⟩
  | cons i order ih =>
    obtain ⟨hkeep, hstep⟩ := keeps_turn hmay h i
    obtain ⟨hall, hrest⟩ := ih hkeep
    exact ⟨hall, hmay.trans _ _ _ _ (hmay.mono (Set.subset_univ _) hstep) hrest⟩

omit [DecidableEq ι] in
/-- A dialogue that is over has ended as it should, and nothing that was done since has changed this. -/
theorem AllKeep.ends_of_done (hmay : Conduct may) (h : AllKeep answer hear may ends c) {i : ι} {a : α}
    (ha : c.talk i = .done a) : ends i a c.scene := by
  have hi := h i
  rw [ha] at hi
  exact hi c.scene (hmay.refl _ _)

end Conduct

/-! ### Fair orders

How far off the end of a dialogue is depends on the answers that it will get, so the proof is by induction on
the dialogue and not by a count of its turns. -/

section Fair

/-- The first turns of an order that never ends. -/
def first (m : Nat) (order : Nat → ι) : List ι := (List.range m).map order

variable (answer hear) (c) {order : Nat → ι}

theorem turns_first_succ (m : Nat) :
    c.turns answer hear (first (m + 1) order) =
      (c.turns answer hear (first m order)).turn answer hear (order m) := by
  have hfirst : first (m + 1) order = first m order ++ [order m] := by
    simp [first, List.range_succ]
  rw [hfirst, turns_concat]

theorem talk_first_of_le {i : ι} {a : α} {m m' : Nat} (hm : m ≤ m')
    (h : (c.turns answer hear (first m order)).talk i = .done a) :
    (c.turns answer hear (first m' order)).talk i = .done a := by
  induction m', hm using Nat.le_induction with
  | base => exact h
  | succ m' _ ih =>
    rw [turns_first_succ]
    exact talk_turn_of_done ih _

/-- A dialogue waits as it is for its next turn, which is at most `n` turns off. -/
theorem exists_next_turn {i : ι} {m n : Nat} (hn : order (m + n) = i) :
    ∃ k, order k = i ∧
      (c.turns answer hear (first k order)).talk i = (c.turns answer hear (first m order)).talk i := by
  induction n generalizing m with
  | zero => exact ⟨m, hn, rfl⟩
  | succ n ih =>
    by_cases hm : order m = i
    · exact ⟨m, hm, rfl⟩
    · have hnext : order (m + 1 + n) = i := by rw [← hn]; congr 1; omega
      obtain ⟨k, hk, hwaits⟩ := ih hnext
      refine ⟨k, hk, ?_⟩
      rw [hwaits, turns_first_succ, talk_turn_of_ne hm]

/-- A dialogue that gets a turn again and again is over some time. -/
theorem over_of_fair {i : ι} (hfair : ∀ m, ∃ n, order (m + n) = i) (m : Nat) :
    ∃ k a, (c.turns answer hear (first k order)).talk i = .done a := by
  -- On what is left of the dialogue, which its next turn makes shorter.
  induction hd : (c.turns answer hear (first m order)).talk i generalizing m with
  | done a => exact ⟨m, a, hd⟩
  | note e next ih =>
    obtain ⟨n, hn⟩ := hfair m
    obtain ⟨k, hk, hwaits⟩ := exists_next_turn answer hear c hn
    apply ih (k + 1)
    rw [turns_first_succ, hk]
    exact talk_turn_of_note (hwaits.trans hd)
  | ask r next ih =>
    obtain ⟨n, hn⟩ := hfair m
    obtain ⟨k, hk, hwaits⟩ := exists_next_turn answer hear c hn
    apply ih _ (k + 1)
    rw [turns_first_succ, hk]
    exact talk_turn_of_ask (hwaits.trans hd)

/-- Dialogues that all get a turn again and again are all over some time. -/
theorem all_over_of_fair [Finite ι] (hfair : ∀ i m, ∃ n, order (m + n) = i) :
    ∃ k, ∀ i, ∃ a, (c.turns answer hear (first k order)).talk i = .done a := by
  have hover := fun i => over_of_fair answer hear c (hfair i) 0
  choose k a ha using hover
  obtain ⟨last, hlast⟩ := Finite.exists_le k
  refine ⟨last, ?_⟩
  intro i
  exact ⟨a i, talk_first_of_le answer hear c (hlast i) (ha i)⟩

end Fair

end Concurrent
end NamingDirectory.Dialogue
