import NamingDirectory.Name.Reading

/-!
# The heap of memory contexts

Memory contexts are shared: a context may be bound at several names, or below itself. They live in a heap and
are known by their number. A context binds segments to values and reads names with its own separator.

Numbers are given away in order and never taken back, so a context that nothing leads to any more stays in the
heap. What is bound to a number that was not given away yet is bound to no context: it binds nothing, and
writing to it changes nothing (`Heap.Closed` rules this out where it matters).
-/

namespace NamingDirectory.Memory

structure Context where
  separator : Separator
  bindings : OrderedMap Segment Value

namespace Context

def empty (separator : Separator) : Context := ⟨separator, []⟩

end Context

structure Heap where
  contexts : List Context

namespace Heap

def empty : Heap := ⟨[]⟩

/-- The number that the next new context gets. -/
def size (h : Heap) : Nat := h.contexts.length

/-- The context with a given number; a number that was never given away has an empty one. -/
def context (h : Heap) (id : Nat) : Context := (h.contexts[id]?).getD (.empty .slash)

def get? (h : Heap) (id : Nat) (s : Segment) : Option Value := (h.context id).bindings.get? s

/-- Binds a segment in a context, whatever it was bound to. -/
def put (h : Heap) (id : Nat) (s : Segment) (v : Value) : Heap :=
  let c := h.context id
  ⟨h.contexts.set id { c with bindings := c.bindings.put s v }⟩

def erase (h : Heap) (id : Nat) (s : Segment) : Heap :=
  let c := h.context id
  ⟨h.contexts.set id { c with bindings := c.bindings.erase s }⟩

/-- Adds a new empty context; its number is the size of the heap before. -/
def push (h : Heap) (separator : Separator) : Heap := ⟨h.contexts ++ [.empty separator]⟩

/-- The segments bound in a context, in the order of their texts. -/
def keys (h : Heap) (id : Nat) : List String :=
  (OrderedMap.keys (h.context id).bindings).map (·.text) |>.mergeSort fun a b => decide (a ≤ b)

/-! ### Laws

How each of the changes is seen: in the contexts, in their separators, and in what they bind. The changes that
give a context other bindings are all `context_set` and `separator_set`. -/

@[simp] theorem size_put (h : Heap) (id : Nat) (s : Segment) (v : Value) :
    (h.put id s v).size = h.size := by
  simp [put, size]

@[simp] theorem size_push (h : Heap) (separator : Separator) :
    (h.push separator).size = h.size + 1 := by
  simp [push, size]

@[simp] theorem size_erase (h : Heap) (id : Nat) (s : Segment) : (h.erase id s).size = h.size := by
  simp [erase, size]

/-- A new context is the last of the heap, and the others stay as they are. -/
theorem context_push (h : Heap) (separator : Separator) (id : Nat) :
    (h.push separator).context id = if id = h.size then .empty separator else h.context id := by
  by_cases hid : id = h.size
  · rw [if_pos hid, hid]
    simp [context, push, size]
  · rw [if_neg hid]
    simp only [size] at hid
    simp only [context, push]
    by_cases hlt : id < h.contexts.length
    · rw [List.getElem?_append_left hlt]
    · rw [List.getElem?_eq_none (by simp; omega), List.getElem?_eq_none (by omega)]

/-- A context that is replaced is the new one, and the others stay as they are. -/
theorem context_set (h : Heap) {id : Nat} (hid : id < h.size) (c : Context) (id' : Nat) :
    (Heap.mk (h.contexts.set id c)).context id' = if id = id' then c else h.context id' := by
  simp only [size] at hid
  simp only [context]
  by_cases hi : id = id'
  · subst hi
    rw [List.getElem?_set_self hid, Option.getD_some, if_pos rfl]
  · rw [List.getElem?_set_ne hi, if_neg hi]

/-- Binding a segment changes the bindings of its context alone. -/
theorem context_put (h : Heap) {id : Nat} (hid : id < h.size) (s : Segment) (v : Value) (id' : Nat) :
    (h.put id s v).context id' =
      if id = id' then { h.context id with bindings := (h.context id).bindings.put s v }
      else h.context id' :=
  h.context_set hid _ id'

theorem context_erase (h : Heap) {id : Nat} (hid : id < h.size) (s : Segment) (id' : Nat) :
    (h.erase id s).context id' =
      if id = id' then { h.context id with bindings := (h.context id).bindings.erase s }
      else h.context id' :=
  h.context_set hid _ id'

/-- Other bindings for a context leave all separators alone, also if there is no such context. -/
theorem separator_set (h : Heap) (id : Nat) (bindings : OrderedMap Segment Value) (id' : Nat) :
    ((Heap.mk (h.contexts.set id { h.context id with bindings })).context id').separator =
      (h.context id').separator := by
  by_cases hid : id < h.size
  · rw [context_set h hid]
    split
    · next heq => rw [heq]
    · rfl
  · rw [List.set_eq_of_length_le (Nat.le_of_not_lt hid)]

/-- No change to the bindings of a context changes how it reads names. -/
@[simp] theorem separator_put (h : Heap) (id : Nat) (s : Segment) (v : Value) (id' : Nat) :
    ((h.put id s v).context id').separator = (h.context id').separator :=
  h.separator_set id _ id'

@[simp] theorem separator_erase (h : Heap) (id : Nat) (s : Segment) (id' : Nat) :
    ((h.erase id s).context id').separator = (h.context id').separator :=
  h.separator_set id _ id'

/-- There is nothing in a context that is not there. -/
theorem get?_of_size_le (h : Heap) {id : Nat} (hid : h.size ≤ id) (s : Segment) :
    h.get? id s = none := by
  have hnone : h.contexts[id]? = none := List.getElem?_eq_none hid
  simp [get?, context, hnone, Context.empty, OrderedMap.get?]

/-- A new context changes no old one, and is empty itself. -/
theorem get?_push (h : Heap) (separator : Separator) (id : Nat) (s : Segment) :
    (h.push separator).get? id s = h.get? id s := by
  rw [get?, context_push]
  split
  · next hid =>
    rw [h.get?_of_size_le (Nat.le_of_eq hid.symm)]
    rfl
  · rfl

/-- A write is seen at its context and segment, and nowhere else. -/
theorem get?_put (h : Heap) {id : Nat} (hid : id < h.size) (s : Segment) (v : Value)
    (id' : Nat) (s' : Segment) :
    (h.put id s v).get? id' s' = if id = id' ∧ s = s' then some v else h.get? id' s' := by
  simp only [get?, context_put h hid]
  by_cases hi : id = id'
  · subst hi
    simp [OrderedMap.get?_put]
  · simp [hi]

/-- A removal is seen at its context and segment, and nowhere else. -/
theorem get?_erase (h : Heap) {id : Nat} (hid : id < h.size)
    (hkeys : (OrderedMap.keys (h.context id).bindings).Nodup) (s : Segment) (id' : Nat)
    (s' : Segment) :
    (h.erase id s).get? id' s' = if id = id' ∧ s = s' then none else h.get? id' s' := by
  simp only [get?, context_erase h hid]
  by_cases hi : id = id'
  · subst hi
    simp [OrderedMap.get?_erase hkeys]
  · simp [hi]

/-- What is found in a context is in the list of its bindings. -/
theorem mem_of_get? {h : Heap} {id : Nat} {s : Segment} {v : Value} (hv : h.get? id s = some v) :
    ∃ c ∈ h.contexts, (s, v) ∈ c.bindings := by
  have hid : id < h.size := by
    apply Nat.lt_of_not_le
    intro hle
    rw [get?_of_size_le h hle] at hv
    cases hv
  simp only [size] at hid
  refine ⟨h.contexts[id], List.getElem_mem hid, ?_⟩
  simp only [get?, context, List.getElem?_eq_getElem hid, Option.getD_some] at hv
  exact OrderedMap.mem_of_get? hv

/-- The keys of a context are the texts of the segments that it binds. -/
theorem mem_keys_iff (h : Heap) (id : Nat) (t : String) :
    t ∈ h.keys id ↔ ∃ s : Segment, s.text = t ∧ (h.get? id s).isSome = true := by
  rw [keys, List.mem_mergeSort, List.mem_map]
  constructor
  · rintro ⟨s, hs, rfl⟩
    exact ⟨s, rfl, (OrderedMap.mem_keys_iff _ s).mp hs⟩
  · rintro ⟨s, rfl, hs⟩
    exact ⟨s, (OrderedMap.mem_keys_iff _ s).mpr hs, rfl⟩

/-- The keys of a context are in order, each of them once. -/
theorem pairwise_keys (h : Heap) {id : Nat}
    (hkeys : (OrderedMap.keys (h.context id).bindings).Nodup) : (h.keys id).Pairwise (· < ·) := by
  have hle : (h.keys id).Pairwise fun a b => decide (a ≤ b) = true := by
    apply List.pairwise_mergeSort
    · intro a b c hab hbc
      rw [decide_eq_true_eq] at hab hbc ⊢
      exact String.le_trans hab hbc
    · intro a b
      rw [Bool.or_eq_true, decide_eq_true_eq, decide_eq_true_eq]
      exact String.le_total a b
  have hne : (h.keys id).Pairwise (· ≠ ·) := by
    show (h.keys id).Nodup
    rw [keys, (List.mergeSort_perm _ _).nodup_iff]
    apply List.Pairwise.map _ _ hkeys
    intro s t hst htext
    exact hst (Segment.ext htext)
  apply (hle.and hne).imp
  rintro a b ⟨hab, hne⟩
  rw [decide_eq_true_eq] at hab
  apply Classical.byContradiction
  intro hlt
  exact hne (String.le_antisymm hab (String.not_lt.mp hlt))

end Heap
end NamingDirectory.Memory
