/-!
# Ordered maps

Finite maps that remember the order in which their keys came first: writing a key again changes its
value and not its place. `get?_put` and `get?_erase` are the laws of reading after writing and after
removing, and `keys_put` says which keys a map has after a write, and in which order.
-/

namespace NamingDirectory

/-- A finite map with its keys in the order of their first writing. -/
abbrev OrderedMap (κ α : Type) := List (κ × α)

namespace OrderedMap

variable {κ α : Type} [BEq κ]

def get? : OrderedMap κ α → κ → Option α
  | [], _ => none
  | (k', v) :: m, k => if k' == k then some v else get? m k

/-- Writes a value: at the place of the key if it is there, else at the end. -/
def put : OrderedMap κ α → κ → α → OrderedMap κ α
  | [], k, v => [(k, v)]
  | (k', v') :: m, k, v => if k' == k then (k', v) :: m else (k', v') :: put m k v

def erase : OrderedMap κ α → κ → OrderedMap κ α
  | [], _ => []
  | (k', v') :: m, k => if k' == k then m else (k', v') :: erase m k

def has (m : OrderedMap κ α) (k : κ) : Bool := (m.get? k).isSome

/-- Writes all entries of `m'` into `m`, in their order. -/
def update (m m' : OrderedMap κ α) : OrderedMap κ α := m'.foldl (fun m e => m.put e.1 e.2) m

/-- The map that results from writing the entries one after the other. -/
def ofEntries (es : List (κ × α)) : OrderedMap κ α := update [] es

def keys (m : List (κ × α)) : List κ := m.map (·.1)

/-! ### Laws -/

theorem get?_put [LawfulBEq κ] (m : OrderedMap κ α) (k k' : κ) (v : α) :
    (m.put k v).get? k' = if k == k' then some v else m.get? k' := by
  induction m with
  | nil => rfl
  | cons e m ih =>
    obtain ⟨k₀, v₀⟩ := e
    simp only [put]
    split
    · next h =>
      have h := eq_of_beq h
      subst h
      simp only [get?]
      split <;> simp_all
    · next h =>
      simp only [get?, ih]
      split
      · next h' =>
        have h' := eq_of_beq h'
        subst h'
        have : (k == k₀) = false := by
          rw [Bool.eq_false_iff]
          intro hk
          exact h (by rw [eq_of_beq hk]; exact BEq.rfl)
        simp [this]
      · rfl

/-- A write keeps the order of the keys; a new key comes last. -/
theorem keys_put (m : OrderedMap κ α) (k : κ) (v : α) :
    keys (m.put k v) = if m.has k then keys m else keys m ++ [k] := by
  induction m with
  | nil => rfl
  | cons e m ih =>
    obtain ⟨k₀, v₀⟩ := e
    simp only [put, has, get?]
    split
    · simp [keys]
    · simp only [has] at ih
      simp only [keys, List.map_cons, List.cons_append] at ih ⊢
      rw [ih]
      split <;> simp_all

theorem mem_of_get? [LawfulBEq κ] {m : OrderedMap κ α} {k : κ} {v : α} (hv : m.get? k = some v) :
    (k, v) ∈ m := by
  induction m with
  | nil => cases hv
  | cons e m ih =>
    obtain ⟨k₀, v₀⟩ := e
    rw [get?] at hv
    split at hv
    · next h =>
      cases hv
      rw [eq_of_beq h]
      exact List.mem_cons_self
    · exact List.mem_cons_of_mem _ (ih hv)

theorem mem_keys_iff [LawfulBEq κ] (m : OrderedMap κ α) (k : κ) :
    k ∈ keys m ↔ (m.get? k).isSome = true := by
  induction m with
  | nil => simp [keys, get?]
  | cons e m ih =>
    obtain ⟨k₀, v₀⟩ := e
    simp only [keys, List.map_cons, List.mem_cons] at ih ⊢
    simp only [get?]
    split
    · next h => simp [eq_of_beq h]
    · next h =>
      rw [ih]
      constructor
      · rintro (rfl | hk)
        · exact absurd BEq.rfl h
        · exact hk
      · exact Or.inr

theorem nodup_keys_put [LawfulBEq κ] {m : OrderedMap κ α} (hm : (keys m).Nodup) (k : κ) (v : α) :
    (keys (m.put k v)).Nodup := by
  rw [keys_put]
  split
  · exact hm
  · next h =>
    have hk : k ∉ keys m := by rw [mem_keys_iff]; exact h
    rw [List.nodup_append]
    refine ⟨hm, by simp, ?_⟩
    rintro a ha b hb rfl
    exact hk (List.mem_singleton.mp hb ▸ ha)

/-- Removing a key takes no other one away, and brings none. -/
theorem keys_erase_sublist (m : OrderedMap κ α) (k : κ) :
    (keys (m.erase k)).Sublist (keys m) := by
  induction m with
  | nil => exact List.Sublist.refl _
  | cons e m ih =>
    obtain ⟨k₀, v₀⟩ := e
    simp only [erase]
    split
    · exact List.sublist_cons_self _ _
    · exact ih.cons_cons k₀

/-- A removed key is not there any more, if no key was there twice. -/
theorem get?_erase [LawfulBEq κ] {m : OrderedMap κ α} (hm : (keys m).Nodup) (k k' : κ) :
    (m.erase k).get? k' = if k == k' then none else m.get? k' := by
  induction m with
  | nil => simp [erase, get?]
  | cons e m ih =>
    obtain ⟨k₀, v₀⟩ := e
    obtain ⟨hk₀, hm⟩ := List.nodup_cons.mp hm
    have habsent : get? m k₀ = none := by
      rw [← Option.not_isSome_iff_eq_none, ← mem_keys_iff]
      exact hk₀
    simp only [erase]
    split
    · next h =>
      have h := eq_of_beq h
      subst h
      simp only [get?]
      split
      · next h' => rw [← eq_of_beq h', habsent]
      · rfl
    · next h =>
      simp only [get?, ih hm]
      split
      · next h' =>
        have h' := eq_of_beq h'
        subst h'
        have hne : (k == k₀) = false := by
          rw [Bool.eq_false_iff]
          intro hk
          exact h (by rw [eq_of_beq hk]; exact BEq.rfl)
        simp [hne]
      · rfl

end OrderedMap
end NamingDirectory
