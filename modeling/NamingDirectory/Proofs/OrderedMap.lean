import Mathlib.Data.List.Induction
import NamingDirectory.OrderedMap

/-!
# Maps made of entries

What becomes of entries that are written one after the other. Entries with one key are made one: it stands
where the first of them stood, and has the value of the last. `Merges` says so without a word about how a map
is written, `merges_ofEntries` is the law, and `merges_iff` says that it leaves nothing open. Entries can also
be made maps in two parts, if the first map is then updated with the second (`ofEntries_append`).

The induction is on the entries from their end, since it is the last one that is written last: what holds of a
map that is made of entries goes on to hold when one more is written (`ofEntries_concat`).

The entries `(a, 1), (b, 2), (a, 3)` make the map `(a, 3), (b, 2)`.
-/

namespace NamingDirectory.OrderedMap

variable {κ α : Type}

theorem keys_concat (entries : List (κ × α)) (e : κ × α) :
    keys (entries ++ [e]) = keys entries ++ [e.1] := by
  simp [keys]

/-- Entries that are parted at their last one with a key have one value there. -/
theorem eq_of_last {before after before' after' : List (κ × α)} {k : κ} {v v' : α} (hk : k ∉ keys after)
    (hk' : k ∉ keys after') (h : before ++ (k, v) :: after = before' ++ (k, v') :: after') : v = v' := by
  rcases List.append_eq_append_iff.mp h with ⟨mid, -, hmid⟩ | ⟨mid, -, hmid⟩
  · cases mid with
    | nil =>
      cases hmid
      rfl
    | cons e mid =>
      obtain ⟨-, rfl⟩ := List.cons_eq_cons.mp hmid
      exact absurd (by simp [keys]) hk
  · cases mid with
    | nil =>
      cases hmid
      rfl
    | cons e mid =>
      obtain ⟨-, rfl⟩ := List.cons_eq_cons.mp hmid
      exact absurd (by simp [keys]) hk'

/-- Maps with the same keys in the same order and with one value at each are the same. -/
theorem eq_of_keys_eq {m m' : List (κ × α)} (hkeys : keys m = keys m')
    (hvalues : ∀ k v v', (k, v) ∈ m → (k, v') ∈ m' → v = v') : m = m' := by
  induction m generalizing m' with
  | nil => exact (List.map_eq_nil_iff.mp hkeys.symm).symm
  | cons e m ih =>
    cases m' with
    | nil => cases hkeys
    | cons e' m' =>
      obtain ⟨k, v⟩ := e
      obtain ⟨k', v'⟩ := e'
      obtain ⟨hk, hrest⟩ := List.cons_eq_cons.mp hkeys
      obtain rfl : k = k' := hk
      obtain rfl := hvalues k v v' List.mem_cons_self List.mem_cons_self
      rw [ih hrest fun k v v' hv hv' =>
        hvalues k v v' (List.mem_cons_of_mem _ hv) (List.mem_cons_of_mem _ hv')]

variable [BEq κ]

theorem mem_keys_put {m : OrderedMap κ α} {k : κ} (h : k ∈ keys m) (k' : κ) (v : α) :
    k ∈ keys (m.put k' v) := by
  rw [keys_put]
  split
  · exact h
  · exact List.mem_append_left _ h

theorem ofEntries_concat (entries : List (κ × α)) (e : κ × α) :
    ofEntries (entries ++ [e]) = (ofEntries entries).put e.1 e.2 := by
  simp [ofEntries, update]

section Every

variable {m : OrderedMap κ α} {k : κ} {v : α} {P : κ → Prop} {Q : α → Prop}

/-- A value that is found is in the map, under a key that counts as the same. -/
theorem exists_key_of_get? (h : m.get? k = some v) : ∃ k', (k', v) ∈ m := by
  induction m with
  | nil => cases h
  | cons e m ih =>
    rw [get?] at h
    split at h
    · cases h
      exact ⟨e.1, List.mem_cons_self⟩
    · obtain ⟨k', hmem⟩ := ih h
      exact ⟨k', List.mem_cons_of_mem _ hmem⟩

/-- A write keeps what holds of all keys and what holds of all values. -/
theorem forall_mem_put (hm : ∀ e ∈ m, P e.1 ∧ Q e.2) (hk : P k) (hv : Q v) :
    ∀ e ∈ m.put k v, P e.1 ∧ Q e.2 := by
  induction m with
  | nil => exact List.forall_mem_singleton.mpr ⟨hk, hv⟩
  | cons e m ih =>
    obtain ⟨he, hm⟩ := List.forall_mem_cons.mp hm
    rw [put]
    split
    · exact List.forall_mem_cons.mpr ⟨⟨he.1, hv⟩, hm⟩
    · exact List.forall_mem_cons.mpr ⟨he, ih hm⟩

theorem forall_mem_ofEntries {entries : List (κ × α)} (h : ∀ e ∈ entries, P e.1 ∧ Q e.2) :
    ∀ e ∈ ofEntries entries, P e.1 ∧ Q e.2 := by
  induction entries using List.reverseRecOn with
  | nil => exact nofun
  | append_singleton entries e ih =>
    obtain ⟨hentries, he⟩ := List.forall_mem_append.mp h
    obtain ⟨hk, hv⟩ := he e List.mem_cons_self
    rw [ofEntries_concat]
    exact forall_mem_put (ih hentries) hk hv

theorem put_ne_nil (m : OrderedMap κ α) (k : κ) (v : α) : m.put k v ≠ [] := by
  cases m with
  | nil => exact List.cons_ne_nil _ _
  | cons e m =>
    rw [put]
    split <;> exact List.cons_ne_nil _ _

theorem ofEntries_ne_nil {entries : List (κ × α)} (h : entries ≠ []) : ofEntries entries ≠ [] := by
  obtain ⟨front, e, rfl⟩ := (List.eq_nil_or_concat entries).resolve_left h
  rw [List.concat_eq_append, ofEntries_concat]
  exact put_ne_nil _ _ _

end Every

/-- Whether a map merges entries: its keys are theirs in the order in which they come first, and each value
is the one that comes last at its key. -/
structure Merges (entries merged : List (κ × α)) : Prop where
  keys_eq : keys merged = (keys entries).eraseDups
  last : ∀ k v, (k, v) ∈ merged →
    ∃ before after, entries = before ++ (k, v) :: after ∧ k ∉ keys after

variable [LawfulBEq κ] {m : OrderedMap κ α} {k k' : κ} {v v' : α}

/-- The entries of a map after a write are the written one, and the old ones at other keys. -/
theorem mem_put (hm : (keys m).Nodup) (h : (k', v') ∈ m.put k v) :
    k' = k ∧ v' = v ∨ k' ≠ k ∧ (k', v') ∈ m := by
  induction m with
  | nil => simpa [put] using h
  | cons e m ih =>
    obtain ⟨k₀, v₀⟩ := e
    have hk₀ : k₀ ∉ keys m := (List.nodup_cons.mp hm).1
    have hrest : (keys m).Nodup := (List.nodup_cons.mp hm).2
    rw [put] at h
    split at h
    · next heq =>
      rw [eq_of_beq heq] at h hk₀
      rcases List.mem_cons.mp h with hhead | htail
      · exact .inl (by simpa using hhead)
      · -- The key stands nowhere else.
        refine .inr ⟨?_, List.mem_cons_of_mem _ htail⟩
        rintro rfl
        exact hk₀ (List.mem_map_of_mem htail)
    · next hne =>
      rcases List.mem_cons.mp h with hhead | htail
      · cases hhead
        exact .inr ⟨by simpa using hne, List.mem_cons_self⟩
      · rcases ih hrest htail with hwritten | ⟨hother, hold⟩
        · exact .inl hwritten
        · exact .inr ⟨hother, List.mem_cons_of_mem _ hold⟩

/-! ### What entries are merged to

The keys of a map are those of the entries, each once and in the order in which they come first, and the value
at a key is that of the last entry with it. Both go over from a list of entries to one with one more at its
end, which is what a write does. -/

/-- No key is twice in a map. -/
theorem nodup_keys_ofEntries (entries : List (κ × α)) : (keys (ofEntries entries)).Nodup := by
  induction entries using List.reverseRecOn with
  | nil => exact List.nodup_nil
  | append_singleton entries e ih =>
    rw [ofEntries_concat]
    exact nodup_keys_put ih e.1 e.2

/-- One more key is new, or was there. -/
theorem eraseDups_concat (ks : List κ) (k : κ) :
    (ks ++ [k]).eraseDups = if k ∈ ks then ks.eraseDups else ks.eraseDups ++ [k] := by
  rw [List.eraseDups_append]
  by_cases hk : k ∈ ks
  · simp [List.removeAll, hk]
  · simp [List.removeAll, hk, List.eraseDups_cons]

theorem put_of_not_mem (h : k ∉ keys m) (v : α) : m.put k v = m ++ [(k, v)] := by
  induction m with
  | nil => rfl
  | cons e m ih =>
    obtain ⟨hne, hm⟩ := not_or.mp (mt List.mem_cons.mpr h)
    have hother : ¬ (e.1 == k) = true := by
      rw [beq_iff_eq]
      exact Ne.symm hne
    rw [put, if_neg hother, ih hm, List.cons_append]

/-- A map that is made of entries with different keys has just these entries. -/
theorem ofEntries_of_nodup {entries : List (κ × α)} (h : (keys entries).Nodup) :
    ofEntries entries = entries := by
  induction entries using List.reverseRecOn with
  | nil => rfl
  | append_singleton entries e ih =>
    rw [keys_concat, List.nodup_append] at h
    have hnew : e.1 ∉ keys entries := fun hmem => h.2.2 _ hmem _ (List.mem_singleton.mpr rfl) rfl
    rw [ofEntries_concat, ih h.1, put_of_not_mem hnew]

/-- A map that is made of entries merges them. -/
theorem merges_ofEntries (entries : List (κ × α)) : Merges entries (ofEntries entries) := by
  induction entries using List.reverseRecOn with
  | nil => exact ⟨rfl, nofun⟩
  | append_singleton entries e ih =>
    constructor
    case keys_eq =>
      have hhas : (ofEntries entries).has e.1 = true ↔ e.1 ∈ keys entries := by
        rw [has, ← mem_keys_iff, ih.keys_eq, List.mem_eraseDups]
      rw [ofEntries_concat, keys_put, keys_concat, eraseDups_concat, ih.keys_eq]
      simp only [hhas]
    case last =>
      intro k v hkv
      rw [ofEntries_concat] at hkv
      rcases mem_put (nodup_keys_ofEntries entries) hkv with ⟨rfl, rfl⟩ | ⟨hne, hold⟩
      · exact ⟨entries, [], rfl, by simp [keys]⟩
      · obtain ⟨before, after, rfl, hafter⟩ := ih.last k v hold
        refine ⟨before, after ++ [e], by simp, ?_⟩
        rw [keys_concat, List.mem_append, List.mem_singleton]
        exact not_or.mpr ⟨hafter, hne⟩

/-- To merge entries is to make a map of them: nothing about the map is left open. -/
theorem merges_iff {entries merged : List (κ × α)} : Merges entries merged ↔ merged = ofEntries entries := by
  constructor
  · intro h
    have hmade := merges_ofEntries entries
    apply eq_of_keys_eq (h.keys_eq.trans hmade.keys_eq.symm)
    intro k v v' hv hv'
    obtain ⟨_, _, hentries, hafter⟩ := h.last k v hv
    obtain ⟨_, _, hentries', hafter'⟩ := hmade.last k v' hv'
    exact eq_of_last hafter hafter' (hentries.symm.trans hentries')
  · rintro rfl
    exact merges_ofEntries entries

/-! ### Merging twice

A write into a map that is then written into another one, in either order. What makes it possible is that a
key which is there does not move: a write there changes a value, and a write at a new key adds to the end. -/

theorem put_put (m : OrderedMap κ α) (k : κ) (v v' : α) : (m.put k v).put k v' = m.put k v' := by
  induction m with
  | nil => simp [put]
  | cons e m ih =>
    by_cases h : (e.1 == k) = true
    · simp [put, h]
    · simp [put, h, ih]

/-- A key that is there keeps its place, so that it does not matter when it is written. -/
theorem put_comm_of_mem (h : k ∈ keys m) (hne : k' ≠ k) (v v' : α) :
    (m.put k' v').put k v = (m.put k v).put k' v' := by
  induction m with
  | nil => cases h
  | cons e m ih =>
    obtain ⟨k₀, v₀⟩ := e
    by_cases hk : k₀ = k
    · subst hk
      simp [put, hne.symm]
    · have hmem : k ∈ keys m := (List.mem_cons.mp h).resolve_left (Ne.symm hk)
      by_cases hk' : k₀ = k'
      · subst hk'
        simp [put, hk]
      · simp [put, hk, hk', ih hmem]

/-- A key that is there, and not among those that are written, may be written before or after them. -/
theorem update_put_of_mem {m' : OrderedMap κ α} (h : k ∈ keys m) (hnew : k ∉ keys m') (v : α) :
    (m.update m').put k v = (m.put k v).update m' := by
  induction m' generalizing m with
  | nil => rfl
  | cons e m' ih =>
    obtain ⟨hne, hnew⟩ := not_or.mp (mt List.mem_cons.mpr hnew)
    show ((m.put e.1 e.2).update m').put k v = ((m.put k v).put e.1 e.2).update m'
    rw [ih (mem_keys_put h e.1 e.2) hnew, put_comm_of_mem h (Ne.symm hne)]

/-- One more write may be made before the map is written into another one, or after. -/
theorem update_put {m' : OrderedMap κ α} (hm' : (keys m').Nodup) (m : OrderedMap κ α) (k : κ) (v : α) :
    m.update (m'.put k v) = (m.update m').put k v := by
  induction m' generalizing m with
  | nil => rfl
  | cons e m' ih =>
    obtain ⟨k₀, v₀⟩ := e
    obtain ⟨hnew, hm'⟩ := List.nodup_cons.mp hm'
    rw [put]
    split
    · next h =>
      obtain rfl := eq_of_beq h
      have hmem : k₀ ∈ keys (m.put k₀ v₀) := by simp [mem_keys_iff, get?_put]
      show (m.put k₀ v).update m' = ((m.put k₀ v₀).update m').put k₀ v
      rw [update_put_of_mem hmem hnew, put_put]
    · exact ih hm' (m.put k₀ v₀)

/-- Entries may be made a map before they are written into another one. -/
theorem update_ofEntries (m : OrderedMap κ α) (entries : List (κ × α)) :
    m.update (ofEntries entries) = m.update entries := by
  induction entries using List.reverseRecOn with
  | nil => rfl
  | append_singleton entries e ih =>
    rw [ofEntries_concat, update_put (nodup_keys_ofEntries entries), ih]
    simp [update]

/-- A map of entries in two parts is that of the first, updated with that of the second. -/
theorem ofEntries_append (entries entries' : List (κ × α)) :
    ofEntries (entries ++ entries') = (ofEntries entries).update (ofEntries entries') := by
  rw [update_ofEntries]
  exact List.foldl_append

end NamingDirectory.OrderedMap
