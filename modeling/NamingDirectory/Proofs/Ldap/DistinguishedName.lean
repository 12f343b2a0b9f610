import NamingDirectory.Ldap.Entry
import NamingDirectory.Ldap.Server
import NamingDirectory.Proofs.Composite.Spelling

/-!
# Distinguished names of entries

The distinguished name of a path lists the relative names of its segments, the last segment first, and then
the name of the entry that the path starts at. So the names compose: below the entry at a path the rest of a
path leads where the whole path leads from the start (`entryDn_append`).

A comma between two relative names is the first one that no backslash escapes, because an escaped segment is
closed (`isClosed_escape`): it has no such comma, and no backslash at its end that would escape the next one.
Hence a server finds the entry above where the client puts it (`parentDn?_joined`), and different paths have
different names (`pathDn_inj`).

Escaping is looked at as three steps, the characters that need a backslash anywhere, then the start, then the
end, because each step keeps a text closed for a reason of its own. The last step alone can lose something: in
a text of a single space it escapes again what the second one has escaped already. Texts that were read have no
space at their ends, and they can be read back from what they are escaped to (`unescape_escape`).
-/

namespace NamingDirectory

namespace Dn

/-! ### Closed texts

The scan goes two characters further at each backslash, as a server does when it looks for a comma. -/

/-- Whether no comma of a text ends a relative name, and none put after it would be escaped. -/
def isClosed : List Char → Bool
  | [] => true
  | ['\\'] => false
  | '\\' :: _ :: cs => isClosed cs
  | c :: cs => c != ',' && isClosed cs

theorem isClosed_cons {c : Char} (hc : c ≠ '\\') (cs : List Char) :
    isClosed (c :: cs) = (c != ',' && isClosed cs) := by
  rw [isClosed]
  · rintro rfl
    exact absurd rfl hc
  · rintro _ _ rfl
    exact absurd rfl hc

/-- What starts neither as a lone backslash nor as an escape starts with no backslash. -/
theorem ne_backslash {c : Char} {cs : List Char} (hlone : c = '\\' → cs = [] → False)
    (hescape : ∀ d ds, c = '\\' → cs = d :: ds → False) : c ≠ '\\' := by
  rintro rfl
  cases cs with
  | nil => exact hlone rfl rfl
  | cons d ds => exact hescape d ds rfl rfl

/-- A closed text has no part in whether a longer one is closed. -/
theorem isClosed_append {a : List Char} (ha : isClosed a) (b : List Char) :
    isClosed (a ++ b) = isClosed b := by
  fun_induction isClosed a with
  | case1 => rfl
  | case2 => cases ha
  | case3 c cs ih => exact ih ha
  | case4 c cs h₁ h₂ ih =>
    have hc : c ≠ '\\' := ne_backslash h₁ h₂
    rw [Bool.and_eq_true] at ha
    rw [List.cons_append, isClosed_cons hc, ha.1, ih ha.2, Bool.true_and]

/-- A space may get a backslash, whatever stands before it. -/
theorem isClosed_append_escaped_space {a : List Char} (ha : isClosed (a ++ [' '])) :
    isClosed (a ++ ['\\', ' ']) := by
  fun_induction isClosed a with
  | case1 => rfl
  | case2 => rfl
  | case3 c cs ih => exact ih ha
  | case4 c cs h₁ h₂ ih =>
    have hc : c ≠ '\\' := ne_backslash h₁ h₂
    rw [List.cons_append, isClosed_cons hc, Bool.and_eq_true] at ha ⊢
    exact ⟨ha.1, ih ha.2⟩

/-! ### Escaping in three steps

Each step keeps a text closed, so the whole of them makes a closed text of any. -/

/-- A backslash before each character that needs one wherever it stands. -/
def escapeEach (cs : List Char) : List Char :=
  cs.flatMap fun c => if needsEscape c then ['\\', c] else [c]

/-- A backslash before a number sign or a space at the start. -/
def escapeStart (cs : List Char) : List Char :=
  match cs with
  | '#' :: _ | ' ' :: _ => '\\' :: cs
  | _ => cs

/-- A backslash before a space at the end. -/
def escapeEnd (cs : List Char) : List Char :=
  match cs.reverse with
  | ' ' :: before => before.reverse ++ ['\\', ' ']
  | _ => cs

theorem escape_eq (cs : List Char) : escape cs = escapeEnd (escapeStart (escapeEach cs)) := rfl

theorem escapeEach_cons {c : Char} (hc : ¬ needsEscape c) (cs : List Char) :
    escapeEach (c :: cs) = c :: escapeEach cs := by
  rw [escapeEach, List.flatMap_cons, if_neg hc]
  rfl

theorem escapeEach_cons_of_needsEscape {c : Char} (hc : needsEscape c) (cs : List Char) :
    escapeEach (c :: cs) = '\\' :: c :: escapeEach cs := by
  rw [escapeEach, List.flatMap_cons, if_pos hc]
  rfl

theorem ne_backslash_of_not_needsEscape {c : Char} (hc : ¬ needsEscape c) : c ≠ '\\' := by
  rintro rfl
  exact hc (by decide)

/-- A comma gets a backslash, and a backslash gets another one. -/
theorem isClosed_escapeEach (cs : List Char) : isClosed (escapeEach cs) := by
  induction cs with
  | nil => rfl
  | cons c cs ih =>
    by_cases hc : needsEscape c
    · rw [escapeEach_cons_of_needsEscape hc]
      exact ih
    · have hcomma : c ≠ ',' := by
        rintro rfl
        exact hc (by decide)
      rw [escapeEach_cons hc, isClosed_cons (ne_backslash_of_not_needsEscape hc), ih, Bool.and_true]
      exact bne_iff_ne.mpr hcomma

theorem isClosed_escapeStart {cs : List Char} (h : isClosed cs) : isClosed (escapeStart cs) := by
  unfold escapeStart
  -- What gets the backslash is no comma and no backslash itself.
  split
  · exact h
  · exact h
  · exact h

theorem isClosed_escapeEnd {cs : List Char} (h : isClosed cs) : isClosed (escapeEnd cs) := by
  rw [escapeEnd]
  split
  · next before hreverse =>
    have hcs : cs = before.reverse ++ [' '] := by
      rw [← List.reverse_reverse cs, hreverse, List.reverse_cons]
    rw [hcs] at h
    exact isClosed_append_escaped_space h
  · exact h

/-- An escaped text is closed. -/
theorem isClosed_escape (cs : List Char) : isClosed (escape cs) := by
  rw [escape_eq]
  exact isClosed_escapeEnd (isClosed_escapeStart (isClosed_escapeEach cs))

/-! ### Taking escapes away

A backslash goes, and what comes after it stays. The steps are undone one after another: the first one is
undone on every text, the second one changes nothing of what is read back, and the third one does nothing
where there is no space at the end. -/

def unescape : List Char → List Char
  | '\\' :: c :: cs => c :: unescape cs
  | c :: cs => c :: unescape cs
  | [] => []

theorem unescape_cons {c : Char} (hc : c ≠ '\\') (cs : List Char) :
    unescape (c :: cs) = c :: unescape cs := by
  rw [unescape]
  rintro _ _ rfl
  exact absurd rfl hc

theorem unescape_escapeEach (cs : List Char) : unescape (escapeEach cs) = cs := by
  induction cs with
  | nil => rfl
  | cons c cs ih =>
    by_cases hc : needsEscape c
    · rw [escapeEach_cons_of_needsEscape hc]
      exact congrArg (c :: ·) ih
    · rw [escapeEach_cons hc, unescape_cons (ne_backslash_of_not_needsEscape hc), ih]

theorem unescape_escapeStart (cs : List Char) : unescape (escapeStart cs) = unescape cs := by
  unfold escapeStart
  split
  · rfl
  · rfl
  · rfl

theorem getLast?_escapeEach (cs : List Char) : (escapeEach cs).getLast? = cs.getLast? := by
  rcases List.eq_nil_or_concat cs with rfl | ⟨cs, c, rfl⟩
  · rfl
  · rw [List.concat_eq_append, escapeEach, List.flatMap_append, List.getLast?_append,
      List.getLast?_append, List.flatMap_singleton]
    split <;> rfl

theorem escapeEnd_of_getLast? {cs : List Char} (h : cs.getLast? ≠ some ' ') : escapeEnd cs = cs := by
  rw [escapeEnd]
  split
  · next before hreverse =>
    rw [← List.head?_reverse, hreverse] at h
    exact absurd rfl h
  · rfl

theorem getLast?_escapeStart (cs : List Char) : (escapeStart cs).getLast? = cs.getLast? := by
  unfold escapeStart
  split
  · rw [List.getLast?_cons_cons]
  · rw [List.getLast?_cons_cons]
  · rfl

/-- At the end of a text only a space is escaped in a way of its own. -/
theorem escape_of_getLast? {cs : List Char} (h : cs.getLast? ≠ some ' ') :
    escape cs = escapeStart (escapeEach cs) := by
  rw [escape_eq, escapeEnd_of_getLast?]
  rwa [getLast?_escapeStart, getLast?_escapeEach]

/-- A text that does not end with a space can be read back from what it is escaped to. -/
theorem unescape_escape {cs : List Char} (h : cs.getLast? ≠ some ' ') :
    unescape (escape cs) = cs := by
  rw [escape_of_getLast? h, unescape_escapeStart, unescape_escapeEach]

/-! ### Names between commas

Relative names are joined by commas, and found again between them when they are closed. Two lists of closed
relative names that are joined to one text, with the same names behind them, are therefore one list. -/

/-- Relative names with commas between them. -/
def joined (rdns : List (List Char)) : List Char := List.intercalate [','] rdns

theorem joined_cons {r : List Char} {rdns : List (List Char)} (h : rdns ≠ []) :
    joined (r :: rdns) = r ++ ',' :: joined rdns := by
  rw [joined, List.intercalate_cons_of_ne_nil h, List.append_assoc]
  rfl

end Dn

namespace Ldap

open Dn

theorem parentDn?_cons {c : Char} (hc : c ≠ '\\') (cs : List Char) :
    parentDn? (c :: cs) = if c == ',' then some cs else parentDn? cs := by
  rw [parentDn?]
  rintro _ _ rfl
  exact absurd rfl hc

/-- The search for a comma goes through a closed text, to what is behind it. -/
theorem parentDn?_append {a : List Char} (ha : isClosed a) (cs : List Char) :
    parentDn? (a ++ cs) = parentDn? cs := by
  fun_induction isClosed a with
  | case1 => rfl
  | case2 => cases ha
  | case3 c a ih => exact ih ha
  | case4 c a h₁ h₂ ih =>
    have hc : c ≠ '\\' := ne_backslash h₁ h₂
    rw [Bool.and_eq_true, bne_iff_ne] at ha
    rw [List.cons_append, parentDn?_cons hc, if_neg (by simpa using ha.1)]
    exact ih ha.2

/-- The first comma after a closed text ends the relative name. -/
theorem parentDn?_append_comma {a : List Char} (ha : isClosed a) (rest : List Char) :
    parentDn? (a ++ ',' :: rest) = some rest :=
  parentDn?_append ha (',' :: rest)

theorem parentDn?_of_isClosed {a : List Char} (ha : isClosed a) : parentDn? a = none := by
  rw [← List.append_nil a, parentDn?_append ha]
  rfl

/-- Above an entry is the one with the other relative names. -/
theorem parentDn?_joined {r : List Char} (hr : isClosed r) (rdns : List (List Char)) :
    parentDn? (joined (r :: rdns)) = if rdns = [] then none else some (joined rdns) := by
  split
  · next h =>
    subst h
    have hjoined : joined [r] = r := by simp [joined]
    rw [hjoined, parentDn?_of_isClosed hr]
  · next h => rw [joined_cons h, parentDn?_append_comma hr]

/-- Closed relative names can be told from what they are joined to. -/
theorem joined_cons_inj {r r' : List Char} {rdns rdns' : List (List Char)} (hr : isClosed r)
    (hr' : isClosed r') (h : joined (r :: rdns) = joined (r' :: rdns')) :
    r = r' ∧ joined rdns = joined rdns' := by
  have hparent := congrArg parentDn? h
  rw [parentDn?_joined hr, parentDn?_joined hr'] at hparent
  split at hparent
  · next hnil =>
    split at hparent
    · next hnil' =>
      subst hnil hnil'
      exact ⟨by simpa [joined] using h, rfl⟩
    · cases hparent
  · next hne =>
    split at hparent
    · cases hparent
    · next hne' =>
      have hrest := Option.some.inj hparent
      rw [joined_cons hne, joined_cons hne', hrest] at h
      exact ⟨List.append_cancel_right h, hrest⟩

theorem length_joined_cons (r : List Char) (rdns : List (List Char)) :
    r.length + (joined rdns).length ≤ (joined (r :: rdns)).length := by
  by_cases h : rdns = []
  · subst h
    simp [joined]
  · rw [joined_cons h, List.length_append, List.length_cons]
    omega

/-- A name gets longer by the relative names before it. -/
theorem length_joined_append_lt {rdns : List (List Char)} (hne : ∀ r ∈ rdns, r ≠ []) (h : rdns ≠ [])
    (tail : List (List Char)) : (joined tail).length < (joined (rdns ++ tail)).length := by
  have hle : ∀ rdns : List (List Char), (joined tail).length ≤ (joined (rdns ++ tail)).length := by
    intro rdns
    induction rdns with
    | nil => exact Nat.le_refl _
    | cons r rdns ih =>
      have := length_joined_cons r (rdns ++ tail)
      rw [List.cons_append]
      omega
  obtain ⟨r, rdns, rfl⟩ := List.exists_cons_of_ne_nil h
  have hr : 0 < r.length := List.length_pos_iff.mpr (hne r List.mem_cons_self)
  have := length_joined_cons r (rdns ++ tail)
  have := hle rdns
  rw [List.cons_append]
  omega

/-- Different lists of closed relative names before the same tail make different names. -/
theorem joined_append_inj {rdns rdns' : List (List Char)} (tail : List (List Char))
    (hclosed : ∀ r ∈ rdns, isClosed r) (hclosed' : ∀ r ∈ rdns', isClosed r)
    (hne : ∀ r ∈ rdns, r ≠ []) (hne' : ∀ r ∈ rdns', r ≠ [])
    (h : joined (rdns ++ tail) = joined (rdns' ++ tail)) : rdns = rdns' := by
  induction rdns generalizing rdns' with
  | nil =>
    -- With relative names left on one side only, that side is longer.
    cases rdns' with
    | nil => rfl
    | cons r' rdns' =>
      have hlt := length_joined_append_lt hne' (List.cons_ne_nil r' rdns') tail
      rw [← h] at hlt
      exact absurd hlt (Nat.lt_irrefl _)
  | cons r rdns ih =>
    cases rdns' with
    | nil =>
      have hlt := length_joined_append_lt hne (List.cons_ne_nil r rdns) tail
      rw [h] at hlt
      exact absurd hlt (Nat.lt_irrefl _)
    | cons r' rdns' =>
      simp only [List.mem_cons, forall_eq_or_imp] at hclosed hclosed' hne hne'
      obtain ⟨rfl, hrest⟩ := joined_cons_inj hclosed.1 hclosed'.1 h
      rw [ih hclosed.2 hclosed'.2 hne.2 hne'.2 hrest]

/-! ### The names of entries

The client's own names, for any style of names: nothing here depends on how a segment becomes a relative name.
That a path leads elsewhere than any longer path is a matter of length, since no relative name is empty. -/

section Entries

variable {d : Directory} {own : Value} {n : Name} {s : Segment} {p q : List Segment} {tail : List String}
  {dn : String}

/-- What the distinguished names below an entry end in: its own, if it has one. -/
def tail? (own : Value) : Option (List String) :=
  if own.isVoid then some []
  else match own with
    | .text s => some [s]
    | _ => none

/-- The relative names of a path, the last segment first. -/
def rdns (d : Directory) (path : List Segment) : List String := path.reverse.map (rdn d)

/-- The distinguished name of a path. -/
def pathDn (d : Directory) (tail : List String) (path : List Segment) : String :=
  ",".intercalate (rdns d path ++ tail)

theorem pathDn_nil (d : Directory) (own : String) : pathDn d [own] [] = own := by
  simp [pathDn, rdns]

/-- An entry has a distinguished name if the one to start from has a text for its own, or nothing. -/
theorem entryDn_eq_ok_iff :
    entryDn d own n = .ok dn ↔ ∃ tail, tail? own = some tail ∧ dn = pathDn d tail n.segments := by
  unfold entryDn tail?
  split
  · simp [pathDn, rdns, eq_comm]
  · cases own with
    | text own => simp [pathDn, rdns, eq_comm]
    | _ => simp

theorem entryDn_of_tail? (h : tail? own = some tail) (n : Name) :
    entryDn d own n = .ok (pathDn d tail n.segments) :=
  entryDn_eq_ok_iff.mpr ⟨tail, h, rfl⟩

theorem tail?_text {s : String} (h : s ≠ "") : tail? (.text s) = some [s] := by
  simp [tail?, Value.isVoid, h]

theorem rdn_ne_empty (d : Directory) (s : Segment) : rdn d s ≠ "" := by
  rw [rdn]
  split
  · exact s.nonempty
  · intro h
    have hlength := congrArg String.length h
    simp at hlength

theorem rdns_append (d : Directory) (p q : List Segment) : rdns d (p ++ q) = rdns d q ++ rdns d p := by
  simp [rdns]

theorem rdns_ne_nil (h : p ≠ []) : rdns d p ≠ [] := by
  simpa [rdns] using h

theorem ne_nil_of_mem_rdns {r : List Char} (h : r ∈ (rdns d p).map String.toList) : r ≠ [] := by
  simp only [rdns, List.mem_map, List.mem_reverse] at h
  obtain ⟨_, ⟨s, -, rfl⟩, rfl⟩ := h
  intro hnil
  exact rdn_ne_empty d s (String.toList_eq_nil_iff.mp hnil)

/-- The name of a path, as relative names with commas between them. -/
theorem toList_pathDn (d : Directory) (tail : List String) (p : List Segment) :
    (pathDn d tail p).toList = joined ((rdns d p).map String.toList ++ tail.map String.toList) := by
  rw [pathDn, String.toList_intercalate, List.map_append]
  rfl

/-- The name of a path gets longer with the path. -/
theorem length_pathDn_lt (h : q ≠ []) :
    (pathDn d tail p).toList.length < (pathDn d tail (p ++ q)).toList.length := by
  rw [toList_pathDn, toList_pathDn, rdns_append, List.map_append, List.append_assoc]
  exact length_joined_append_lt (fun r => ne_nil_of_mem_rdns) (by simpa using rdns_ne_nil h) _

/-- The name of a path is that of no path above it. -/
theorem pathDn_ne_append (h : q ≠ []) : pathDn d tail p ≠ pathDn d tail (p ++ q) :=
  fun heq => Nat.ne_of_lt (length_pathDn_lt h) (congrArg (fun dn => dn.toList.length) heq)

theorem pathDn_ne_empty (h : p ≠ []) : pathDn d tail p ≠ "" := by
  intro hempty
  have hlt : (pathDn d tail []).toList.length < (pathDn d tail ([] ++ p)).toList.length :=
    length_pathDn_lt h
  rw [List.nil_append, hempty] at hlt
  exact absurd hlt (Nat.not_lt_zero _)

/-- Below the entry at a path, the rest of a path leads where the whole path leads. -/
theorem pathDn_append (h : p ≠ []) : pathDn d [pathDn d tail p] q = pathDn d tail (p ++ q) := by
  have hback : rdns d p ++ tail ≠ [] := List.append_ne_nil_of_left_ne_nil (rdns_ne_nil h) tail
  rw [pathDn, pathDn, pathDn, rdns_append, List.append_assoc]
  by_cases hfront : rdns d q = []
  · simp [hfront]
  · rw [String.intercalate_append_of_ne_nil hfront hback,
      String.intercalate_append_of_ne_nil hfront (List.cons_ne_nil _ _), String.intercalate_singleton]

/-- Below the entry at a name, the rest of a longer name leads where the longer name leads. -/
theorem entryDn_append {m q : Name} (hn : n.segments = m.segments ++ q.segments)
    (hm : entryDn d own m = .ok dn) : entryDn d (.text dn) q = entryDn d own n := by
  obtain ⟨tail, htail, rfl⟩ := entryDn_eq_ok_iff.mp hm
  have hm : m.segments ≠ [] := List.cons_ne_nil _ _
  rw [entryDn_of_tail? (tail?_text (pathDn_ne_empty hm)), entryDn_of_tail? htail, hn, pathDn_append hm]

end Entries

/-- A directory at the base `dc=x`, with the usual settings otherwise. -/
def plainDirectory : Directory :=
  ⟨{ host := .text "localhost", base := .text "dc=x" },
    ⟨"localhost", .int 389, false, "ldap://localhost:389"⟩, ⟨0⟩⟩

/-! ### Composite names

From here on segments become values of one attribute, so what was said of closed texts applies. Values that
are trimmed are escaped differently if they differ, and so different paths have different names. -/

section Composite

variable {d : Directory} {tail : List String} {s t : Segment} {p q : List Segment}

/-- Whether segments become values of one attribute, whose name has no unescaped comma and no backslash
at its end. -/
structure Directory.IsComposite (d : Directory) : Prop where
  composite : d.settings.nameStyle = .composite
  closed : isClosed d.settings.namingAttribute.plain.toList

/-- Whether no segment of a path has blanks around it. -/
def IsTrimmed (path : List Segment) : Prop := ∀ s ∈ path, Text.trim s.text.toList = s.text.toList

theorem getLast?_trim (cs : List Char) : (Text.trim cs).getLast? ≠ some ' ' :=
  fun h => Text.not_isBlank_of_getLast?_trim cs h (by decide)

theorem Directory.IsComposite.toList_rdn (hd : d.IsComposite) (s : Segment) :
    (rdn d s).toList =
      d.settings.namingAttribute.plain.toList ++ '=' :: escape s.text.toList := by
  simp [rdn, hd.composite]

theorem Directory.IsComposite.isClosed_rdn (hd : d.IsComposite) (s : Segment) :
    isClosed (rdn d s).toList := by
  rw [hd.toList_rdn, isClosed_append hd.closed]
  exact isClosed_escape s.text.toList

theorem Directory.IsComposite.isClosed_of_mem_rdns (hd : d.IsComposite) {r : List Char}
    (h : r ∈ (rdns d p).map String.toList) : isClosed r := by
  simp only [rdns, List.mem_map, List.mem_reverse] at h
  obtain ⟨_, ⟨s, -, rfl⟩, rfl⟩ := h
  exact hd.isClosed_rdn s

/-- Segments without blanks around them can be told from their relative names. -/
theorem Directory.IsComposite.rdn_inj (hd : d.IsComposite)
    (hs : Text.trim s.text.toList = s.text.toList) (ht : Text.trim t.text.toList = t.text.toList)
    (h : rdn d s = rdn d t) : s = t := by
  have hlist := congrArg String.toList h
  rw [hd.toList_rdn, hd.toList_rdn] at hlist
  have hescape := List.cons_inj_right '=' |>.mp (List.append_cancel_left hlist)
  have htext := congrArg unescape hescape
  rw [unescape_escape (hs ▸ getLast?_trim _), unescape_escape (ht ▸ getLast?_trim _)] at htext
  exact Segment.ext (String.toList_inj.mp htext)

theorem Directory.IsComposite.map_rdn_inj (hd : d.IsComposite) (hp : IsTrimmed p) (hq : IsTrimmed q)
    (h : p.map (rdn d) = q.map (rdn d)) : p = q := by
  induction p generalizing q with
  | nil => exact (List.map_eq_nil_iff.mp h.symm).symm
  | cons s p ih =>
    cases q with
    | nil => cases h
    | cons t q =>
      obtain ⟨hs, hp⟩ := List.forall_mem_cons.mp hp
      obtain ⟨ht, hq⟩ := List.forall_mem_cons.mp hq
      obtain ⟨hst, hpq⟩ := List.cons_eq_cons.mp h
      rw [hd.rdn_inj hs ht hst, ih hp hq hpq]

/-- Different paths have different names. -/
theorem Directory.IsComposite.pathDn_inj (hd : d.IsComposite) (hp : IsTrimmed p) (hq : IsTrimmed q)
    (h : pathDn d tail p = pathDn d tail q) : p = q := by
  have hlist := congrArg String.toList h
  rw [toList_pathDn, toList_pathDn] at hlist
  have hrdns := joined_append_inj _ (fun r => hd.isClosed_of_mem_rdns) (fun r => hd.isClosed_of_mem_rdns)
    (fun r => ne_nil_of_mem_rdns) (fun r => ne_nil_of_mem_rdns) hlist
  have hmap : p.reverse.map (rdn d) = q.reverse.map (rdn d) :=
    (List.map_inj_right fun _ _ => String.toList_inj.mp).mp hrdns
  have hp' : IsTrimmed p.reverse := fun s hs => hp s (List.mem_reverse.mp hs)
  have hq' : IsTrimmed q.reverse := fun s hs => hq s (List.mem_reverse.mp hs)
  exact List.reverse_inj.mp (hd.map_rdn_inj hp' hq' hmap)

/-- A server finds the entry above where the path above leads. -/
theorem Directory.IsComposite.parentDn?_pathDn (hd : d.IsComposite) (tail : List String)
    (p : List Segment) (s : Segment) :
    parentDn? (pathDn d tail (p ++ [s])).toList =
      if p = [] ∧ tail = [] then none else some (pathDn d tail p).toList := by
  have hcons : rdns d (p ++ [s]) = rdn d s :: rdns d p := by simp [rdns]
  rw [toList_pathDn, hcons, List.map_cons, List.cons_append, parentDn?_joined (hd.isClosed_rdn s),
    toList_pathDn]
  simp [rdns]

/-- Segments that are made of pieces have no blanks around them. -/
theorem isTrimmed_of_mapM_segment? {pieces : List (List Char)} {path : List Segment}
    (h : pieces.mapM NamingDirectory.Composite.segment? = some path) : IsTrimmed path := by
  intro s hs
  have hmem : s.text.toList ∈ pieces.map Text.trim := by
    rw [← NamingDirectory.Composite.mapM_segment?_eq_some_iff.mp h]
    exact List.mem_map_of_mem hs
  obtain ⟨piece, -, hpiece⟩ := List.mem_map.mp hmem
  rw [← hpiece, Text.trim_trim]

/-- A composite name is read without blanks around its segments. -/
theorem isTrimmed_of_parse {sep : Separator} {text : String} {n : Name}
    (h : NamingDirectory.Composite.parse sep text = .ok n) : IsTrimmed n.segments := by
  obtain ⟨pieces, -, hpath⟩ := NamingDirectory.Composite.parse_ok h
  exact isTrimmed_of_mapM_segment? hpath

end Composite

end Ldap
end NamingDirectory
