import NamingDirectory.Proofs.Dn.Assertions
import NamingDirectory.Proofs.Ldap.Cutting
import NamingDirectory.Proofs.Ldap.Likeness

/-!
# The two name styles

A composite segment is a value, and with its escapes and the naming attribute before it, it is a segment of a
distinguished name (`Segment.asRdn`). In either form it names the same entry (`entryDn_asRdn`).

The attributes of a new entry are another matter. In the composite style the value is sent as it is. In the
other style it is taken from the relative name and sent with its escapes, or refused if it has a number sign
inside, which is escaped at the start only (`Dn.checkValue_escape`). So both styles make the same requests
just for a leaf without characters to escape (`nameStyles_agree_iff`).

What the reader makes of an escaped value is worked out character by character, along the three steps of
escaping: the check passes over what got a backslash, and the one special character that may be left without
one is the number sign (`checkEscapes_escapeEach`). That the value is one assignment, and not cut into
several, is the invariant between the check and the search once more (`cutFirst_escapeEach`).

That the requests agree is not shown exchange by exchange. With one distinguished name and the same attributes
two operations ask the same of any server (`asksAlike_rebind`, `asksAlike_createContext`).

For the value `a,b` the two styles have one entry and two attributes:

    composite             segment a,b           entry cn=a\,b,…       attribute a,b
    distinguished names   segment cn=a\,b       entry cn=a\,b,…       attribute a\,b
-/

namespace NamingDirectory

namespace Dn

/-! ### Reading what was escaped

The reader of assignments on the texts that `escape` makes. Only values that were trimmed come here, so there
is no space at either end, and of the three steps of escaping two are left: a backslash before each character
that needs one, and one more before a number sign at the start (`escape_cons`). -/

/-- Whether a text is written as it is, wherever it stands in a distinguished name. -/
def IsPlain (cs : List Char) : Prop := ∀ c ∈ cs, ¬ needsEscape c ∧ c ≠ '#'

instance (cs : List Char) : Decidable (IsPlain cs) := List.decidableBAll _ cs

section Escaping

variable {c d : Char} {cs before : List Char}

/-- The reader has the number sign among its special characters, and the writer the backslash. -/
theorem isSpecial_iff (c : Char) : isSpecial c ↔ needsEscape c ∧ c ≠ '\\' ∨ c = '#' := by
  by_cases hbackslash : c = '\\'
  · rw [hbackslash]
    decide
  by_cases hsign : c = '#'
  · rw [hsign]
    decide
  simp [isSpecial, needsEscape, hbackslash, hsign, or_comm, or_left_comm, or_assoc]

/-- What needs an escape is passed after a backslash. -/
theorem checkEscapes_escaped (hc : needsEscape c ∨ c = '#') (cs : List Char) :
    checkEscapes .none ('\\' :: c :: cs) = checkEscapes .none cs := by
  have hdigit : ¬ Text.isHexDigit c := by
    intro hdigit
    obtain ⟨hbackslash, -, hspecial⟩ := ne_of_isHexDigit hdigit
    refine hspecial ((isSpecial_iff c).mpr ?_)
    exact hc.imp_left fun hneeds => ⟨hneeds, hbackslash⟩
  have hpassed : c == '\\' || isSpecial c := by
    by_cases hbackslash : c = '\\'
    · simp [hbackslash]
    · have hspecial := (isSpecial_iff c).mpr (hc.imp_left fun hneeds => ⟨hneeds, hbackslash⟩)
      simp [hspecial]
  rw [checkEscapes, if_pos (by rfl), checkEscapes, if_neg hdigit, Bool.or_assoc, hpassed, Bool.or_true,
    if_pos rfl]

/-- Only a number sign is left in front of which a backslash is missing. -/
theorem checkEscapes_escapeEach (cs : List Char) :
    checkEscapes .none (escapeEach cs) = if '#' ∈ cs then .error (.unescaped '#') else .ok () := by
  induction cs with
  | nil => rfl
  | cons c cs ih =>
    by_cases hc : needsEscape c
    · have hsign : c ≠ '#' := by
        rintro rfl
        exact absurd hc (by decide)
      rw [escapeEach_cons_of_needsEscape hc, checkEscapes_escaped (.inl hc), ih]
      simp [hsign.symm]
    · -- Of the characters that go without a backslash, the reader wants one for the number sign alone.
      have hbackslash := ne_backslash_of_not_needsEscape hc
      have hne : ¬ (c == '\\') := by simpa using hbackslash
      rw [escapeEach_cons hc, checkEscapes, if_neg hne]
      by_cases hsign : c = '#'
      · rw [hsign, if_pos (by decide), if_pos List.mem_cons_self]
      · have hspecial : ¬ isSpecial c := fun h =>
          ((isSpecial_iff c).mp h).elim (fun h => hc h.1) hsign
        rw [if_neg hspecial, ih]
        simp [Ne.symm hsign]

/-- No separator is cut at in an escaped text. -/
theorem cutFirst_escapeEach (hsep : IsSeparator (some d)) (h : Tracks before .none) (cs : List Char) :
    cutFirst d before (escapeEach cs) = none := by
  have hne : d ≠ '\\' := by
    rcases isSeparator_some_iff.mp hsep with rfl | rfl <;> decide
  have hneeds : needsEscape d := by
    rcases isSeparator_some_iff.mp hsep with rfl | rfl <;> decide
  induction cs generalizing before with
  | nil => rfl
  | cons c cs ih =>
    by_cases hc : needsEscape c
    · -- The backslash is no separator, and what comes after it is escaped.
      have hstarted : Tracks ('\\' :: before) .started := h.backslash rfl
      have hnext : Tracks (c :: '\\' :: before) .none := by
        by_cases hbackslash : c = '\\'
        · rw [hbackslash]
          exact hstarted.backslash rfl
        · exact .cons hbackslash (by decide) _
      rw [escapeEach_cons_of_needsEscape hc, cutFirst_cons, cutFirst_cons, hstarted.escaped]
      simpa [Ne.symm hne] using ih hnext
    · have hcut : c ≠ d := by
        rintro rfl
        exact hc hneeds
      rw [escapeEach_cons hc, cutFirst_cons]
      simpa [hcut] using ih (.cons (ne_backslash_of_not_needsEscape hc) (by decide) before)

theorem ne_of_trim (h : Text.trim (c :: cs) = c :: cs) : c ≠ ' ' ∧ (c :: cs).getLast? ≠ some ' ' := by
  constructor
  · rintro rfl
    exact Text.not_isBlank_of_head?_trim (c := ' ') (' ' :: cs) (by rw [h]; rfl) (by decide)
  · rw [← h]
    intro hspace
    exact Text.not_isBlank_of_getLast?_trim _ hspace (by decide)

/-- A text without blanks around it is escaped character by character, a number sign at its start apart. -/
theorem escape_cons (h : Text.trim (c :: cs) = c :: cs) :
    escape (c :: cs) = if c = '#' then '\\' :: '#' :: escapeEach cs else escapeEach (c :: cs) := by
  obtain ⟨hspace, hlast⟩ := ne_of_trim h
  rw [escape_of_getLast? hlast]
  by_cases hc : needsEscape c
  · have hsign : c ≠ '#' := by
      rintro rfl
      exact absurd hc (by decide)
    rw [escapeEach_cons_of_needsEscape hc, if_neg hsign]
    rfl
  · rw [escapeEach_cons hc]
    split
    · next hsign =>
      rw [hsign]
      rfl
    · next hsign =>
      unfold escapeStart
      split
      · next heq => exact absurd (List.cons_eq_cons.mp heq).1 hsign
      · next heq => exact absurd (List.cons_eq_cons.mp heq).1 hspace
      · rfl

/-- Of what a text is escaped to, only number signs inside it are refused. -/
theorem checkValue_escape (h : Text.trim (c :: cs) = c :: cs) (whole : List Char) :
    checkValue whole (escape (c :: cs)) =
      if '#' ∈ cs then .error (.unescaped '#') else .ok () := by
  obtain ⟨hspace, hlast⟩ := ne_of_trim h
  have hlast' : (escape (c :: cs)).getLast? ≠ some ' ' := by
    rwa [escape_of_getLast? hlast, getLast?_escapeStart, getLast?_escapeEach]
  have hreverse : ∀ rest, (escape (c :: cs)).reverse ≠ ' ' :: rest := by
    intro rest hrest
    rw [← List.head?_reverse, hrest] at hlast'
    exact hlast' rfl
  -- Neither end has anything to refuse, so the check comes down to that of the escapes.
  have hcheck : ∀ first rest, escape (c :: cs) = first :: rest → first ≠ '#' → first ≠ ' ' →
      checkValue whole (escape (c :: cs)) = checkEscapes .none (escape (c :: cs)) := by
    intro first rest hcons hsign hblank
    rw [hcons] at hreverse ⊢
    rw [checkValue, if_neg (by simpa using hsign), if_neg (by simpa using hblank)]
    split
    · next hrest => exact absurd hrest (hreverse _)
    · rfl
  by_cases hsign : c = '#'
  · have hescape := escape_cons h
    rw [if_pos hsign] at hescape
    rw [hcheck _ _ hescape (by decide) (by decide), hescape, checkEscapes_escaped (.inr rfl),
      checkEscapes_escapeEach]
  · have hescape := escape_cons h
    rw [if_neg hsign] at hescape
    have hmem : '#' ∈ c :: cs ↔ '#' ∈ cs := by simp [Ne.symm hsign]
    obtain ⟨first, rest, hcons, hfirst⟩ : ∃ first rest, escape (c :: cs) = first :: rest ∧
        first ≠ '#' ∧ first ≠ ' ' := by
      rw [hescape]
      by_cases hc : needsEscape c
      · exact ⟨_, _, escapeEach_cons_of_needsEscape hc cs, by decide, by decide⟩
      · exact ⟨_, _, escapeEach_cons hc cs, hsign, hspace⟩
    rw [hcheck first rest hcons hfirst.1 hfirst.2, hescape, checkEscapes_escapeEach]
    simp only [hmem]

/-! ### Plain values

Escaping adds a character for each one that needs a backslash and takes none away, so by the length of the
outcome a text is left as it is just if no character needs one. A plain value has none of these, nor a number
sign. -/

theorem length_escapeEach (cs : List Char) :
    (escapeEach cs).length = cs.length + cs.countP needsEscape := by
  induction cs with
  | nil => rfl
  | cons c cs ih =>
    by_cases hc : needsEscape c
    · rw [escapeEach_cons_of_needsEscape hc, List.countP_cons_of_pos hc]
      simp only [List.length_cons, ih]
      omega
    · rw [escapeEach_cons hc, List.countP_cons_of_neg hc]
      simp only [List.length_cons, ih]
      omega

theorem escapeEach_eq_self_iff : escapeEach cs = cs ↔ ∀ c ∈ cs, ¬ needsEscape c := by
  rw [← List.countP_eq_zero]
  constructor
  · intro hself
    have hlength := length_escapeEach cs
    rw [hself] at hlength
    omega
  · intro hnone
    induction cs with
    | nil => rfl
    | cons c cs ih =>
      obtain ⟨hc, hcs⟩ := List.forall_mem_cons.mp (List.countP_eq_zero.mp hnone)
      rw [escapeEach_cons hc, ih (List.countP_eq_zero.mpr hcs)]

/-- Plain texts are those that escaping does not change and that may be read. -/
theorem isPlain_iff (h : Text.trim (c :: cs) = c :: cs) :
    IsPlain (c :: cs) ↔ '#' ∉ cs ∧ escape (c :: cs) = c :: cs := by
  have hforall : IsPlain (c :: cs) ↔ (∀ d ∈ c :: cs, ¬ needsEscape d) ∧ '#' ∉ c :: cs := by
    constructor
    · intro hplain
      exact ⟨fun d hd => (hplain d hd).1, fun hmem => (hplain _ hmem).2 rfl⟩
    · rintro ⟨hneeds, hnone⟩ d hd
      refine ⟨hneeds d hd, ?_⟩
      rintro rfl
      exact hnone hd
  rw [hforall, ← escapeEach_eq_self_iff, escape_cons h]
  by_cases hsign : c = '#'
  · simp [hsign]
  · simp [hsign, Ne.symm hsign, and_comm]

/-- The relative name that a value is escaped to is one assignment, or none if the value has a number sign
inside. -/
theorem assertions_escape {type : String} (htype : checkType type.toList = .ok ())
    (h : Text.trim (c :: cs) = c :: cs) :
    assertions (type ++ "=" ++ String.ofList (escape (c :: cs))) =
      if '#' ∈ cs then .error (.unescaped '#')
      else .ok [⟨type, String.ofList (escape (c :: cs)), none⟩] := by
  have htypeText := isTypeText_of_checkType htype
  have huncut : ∀ d, IsSeparator (some d) →
      cutFirst d [] (type.toList ++ '=' :: escape (c :: cs)) = none := by
    intro d hd
    have htracks : Tracks ('=' :: (type.toList.reverse ++ [])) .none := .cons (by decide) (by decide) _
    rw [htypeText.cutFirst hd, escape_cons h]
    split
    · -- A number sign with its backslash is none of the separators either.
      have hne : ∀ e, e = '\\' ∨ e = '#' → (e == d) = false := by
        rcases isSeparator_some_iff.mp hd with rfl | rfl <;> rintro e (rfl | rfl) <;> rfl
      rw [cutFirst_cons, hne _ (.inl rfl), cutFirst_cons, hne _ (.inr rfl)]
      exact cutFirst_escapeEach hd (.cons (by decide) (by decide) _) cs
    · exact cutFirst_escapeEach hd htracks (c :: cs)
  have htext : type ++ "=" ++ String.ofList (escape (c :: cs)) =
      String.ofList (type.toList ++ '=' :: escape (c :: cs)) := by
    rw [← String.toList_inj]
    simp
  rw [htext, assertions_of_uncut (by simp) huncut]
  simp only [assertion, htypeText.typeAndValue_eq, htype, checkValue_escape h]
  split
  · rfl
  · show Except.ok [(⟨_, _, _⟩ : Assertion)] = _
    rw [String.ofList_toList]

end Escaping

end Dn

namespace Name

/-- The name with each segment changed. -/
def map (f : Segment → Segment) (n : Name) : Name := ⟨f n.first, n.rest.map f⟩

theorem segments_map (f : Segment → Segment) (n : Name) : (n.map f).segments = n.segments.map f := rfl

theorem lastOf_map (f : Segment → Segment) (s : Segment) (rest : List Segment) :
    lastOf (f s) (rest.map f) = f (lastOf s rest) := by
  induction rest generalizing s with
  | nil => rfl
  | cons t rest ih => exact ih t

theorem leaf_map (f : Segment → Segment) (n : Name) : (n.map f).leaf = f n.leaf :=
  lastOf_map f n.first n.rest

theorem leaf_mem_segments (n : Name) : n.leaf ∈ n.segments := by
  rw [← parents_append_leaf]
  exact List.mem_append_right _ List.mem_cons_self

end Name

/-! ### Entries and attributes

First what the styles have in common, the entry that a name leads to, and then what they have not, the
attributes of a new entry. From these it follows what is asked of a server. -/

/-- A value as a segment of a distinguished name: escaped, after an attribute and an equals sign. -/
def Segment.asRdn (naming : String) (s : Segment) : Segment where
  text := naming ++ "=" ++ String.ofList (Dn.escape s.text.toList)
  nonempty := by
    intro h
    have hlength := congrArg String.length h
    simp at hlength

namespace Ldap

open Dialogue Dn

section Styles

variable {d : Directory} {naming : String} {s : Segment} {n : Name}

/-- An escaped segment in the style of distinguished names is the relative name of the value. -/
theorem rdn_asRdn (hnaming : d.settings.namingAttribute = .text naming) (s : Segment) :
    rdn (d.styled .dn) (s.asRdn naming) = rdn (d.styled .composite) s := by
  simp only [rdn, Directory.styled, hnaming]
  rfl

/-- In both styles a name leads to the same entry. -/
theorem entryDn_asRdn (hnaming : d.settings.namingAttribute = .text naming) (own : Value) (n : Name) :
    entryDn (d.styled .dn) own (n.map (Segment.asRdn naming)) = entryDn (d.styled .composite) own n := by
  have hrdns : (n.map (Segment.asRdn naming)).segments.reverse.map (rdn (d.styled .dn)) =
      n.segments.reverse.map (rdn (d.styled .composite)) := by
    rw [Name.segments_map, ← List.map_reverse, List.map_map]
    exact List.map_congr_left fun s _ => rdn_asRdn hnaming s
  have hlength : (n.map (Segment.asRdn naming)).length = n.length := by
    simp [Name.length, Name.segments_map]
  simp only [entryDn, hrdns, hlength]

/-- In the composite style the value is sent as it is. -/
theorem rdnAttributes_composite (hnaming : d.settings.namingAttribute = .text naming) (s : Segment) :
    rdnAttributes (d.styled .composite) (.text s.text) = .ok [(.text naming, .text s.text)] := by
  simp only [rdnAttributes, Directory.styled, hnaming]
  rfl

/-- In the style of distinguished names the value is sent with its escapes, or refused for a number sign
inside. -/
theorem rdnAttributes_dn (htype : checkType naming.toList = .ok ())
    (hs : Text.trim s.text.toList = s.text.toList) :
    rdnAttributes (d.styled .dn) (.text (s.asRdn naming).text) =
      if '#' ∈ s.text.toList.tail then .error (.defect .invalidDn "special character # must be escaped")
      else .ok [(.text naming, .text (String.ofList (escape s.text.toList)))] := by
  obtain ⟨c, cs, hcons⟩ := List.exists_cons_of_ne_nil (mt String.toList_eq_nil_iff.mp s.nonempty)
  have hread := assertions_escape htype (hcons ▸ hs)
  rw [← hcons] at hread
  rw [hcons, List.tail_cons, ← hcons]
  by_cases hsign : '#' ∈ cs
  · rw [if_pos hsign] at hread ⊢
    simp only [rdnAttributes, Directory.styled, Segment.asRdn, hread]
    rfl
  · rw [if_neg hsign] at hread ⊢
    simp only [rdnAttributes, Directory.styled, Segment.asRdn, hread]
    rfl

/-- The attributes are the same just if there is nothing to escape. -/
theorem rdnAttributes_agree_iff (hnaming : d.settings.namingAttribute = .text naming)
    (htype : checkType naming.toList = .ok ()) (hs : Text.trim s.text.toList = s.text.toList) :
    rdnAttributes (d.styled .dn) (.text (s.asRdn naming).text) =
      rdnAttributes (d.styled .composite) (.text s.text) ↔ IsPlain s.text.toList := by
  rw [rdnAttributes_dn htype hs, rdnAttributes_composite hnaming]
  obtain ⟨c, cs, hcons⟩ := List.exists_cons_of_ne_nil (mt String.toList_eq_nil_iff.mp s.nonempty)
  have htext : s.text = String.ofList (c :: cs) := by rw [← hcons, String.ofList_toList]
  rw [hcons] at hs ⊢
  rw [isPlain_iff hs, List.tail_cons, htext]
  by_cases hsign : '#' ∈ cs
  · simp [hsign]
  · simp only [hsign, if_false, Except.ok.injEq, List.singleton_inj, Prod.mk.injEq, Value.text.injEq,
      String.ofList_inj, true_and, not_false_eq_true]

/-- With attributes that agree, the entries that are added for values are the same, and those that are added
for contexts. -/
theorem added_agree (hnaming : d.settings.namingAttribute = .text naming)
    (htype : checkType naming.toList = .ok ()) (hn : IsTrimmed n.segments)
    (hplain : IsPlain n.leaf.text.toList) :
    let m := n.map (Segment.asRdn naming)
    (∀ text, leafAttributes (d.styled .dn) m text = leafAttributes (d.styled .composite) n text) ∧
      contextAttributes (d.styled .dn) m = contextAttributes (d.styled .composite) n := by
  intro m
  have hleaf : m.leaf = n.leaf.asRdn naming := Name.leaf_map _ n
  have hattributes := (rdnAttributes_agree_iff hnaming htype (hn _ n.leaf_mem_segments)).mpr hplain
  rw [← hleaf] at hattributes
  constructor
  · intro text
    simp only [leafAttributes, hattributes]
    rfl
  · simp only [contextAttributes, hattributes]
    rfl

end Styles

/-- A name in one style and the name that its segments are escaped to in the other lead to the same entry,
and the relative names of that entry give the segments back. The attributes of a segment are its value in
the composite style. In the other style they are that value with its escapes, or reading them fails, so the
two agree just for segments without characters to escape. If the last segment is one, a rebind or a creation
asks the same in both styles, of any server. -/
theorem nameStyles_agree_iff (d : Directory) (naming : String)
    (hnaming : d.settings.namingAttribute = .text naming) (htype : checkType naming.toList = .ok ())
    (own : Value) (n : Name) (hn : IsTrimmed n.segments) :
    let m := n.map (Segment.asRdn naming)
    entryDn (d.styled .dn) own m = entryDn (d.styled .composite) own n ∧
      (∀ s ∈ n.segments,
        rdn (d.styled .dn) (s.asRdn naming) = rdn (d.styled .composite) s ∧
        valueOf (rdn (d.styled .composite) s).toList = s.text.toList ∧
        rdnAttributes (d.styled .composite) (.text s.text) = .ok [(.text naming, .text s.text)] ∧
        rdnAttributes (d.styled .dn) (.text (s.asRdn naming).text) =
          (if '#' ∈ s.text.toList.tail then
            .error (.defect .invalidDn "special character # must be escaped")
          else .ok [(.text naming, .text (String.ofList (escape s.text.toList)))]) ∧
        (rdnAttributes (d.styled .dn) (.text (s.asRdn naming).text) =
          rdnAttributes (d.styled .composite) (.text s.text) ↔ IsPlain s.text.toList)) ∧
      (IsPlain n.leaf.text.toList → ∀ (server : Partner Notice Request Reply) (value : Value),
        ((rebind (d.styled .dn) own (.name m) value).run.against server []).2 =
          ((rebind (d.styled .composite) own (.name n) value).run.against server []).2 ∧
        ((createContext (d.styled .dn) own (.name m)).run.against server []).2 =
          ((createContext (d.styled .composite) own (.name n)).run.against server []).2) := by
  intro m
  have hdn := entryDn_asRdn hnaming own n
  refine ⟨hdn, ?segments, ?requests⟩
  case segments =>
    intro s hs
    have htrim := hn s hs
    have hplainly : (d.styled .composite).IsPlainlyNamed := by
      constructor
      case composite => rfl
      case naming =>
        intro c hc
        have hplain : (d.styled .composite).settings.namingAttribute.plain = naming := by
          simp only [Directory.styled, hnaming]
          rfl
        rw [hplain] at hc
        obtain ⟨hbackslash, hequals, hcomma, -⟩ := (isTypeText_of_checkType htype).plain c hc
        exact ⟨hbackslash, hcomma, hequals⟩
    exact ⟨rdn_asRdn hnaming s, hplainly.valueOf_rdn htrim, rdnAttributes_composite hnaming s,
      rdnAttributes_dn htype htrim, rdnAttributes_agree_iff hnaming htype htrim⟩
  case requests =>
    intro hplain server value
    obtain ⟨hleaf, hcontext⟩ := added_agree hnaming htype hn hplain
    exact ⟨((asksAlike_rebind hdn hleaf).against server []).1,
      ((asksAlike_createContext hdn hcontext).against server []).1⟩

/-- A space inside the leaf and a comma above it change nothing. -/
theorem nameStyles_agree_space :
    let n : Name := ⟨⟨"x,y", by decide⟩, [⟨"a b", by decide⟩]⟩
    let m : Name := ⟨⟨"cn=x\\,y", by decide⟩, [⟨"cn=a b", by decide⟩]⟩
    let asked (style : NameStyle) (name : Name) : List Exchange :=
      ((createContext (plainDirectory.styled style) (.text "dc=x") (.name name)).run.against
        (fun _ _ => .agreed) []).2
    IsTrimmed n.segments ∧ n.map (Segment.asRdn "cn") = m ∧ IsPlain n.leaf.text.toList ∧
      (∃ attributes, .call (.add "cn=a b,cn=x\\,y,dc=x" attributes) .agreed ∈ asked .composite n) ∧
      asked .dn m = asked .composite n := by
  intro n m asked
  have hn : IsTrimmed n.segments := by
    unfold IsTrimmed
    decide
  have hm : n.map (Segment.asRdn "cn") = m := by decide +kernel
  have hplain : IsPlain n.leaf.text.toList := by decide +kernel
  let c := plainDirectory.styled .composite
  let attributes : Attributes :=
    [(objectClass, .list [.text "top", .text "container"]), (.text "cn", .text "a b")]
  have hdn : entryDn c (.text "dc=x") n = .ok "cn=a b,cn=x\\,y,dc=x" := by
    have hpath : pathDn c ["dc=x"] n.segments = "cn=a b,cn=x\\,y,dc=x" := by decide +kernel
    exact hpath ▸ entryDn_of_tail? rfl n
  have hattributes : contextAttributes c n = .ok attributes := rfl
  have hasked : asked .composite n = [.event (.connect (connection plainDirectory)), .call .open .agreed,
      .call .bind .agreed, .call (.add "cn=a b,cn=x\\,y,dc=x" attributes) .agreed,
      .call .unbind .agreed] := by
    have hcreate : createContext c (.text "dc=x") (.name n) =
        session c (consult (.add "cn=a b,cn=x\\,y,dc=x" attributes)) >>= fun answer =>
          lift (createdAfter "cn=a b,cn=x\\,y,dc=x" n answer) := by
      have hname : c.grammar.resolve (.name n) = .ok n := rfl
      rw [createContext_eq, hname, lift_ok_bind, hdn, lift_ok_bind, hattributes, lift_ok_bind]
    show ((createContext c (.text "dc=x") (.name n)).run.against _ []).2 = _
    rw [hcreate]
    rfl
  obtain ⟨-, -, hrequests⟩ := nameStyles_agree_iff plainDirectory "cn" rfl rfl (.text "dc=x") n hn
  rw [hm] at hrequests
  refine ⟨hn, hm, hplain, ⟨attributes, ?_⟩, (hrequests hplain (fun _ _ => .agreed) .null).2⟩
  rw [hasked]
  simp

/-- A comma in a value is sent with a backslash if the value was written in a distinguished name. -/
theorem escapes_stored_in_dn_style :
    let s : Segment := ⟨"a,b", by decide⟩
    let e : Segment := ⟨"cn=a\\,b", by decide⟩
    Text.trim s.text.toList = s.text.toList ∧ s.asRdn "cn" = e ∧
      rdn (plainDirectory.styled .dn) e = rdn (plainDirectory.styled .composite) s ∧
      rdnAttributes (plainDirectory.styled .composite) (.text s.text) =
        .ok [(.text "cn", .text "a,b")] ∧
      rdnAttributes (plainDirectory.styled .dn) (.text e.text) = .ok [(.text "cn", .text "a\\,b")] ∧
      valueOf e.text.toList = "a,b".toList ∧
      rdnAttributes (plainDirectory.styled .dn) (.text e.text) ≠
        rdnAttributes (plainDirectory.styled .composite) (.text s.text) := by
  intro s e
  have hs : Text.trim s.text.toList = s.text.toList := by decide
  have he : s.asRdn "cn" = e := by decide +kernel
  have hcomposite : rdnAttributes (plainDirectory.styled .composite) (.text s.text) =
      .ok [(.text "cn", .text "a,b")] := rdnAttributes_composite rfl s
  have hdn : rdnAttributes (plainDirectory.styled .dn) (.text e.text) =
      .ok [(.text "cn", .text "a\\,b")] := by
    have hnone : '#' ∉ s.text.toList.tail := by decide
    have hescape : String.ofList (escape s.text.toList) = "a\\,b" := by decide +kernel
    rw [← he, rdnAttributes_dn rfl hs, if_neg hnone, hescape]
  refine ⟨hs, he, he ▸ rdn_asRdn rfl s, hcomposite, hdn, by decide +kernel, ?_⟩
  rw [hcomposite, hdn]
  simp

end Ldap

end NamingDirectory
