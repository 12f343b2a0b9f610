import NamingDirectory.Proofs.Ldap.DistinguishedName

/-!
# Cutting distinguished names

A distinguished name is cut at commas that no backslash escapes. Whatever the segments of a name hold, the
cuts fall just between the relative names that the client joined (`cutCommas_joined`), and each relative name
gives its segment back (`valueOf_rdn`). So no segment can pass for another part of a distinguished name, and
no two names share one (`entryDn_exact`).

Only as many cuts are made as there are segments. What comes after the last of them is the name of the entry
that the path starts at, and it may hold any commas of its own.

The segments `a,cn=b\` and `#c` below `dc=x`, for example, lead to `cn=\#c,cn=a\,cn\=b\\,dc=x`. It is cut
twice,

    cn=\#c    cn=a\,cn\=b\\    dc=x,

and without their escapes the values of the first two pieces are the segments again (`entryDn_exact_escaped`).
-/

namespace NamingDirectory

namespace Dn

/-- Cuts a text at its first comma that no backslash escapes. -/
def cutComma? : List Char → Option (List Char × List Char)
  | [] => none
  | ',' :: cs => some ([], cs)
  | '\\' :: c :: cs => (cutComma? cs).map fun (front, rest) => ('\\' :: c :: front, rest)
  | c :: cs => (cutComma? cs).map fun (front, rest) => (c :: front, rest)

/-- The pieces of a text that is cut at its first `k` unescaped commas. -/
def cutCommas : Nat → List Char → List (List Char)
  | 0, cs => [cs]
  | k + 1, cs =>
    match cutComma? cs with
    | some (front, rest) => front :: cutCommas k rest
    | none => [cs]

/-- The value of a relative name: what comes after its first equals sign, without the escapes. -/
def valueOf (rdn : List Char) : List Char := unescape ((rdn.dropWhile (· != '=')).drop 1)

theorem cutComma?_cons {c : Char} (hc : c ≠ '\\') (hcomma : c ≠ ',') (cs : List Char) :
    cutComma? (c :: cs) = (cutComma? cs).map fun (front, rest) => (c :: front, rest) := by
  rw [cutComma?]
  · intro h
    exact absurd h hcomma
  · intro _ _ h
    exact absurd h hc

/-- The comma after a closed text is the first one to cut at. -/
theorem cutComma?_append {a : List Char} (ha : isClosed a) (rest : List Char) :
    cutComma? (a ++ ',' :: rest) = some (a, rest) := by
  fun_induction isClosed a with
  | case1 => rfl
  | case2 => cases ha
  | case3 c cs ih =>
    rw [List.cons_append, List.cons_append, cutComma?, ih ha]
    rfl
  | case4 c cs h₁ h₂ ih =>
    have hc : c ≠ '\\' := ne_backslash h₁ h₂
    rw [Bool.and_eq_true, bne_iff_ne] at ha
    rw [List.cons_append, cutComma?_cons hc ha.1, ih ha.2]
    rfl

/-- Between closed texts the cuts fall where they were joined. What comes last may be anything. -/
theorem cutCommas_joined {pieces : List (List Char)} (hclosed : ∀ r ∈ pieces, isClosed r)
    (last : List Char) : cutCommas pieces.length (joined (pieces ++ [last])) = pieces ++ [last] := by
  induction pieces with
  | nil => simp [cutCommas, joined]
  | cons r pieces ih =>
    obtain ⟨hr, hpieces⟩ := List.forall_mem_cons.mp hclosed
    have hne : pieces ++ [last] ≠ [] := List.append_ne_nil_of_right_ne_nil _ (List.cons_ne_nil _ _)
    rw [List.cons_append, joined_cons hne, List.length_cons, cutCommas, cutComma?_append hr]
    exact congrArg (r :: ·) (ih hpieces)

/-- A text without commas and backslashes is closed. -/
theorem isClosed_of_forall {cs : List Char} (h : ∀ c ∈ cs, c ≠ '\\' ∧ c ≠ ',') : isClosed cs := by
  induction cs with
  | nil => rfl
  | cons c cs ih =>
    obtain ⟨⟨hc, hcomma⟩, hcs⟩ := List.forall_mem_cons.mp h
    rw [isClosed_cons hc, ih hcs, Bool.and_true]
    exact bne_iff_ne.mpr hcomma

/-- The value of a relative name stands behind the first equals sign, which the attribute does not have. -/
theorem valueOf_append {naming : List Char} (h : ∀ c ∈ naming, c ≠ '=') (value : List Char) :
    valueOf (naming ++ '=' :: value) = unescape value := by
  have hfront : (naming ++ '=' :: value).dropWhile (· != '=') = '=' :: value := by
    rw [List.dropWhile_append_of_pos fun c hc => bne_iff_ne.mpr (h c hc)]
    rfl
  rw [valueOf, hfront]
  rfl

end Dn

namespace Ldap

open Dn

/-- Whether the names below a directory are composite, and the naming attribute needs no escapes. -/
structure Directory.IsPlainlyNamed (d : Directory) : Prop where
  composite : d.settings.nameStyle = .composite
  naming : ∀ c ∈ d.settings.namingAttribute.plain.toList, c ≠ '\\' ∧ c ≠ ',' ∧ c ≠ '='

section Names

variable {d : Directory} {own : Value} {tail : List String} {p : List Segment} {s : Segment}

theorem Directory.IsPlainlyNamed.isComposite (hd : d.IsPlainlyNamed) : d.IsComposite where
  composite := hd.composite
  closed := isClosed_of_forall fun c hc => ⟨(hd.naming c hc).1, (hd.naming c hc).2.1⟩

/-- The value of the relative name of a segment is the segment. -/
theorem Directory.IsPlainlyNamed.valueOf_rdn (hd : d.IsPlainlyNamed)
    (hs : Text.trim s.text.toList = s.text.toList) : valueOf (rdn d s).toList = s.text.toList := by
  have hvalue : ∀ c ∈ d.settings.namingAttribute.plain.toList, c ≠ '=' := fun c hc =>
    (hd.naming c hc).2.2
  rw [hd.isComposite.toList_rdn, valueOf_append hvalue, unescape_escape]
  rw [← hs]
  exact getLast?_trim _

theorem Directory.IsPlainlyNamed.map_valueOf_rdns (hd : d.IsPlainlyNamed) (hp : IsTrimmed p) :
    (rdns d p).map (fun rdn => valueOf rdn.toList) = p.reverse.map fun s => s.text.toList := by
  rw [rdns, List.map_map]
  refine List.map_congr_left fun s hs => ?_
  exact hd.valueOf_rdn (hp s (List.mem_reverse.mp hs))

theorem tail?_cases (h : tail? own = some tail) : tail = [] ∨ ∃ base, tail = [base] := by
  unfold tail? at h
  split at h
  · cases h
    exact .inl rfl
  · split at h
    · cases h
      exact .inr ⟨_, rfl⟩
    · cases h

/-- The name of a path is cut into the relative names of its segments and what they stand before. -/
theorem Directory.IsPlainlyNamed.cutCommas_pathDn (hd : d.IsPlainlyNamed) (hp : p ≠ [])
    (htail : tail? own = some tail) :
    cutCommas (p.length + tail.length - 1) (pathDn d tail p).toList =
      (rdns d p ++ tail).map String.toList := by
  have hclosed : ∀ r ∈ (rdns d p).map String.toList, isClosed r := fun r =>
    hd.isComposite.isClosed_of_mem_rdns
  have hlength : ((rdns d p).map String.toList).length = p.length := by simp [rdns]
  rw [toList_pathDn, List.map_append]
  rcases tail?_cases htail with rfl | ⟨base, rfl⟩
  · -- The last of the relative names ends the text.
    rcases List.eq_nil_or_concat ((rdns d p).map String.toList) with hnil | ⟨pieces, last, hrdns⟩
    · exact absurd (List.map_eq_nil_iff.mp hnil) (rdns_ne_nil hp)
    · rw [List.concat_eq_append] at hrdns
      rw [hrdns] at hclosed hlength ⊢
      have hcut := cutCommas_joined (fun r hr => hclosed r (List.mem_append_left _ hr)) last
      have hcount : p.length + ([] : List String).length - 1 = pieces.length := by
        rw [← hlength]
        simp
      rw [hcount, List.map_nil, List.append_nil, hcut]
  · -- The name of the entry to start from ends the text, and it may have commas of its own.
    have hcut := cutCommas_joined hclosed base.toList
    rw [hlength] at hcut
    exact hcut

end Names

/-- The distinguished name of a name whose segments have no blanks around them. Cut at its first unescaped
commas, it gives the relative names of the segments, the last segment first, and then the name of the
entry to start from, if that has one. The relative names give back the segments, and no other name has the
same distinguished name. -/
theorem entryDn_exact (d : Directory) (hd : d.IsPlainlyNamed) (own : Value) (tail : List String)
    (htail : tail? own = some tail) (n : Name) (hn : IsTrimmed n.segments) :
    ∃ dn, entryDn d own n = .ok dn ∧
      cutCommas (n.length + tail.length - 1) dn.toList =
        (rdns d n.segments ++ tail).map String.toList ∧
      (rdns d n.segments).map (fun rdn => valueOf rdn.toList) =
        n.segments.reverse.map (fun s => s.text.toList) ∧
      ∀ m : Name, IsTrimmed m.segments → entryDn d own m = .ok dn → m = n := by
  refine ⟨pathDn d tail n.segments, entryDn_of_tail? htail n, ?cut, ?values, ?unique⟩
  case cut => exact hd.cutCommas_pathDn (List.cons_ne_nil _ _) htail
  case values => exact hd.map_valueOf_rdns hn
  case unique =>
    intro m hm hdn
    rw [entryDn_of_tail? htail, Except.ok.injEq] at hdn
    exact Name.segments_injective (hd.isComposite.pathDn_inj hm hn hdn)

/-- Commas, backslashes and a number sign in segments are no parts of the distinguished name. -/
theorem entryDn_exact_escaped :
    let n : Name := ⟨⟨"a,cn=b\\", by decide⟩, [⟨"#c", by decide⟩]⟩
    let dn := "cn=\\#c,cn=a\\,cn\\=b\\\\,dc=x"
    plainDirectory.IsPlainlyNamed ∧ IsTrimmed n.segments ∧
      entryDn plainDirectory (.text "dc=x") n = .ok dn ∧
      cutCommas 2 dn.toList = ["cn=\\#c".toList, "cn=a\\,cn\\=b\\\\".toList, "dc=x".toList] ∧
      ∀ m : Name, IsTrimmed m.segments → entryDn plainDirectory (.text "dc=x") m = .ok dn → m = n := by
  intro n dn
  have hnaming : plainDirectory.settings.namingAttribute.plain.toList = ['c', 'n'] := by decide +kernel
  have hd : plainDirectory.IsPlainlyNamed := by
    constructor
    case composite => rfl
    case naming =>
      rw [hnaming]
      simp
  have hn : IsTrimmed n.segments := by
    unfold IsTrimmed
    decide
  obtain ⟨dn', hdn', hcut, -, hunique⟩ :=
    entryDn_exact plainDirectory hd (.text "dc=x") ["dc=x"] rfl n hn
  have hpath : pathDn plainDirectory ["dc=x"] n.segments = dn := by decide +kernel
  have hdn : entryDn plainDirectory (.text "dc=x") n = .ok dn :=
    hpath ▸ entryDn_of_tail? rfl n
  cases hdn'.symm.trans hdn
  exact ⟨hd, hn, hdn, hcut.trans (by decide +kernel), hunique⟩

end Ldap
end NamingDirectory
