import NamingDirectory.Proofs.Opening.Credentials
import NamingDirectory.Proofs.Url

/-!
# The URL of a provider

A URL names a directory by scheme, host, port and base, and may have blanks around it (`DirectoryUrl`). The
base is any text at all, as its bytes are in percent coding: no character of it can end the path, or be taken
for a slash in front. The settings that such a URL gives are the ones it was written for, and the overrides
that are something win over them (`ofUrl_carries`).

The URL is a structure that has with its parts what is supposed of them, so the lemmas need no hypotheses: it
is split where it was put together (`split_trimmed`), and then each setting is read from its part
(`base_read`, `host_read`, `port_read`).

Overrides are made one after the other, each by a change to the settings. What all of them together come to is
said setting by setting (`overridden`), over the list of all settings with their keywords, so that there need
not be a case for each keyword. The name style is apart: it is taken over like the others first and then made
one of the two styles, or refused (`CanOverride.setAll_entries`).
-/

namespace NamingDirectory.Opening

theorem toList_toLower (s : String) : s.toLower.toList = s.toList.map Char.toLower := String.toList_map

/-- A URL as it is written for a directory. -/
structure DirectoryUrl where
  /-- Whether the connection is secure. -/
  secure : Bool
  /-- The scheme, in letters of any case. -/
  scheme : String
  scheme_spells : scheme.toLower = if secure then "ldaps" else "ldap"
  host : String
  host_ne_empty : host ≠ ""
  host_plain : ∀ c ∈ host.toList, Url.isHostCharacter c
  port : Option Nat
  port_range : ∀ n ∈ port, 1 ≤ n ∧ n ≤ 65535
  base : String
  /-- The base as it is written in the URL. -/
  path : List Char
  path_codes : Text.IsPercentCoding (base.toList.flatMap String.utf8EncodeChar) path
  front : List Char
  back : List Char
  front_blank : ∀ c ∈ front, Text.isBlank c
  back_blank : ∀ c ∈ back, Text.isBlank c

namespace DirectoryUrl

def text (u : DirectoryUrl) : String :=
  String.ofList
    (u.front ++ Url.written u.scheme.toList (Url.authorityOf u.host.toList u.port) u.path ++ u.back)

/-- The settings that a URL is written for. -/
def settings (u : DirectoryUrl) : Ldap.Settings where
  host := .text u.host.toLower
  port := .int (u.port.getD (if u.secure then 636 else 389))
  useSsl := .bool u.secure
  base := .text u.base

variable (u : DirectoryUrl)

/-- A text that is one of the two schemes in small letters has letters only. -/
theorem isAlpha_of_mem_scheme : ∀ c ∈ u.scheme.toList, c.isAlpha := by
  intro c hc
  have hletters : ∀ d ∈ u.scheme.toLower.toList, d.isAlpha := by
    rw [u.scheme_spells]
    cases u.secure <;> exact List.all_eq_true.mp rfl
  apply Text.isAlpha_of_toLower
  apply hletters
  rw [toList_toLower]
  exact List.mem_map_of_mem hc

theorem scheme_ne_nil : u.scheme.toList ≠ [] := by
  intro hnil
  have hempty := congrArg String.toList u.scheme_spells
  rw [toList_toLower, hnil] at hempty
  cases hsecure : u.secure <;> rw [hsecure] at hempty <;> cases hempty

/-- What is split after the blanks are gone. -/
theorem split_trimmed : Url.split (Text.trimmed u.text) =
    .ok ⟨u.scheme.toLower, Url.authorityOf u.host.toList u.port, '/' :: u.path⟩ := by
  have hscheme := u.isAlpha_of_mem_scheme
  have hauthority := Url.characters_authorityOf u.host_plain u.port
  have hpath := u.path_codes.characters
  have hlower : String.ofList (u.scheme.toList.map Char.toLower) = u.scheme.toLower := by
    rw [← toList_toLower, String.ofList_toList]
  rw [Text.trimmed, text, String.toList_ofList, Text.trim_surrounded u.front_blank u.back_blank,
    Text.trim_of_isVisible (Url.isVisible_of_mem_written hscheme hauthority hpath),
    Url.split_written hscheme hauthority hpath u.scheme_ne_nil, hlower]

/-- The base is read from the path behind its slashes, and starts with no slash as it is written. -/
theorem base_read : Text.percentDecode (('/' :: u.path).dropWhile (· == '/')) = u.base.toList := by
  have hslash : '/' ∉ u.path := Url.not_mem_of_forall u.path_codes.characters rfl
  have hpath : u.path.dropWhile (· == '/') = u.path := by
    cases hu : u.path with
    | nil => rfl
    | cons c cs =>
      have hc : ¬ (c == '/') = true := by
        rw [beq_iff_eq]
        rintro rfl
        exact hslash (hu ▸ List.mem_cons_self)
      exact List.dropWhile_cons_of_neg hc
  rw [List.dropWhile_cons_of_pos rfl, hpath]
  exact Text.percentDecode_coding u.path_codes

/-- The host is found again in small letters. -/
theorem host_read (path : List Char) :
    Url.host ⟨u.scheme.toLower, Url.authorityOf u.host.toList u.port, path⟩ = u.host.toLower := by
  rw [Url.host_written u.host_plain, ← toList_toLower, String.ofList_toList]

theorem toLower_host_ne_empty : u.host.toLower.isEmpty = false := by
  rw [Bool.eq_false_iff]
  intro hempty
  have hlower : u.host.toLower.toList = [] := by simpa using hempty
  rw [toList_toLower, List.map_eq_nil_iff] at hlower
  exact u.host_ne_empty (String.toList_eq_nil_iff.mp hlower)

theorem port_read (path : List Char) :
    Url.port? ⟨u.scheme.toLower, Url.authorityOf u.host.toList u.port, path⟩ = .ok u.port :=
  Url.port?_written (fun n hn => (u.port_range n hn).2) u.host_plain _ _

/-- A URL alone gives the settings that it was written for. -/
theorem ofUrlAlone_text : Ldap.Settings.ofUrlAlone (.text u.text) = .ok u.settings := by
  have hparts : Ldap.Settings.urlParts (.text u.text) =
      .ok ⟨u.scheme.toLower, Url.authorityOf u.host.toList u.port, '/' :: u.path⟩ := by
    show (Url.split (Text.trimmed u.text)).mapError Ldap.Settings.malformedUrl = _
    rw [u.split_trimmed]
    rfl
  have hscheme : (u.scheme.toLower != "ldap" && u.scheme.toLower != "ldaps") = false := by
    rw [u.scheme_spells]
    cases u.secure <;> rfl
  have hsecure : (u.scheme.toLower == "ldaps") = u.secure := by
    rw [u.scheme_spells]
    cases u.secure <;> rfl
  simp only [Ldap.Settings.ofUrlAlone, hparts, bind, Except.bind, hscheme, hsecure, u.host_read, u.port_read,
    u.toLower_host_ne_empty, Except.mapError, u.base_read, String.ofList_toList, Bool.false_eq_true, if_false]
  rw [settings]
  cases hport : u.port with
  | none => cases u.secure <;> rfl
  | some n =>
    cases n with
    | zero =>
      -- A port zero would be taken for a missing one.
      exact absurd (u.port_range 0 hport).1 (by decide)
    | succ n => rfl

end DirectoryUrl

/-! ### Overrides

From one override to all, and from the values to the name style. -/

section Overriding

/-- The keywords of the settings. -/
def keywords : List String := OrderedMap.keys (Ldap.Settings.entries { host := .null })

/-- The word that is looked for in a name style: composite if it counts as not given, else its text in small
letters, without the blanks around it. -/
def styleWord? (v : Value) : Option String :=
  match v.orElse (.text "composite") with
  | .text s => some (Text.lower (Text.trimmed s))
  | _ => none

/-- Whether overrides can be given: each keyword once, none that is a parameter already, and of those that
are something each for a setting there is, a name style being one of the two. -/
structure CanOverride (os : List (String × Value)) : Prop where
  apart : (OrderedMap.keys os).Nodup
  noParameter : ∀ o ∈ os, o.1 ≠ "cls" ∧ o.1 ≠ "url"
  known : ∀ o ∈ real os, o.1 ∈ keywords
  styled : ∀ v, ("name_syntax", v) ∈ real os → styleWord? v = some "composite" ∨ styleWord? v = some "dn"

/-- What a setting holds for an override: the override, or the word that a name style comes down to. -/
def held (keyword : String) (v : Value) : Value :=
  if keyword = "name_syntax" then ((styleWord? v).map Value.text).getD v else v

/-- A setting with its override, if there is one that is something. -/
def overridden (os : List (String × Value)) (setting : String × Value) : String × Value :=
  match (real os).lookup setting.1 with
  | none => setting
  | some v => (setting.1, held setting.1 v)

variable {s : Ldap.Settings} {os : List (String × Value)} {v : Value} {style : Ldap.NameStyle}

/-- A setting with its override, the name style left as it is. -/
def assigned (os : List (String × Value)) (setting : String × Value) : String × Value :=
  if setting.1 = "name_syntax" then setting else (setting.1, (os.lookup setting.1).getD setting.2)

/-- A change by a known keyword changes the setting with this keyword, unless it is the name style. -/
theorem set?_entries {keyword : String} (hkeyword : keyword ∈ keywords) (s : Ldap.Settings) (v : Value) :
    ∃ s', s.set? keyword v = some s' ∧ s'.entries = s.entries.map (assigned [(keyword, v)]) := by
  simp only [keywords, OrderedMap.keys, Ldap.Settings.entries, List.map_cons, List.map_nil, List.mem_cons,
    List.not_mem_nil, or_false] at hkeyword
  rcases hkeyword with rfl | rfl | rfl | rfl | rfl | rfl | rfl | rfl | rfl | rfl | rfl | rfl | rfl | rfl |
    rfl | rfl
  all_goals exact ⟨_, rfl, rfl⟩

theorem lookup_of_not_mem {key : String} (h : key ∉ OrderedMap.keys os) : os.lookup key = none := by
  rw [List.lookup_eq_none_iff]
  intro o ho
  rw [bne_iff_ne]
  rintro rfl
  exact h (List.mem_map_of_mem ho)

theorem mem_of_lookup {key : String} (h : os.lookup key = some v) : (key, v) ∈ os := by
  obtain ⟨before, after, rfl, -⟩ := List.lookup_eq_some_iff.mp h
  simp

theorem assigned_cons {keyword : String} (hnew : keyword ∉ OrderedMap.keys os) (v : Value) :
    assigned os ∘ assigned [(keyword, v)] = assigned ((keyword, v) :: os) := by
  funext setting
  by_cases hstyle : setting.1 = "name_syntax"
  · simp [assigned, hstyle]
  by_cases hkeyword : setting.1 = keyword
  · subst hkeyword
    simp [assigned, hstyle, lookup_of_not_mem hnew]
  · simp [assigned, hstyle, List.lookup_cons, beq_false_of_ne hkeyword]

/-- Changes by known keywords are all made, except for the name style. -/
theorem assign_entries (hapart : (OrderedMap.keys os).Nodup) (hknown : ∀ o ∈ os, o.1 ∈ keywords)
    (s : Ldap.Settings) : ∃ s', s.assign os = .ok s' ∧ s'.entries = s.entries.map (assigned os) := by
  induction os generalizing s with
  | nil =>
    refine ⟨s, rfl, ?_⟩
    have hsame : assigned [] = id := by
      funext setting
      simp [assigned]
    rw [hsame, List.map_id]
  | cons o os ih =>
    obtain ⟨hnew, hapart⟩ := List.nodup_cons.mp hapart
    obtain ⟨ho, hknown⟩ := List.forall_mem_cons.mp hknown
    obtain ⟨s₁, hset, hentries₁⟩ := set?_entries ho s o.2
    obtain ⟨s₂, hassign, hentries₂⟩ := ih hapart hknown s₁
    refine ⟨s₂, ?_, ?_⟩
    · rw [assign_cons, hset]
      exact hassign
    · rw [hentries₂, hentries₁, List.map_map, assigned_cons hnew]

theorem styleWord?_of_isVoid (hvoid : v.isVoid = true) : styleWord? v = some "composite" := by
  have hword : Text.lower (Text.trimmed "composite") = "composite" := rfl
  rw [styleWord?, Value.orElse, if_pos hvoid]
  exact congrArg some hword

theorem text_of_styleWord? {word : String} (hvoid : ¬ v.isVoid = true) (h : styleWord? v = some word) :
    ∃ t, v = .text t ∧ Text.lower (Text.trimmed t) = word := by
  rw [styleWord?, Value.orElse, if_neg hvoid] at h
  split at h
  · exact ⟨_, rfl, Option.some.inj h⟩
  · cases h

/-- A name style is accepted by its word. -/
theorem ofValue_of_styleWord? (h : styleWord? v = some style.word) : Ldap.NameStyle.ofValue v = .ok style := by
  rw [Ldap.NameStyle.ofValue]
  by_cases hvoid : v.isVoid = true
  · rw [styleWord?_of_isVoid hvoid] at h
    rw [if_pos hvoid]
    cases style with
    | composite => rfl
    | dn => exact absurd h (by decide)
  · obtain ⟨t, rfl, hword⟩ := text_of_styleWord? hvoid h
    have hstyle : Ldap.NameStyle.ofWord? style.word = some style := by cases style <;> rfl
    rw [if_neg hvoid, Value.readText, hword, hstyle]
    rfl

/-- A setting with a name style, if it is the one for it. -/
def restyled (style : Ldap.NameStyle) (setting : String × Value) : String × Value :=
  if setting.1 = "name_syntax" then (setting.1, .text style.word) else setting

/-- A name style that is one of the two is taken over as its word. -/
theorem restyle_entries (h : os.lookup "name_syntax" = some v) (hstyle : styleWord? v = some style.word)
    (s : Ldap.Settings) : ∃ s', s.restyle os = .ok s' ∧ s'.entries = s.entries.map (restyled style) := by
  refine ⟨{ s with nameStyle := style }, ?_, rfl⟩
  simp only [Ldap.Settings.restyle, h, ofValue_of_styleWord? hstyle, Except.map]

/-- An override of another setting than the name style is held as it is. -/
theorem overridden_of_ne {setting : String × Value} (hne : setting.1 ≠ "name_syntax") :
    overridden os setting = assigned (real os) setting := by
  rw [overridden, assigned, if_neg hne]
  split
  · next h => rw [h, Option.getD_none]
  · next h => rw [h, Option.getD_some, held, if_neg hne]

/-- Overrides are made in two steps: the values first, and the name style after them. -/
theorem CanOverride.setAll_entries (h : CanOverride os) (s : Ldap.Settings) :
    ∃ s', s.setAll (real os) = .ok s' ∧ s'.entries = s.entries.map (overridden os) := by
  have hapart : (OrderedMap.keys (real os)).Nodup := h.apart.sublist (List.filter_sublist.map _)
  obtain ⟨s₁, hassign, hentries⟩ := assign_entries hapart h.known s
  cases hlookup : (real os).lookup "name_syntax" with
  | none =>
    have hoverridden : overridden os = assigned (real os) := by
      funext setting
      by_cases hname : setting.1 = "name_syntax"
      · rw [overridden, assigned, if_pos hname, hname, hlookup]
      · exact overridden_of_ne hname
    refine ⟨s₁, ?_, by rw [hentries, hoverridden]⟩
    rw [Ldap.Settings.setAll, hassign]
    show s₁.restyle (real os) = .ok s₁
    rw [Ldap.Settings.restyle, hlookup]
  | some v =>
    obtain ⟨style, hstyle⟩ : ∃ style : Ldap.NameStyle, styleWord? v = some style.word := by
      rcases h.styled v (mem_of_lookup hlookup) with hcomposite | hdn
      · exact ⟨.composite, hcomposite⟩
      · exact ⟨.dn, hdn⟩
    -- The values come first and set this key as well, so the style has to be taken over after them.
    obtain ⟨s₂, hrestyle, hentries₂⟩ := restyle_entries hlookup hstyle s₁
    have hoverridden : overridden os = restyled style ∘ assigned (real os) := by
      funext setting
      by_cases hname : setting.1 = "name_syntax"
      · simp [overridden, assigned, restyled, hname, hlookup, held, hstyle]
      · rw [overridden_of_ne hname]
        simp [assigned, restyled, hname]
    refine ⟨s₂, ?_, by rw [hentries₂, hentries, List.map_map, hoverridden]⟩
    rw [Ldap.Settings.setAll, hassign]
    exact hrestyle

end Overriding

/-- A URL carries every base. The settings that it gives are those it was written for: the base, the host in
small letters, the port or the one of the scheme, and whether the connection is secure, with the defaults
for all others. An override that is something takes the place of its setting, whatever the URL says. -/
theorem ofUrl_carries (u : DirectoryUrl) {os : List (String × Value)} (hos : CanOverride os) :
    ∃ s, Ldap.Settings.ofUrl (.text u.text) os = .ok s ∧
      s.entries = u.settings.entries.map (overridden os) := by
  have hparameter : (os.find? fun o => o.1 == "cls" || o.1 == "url") = none := by
    rw [List.find?_eq_none]
    intro o ho
    simpa using hos.noParameter o ho
  obtain ⟨s, hset, hentries⟩ := hos.setAll_entries u.settings
  refine ⟨s, ?_, hentries⟩
  rw [ofUrl_eq, hparameter, u.ofUrlAlone_text]
  exact hset

/-- A URL whose base starts with a slash and holds all that could end a path. -/
def southern : DirectoryUrl where
  secure := true
  scheme := "LdapS"
  scheme_spells := String.toList_injective (by rw [toList_toLower]; decide)
  host := "DC-1.Example"
  host_ne_empty := by decide
  host_plain := List.all_eq_true.mp rfl
  port := none
  port_range := nofun
  base := "/ou=Süd?#%"
  path := Text.percentEncode ("/ou=Süd?#%".toList.flatMap String.utf8EncodeChar)
  path_codes := Text.isPercentCoding_percentEncode _
  front := [' ', '\t']
  back := ['\u3000']
  front_blank := List.all_eq_true.mp rfl
  back_blank := List.all_eq_true.mp rfl

/-- The base is carried, and the port and the name style are overridden. -/
theorem ofUrl_carries_southern :
    southern.text = " \tLdapS://DC-1.Example/%2fou%3dS%c3%bcd%3f%23%25\u3000" ∧
    CanOverride [("port", .int 1), ("name_syntax", .text " DN "), ("starttls", .null)] ∧
    ∃ s, Ldap.Settings.ofUrl (.text southern.text)
        [("port", .int 1), ("name_syntax", .text " DN "), ("starttls", .null)] = .ok s ∧
      s.host = .text "dc-1.example" ∧ s.base = .text "/ou=Süd?#%" ∧ s.port = .int 1 ∧
      Value.text s.nameStyle.word = .text "dn" := by
  have hos : CanOverride [("port", .int 1), ("name_syntax", .text " DN "), ("starttls", .null)] := by
    refine ⟨by decide, by decide, by decide, fun v hv => ?_⟩
    obtain rfl : v = .text " DN " := by simpa [real] using hv
    exact .inr (by decide)
  have hhost : "DC-1.Example".toLower = "dc-1.example" :=
    String.toList_injective (by rw [toList_toLower]; decide)
  obtain ⟨s, hs, hentries⟩ := ofUrl_carries southern hos
  have hheld : ∀ keyword, s.entries.lookup keyword = (southern.settings.entries.map (overridden
      [("port", .int 1), ("name_syntax", .text " DN "), ("starttls", .null)])).lookup keyword := by
    intro keyword
    rw [hentries]
  refine ⟨by decide, hos, s, hs, ?_, ?_, ?_, ?_⟩
  · rw [← hhost]
    exact Option.some.inj (hheld "host")
  · exact Option.some.inj (hheld "base_dn")
  · exact Option.some.inj (hheld "port")
  · exact Option.some.inj (hheld "name_syntax")

end NamingDirectory.Opening
