import NamingDirectory.Proofs.Json.Numeral
import NamingDirectory.Proofs.Text.PercentCoding
import NamingDirectory.Url.Split

/-!
# Splitting a URL that was put together

A URL of a scheme, a plain host with or without a port, and a path in percent coding is split where it was put
together (`split_written`), and host and port are found again in its authority (`host_written`,
`port?_written`).

The splitter looks for characters: a colon that ends the scheme, a slash, a question mark or a number sign
that ends the authority, and then those that end the path. Each part of such a URL is made of characters of a
class that has none of these, so every search goes through the part to its end. All of a URL is visible ASCII,
and so nothing is taken away or refused before it is split.
-/

namespace NamingDirectory.Url

variable {c : Char} {cs front scheme host path : List Char}

/-! ### Cutting

Searches for one character, in a text that has it, or has it not. -/

theorem forall_bne (h : c ∉ cs) : ∀ d ∈ cs, (d != c) = true := by
  intro d hd
  rw [bne_iff_ne]
  rintro rfl
  exact h hd

theorem cutAt_append (h : c ∉ front) (rest : List Char) :
    cutAt c (front ++ c :: rest) = (front, some rest) := by
  rw [cutAt, List.dropWhile_append_of_pos (forall_bne h), List.takeWhile_append_of_pos (forall_bne h)]
  simp

theorem cutAt_of_not_mem (h : c ∉ cs) : cutAt c cs = (cs, none) := by
  rw [cutAt, List.dropWhile_eq_nil_iff.mpr (forall_bne h)]

theorem afterLast_of_not_mem (h : c ∉ cs) : afterLast c cs = cs := by
  have hreverse : c ∉ cs.reverse := mt List.mem_reverse.mp h
  rw [afterLast, List.takeWhile_eq_self_iff.mpr (forall_bne hreverse), List.reverse_reverse]

/-- A character that no character of a text can be does not occur in it. -/
theorem not_mem_of_forall {p : Char → Bool} (h : ∀ c ∈ cs, p c) (hc : p c = false) : c ∉ cs := by
  intro hmem
  rw [h c hmem] at hc
  cases hc

/-! ### Hosts and ports

A plain host has neither a colon nor brackets nor a sign for a user, so the authority is taken apart at its
only colon. -/

/-- A character of a plain host name. -/
def isHostCharacter (c : Char) : Bool := c.isAlphanum || c == '.' || c == '-'

/-- The digits of a port as a host with a port is written. -/
def portDigits : Option Nat → List Char
  | none => []
  | some n => Nat.toDigits 10 n

/-- A host, and the port after a colon if there is one. -/
def authorityOf (host : List Char) : Option Nat → List Char
  | none => host
  | some n => host ++ ':' :: Nat.toDigits 10 n

/-- A character of a host with a port. -/
def isAuthorityCharacter (c : Char) : Bool := isHostCharacter c || c == ':'

theorem isVisible_of_isAuthorityCharacter (h : isAuthorityCharacter c) : Text.isVisible c := by
  simp only [isAuthorityCharacter, isHostCharacter, Bool.or_eq_true, beq_iff_eq] at h
  rcases h with ((halphanum | rfl) | rfl) | rfl
  case inl.inl.inl => exact Text.isVisible_of_isAlphanum halphanum
  all_goals decide

theorem characters_authorityOf (hhost : ∀ c ∈ host, isHostCharacter c) (port : Option Nat) :
    ∀ c ∈ authorityOf host port, isAuthorityCharacter c := by
  have hauthority : ∀ c ∈ host, isAuthorityCharacter c := fun c hc => by
    simp [isAuthorityCharacter, hhost c hc]
  cases port with
  | none => exact hauthority
  | some n =>
    refine List.forall_mem_append.mpr ⟨hauthority, List.forall_mem_cons.mpr ⟨rfl, fun c hc => ?_⟩⟩
    simp [isAuthorityCharacter, isHostCharacter, Char.isAlphanum, Json.isDigit_of_mem_toDigits hc]

/-- A host and its digits are found again. -/
theorem hostAndPort_written (hhost : ∀ c ∈ host, isHostCharacter c) (port : Option Nat) (scheme : String)
    (path : List Char) :
    hostAndPort ⟨scheme, authorityOf host port, path⟩ = (host, portDigits port) := by
  have hauthority := characters_authorityOf hhost port
  have hat : '@' ∉ authorityOf host port := not_mem_of_forall hauthority rfl
  have hbracket : '[' ∉ authorityOf host port := not_mem_of_forall hauthority rfl
  have hcolon : ':' ∉ host := not_mem_of_forall hhost rfl
  rw [hostAndPort, afterLast_of_not_mem hat, cutAt_of_not_mem hbracket]
  cases port with
  | none => simp [authorityOf, cutAt_of_not_mem hcolon, portDigits]
  | some n => simp [authorityOf, cutAt_append hcolon, portDigits]

/-- The host comes back in small letters. -/
theorem host_written (hhost : ∀ c ∈ host, isHostCharacter c) (port : Option Nat) (scheme : String)
    (path : List Char) :
    Url.host ⟨scheme, authorityOf host port, path⟩ = String.ofList (host.map Char.toLower) := by
  have hzone : '%' ∉ host := not_mem_of_forall hhost rfl
  have hname : host.takeWhile (· != '%') = host := List.takeWhile_eq_self_iff.mpr (forall_bne hzone)
  have hascii : ∀ c ∈ host, c.toNat < 0x80 := by
    intro c hc
    have hvisible : Text.isVisible c := isVisible_of_isAuthorityCharacter (by
      simp [isAuthorityCharacter, hhost c hc])
    exact Nat.lt_succ_of_lt (Text.isVisible_iff.mp hvisible).2
  simp only [Url.host, hostAndPort_written hhost, hname, List.drop_length, Text.lower_of_ascii hascii]
  exact String.append_empty

/-- The port is read from its digits, and a missing one as none. -/
theorem port?_written {port : Option Nat} (hport : ∀ n ∈ port, n ≤ 65535)
    (hhost : ∀ c ∈ host, isHostCharacter c) (scheme : String) (path : List Char) :
    port? ⟨scheme, authorityOf host port, path⟩ = .ok port := by
  rw [port?, hostAndPort_written hhost]
  cases port with
  | none => rfl
  | some n =>
    have hn : n ≤ 65535 := hport n rfl
    have hdigits : (Nat.toDigits 10 n).all Char.isDigit = true :=
      List.all_eq_true.mpr fun c hc => Json.isDigit_of_mem_toDigits hc
    have hlength : (Nat.toDigits 10 n).length ≤ 5 :=
      (Nat.length_toDigits_le_iff (by decide) (by decide)).mpr (by omega)
    have hlimit : ¬ Numeral.digitLimit < (Nat.toDigits 10 n).length := by
      rw [Numeral.digitLimit]
      omega
    simp [portDigits, hdigits, hlimit, Nat.toDigits_ne_nil, hn]

/-! ### Splitting

In the order in which the splitter goes: what it takes away, the scheme, what it refuses, and the authority. -/

theorem filter_dropWhile_of_isVisible (h : ∀ c ∈ cs, Text.isVisible c) :
    (cs.dropWhile (·.toNat ≤ 0x20)).filter (fun c => !(c == '\t' || c == '\n' || c == '\r')) = cs := by
  have hdrop : cs.dropWhile (·.toNat ≤ 0x20) = cs := by
    cases cs with
    | nil => rfl
    | cons c cs =>
      have hc := Text.isVisible_iff.mp (h c List.mem_cons_self)
      exact List.dropWhile_cons_of_neg (by simpa using hc.1)
  rw [hdrop, List.filter_eq_self]
  intro c hc
  have hvisible := h c hc
  rw [Bool.not_eq_true']
  simp only [Bool.or_eq_false_iff, beq_eq_false_iff_ne]
  refine ⟨⟨?_, ?_⟩, ?_⟩ <;> rintro rfl <;> exact absurd hvisible (by decide)

/-- The scheme is made of letters, and ends at the colon. -/
theorem cutScheme_written (hne : scheme ≠ []) (hscheme : ∀ c ∈ scheme, c.isAlpha) (rest : List Char) :
    cutScheme (scheme ++ ':' :: rest) = (scheme.map Char.toLower, rest) := by
  obtain ⟨c, cs, rfl⟩ := List.exists_cons_of_ne_nil hne
  have hcolon : ':' ∉ c :: cs := not_mem_of_forall hscheme rfl
  have hfirst : c.isAlpha = true := hscheme c List.mem_cons_self
  have hall : (c :: cs).all isSchemeCharacter = true := List.all_eq_true.mpr fun d hd => by
    simp [isSchemeCharacter, Char.isAlphanum, hscheme d hd]
  have hcut := cutAt_append hcolon rest
  rw [List.cons_append] at hcut ⊢
  simp [cutScheme, hcut, hfirst, hall]

theorem checkBrackets_of_plain (hopens : '[' ∉ cs) (hcloses : ']' ∉ cs) : checkBrackets cs = .ok () := by
  simp [checkBrackets, hopens, hcloses]

/-- No visible character of ASCII can be taken for a sign that it is not. -/
theorem not_confusable (h : ∀ c ∈ cs, Text.isVisible c) :
    (cs.any fun c => confusables.contains c.toNat) = false := by
  have hhigh : ∀ n ∈ confusables, 0x80 ≤ n := by decide
  rw [List.any_eq_false]
  intro c hc hconfusable
  have hvisible := Text.isVisible_iff.mp (h c hc)
  have hcode := hhigh c.toNat (List.contains_iff_mem.mp hconfusable)
  omega

/-- What ends an authority is no part of one. -/
theorem not_isEnd_of_isAuthorityCharacter (h : isAuthorityCharacter c) :
    (!(c == '/' || c == '?' || c == '#')) = true := by
  rw [Bool.not_eq_true']
  simp only [Bool.or_eq_false_iff, beq_eq_false_iff_ne]
  refine ⟨⟨?_, ?_⟩, ?_⟩ <;> rintro rfl <;> exact absurd h (by decide)

/-- The authority ends at the slash of the path. -/
theorem takeWhile_authority {authority : List Char} (h : ∀ c ∈ authority, isAuthorityCharacter c)
    (path : List Char) :
    (authority ++ '/' :: path).takeWhile (fun c => !(c == '/' || c == '?' || c == '#')) = authority := by
  rw [List.takeWhile_append_of_pos fun c hc => not_isEnd_of_isAuthorityCharacter (h c hc)]
  simp

theorem dropWhile_authority {authority : List Char} (h : ∀ c ∈ authority, isAuthorityCharacter c)
    (path : List Char) :
    (authority ++ '/' :: path).dropWhile (fun c => !(c == '/' || c == '?' || c == '#')) = '/' :: path := by
  rw [List.dropWhile_append_of_pos fun c hc => not_isEnd_of_isAuthorityCharacter (h c hc)]
  simp

/-- A scheme, an authority and a path put together. -/
def written (scheme authority path : List Char) : List Char :=
  scheme ++ ':' :: '/' :: '/' :: (authority ++ '/' :: path)

section Written

variable {authority : List Char} (hscheme : ∀ c ∈ scheme, c.isAlpha)
  (hauthority : ∀ c ∈ authority, isAuthorityCharacter c) (hpath : ∀ c ∈ path, Text.isPercentCharacter c)
include hscheme hauthority hpath

/-- All of a URL is visible. -/
theorem isVisible_of_mem_written : ∀ c ∈ written scheme authority path, Text.isVisible c := by
  simp only [written, List.forall_mem_append, List.forall_mem_cons]
  refine ⟨fun c hc => ?_, rfl, rfl, rfl, fun c hc => ?_, rfl, fun c hc => ?_⟩
  · exact Text.isVisible_of_isAlphanum (by simp [Char.isAlphanum, hscheme c hc])
  · exact isVisible_of_isAuthorityCharacter (hauthority c hc)
  · exact Text.isVisible_of_isPercentCharacter (hpath c hc)

/-- A URL is split where it was put together. -/
theorem split_written (hne : scheme ≠ []) :
    split (String.ofList (written scheme authority path)) =
      .ok ⟨String.ofList (scheme.map Char.toLower), authority, '/' :: path⟩ := by
  have hvisible := isVisible_of_mem_written hscheme hauthority hpath
  have hopens : '[' ∉ authority := not_mem_of_forall hauthority rfl
  have hcloses : ']' ∉ authority := not_mem_of_forall hauthority rfl
  have hplain := not_confusable fun c hc => isVisible_of_isAuthorityCharacter (hauthority c hc)
  have hfragment : '#' ∉ path := not_mem_of_forall hpath rfl
  have hquery : '?' ∉ path := not_mem_of_forall hpath rfl
  have huncut₁ : cutAt '#' ('/' :: path) = ('/' :: path, none) := cutAt_of_not_mem (by simp [hfragment])
  have huncut₂ : cutAt '?' ('/' :: path) = ('/' :: path, none) := cutAt_of_not_mem (by simp [hquery])
  simp only [split, String.toList_ofList, filter_dropWhile_of_isVisible hvisible]
  simp only [written, cutScheme_written hne hscheme, takeWhile_authority hauthority,
    dropWhile_authority hauthority, checkBrackets_of_plain hopens hcloses, hplain, huncut₁, huncut₂]
  rfl

end Written
end NamingDirectory.Url
