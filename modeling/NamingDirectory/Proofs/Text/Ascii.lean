import Mathlib.Data.List.TakeWhile
import NamingDirectory.Text.Blank
import NamingDirectory.Text.Case
import NamingDirectory.Text.Digit

/-!
# Plain text

Texts of visible ASCII characters. They keep all their characters when blanks around them are dropped
(`trim_surrounded`), and the tables of letter case come down to the twenty-six letters (`lower_of_ascii`).

Classes of characters are turned into ranges of codes first. What is then left of a question about a character
is arithmetic.
-/

namespace NamingDirectory.Text

variable {c : Char} {cs front back : List Char}

theorem isUpper_iff : c.isUpper = true ↔ 0x41 ≤ c.toNat ∧ c.toNat ≤ 0x5a := decide_eq_true_iff

theorem isLower_iff : c.isLower = true ↔ 0x61 ≤ c.toNat ∧ c.toNat ≤ 0x7a :=
  Bool.and_eq_true_iff.trans (and_congr decide_eq_true_iff decide_eq_true_iff)

theorem isAlpha_iff :
    c.isAlpha = true ↔ (0x41 ≤ c.toNat ∧ c.toNat ≤ 0x5a) ∨ 0x61 ≤ c.toNat ∧ c.toNat ≤ 0x7a :=
  Bool.or_eq_true_iff.trans (or_congr isUpper_iff isLower_iff)

theorem toNat_of_isAlphanum (h : c.isAlphanum) :
    0x30 ≤ c.toNat ∧ c.toNat ≤ 0x39 ∨ 0x41 ≤ c.toNat ∧ c.toNat ≤ 0x5a ∨
      0x61 ≤ c.toNat ∧ c.toNat ≤ 0x7a := by
  rcases Bool.or_eq_true_iff.mp h with halpha | hdigit
  · exact .inr (isAlpha_iff.mp halpha)
  · exact .inl (Char.isDigit_iff_toNat.mp hdigit)

theorem isAlphanum_of_isHexDigit (h : isHexDigit c) : c.isAlphanum := by
  unfold isHexDigit hexValue? at h
  show (c.isAlpha || c.isDigit) = true
  rw [Bool.or_eq_true, isAlpha_iff, Char.isDigit_iff_toNat]
  split at h
  · next hc => exact .inr hc
  · split at h
    · next hc => exact .inl (.inr ⟨hc.1, Nat.le_trans hc.2 (by decide)⟩)
    · split at h
      · next hc => exact .inl (.inl ⟨hc.1, Nat.le_trans hc.2 (by decide)⟩)
      · cases h

/-! ### Blanks

No blank is visible, so a text of visible characters ends where it is taken to end. -/

/-- A visible character of ASCII. -/
def isVisible (c : Char) : Bool := 0x20 < c.toNat && c.toNat < 0x7f

theorem isVisible_iff : isVisible c = true ↔ 0x20 < c.toNat ∧ c.toNat < 0x7f := by
  simp [isVisible]

theorem isVisible_of_isAlphanum (h : c.isAlphanum) : isVisible c := by
  have hc := toNat_of_isAlphanum h
  rw [isVisible_iff]
  omega

/-- The blanks of ASCII come before its visible characters, and all others after them. -/
theorem not_isBlank_of_isVisible (h : isVisible c) : ¬ isBlank c := by
  rw [isVisible_iff] at h
  simp only [isBlank, Bool.or_eq_true, Bool.and_eq_true, decide_eq_true_eq, beq_iff_eq]
  omega

/-- Blanks around a text do not count. -/
theorem trim_surrounded (hfront : ∀ c ∈ front, isBlank c) (hback : ∀ c ∈ back, isBlank c)
    (cs : List Char) : trim (front ++ cs ++ back) = trim cs := by
  have hend : ∀ cs, trimEnd (cs ++ back) = trimEnd cs := by
    intro cs
    rw [trimEnd, trimEnd, List.reverse_append, List.dropWhile_append_of_pos]
    simpa using hback
  have hall : back.dropWhile isBlank = [] := List.dropWhile_eq_nil_iff.mpr hback
  rw [trim, trim, trimStart, trimStart, List.append_assoc, List.dropWhile_append_of_pos hfront,
    List.dropWhile_append]
  split
  · next hblank => rw [List.isEmpty_iff.mp hblank, hall]
  · exact hend _

theorem trim_of_isVisible (h : ∀ c ∈ cs, isVisible c) : trim cs = cs :=
  trim_eq_self (fun c hc => not_isBlank_of_isVisible (h c (List.mem_of_mem_head? hc)))
    fun c hc => not_isBlank_of_isVisible (h c (List.mem_of_mem_getLast? hc))

/-! ### Letter case

The table of small forms is a list of runs, and all of its runs but the first lie beyond ASCII. -/

/-- Only the first run of the table is about ASCII. -/
theorem lowerCode_of_lt {n : Nat} (h : n < 0x80) :
    lowerCode n = if 0x41 ≤ n ∧ n ≤ 0x5a then n + 32 else n := by
  have hruns : lowerRuns = (0x41, 0x5a, 1, 32) :: lowerRuns.tail := rfl
  have hothers : ∀ r ∈ lowerRuns.tail, 0x80 ≤ r.1 := by decide +kernel
  have hnone : (lowerRuns.tail.find? fun r => r.1 ≤ n && n ≤ r.2.1 && (n - r.1) % r.2.2.1 == 0) = none := by
    rw [List.find?_eq_none]
    intro r hr hfound
    obtain ⟨hrange, -⟩ := Bool.and_eq_true_iff.mp hfound
    have hlow : r.1 ≤ n := of_decide_eq_true (Bool.and_eq_true_iff.mp hrange).1
    have hhigh := hothers r hr
    omega
  have hone : (n - 0x41) % 1 = 0 := Nat.mod_one _
  rw [lowerCode, hruns, List.find?_cons, hnone, hone]
  by_cases hcapital : 0x41 ≤ n ∧ n ≤ 0x5a
  · simp [hcapital]
    omega
  · have hrange : (decide (0x41 ≤ n) && decide (n ≤ 0x5a)) = false := by simpa using hcapital
    simp [hrange, hcapital]

/-- A capital has its small form thirty-two places further. -/
theorem toNat_toLower (c : Char) :
    c.toLower.toNat = if 0x41 ≤ c.toNat ∧ c.toNat ≤ 0x5a then c.toNat + 32 else c.toNat := by
  by_cases h : 0x41 ≤ c.toNat ∧ c.toNat ≤ 0x5a
  · have hval : c.toLower.val = c.val + 32 := congrArg Char.val (dif_pos h)
    have hsum : (c.val + 32).toNat = (c.toNat + 32) % 2 ^ 32 := rfl
    rw [if_pos h, ← Char.toNat_val, hval, hsum]
    omega
  · have hsame : c.toLower = c := dif_neg h
    rw [if_neg h, hsame]

/-- What becomes a letter was one. -/
theorem isAlpha_of_toLower (h : c.toLower.isAlpha) : c.isAlpha := by
  rw [isAlpha_iff, toNat_toLower] at h
  rw [isAlpha_iff]
  split at h <;> omega

/-- Nothing in ASCII is a final sigma, so what stands around a letter has no part in its small form. -/
theorem lowerFrom_of_ascii (h : ∀ c ∈ cs, c.toNat < 0x80) (before : List Char) :
    lowerFrom before cs = cs.map Char.toLower := by
  induction cs generalizing before with
  | nil => rfl
  | cons c cs ih =>
    obtain ⟨hc, hcs⟩ := List.forall_mem_cons.mp h
    have hsigma : (c.toNat == 0x3a3) = false := beq_eq_false_iff_ne.mpr (by omega)
    have hdotted : (c.toNat == 0x130) = false := beq_eq_false_iff_ne.mpr (by omega)
    have hcode : Char.ofNat (lowerCode c.toNat) = c.toLower := by
      rw [lowerCode_of_lt hc, ← toNat_toLower, Char.ofNat_toNat]
    simp [lowerFrom, hsigma, lowerChar, hdotted, hcode, ih hcs]

/-- A text in ASCII is made small letter by letter. -/
theorem lower_of_ascii (h : ∀ c ∈ cs, c.toNat < 0x80) :
    lower (String.ofList cs) = String.ofList (cs.map Char.toLower) := by
  rw [lower, String.toList_ofList, lowerFrom_of_ascii h]

end NamingDirectory.Text
