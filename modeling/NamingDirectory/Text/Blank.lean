/-!
# Blank characters

The white space of the Unicode standard, with the four information separators of ASCII and without
them, and the ways in which text is cleaned of it. `trim_append` says what trimming removes: nothing but
blanks, at the two ends.
-/

namespace NamingDirectory.Text

/-- A character that separates words and carries nothing itself. -/
def isBlank (c : Char) : Bool :=
  let n := c.toNat
  (0x09 ≤ n && n ≤ 0x0d) || (0x1c ≤ n && n ≤ 0x20) || n == 0x85 || n == 0xa0 || n == 0x1680 ||
    (0x2000 ≤ n && n ≤ 0x200a) || n == 0x2028 || n == 0x2029 || n == 0x202f || n == 0x205f ||
    n == 0x3000

/-- A blank that is no separator of ASCII: what may stand around a numeral. -/
def isOuterBlank (c : Char) : Bool := isBlank c && !(0x1c ≤ c.toNat && c.toNat ≤ 0x1f)

/-- A byte that stands for a blank of ASCII, the separators excepted. -/
def isBlankByte (b : UInt8) : Bool := (0x09 ≤ b && b ≤ 0x0d) || b == 0x20

/-- Drops the blanks at both ends of bytes. -/
def trimmedBytes (bs : List UInt8) : List UInt8 :=
  ((bs.dropWhile isBlankByte).reverse.dropWhile isBlankByte).reverse

def trimStart (cs : List Char) : List Char := cs.dropWhile isBlank

def trimEnd (cs : List Char) : List Char := (cs.reverse.dropWhile isBlank).reverse

def trim (cs : List Char) : List Char := trimEnd (trimStart cs)

/-- `trim` on strings. -/
def trimmed (s : String) : String := String.ofList (trim s.toList)

/-- Drops every copy of `c` at both ends. -/
def stripped (c : Char) (s : String) : String :=
  String.ofList (((s.toList.dropWhile (· == c)).reverse.dropWhile (· == c)).reverse)

@[simp] theorem trimmed_toList (s : String) : (trimmed s).toList = trim s.toList := by
  simp [trimmed]

/-- Trimming at the start removes blanks only. -/
theorem trimStart_append (cs : List Char) :
    ∃ front, front.all isBlank = true ∧ front ++ trimStart cs = cs := by
  refine ⟨cs.takeWhile isBlank, ?_, List.takeWhile_append_dropWhile⟩
  induction cs with
  | nil => rfl
  | cons c cs ih =>
    rw [List.takeWhile_cons]
    split
    · next h => simp [h, ih]
    · rfl

/-- Trimming at the end removes blanks only. -/
theorem trimEnd_append (cs : List Char) :
    ∃ back, back.all isBlank = true ∧ trimEnd cs ++ back = cs := by
  obtain ⟨front, hfront, happ⟩ := trimStart_append cs.reverse
  refine ⟨front.reverse, by simpa using hfront, ?_⟩
  have := congrArg List.reverse happ
  simpa [trimEnd, trimStart] using this

/-- What is trimmed away is blank, and stood at the ends. -/
theorem trim_append (cs : List Char) :
    ∃ front back, front.all isBlank = true ∧ back.all isBlank = true ∧
      front ++ trim cs ++ back = cs := by
  obtain ⟨front, hfront, h₁⟩ := trimStart_append cs
  obtain ⟨back, hback, h₂⟩ := trimEnd_append (trimStart cs)
  exact ⟨front, back, hfront, hback, by rw [List.append_assoc, trim, h₂, h₁]⟩

theorem dropWhile_eq_self {cs : List Char} (h : ∀ c, cs.head? = some c → ¬ isBlank c) :
    cs.dropWhile isBlank = cs := by
  cases cs with
  | nil => rfl
  | cons c cs => exact List.dropWhile_cons_of_neg (h c rfl)

theorem not_isBlank_of_head?_dropWhile (cs : List Char) {c : Char}
    (h : (cs.dropWhile isBlank).head? = some c) : ¬ isBlank c := by
  have hhead := List.head?_dropWhile_not isBlank cs
  rw [h] at hhead
  simpa using hhead

/-- What was trimmed has nothing left to trim. -/
theorem trim_trim (cs : List Char) : trim (trim cs) = trim cs := by
  have hstart : trimStart (trim cs) = trim cs := by
    refine dropWhile_eq_self fun c hc => ?_
    obtain ⟨back, -, hback⟩ := trimEnd_append (trimStart cs)
    refine not_isBlank_of_head?_dropWhile cs ?_
    rw [trim] at hc
    rw [← trimStart, ← hback, List.head?_append, hc, Option.some_or]
  have hend : trimEnd (trim cs) = trim cs := by
    rw [trim, trimEnd, trimEnd, List.reverse_reverse, dropWhile_eq_self]
    exact fun c => not_isBlank_of_head?_dropWhile _
  rw [trim, hstart, hend]

theorem trim_eq_self {cs : List Char} (hhead : ∀ c, cs.head? = some c → ¬ isBlank c)
    (hlast : ∀ c, cs.getLast? = some c → ¬ isBlank c) : trim cs = cs := by
  rw [trim, trimStart, dropWhile_eq_self hhead, trimEnd, dropWhile_eq_self, List.reverse_reverse]
  intro c hc
  rw [List.head?_reverse] at hc
  exact hlast c hc

theorem not_isBlank_of_head?_trim (cs : List Char) {c : Char} (h : (trim cs).head? = some c) :
    ¬ isBlank c := by
  obtain ⟨back, -, hback⟩ := trimEnd_append (trimStart cs)
  refine not_isBlank_of_head?_dropWhile cs ?_
  rw [← trimStart, ← hback, List.head?_append, ← trim, h, Option.some_or]

theorem not_isBlank_of_getLast?_trim (cs : List Char) {c : Char} (h : (trim cs).getLast? = some c) :
    ¬ isBlank c := by
  rw [trim, trimEnd, List.getLast?_reverse] at h
  exact not_isBlank_of_head?_dropWhile _ h

/-- Trimming takes away no character but blanks. -/
theorem count_trim {c : Char} (hc : ¬ isBlank c) (cs : List Char) :
    (trim cs).count c = cs.count c := by
  obtain ⟨front, back, hfront, hback, happend⟩ := trim_append cs
  have hnone : ∀ blanks : List Char, blanks.all isBlank → blanks.count c = 0 := fun blanks hblanks =>
    List.count_eq_zero.mpr fun hmem => hc (List.all_eq_true.mp hblanks c hmem)
  calc (trim cs).count c = (front ++ trim cs ++ back).count c := by
        simp [List.count_append, hnone front hfront, hnone back hback]
    _ = cs.count c := by rw [happend]

end NamingDirectory.Text
