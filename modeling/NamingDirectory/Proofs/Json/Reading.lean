import NamingDirectory.Json.Reader

/-!
# What can be read from JSON

Whatever a JSON text holds, what is read from it is plain data: no node of a directory tree comes out of a
text (`not_isNode_of_read`).

A step of the reader gives a value and the rest of the text, or a fault. That it reads no node is a property
of the step (`ReadsData`), which every way to make a value keeps. Lists and dictionaries are no nodes
themselves, so nothing has to be known of what is read inside of them, and there is no induction.
-/

namespace NamingDirectory.Json

/-- The digits before the point or the exponent of a number: no other digit follows a zero. -/
def wholeDigits (cs : List Char) : List Char :=
  match cs with
  | '0' :: _ => ['0']
  | _ => cs.takeWhile Char.isDigit

/-- How a number is read, in one equation: digits, a fraction and a power, of which the last two make it no
integer. -/
theorem readNumber_eq (start : Nat) (negative : Bool) (cs : List Char) :
    readNumber start negative cs =
      let digits := wholeDigits cs
      if digits.isEmpty then .error (.stopped .value start)
      else
        let (fraction, rest) := readFraction (cs.drop digits.length)
        let (exponent, rest) := readExponent rest
        if fraction.isEmpty && exponent.isNone then
          if digits.length ≤ Numeral.digitLimit then
            let n : Int := Numeral.digitsValue digits
            .ok (.int (if negative then -n else n), rest)
          else .error (.tooLong digits.length)
        else
          let e := exponent.getD 0 - fraction.length
          .ok (.float (Binary64.ofDecimal negative (Numeral.digitsValue (digits ++ fraction)) e), rest) :=
  rfl

/-- A step that reads no node of a directory tree, if it reads anything. -/
def ReadsData (step : Step Value) : Prop := ∀ v rest, step = .ok (v, rest) → ¬ v.isNode

theorem readsData_error (e : Unreadable) : ReadsData (.error e) := nofun

theorem readsData_ok {v : Value} (h : v.isNode = false) (rest : List Char) :
    ReadsData (.ok (v, rest)) := by
  rintro _ _ ⟨⟩
  simp [h]

/-- What is made of the result of any step is no node if it is never one. -/
theorem ReadsData.map {α : Type} {f : α → Value} (h : ∀ a, (f a).isNode = false) (step : Step α) :
    ReadsData (step.map fun (a, rest) => (f a, rest)) := by
  cases step with
  | error e => exact readsData_error e
  | ok read => exact readsData_ok (h read.1) read.2

theorem readsData_readNumber (start : Nat) (negative : Bool) (cs : List Char) :
    ReadsData (readNumber start negative cs) := by
  rw [readNumber_eq]
  dsimp only
  split
  · exact readsData_error _
  · split
    · split
      · exact readsData_ok rfl _
      · exact readsData_error _
    · exact readsData_ok rfl _

/-- Words and numbers are no nodes. -/
theorem readsData_readScalar (cs : List Char) : ReadsData (readScalar cs) := by
  have hwords : ∀ w ∈ words, w.2.isNode = false := by simp [words, Value.isNode]
  unfold readScalar
  split
  · next word v hword => exact readsData_ok (hwords _ (List.mem_of_find?_eq_some hword)) _
  · split
    · exact readsData_readNumber _ _ _
    · exact readsData_readNumber _ _ _

theorem readsData_readValue (fuel : Nat) (cs : List Char) : ReadsData (readValue fuel cs) := by
  cases fuel with
  | zero => exact readsData_error _
  | succ fuel =>
    unfold readValue
    split
    · exact ReadsData.map (f := fun cs => .text (String.ofList cs)) (fun _ => rfl) _
    · split
      · exact readsData_ok rfl _
      · exact ReadsData.map (f := .list) (fun _ => rfl) _
    · split
      · exact readsData_ok rfl _
      · exact ReadsData.map (f := fun es => .dict (OrderedMap.ofEntries es)) (fun _ => rfl) _
    · exact readsData_readScalar cs

/-- What a whole text is read as is what its first step reads, when nothing but blanks is left. -/
theorem readAll_eq_ok_iff {cs : List Char} {v : Value} :
    readAll cs = .ok v ↔ cs.head? ≠ some (Char.ofNat 0xfeff) ∧
      ∃ rest, readValue (2 * cs.length + 2) (skip cs) = .ok (v, rest) ∧ skip rest = [] := by
  by_cases hmark : cs.head? = some (Char.ofNat 0xfeff)
  · refine iff_of_false ?_ fun h => h.1 hmark
    rw [readAll, if_pos (by simpa using hmark)]
    rintro ⟨⟩
  · rw [readAll, if_neg (by simpa using hmark)]
    -- The mark is refused before anything is read, and what is left is looked at after it.
    cases readValue (2 * cs.length + 2) (skip cs) with
    | error e =>
      refine iff_of_false (by rintro ⟨⟩) ?_
      rintro ⟨-, rest, hvalue, -⟩
      cases hvalue
    | ok read =>
      simp only [bind, Except.bind]
      cases hrest : skip read.2 with
      | nil =>
        constructor
        · rintro ⟨⟩
          exact ⟨hmark, read.2, rfl, hrest⟩
        · rintro ⟨-, rest, ⟨⟩, -⟩
          rfl
      | cons c cs =>
        refine iff_of_false (by rintro ⟨⟩) ?_
        rintro ⟨-, rest, ⟨⟩, hnil⟩
        rw [hrest] at hnil
        cases hnil

/-- What is read is plain data. -/
theorem not_isNode_of_read {text : String} {v : Value} (h : read text = .ok v) : ¬ v.isNode := by
  simp only [read] at h
  split at h
  · next hv =>
    cases h
    obtain ⟨-, rest, hvalue, -⟩ := readAll_eq_ok_iff.mp hv
    exact readsData_readValue _ _ _ _ hvalue
  · cases h

end NamingDirectory.Json
