import NamingDirectory.Dialogue

/-!
# Courses of a dialogue

Seen from outside, a dialogue is a course of events and of requests with their answers. `Course` says which
courses a dialogue can take when the answers are left open, and `against` is the one course that it takes with
a given partner, who may answer each request in the light of all that went before.

The two agree (`course_iff_against`): the courses of a dialogue are those that it takes with the partners
there can be. So a law of courses is a law about every partner, and it needs none of them. One direction
follows the dialogue; for the other one, a partner is made that recites the answers of the course
(`reciting`), finding its place by the length of what went before.

`Alike` compares two dialogues in the same way, by what they note and ask. It is for dialogues that differ in
what they hold and not in what a partner sees of them.
-/

namespace NamingDirectory.Dialogue

variable {ε ρ β α γ : Type}

inductive Mark (ε ρ β : Type) where
  | event (e : ε)
  | call (request : ρ) (answer : β)

/-- The courses that a dialogue can take, each with the result that it ends in. Any answer may follow a
request. -/
inductive Course : Dialogue ε ρ β α → List (Mark ε ρ β) → α → Prop
  | done (a : α) : Course (.done a) [] a
  | note {e : ε} {next : Dialogue ε ρ β α} {t : List (Mark ε ρ β)} {a : α} :
      Course next t a → Course (.note e next) (.event e :: t) a
  | ask {r : ρ} {next : β → Dialogue ε ρ β α} (b : β) {t : List (Mark ε ρ β)} {a : α} :
      Course (next b) t a → Course (.ask r next) (.call r b :: t) a

/-! ### One step at a time

The rules of `Course`, each read in both directions. They take a course apart along the text of a dialogue. -/

section Steps

variable {t : List (Mark ε ρ β)} {a : α}

@[simp] theorem course_done_iff {b : α} :
    Course (.done b : Dialogue ε ρ β α) t a ↔ t = [] ∧ a = b := by
  constructor
  · intro h
    cases h
    exact ⟨rfl, rfl⟩
  · rintro ⟨rfl, rfl⟩
    exact .done a

@[simp] theorem course_note_iff {e : ε} {next : Dialogue ε ρ β α} :
    Course (.note e next) t a ↔ ∃ t', t = .event e :: t' ∧ Course next t' a := by
  constructor
  · intro h
    cases h with
    | note hnext => exact ⟨_, rfl, hnext⟩
  · rintro ⟨t', rfl, hnext⟩
    exact .note hnext

@[simp] theorem course_ask_iff {r : ρ} {next : β → Dialogue ε ρ β α} :
    Course (.ask r next) t a ↔ ∃ b t', t = .call r b :: t' ∧ Course (next b) t' a := by
  constructor
  · intro h
    cases h with
    | ask b hnext => exact ⟨b, _, rfl, hnext⟩
  · rintro ⟨b, t', rfl, hnext⟩
    exact .ask b hnext

end Steps

/-- A course of one dialogue after another is a course of the first and then one of the second. -/
theorem course_bind_iff {d : Dialogue ε ρ β α} {f : α → Dialogue ε ρ β γ} {t : List (Mark ε ρ β)}
    {c : γ} :
    Course (d.bind f) t c ↔ ∃ t₁ a t₂, Course d t₁ a ∧ Course (f a) t₂ c ∧ t = t₁ ++ t₂ := by
  constructor
  · intro h
    -- The first dialogue tells where the course is cut.
    induction d generalizing t with
    | done a => exact ⟨[], a, t, .done a, h, rfl⟩
    | note e next ih =>
      cases h with
      | note hnext =>
        obtain ⟨t₁, a, t₂, h₁, h₂, rfl⟩ := ih hnext
        exact ⟨_, a, t₂, .note h₁, h₂, rfl⟩
    | ask r next ih =>
      cases h with
      | ask b hnext =>
        obtain ⟨t₁, a, t₂, h₁, h₂, rfl⟩ := ih b hnext
        exact ⟨_, a, t₂, .ask b h₁, h₂, rfl⟩
  · rintro ⟨t₁, a, t₂, h₁, h₂, rfl⟩
    induction h₁ with
    | done a => exact h₂
    | note _ ih => exact .note (ih h₂)
    | ask b _ ih => exact .ask b (ih h₂)

/-! ### Against a partner

A partner sees the whole course before it answers, so nothing that a provider of names can do is left out, not
even to answer the same request in two ways. -/

/-- One who answers a request in the light of the course so far. -/
abbrev Partner (ε ρ β : Type) := List (Mark ε ρ β) → ρ → β

/-- What a dialogue with a partner ends in, and the course after it if `past` is the course before. -/
def against (partner : Partner ε ρ β) (d : Dialogue ε ρ β α) (past : List (Mark ε ρ β)) :
    α × List (Mark ε ρ β) :=
  d.run (fun r past => (partner past r, past ++ [.call r (partner past r)]))
    (fun e past => past ++ [.event e]) past

/-- With any partner a dialogue takes one of its courses. -/
theorem course_against (partner : Partner ε ρ β) (d : Dialogue ε ρ β α) (past : List (Mark ε ρ β)) :
    ∃ t, Course d t (d.against partner past).1 ∧ (d.against partner past).2 = past ++ t := by
  -- Each step lengthens the past by its mark.
  induction d generalizing past with
  | done a => exact ⟨[], .done a, (List.append_nil past).symm⟩
  | note e next ih =>
    obtain ⟨t, hcourse, hpast⟩ := ih (past ++ [.event e])
    refine ⟨.event e :: t, .note hcourse, ?_⟩
    rw [List.append_cons]
    exact hpast
  | ask r next ih =>
    obtain ⟨t, hcourse, hpast⟩ := ih (partner past r) (past ++ [.call r (partner past r)])
    refine ⟨.call r (partner past r) :: t, .ask _ hcourse, ?_⟩
    rw [List.append_cons]
    exact hpast

/-- The answers of a course are the partner's. -/
theorem answer_of_mem_against {partner : Partner ε ρ β} {d : Dialogue ε ρ β α}
    {past : List (Mark ε ρ β)} {r : ρ} {b : β} (h : .call r b ∈ (d.against partner past).2) :
    .call r b ∈ past ∨ ∃ earlier, b = partner earlier r := by
  induction d generalizing past with
  | done a => exact .inl h
  | note e next ih =>
    rcases ih h with hpast | hanswer
    · rcases List.mem_append.mp hpast with hpast | hlast
      · exact .inl hpast
      · cases List.mem_singleton.mp hlast
    · exact .inr hanswer
  | ask r' next ih =>
    rcases ih (partner past r') h with hpast | hanswer
    · rcases List.mem_append.mp hpast with hpast | hlast
      · exact .inl hpast
      · cases List.mem_singleton.mp hlast
        exact .inr ⟨past, rfl⟩
    · exact .inr hanswer

/-- The partner who answers as it stands at the same place of a given course, whatever is asked, and
with `other` where no answer stands. -/
def reciting (other : β) (course : List (Mark ε ρ β)) : Partner ε ρ β := fun past _ =>
  match course[past.length]? with
  | some (.call _ answer) => answer
  | _ => other

/-- A dialogue takes each of its courses with the partner who recites it. -/
theorem against_reciting {d : Dialogue ε ρ β α} {t : List (Mark ε ρ β)} {a : α} (h : Course d t a)
    (other : β) (past : List (Mark ε ρ β)) :
    d.against (reciting other (past ++ t)) past = (a, past ++ t) := by
  induction h generalizing past with
  | done a => simp [against, run]
  | @note e next t a _ ih =>
    have hnext := ih (past ++ [.event e])
    rw [← List.append_cons] at hnext
    exact hnext
  | @ask r next b t a _ ih =>
    -- The answer to this request stands where the past ends.
    have hanswer : reciting other (past ++ .call r b :: t) past r = b := by
      simp [reciting]
    have hnext := ih (past ++ [.call r b])
    rw [← List.append_cons] at hnext
    rw [against, run, hanswer]
    exact hnext

/-- The courses of a dialogue are those that it takes with one partner or another. -/
theorem course_iff_against [nonempty : Nonempty β] {d : Dialogue ε ρ β α} {t : List (Mark ε ρ β)}
    {a : α} : Course d t a ↔ ∃ partner, d.against partner [] = (a, t) := by
  constructor
  · intro h
    obtain ⟨other⟩ := nonempty
    exact ⟨reciting other t, against_reciting h other []⟩
  · rintro ⟨partner, h⟩
    obtain ⟨t', hcourse, hpast⟩ := course_against partner d []
    rw [h, List.nil_append] at hpast
    rw [h, ← hpast] at hcourse
    exact hcourse

/-! ### Dialogues that ask the same

A relation between results goes along, since the dialogues may end in different types. -/

/-- Whether two dialogues note and ask the same as long as they are answered the same, and end in related
results. -/
inductive Alike (related : α → γ → Prop) : Dialogue ε ρ β α → Dialogue ε ρ β γ → Prop
  | done {a : α} {c : γ} : related a c → Alike related (.done a) (.done c)
  | note {e : ε} {next : Dialogue ε ρ β α} {next' : Dialogue ε ρ β γ} :
      Alike related next next' → Alike related (.note e next) (.note e next')
  | ask {r : ρ} {next : β → Dialogue ε ρ β α} {next' : β → Dialogue ε ρ β γ} :
      (∀ b, Alike related (next b) (next' b)) → Alike related (.ask r next) (.ask r next')

section Alike

variable {δ κ : Type} {d : Dialogue ε ρ β α} {d' : Dialogue ε ρ β γ} {related : α → γ → Prop}

theorem Alike.refl {related : α → α → Prop} (h : ∀ a, related a a) (d : Dialogue ε ρ β α) :
    Alike related d d := by
  induction d with
  | done a => exact .done (h a)
  | note e next ih => exact .note ih
  | ask r next ih => exact .ask ih

theorem Alike.bind (h : Alike related d d') {f : α → Dialogue ε ρ β δ} {f' : γ → Dialogue ε ρ β κ}
    {related' : δ → κ → Prop} (hnext : ∀ a c, related a c → Alike related' (f a) (f' c)) :
    Alike related' (d.bind f) (d'.bind f') := by
  induction h with
  | done hrelated => exact hnext _ _ hrelated
  | note _ ih => exact .note ih
  | ask _ ih => exact .ask ih

/-- They leave every state that answers them as one and the same. -/
theorem Alike.run {σ : Type} (h : Alike related d d') (answer : ρ → σ → β × σ) (hear : ε → σ → σ)
    (s : σ) :
    (d.run answer hear s).2 = (d'.run answer hear s).2 ∧
      related (d.run answer hear s).1 (d'.run answer hear s).1 := by
  induction h generalizing s with
  | done hrelated => exact ⟨rfl, hrelated⟩
  | note _ ih => exact ih _
  | ask _ ih => exact ih _ _

/-- With any partner the two take one course. -/
theorem Alike.against (h : Alike related d d') (partner : Partner ε ρ β) (past : List (Mark ε ρ β)) :
    (d.against partner past).2 = (d'.against partner past).2 ∧
      related (d.against partner past).1 (d'.against partner past).1 :=
  h.run _ _ past

end Alike

end NamingDirectory.Dialogue
