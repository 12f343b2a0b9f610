import Mathlib.Data.List.Destutter
import NamingDirectory.Proofs.Log.Handlers

/-!
# Handlers that stack

Setups one after the other, with any wishes, and with records, changes of the environment and of the files in
between. A setup takes the handlers of the last one off only if they are on its own logger. So what is left of
a run is told by the loggers that the setups got to, in their order: each time a setup turned to another
logger than the last one, the handlers of the last one stay where they are (`Holds`, kept by every event).

`never_stacked_iff` says what that comes to. A logger has as many console handlers as setups turned to it, and
no more file handlers, so that no logger ever has two just if no setup returned to a logger after another one.
A handler that is on no logger any more is closed.

The ledger is kept beside the desk, and no step of a setup looks at it. One event adds one posting to its
front at most, behind which the latest one goes or stays (`Holds.after`):

    setup on the same logger      p :: rest  ↦  p' :: rest
    setup on another logger       p :: rest  ↦  p' :: p :: rest

The loggers of a ledger are thus the loggers that were got to, with equal ones in a row made one, which is
what `List.destutter` gives (`Holds.run`). Counting postings is then counting turns.
-/

namespace NamingDirectory.Log

/-! ### Runs

Everything that may happen between two setups is an event, so a run is a list of them. Setups that are refused
before they touch anything get to no logger. -/

/-- What happens to a desk. -/
inductive Event where
  | setup (wish : Desk.Wish)
  | report (record : Record)
  /-- The environment of the process, or what is kept of it, is changed. -/
  | environ (process : Process)
  /-- The files are changed by others. -/
  | refile (files : FileTree)

namespace Desk

def after (d : Desk) : Event → Desk
  | .setup w => (d.setup w).2
  | .report r => { d with system := d.system.log r }
  | .environ process => { d with process }
  | .refile files => { d with system := { d.system with files } }

def run (d : Desk) (events : List Event) : Desk := events.foldl after d

/-- The logger that a setup gets to, if it is not refused before. -/
def turn? (d : Desk) : Event → Option String
  | .setup w => (d.plan w).toOption.map fun plan => plan.2.2.2
  | _ => none

/-- The loggers that the setups of a run get to, the latest first, before those that were got to earlier. -/
def visited (d : Desk) (past : List String) : List Event → List String
  | [] => past
  | e :: rest => (d.after e).visited ((d.turn? e).toList ++ past) rest

/-- A desk from which nothing was set up yet. Others may have handlers on its loggers. -/
structure IsFresh (d : Desk) : Prop where
  file : d.file = none
  console : d.console = none
  attached : ∀ logger, ∀ h ∈ d.system.handlersOf logger, h.id < d.system.next
  closed : ∀ c ∈ d.system.closed, c < d.system.next

/-- The handlers on a logger that were not there when the desk was fresh. -/
def installed (d fresh : Desk) (logger : String) : List Handler :=
  (d.system.handlersOf logger).filter (fresh.system.next ≤ ·.id)

end Desk

/-! ### The ledger

The postings of a run that are still there, the latest first. -/

/-- The postings that stay when a setup gets to a logger: the latest one goes if it is on the same. -/
def staying (logger : String) : List Posting → List Posting
  | [] => []
  | p :: rest => if p.logger = logger then rest else p :: rest

/-- The handlers that the postings of a ledger have on a logger, in the order in which they were attached. -/
def posted (logger : String) : List Posting → List Handler
  | [] => []
  | p :: rest => posted logger rest ++ if p.logger = logger then p.handlers else []

/-- Whether the numbers of the handlers of a ledger go up from the first number to the next one that is given
away. -/
inductive Dated (first : Nat) : List Posting → Nat → Prop
  | nil {next : Nat} : first ≤ next → Dated first [] next
  | cons {p : Posting} {rest : List Posting} {next next' : Nat} : Dated first rest next →
      (∀ h ∈ p.handlers, next ≤ h.id ∧ h.id < next') → next ≤ next' → Dated first (p :: rest) next'

section Ledger

variable {first next next' : Nat} {ledger rest : List Posting} {p : Posting} {logger other : String}

theorem Dated.mono (h : Dated first ledger next) (hle : next ≤ next') : Dated first ledger next' := by
  cases h with
  | nil hfirst => exact .nil (hfirst.trans hle)
  | cons hrest hnumbers hnext =>
    refine .cons hrest (fun h hh => ?_) (hnext.trans hle)
    exact ⟨(hnumbers h hh).1, (hnumbers h hh).2.trans_le hle⟩

/-- The numbers of a ledger start at the first number. -/
theorem Dated.first_le (h : Dated first ledger next) : first ≤ next := by
  induction h with
  | nil hfirst => exact hfirst
  | cons _ _ hnext ih => exact ih.trans hnext

/-- The numbers of its handlers lie between the first one and the next one. -/
theorem Dated.bounds (h : Dated first ledger next) (hp : p ∈ ledger) {c : Handler}
    (hc : c ∈ p.handlers) : first ≤ c.id ∧ c.id < next := by
  induction h with
  | nil _ => cases hp
  | cons hrest hnumbers hnext ih =>
    rcases List.mem_cons.mp hp with rfl | hp
    · exact ⟨hrest.first_le.trans (hnumbers c hc).1, (hnumbers c hc).2⟩
    · exact ⟨(ih hp).1, (ih hp).2.trans_le hnext⟩

/-- The latest posting has higher numbers than those before. -/
theorem Dated.lt (h : Dated first (p :: rest) next) {q : Posting} (hq : q ∈ rest) {b c : Handler}
    (hb : b ∈ q.handlers) (hc : c ∈ p.handlers) : b.id < c.id := by
  cases h with
  | cons hrest hnumbers _ => exact (hrest.bounds hq hb).2.trans_le (hnumbers c hc).1

/-- Leaving out the latest posting leaves the numbers in order. -/
theorem Dated.staying (h : Dated first ledger next) (logger : String) :
    Dated first (staying logger ledger) next := by
  cases h with
  | nil hfirst => exact .nil hfirst
  | cons hrest hnumbers hnext =>
    rw [Log.staying]
    split
    · exact hrest.mono hnext
    · exact .cons hrest hnumbers hnext

theorem mem_of_mem_staying (h : p ∈ staying logger ledger) : p ∈ ledger := by
  cases ledger with
  | nil => cases h
  | cons q rest =>
    rw [staying] at h
    split at h
    · exact List.mem_cons_of_mem q h
    · exact h

/-- A handler of a ledger is one of a posting on the logger. -/
theorem mem_posted_iff {c : Handler} :
    c ∈ posted logger ledger ↔ ∃ p ∈ ledger, p.logger = logger ∧ c ∈ p.handlers := by
  induction ledger with
  | nil => simp [posted]
  | cons p rest ih =>
    rw [posted, List.mem_append, ih, List.exists_mem_cons_iff, or_comm]
    refine or_congr_left ?_
    split
    · next h => simp [h]
    · next h => simp [h]

/-- On another logger than that of a setup everything stays. -/
theorem posted_staying_of_ne (h : logger ≠ other) :
    posted other (staying logger ledger) = posted other ledger := by
  cases ledger with
  | nil => rfl
  | cons p rest =>
    rw [staying]
    split
    · next heq => rw [posted, if_neg (heq.trans_ne h), List.append_nil]
    · rfl

/-- On the logger of a setup just the handlers of the latest posting go. -/
theorem filter_posted (h : Dated first (p :: rest) next) {ids : List Nat}
    (hids : ∀ c, c ∈ ids ↔ ∃ h ∈ p.handlers, h.id = c) :
    (posted logger (p :: rest)).filter (!ids.contains ·.id) = posted logger (staying logger (p :: rest)) := by
  have hold : (posted logger rest).filter (!ids.contains ·.id) = posted logger rest := by
    refine List.filter_eq_self.mpr fun b hb => ?_
    obtain ⟨q, hq, -, hb⟩ := mem_posted_iff.mp hb
    have hnot : b.id ∉ ids := by
      rw [hids]
      rintro ⟨c, hc, heq⟩
      exact (h.lt hq hb hc).ne heq.symm
    simpa using hnot
  have hnew : p.handlers.filter (!ids.contains ·.id) = [] := by
    refine List.filter_eq_nil_iff.mpr fun c hc => ?_
    have hmem : c.id ∈ ids := (hids c.id).mpr ⟨c, hc, rfl⟩
    simpa using hmem
  rw [staying, posted, List.filter_append, hold]
  split
  · rw [hnew, List.append_nil]
  · next hne => rw [List.filter_nil, posted, if_neg hne]

/-- On each logger are as many handlers for the console as there are postings. -/
theorem countP_isConsole_posted (hproper : ∀ p ∈ ledger, p.IsProper) (logger : String) :
    (posted logger ledger).countP (·.isConsole) = (ledger.map (·.logger)).count logger := by
  induction ledger with
  | nil => rfl
  | cons p rest ih =>
    obtain ⟨hp, hrest⟩ := List.forall_mem_cons.mp hproper
    have hone : p.handlers.countP (·.isConsole) = 1 := by
      rw [Posting.handlers, List.countP_cons_of_pos hp.console]
      cases hfile : p.file? with
      | none => rfl
      | some h => simp [hp.file h hfile]
    rw [posted, List.countP_append, ih hrest, List.map_cons, List.count_cons]
    split
    · next heq => rw [hone, if_pos (beq_iff_eq.mpr heq)]
    · next hne => rw [List.countP_nil, if_neg (by simpa using hne)]

/-- There are no more handlers for files. -/
theorem countP_not_isConsole_posted_le (hproper : ∀ p ∈ ledger, p.IsProper) (logger : String) :
    (posted logger ledger).countP (!·.isConsole) ≤ (ledger.map (·.logger)).count logger := by
  induction ledger with
  | nil => exact le_rfl
  | cons p rest ih =>
    obtain ⟨hp, hrest⟩ := List.forall_mem_cons.mp hproper
    have hone : p.handlers.countP (!·.isConsole) ≤ 1 := by
      rw [Posting.handlers, List.countP_cons_of_neg (by simp [hp.console])]
      cases p.file? with
      | none => exact Nat.zero_le 1
      | some h => exact List.countP_le_length
    rw [posted, List.countP_append, List.map_cons, List.count_cons]
    split
    · next heq =>
      rw [if_pos (beq_iff_eq.mpr heq)]
      exact Nat.add_le_add (ih hrest) hone
    · next hne =>
      rw [List.countP_nil, if_neg (by simpa using hne)]
      exact ih hrest

end Ledger

/-! ### What a run leaves

The ledger of a desk, and what an event makes of it. -/

namespace Desk

/-- What holds of a desk after a run from a fresh one: it has the handlers of others, the postings of a
ledger, and nothing else, the latest posting is remembered, and of the handlers that were ever posted those
that are not there any more are closed. -/
structure Holds (fresh d : Desk) (ledger : List Posting) : Prop where
  handlers : ∀ logger, d.system.handlersOf logger = fresh.system.handlersOf logger ++ posted logger ledger
  dated : Dated fresh.system.next ledger d.system.next
  proper : ∀ p ∈ ledger, p.IsProper
  console : d.console = ledger.head?.map (·.console.id)
  file : d.file = ledger.head?.bind fun p => p.file?.map (·.id)
  closed : ∀ c, c ∈ d.system.closed ↔ c ∈ fresh.system.closed ∨
    (fresh.system.next ≤ c ∧ c < d.system.next) ∧ ∀ p ∈ ledger, ∀ h ∈ p.handlers, h.id ≠ c

section Holds

variable {fresh d d' : Desk} {ledger rest : List Posting} {p : Posting} {logger : String}

theorem IsFresh.holds (h : d.IsFresh) : Holds d d [] where
  handlers := fun logger => (List.append_nil _).symm
  dated := .nil le_rfl
  proper := nofun
  console := h.console
  file := h.file
  closed := by
    intro c
    refine (or_iff_left ?_).symm
    rintro ⟨⟨hfirst, hlast⟩, -⟩
    exact absurd hfirst (Nat.not_le_of_lt hlast)

/-- The handlers of the latest posting are remembered. -/
theorem Holds.mem_tracked_iff (h : Holds fresh d (p :: rest)) (c : Nat) :
    c ∈ d.tracked ↔ ∃ a ∈ p.handlers, a.id = c := by
  have hconsole : d.console = some p.console.id := h.console
  have hfile : d.file = p.file?.map (·.id) := h.file
  rw [tracked, hconsole, hfile, Posting.handlers]
  cases p.file? with
  | none => simp [eq_comm]
  | some f => simp [eq_comm, or_comm]

/-- No handler that others had attached has the number of one that was posted. -/
theorem Holds.ne_of_mem (h : Holds fresh d ledger) (hfresh : fresh.IsFresh) {a b : Handler}
    (ha : a ∈ fresh.system.handlersOf logger) (hp : p ∈ ledger) (hb : b ∈ p.handlers) : b.id ≠ a.id :=
  ((hfresh.attached logger a ha).trans_le (h.dated.bounds hp hb).1).ne'

/-- Taking off what is remembered takes the latest posting off its logger, and leaves the rest. -/
theorem Holds.filter_handlersOf (h : Holds fresh d ledger) (hfresh : fresh.IsFresh) (logger : String) :
    (d.system.handlersOf logger).filter (!d.tracked.contains ·.id) =
      fresh.system.handlersOf logger ++ posted logger (staying logger ledger) := by
  cases ledger with
  | nil =>
    have hnone : d.tracked = [] := by rw [tracked, h.console, h.file]; rfl
    rw [hnone, h.handlers]
    exact List.filter_eq_self.mpr fun _ _ => rfl
  | cons p rest =>
    have hforeign : (fresh.system.handlersOf logger).filter (!d.tracked.contains ·.id) =
        fresh.system.handlersOf logger := by
      refine List.filter_eq_self.mpr fun a ha => ?_
      have hnot : a.id ∉ d.tracked := by
        rw [h.mem_tracked_iff]
        rintro ⟨b, hb, heq⟩
        exact h.ne_of_mem hfresh ha List.mem_cons_self hb heq
      simpa using hnot
    rw [h.handlers, List.filter_append, hforeign, filter_posted h.dated h.mem_tracked_iff]

/-- What a setup closes is the posting that it takes off. -/
theorem Holds.closes_iff (h : Holds fresh d ledger) (hfresh : fresh.IsFresh) (logger : String) (c : Nat) :
    (c ∈ d.tracked ∧ ∃ a ∈ d.system.handlersOf logger, a.id = c) ↔
      (∃ p ∈ ledger, ∃ a ∈ p.handlers, a.id = c) ∧
        ∀ p ∈ staying logger ledger, ∀ a ∈ p.handlers, a.id ≠ c := by
  cases ledger with
  | nil =>
    have hnone : d.tracked = [] := by rw [tracked, h.console, h.file]; rfl
    simp [hnone]
  | cons p rest =>
    rw [h.mem_tracked_iff, staying]
    split
    · next heq =>
      -- The latest posting is on the logger, and all of it is taken off.
      constructor
      · rintro ⟨⟨a, ha, rfl⟩, -⟩
        refine ⟨⟨p, List.mem_cons_self, a, ha, rfl⟩, fun q hq b hb => ?_⟩
        exact (h.dated.lt hq hb ha).ne
      · rintro ⟨⟨q, hq, a, ha, rfl⟩, hstaying⟩
        rcases List.mem_cons.mp hq with rfl | hq
        · refine ⟨⟨a, ha, rfl⟩, a, ?_, rfl⟩
          rw [h.handlers, List.mem_append, mem_posted_iff]
          exact .inr ⟨q, List.mem_cons_self, heq, ha⟩
        · exact absurd rfl (hstaying q hq a ha)
    · next hne =>
      -- The latest posting is on another logger, so none of its handlers are found and nothing is closed.
      refine iff_of_false ?_ ?_
      · rintro ⟨⟨a, ha, rfl⟩, b, hb, heq⟩
        rw [h.handlers, List.mem_append, mem_posted_iff] at hb
        rcases hb with hb | ⟨q, hq, hlogger, hb⟩
        · exact h.ne_of_mem hfresh hb List.mem_cons_self ha heq.symm
        · rcases List.mem_cons.mp hq with rfl | hq
          · exact hne hlogger
          · exact (h.dated.lt hq hb ha).ne heq
      · rintro ⟨⟨q, hq, a, ha, rfl⟩, hstaying⟩
        exact hstaying q hq a ha rfl

/-- A posting goes to the front of what stays. -/
theorem Holds.post (h : Holds fresh d ledger) (hfresh : fresh.IsFresh) (hp : Posted d d' p) :
    Holds fresh d' (p :: staying p.logger ledger) := by
  have hnext : d.system.next ≤ d'.system.next := hp.next ▸ Nat.le_add_right _ _
  constructor
  case handlers =>
    intro other
    rw [hp.handlers, posted]
    split
    · next heq => rw [heq, h.filter_handlersOf hfresh, List.append_assoc]
    · next hne => rw [h.handlers, posted_staying_of_ne hne, List.append_nil]
  case dated =>
    refine .cons (h.dated.staying p.logger) (fun a ha => ?_) hnext
    exact (hp.mem_numbers_iff a.id).mp ⟨a, ha, rfl⟩
  case proper =>
    refine List.forall_mem_cons.mpr ⟨hp.proper, fun q hq => ?_⟩
    exact h.proper q (mem_of_mem_staying hq)
  case console => exact hp.console
  case file => exact hp.file
  case closed =>
    intro c
    rw [hp.closed, h.closed, h.closes_iff hfresh, or_assoc, List.forall_mem_cons]
    refine or_congr_right ⟨?_, ?_⟩
    · rintro (⟨⟨hfirst, hlast⟩, hnone⟩ | ⟨⟨q, hq, a, ha, rfl⟩, hstaying⟩)
      · refine ⟨⟨hfirst, hlast.trans_le hnext⟩, fun a ha heq => ?_, fun q hq => ?_⟩
        · exact Nat.not_le_of_lt hlast ((hp.mem_numbers_iff c).mp ⟨a, ha, heq⟩).1
        · exact hnone q (mem_of_mem_staying hq)
      · obtain ⟨hfirst, hlast⟩ := h.dated.bounds hq ha
        refine ⟨⟨hfirst, hlast.trans_le hnext⟩, fun b hb heq => ?_, hstaying⟩
        exact Nat.not_le_of_lt hlast ((hp.mem_numbers_iff a.id).mp ⟨b, hb, heq⟩).1
    · rintro ⟨⟨hfirst, hlast⟩, hnew, hstaying⟩
      have hold : c < d.system.next := by
        refine Nat.lt_of_not_le fun hle => ?_
        obtain ⟨a, ha, heq⟩ := (hp.mem_numbers_iff c).mpr ⟨hle, hlast⟩
        exact hnew a ha heq
      by_cases hthere : ∃ q ∈ ledger, ∃ a ∈ q.handlers, a.id = c
      · exact .inr ⟨hthere, hstaying⟩
      · exact .inl ⟨⟨hfirst, hold⟩, fun q hq a ha heq => hthere ⟨q, hq, a, ha, heq⟩⟩

/-- An event makes a posting on the logger that it gets to, and changes no handlers if it gets to none. -/
theorem Holds.after (h : Holds fresh d ledger) (hfresh : fresh.IsFresh) (e : Event) :
    (d.turn? e = none ∧ Holds fresh (d.after e) ledger) ∨
      ∃ p, d.turn? e = some p.logger ∧ Holds fresh (d.after e) (p :: staying p.logger ledger) := by
  cases e with
  | setup w =>
    rw [Desk.after, turn?]
    rcases d.setup_cases w with ⟨e, process, hplan, hsetup⟩ | ⟨level, directory, retention, p, hplan, hp, -⟩
    · rw [hplan, hsetup]
      exact .inl ⟨rfl, h.handlers, h.dated, h.proper, h.console, h.file, h.closed⟩
    · rw [hplan]
      exact .inr ⟨p, rfl, h.post hfresh hp⟩
  | report r =>
    obtain ⟨registry, console, files, hlog⟩ := d.system.log_eq r
    rw [Desk.after, hlog]
    exact .inl ⟨rfl, h.handlers, h.dated, h.proper, h.console, h.file, h.closed⟩
  | environ process => exact .inl ⟨rfl, h.handlers, h.dated, h.proper, h.console, h.file, h.closed⟩
  | refile files => exact .inl ⟨rfl, h.handlers, h.dated, h.proper, h.console, h.file, h.closed⟩

end Holds

end Desk

/-! ### Turns

From the postings of a ledger to the loggers that were got to. -/

/-- The first of a row of equal elements is kept. -/
theorem destutter'_eq_cons (a : String) (l : List String) : ∃ t, l.destutter' (· ≠ ·) a = a :: t := by
  induction l with
  | nil => exact ⟨[], rfl⟩
  | cons b l ih =>
    by_cases hab : a ≠ b
    · exact ⟨_, List.destutter'_cons_pos l hab⟩
    · rw [List.destutter'_cons_neg l hab]
      exact ih

/-- The loggers of a ledger, with the next setup on one of them or on another one. -/
theorem loggers_staying {ledger : List Posting} {past : List String}
    (h : ledger.map (·.logger) = past.destutter (· ≠ ·)) (logger : String) :
    logger :: (staying logger ledger).map (·.logger) = (logger :: past).destutter (· ≠ ·) := by
  cases past with
  | nil =>
    have hnil : ledger = [] := List.map_eq_nil_iff.mp h
    rw [hnil]
    rfl
  | cons other past =>
    obtain ⟨t, ht⟩ := destutter'_eq_cons other past
    rw [List.destutter_cons', ht] at h
    obtain ⟨p, rest, rfl, rfl, hrest⟩ := List.map_eq_cons_iff.mp h
    rw [List.destutter_cons_cons, staying]
    by_cases hsame : p.logger = logger
    · rw [if_pos hsame, if_neg (not_not.mpr hsame.symm), ← hsame, ht, hrest]
    · rw [if_neg hsame, if_pos (Ne.symm hsame), ht, List.map_cons, hrest]

namespace Desk

variable {fresh d : Desk} {ledger : List Posting}

/-- A run leaves one posting for each time that its setups turned to another logger. -/
theorem Holds.run (h : Holds fresh d ledger) (hfresh : fresh.IsFresh) (events : List Event)
    (past : List String) (hpast : ledger.map (·.logger) = past.destutter (· ≠ ·)) :
    ∃ ledger', Holds fresh (d.run events) ledger' ∧
      ledger'.map (·.logger) = (d.visited past events).destutter (· ≠ ·) := by
  induction events generalizing d ledger past with
  | nil => exact ⟨ledger, h, hpast⟩
  | cons e rest ih =>
    rw [visited]
    rcases h.after hfresh e with ⟨hturn, h'⟩ | ⟨p, hturn, h'⟩
    · rw [hturn]
      exact ih h' past hpast
    · rw [hturn]
      exact ih h' (p.logger :: past) (loggers_staying hpast p.logger)

/-- Handlers stack where setups return. After any run from a fresh desk each logger has as many console
handlers from setups as setups turned to it from another logger, and no more file handlers. So no logger has
two of a kind just if no setup got back to a logger after another one; and that setups fail halfway makes no
difference. The handlers of setups that are on no logger any more, and no others of them, are closed. -/
theorem never_stacked_iff (fresh : Desk) (hfresh : fresh.IsFresh) (events : List Event) :
    let d := fresh.run events
    let turns := (fresh.visited [] events).destutter (· ≠ ·)
    (∀ logger, (d.installed fresh logger).countP (·.isConsole) = turns.count logger ∧
      (d.installed fresh logger).countP (!·.isConsole) ≤ turns.count logger) ∧
    ((∀ logger, (d.installed fresh logger).countP (·.isConsole) ≤ 1 ∧
      (d.installed fresh logger).countP (!·.isConsole) ≤ 1) ↔ turns.Nodup) ∧
    ∀ c, fresh.system.next ≤ c → c < d.system.next →
      (c ∈ d.system.closed ↔ ∀ logger, ∀ h ∈ d.system.handlersOf logger, h.id ≠ c) := by
  intro d turns
  obtain ⟨ledger, h, hturns⟩ := hfresh.holds.run hfresh events [] rfl
  -- Counting from the next number of the fresh desk leaves out the handlers of others, and none of a posting.
  have hinstalled : ∀ logger, d.installed fresh logger = posted logger ledger := by
    intro logger
    have hforeign : (fresh.system.handlersOf logger).filter (fresh.system.next ≤ ·.id) = [] := by
      refine List.filter_eq_nil_iff.mpr fun a ha => ?_
      simpa using hfresh.attached logger a ha
    have hposted : (posted logger ledger).filter (fresh.system.next ≤ ·.id) = posted logger ledger := by
      refine List.filter_eq_self.mpr fun a ha => ?_
      obtain ⟨p, hp, -, ha⟩ := mem_posted_iff.mp ha
      exact decide_eq_true (h.dated.bounds hp ha).1
    rw [installed, h.handlers, List.filter_append, hforeign, hposted, List.nil_append]
  have hcounts : ∀ logger, (d.installed fresh logger).countP (·.isConsole) = turns.count logger ∧
      (d.installed fresh logger).countP (!·.isConsole) ≤ turns.count logger := by
    intro logger
    rw [hinstalled, ← show ledger.map (·.logger) = turns from hturns]
    exact ⟨countP_isConsole_posted h.proper logger, countP_not_isConsole_posted_le h.proper logger⟩
  refine ⟨hcounts, ?_, ?_⟩
  · rw [List.nodup_iff_count_le_one]
    refine forall_congr' fun logger => ?_
    obtain ⟨hconsole, hfile⟩ := hcounts logger
    rw [hconsole]
    exact and_iff_left_of_imp hfile.trans
  · intro c hfirst hlast
    have hforeign : c ∉ fresh.system.closed := fun hc =>
      Nat.not_le_of_lt (hfresh.closed c hc) hfirst
    rw [h.closed, or_iff_right hforeign, and_iff_right ⟨hfirst, hlast⟩]
    constructor
    · intro hnone logger a ha
      rw [h.handlers, List.mem_append, mem_posted_iff] at ha
      rcases ha with ha | ⟨p, hp, -, ha⟩
      · exact ((hfresh.attached logger a ha).trans_le hfirst).ne
      · exact hnone p hp a ha
    · intro hnone p hp a ha
      refine hnone p.logger a ?_
      rw [h.handlers, List.mem_append, mem_posted_iff]
      exact .inr ⟨p, hp, rfl, ha⟩

theorem isFresh_initial : initial.IsFresh where
  file := rfl
  console := rfl
  attached := nofun
  closed := nofun

/-- A wish for handlers on a logger. -/
def Wish.on (logger : String) : Wish := { level := .text "INFO", logger := .text logger }

/-- Two setups on one logger, of which the second has a file, and then one on another logger. -/
theorem never_stacked_in_turn :
    let events : List Event := [.setup (.on "a"), .setup { Wish.on "a" with directory := .text "logs" },
      .setup (.on "b")]
    let d := initial.run events
    initial.IsFresh ∧ (initial.visited [] events).destutter (· ≠ ·) = ["b", "a"] ∧
      ∀ logger, (d.installed initial logger).countP (·.isConsole) ≤ 1 ∧
        (d.installed initial logger).countP (!·.isConsole) ≤ 1 := by
  intro events d
  have hturns : (initial.visited [] events).destutter (· ≠ ·) = ["b", "a"] := by decide +kernel
  refine ⟨isFresh_initial, hturns, ?_⟩
  refine (never_stacked_iff initial isFresh_initial events).2.1.mpr ?_
  rw [hturns]
  decide

/-- A setup that returns to a logger leaves two handlers for the console there. -/
theorem stacked_on_return :
    let d := initial.run [.setup (.on "a"), .setup (.on "b"), .setup (.on "a")]
    initial.IsFresh ∧ (d.installed initial "a").countP (·.isConsole) = 2 := by
  refine ⟨isFresh_initial, ?_⟩
  decide +kernel

end Desk

end NamingDirectory.Log
