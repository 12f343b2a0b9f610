import NamingDirectory.Log.Setup

/-!
# What a setup does to the handlers

A setup either comes to nothing before it touches any logger, or it takes the handlers of the last setup off
its logger and posts its own there: one for the console and, if a file is named and can be opened, one for the
file. `Desk.setup_cases` says so once and for all; `Posted` is what is then different. Whether the setup
succeeds is a matter of the environment and the files alone (`Desk.setup_congr`).

A setup goes through stages, and each of them has a lemma that says what it changes:

    settle       which handlers there are to be, or a fault
    clear        the handlers of the last setup off this logger
    addConsole   a new handler for the console
    addFile      a new handler for the file, none, or a fault
    finish       the levels, and the report

A failure of the fourth leaves the second and the third as they are, which is why `setup_cases` has three
outcomes and not two.

Handlers are told apart by their numbers, which are given away in order. So what a posting consists of is said
by the numbers that were given away for it (`Posted.mem_numbers_iff`), and that is all that has to be known
when setups follow one another.
-/

namespace NamingDirectory.Log

/-! ### Handlers in the logging system

What attaching and taking off does to the handlers on any logger, to the handlers that were closed, and to the
levels. Taking off is by number, and a number that is not on the logger does nothing there. This is how the
handlers of a setup on another logger come to stay. -/

namespace System

variable (s : System) (logger other : String)

/-- Reports go to the console and to files, and make loggers known. -/
theorem log_eq (r : Record) :
    ∃ registry console files, s.log r = { s with registry, console, files } := by
  have hwrite : ∀ (s : System) (h : Handler), ∃ console files, s.write r h = { s with console, files } := by
    intro s h
    rw [write]
    split
    · exact ⟨_, _, rfl⟩
    · split
      · exact ⟨_, _, rfl⟩
      · exact ⟨_, _, rfl⟩
  have hwrites : ∀ (handlers : List Handler) (s : System),
      ∃ console files, handlers.foldl (fun s h => s.write r h) s = { s with console, files } := by
    intro handlers
    induction handlers with
    | nil => exact fun s => ⟨_, _, rfl⟩
    | cons h handlers ih =>
      intro s
      obtain ⟨console, files, hs⟩ := hwrite s h
      rw [List.foldl_cons, hs]
      exact ih _
  rw [log]
  split
  · exact ⟨_, _, _, rfl⟩
  · split
    · split
      · exact ⟨_, _, _, rfl⟩
      · exact ⟨_, _, _, rfl⟩
    · obtain ⟨console, files, hs⟩ := hwrites _ (s.register r.logger)
      exact ⟨_, console, files, hs⟩

/-- A handler is attached behind the others of its logger. -/
theorem handlersOf_attach (level : SetLevel) (target : Target) :
    (s.attach logger level target).handlersOf other =
      if logger = other then s.handlersOf other ++ [⟨s.next, level, target⟩] else s.handlersOf other := by
  simp only [attach, handlersOf, OrderedMap.get?_put, beq_iff_eq]
  split
  · next h => rw [h, Option.getD_some]
  · rfl

/-- A handler is taken off its logger, and stays on others if it is there. -/
theorem handlersOf_detach (id : Nat) :
    (s.detach logger id).handlersOf other =
      if logger = other then (s.handlersOf other).filter (·.id != id) else s.handlersOf other := by
  rw [detach]
  split
  · simp only [handlersOf, OrderedMap.get?_put, beq_iff_eq]
    split
    · next h => rw [h, Option.getD_some]
    · rfl
  · next hnone =>
    -- Without the handler there is nothing to take off.
    split
    · next h =>
      subst h
      refine (List.filter_eq_self.mpr fun h hh => ?_).symm
      rw [List.any_eq_true] at hnone
      exact bne_iff_ne.mpr fun hid => hnone ⟨h, hh, beq_iff_eq.mpr hid⟩
    · rfl

theorem mem_closed_detach {id c : Nat} :
    c ∈ (s.detach logger id).closed ↔
      c ∈ s.closed ∨ c = id ∧ ∃ h ∈ s.handlersOf logger, h.id = c := by
  have hany : (s.handlersOf logger).any (·.id == id) ↔ ∃ h ∈ s.handlersOf logger, h.id = id := by
    simp [List.any_eq_true]
  rw [detach]
  split
  · next h =>
    have hmem := hany.mp h
    rw [List.mem_append, List.mem_singleton]
    refine or_congr_right ⟨fun hc => ⟨hc, hc ▸ hmem⟩, fun hc => hc.1⟩
  · next h =>
    refine (or_iff_left ?_).symm
    rintro ⟨rfl, hmem⟩
    exact h (hany.mpr hmem)

/-- The system after some handlers are taken off a logger, one after the other. -/
def detachAll (ids : List Nat) : System := ids.foldl (fun s id => s.detach logger id) s

variable {s logger other}

/-- The handlers with any of the numbers are taken off. -/
theorem handlersOf_detachAll (ids : List Nat) :
    (s.detachAll logger ids).handlersOf other =
      if logger = other then (s.handlersOf other).filter (!ids.contains ·.id) else s.handlersOf other := by
  induction ids generalizing s with
  | nil =>
    split
    · exact (List.filter_eq_self.mpr fun _ _ => rfl).symm
    · rfl
  | cons id ids ih =>
    rw [detachAll, List.foldl_cons, ← detachAll, ih, handlersOf_detach]
    split
    · rw [List.filter_filter]
      refine List.filter_congr fun h _ => ?_
      rw [List.contains_cons, Bool.not_or, Bool.and_comm]
      rfl
    · rfl

/-- Of the handlers with the numbers those that were there are closed, by induction on the numbers. -/
theorem mem_closed_detachAll (ids : List Nat) {c : Nat} :
    c ∈ (s.detachAll logger ids).closed ↔
      c ∈ s.closed ∨ c ∈ ids ∧ ∃ h ∈ s.handlersOf logger, h.id = c := by
  induction ids generalizing s with
  | nil => simp [detachAll]
  | cons id ids ih =>
    rw [detachAll, List.foldl_cons, ← detachAll, ih, mem_closed_detach, handlersOf_detach, if_pos rfl,
      or_assoc, List.mem_cons, or_and_right]
    refine or_congr_right ?_
    by_cases hc : c = id
    · -- It is closed at once, and not there any more.
      subst hc
      constructor
      · rintro (hfirst | ⟨-, h, hh, hid⟩)
        · exact .inl hfirst
        · exact .inl ⟨rfl, h, (List.mem_filter.mp hh).1, hid⟩
      · rintro (hfirst | ⟨-, hmem⟩)
        · exact .inl hfirst
        · exact .inl ⟨rfl, hmem⟩
    · have hkept : ∀ h : Handler, h.id = c → (h.id != id) = true := fun h hid =>
        bne_iff_ne.mpr (hid ▸ hc)
      simp only [hc, false_and, false_or, List.mem_filter]
      refine and_congr_right fun _ => exists_congr fun h => ?_
      exact ⟨fun hh => ⟨hh.1.1, hh.2⟩, fun hh => ⟨⟨hh.1, hkept h hh.2⟩, hh.2⟩⟩

/-- Nothing else is changed. -/
theorem detachAll_eq (s : System) (logger : String) (ids : List Nat) :
    ∃ handlers closed, s.detachAll logger ids = { s with handlers, closed } := by
  induction ids generalizing s with
  | nil => exact ⟨_, _, rfl⟩
  | cons id ids ih =>
    rw [detachAll, List.foldl_cons, ← detachAll]
    obtain ⟨handlers, closed, hs⟩ := ih (s.detach logger id)
    rw [hs, detach]
    split
    · exact ⟨_, _, rfl⟩
    · exact ⟨_, _, rfl⟩

theorem levelOf_setLevel (s : System) (logger other : String) (level : SetLevel) :
    (s.setLevel logger level).levelOf other = if logger = other then level else s.levelOf other := by
  simp only [setLevel, levelOf, OrderedMap.get?_put, beq_iff_eq]
  split
  · rfl
  · rfl

end System

/-! ### Postings

What one setup leaves, and what it takes away. The handlers of others are among those of a logger, so what is
taken away is told by numbers. -/

/-- What a setup leaves on a logger: a handler for the console, and perhaps one for a file. -/
structure Posting where
  logger : String
  console : Handler
  file? : Option Handler

def Posting.handlers (p : Posting) : List Handler := p.console :: p.file?.toList

/-- What a handler does: the level from which it writes, and where. -/
def Handler.duty (h : Handler) : SetLevel × Target := (h.level, h.target)

def Handler.isConsole (h : Handler) : Bool := h.target == .console

structure Posting.IsProper (p : Posting) : Prop where
  console : p.console.isConsole = true
  file : ∀ h ∈ p.file?, h.isConsole = false

namespace Desk

/-- The handlers that are remembered. -/
def tracked (d : Desk) : List Nat := d.file.toList ++ d.console.toList

/-- The difference that a posting makes: its logger has it in the place of the handlers that were remembered,
these are closed, and the posting is remembered. -/
structure Posted (d d' : Desk) (p : Posting) : Prop where
  handlers : ∀ other, d'.system.handlersOf other =
    if p.logger = other then (d.system.handlersOf other).filter (!d.tracked.contains ·.id) ++ p.handlers
    else d.system.handlersOf other
  closed : ∀ c, c ∈ d'.system.closed ↔
    c ∈ d.system.closed ∨ c ∈ d.tracked ∧ ∃ h ∈ d.system.handlersOf p.logger, h.id = c
  numbers : p.handlers.map (·.id) = List.range' d.system.next p.handlers.length
  next : d'.system.next = d.system.next + p.handlers.length
  console : d'.console = some p.console.id
  file : d'.file = p.file?.map (·.id)
  proper : p.IsProper

section Setup

variable (d : Desk) (logger : String) (level : SetLevel)

/-- Clearing takes off what is remembered, and forgets the file, but not the console. -/
theorem clear_eq : d.clear logger =
    { d with system := d.system.detachAll logger d.tracked, file := none } := by
  rw [clear, tracked]
  cases d.file <;> cases d.console <;> rfl

theorem posted_console (process : Process) (files : FileTree) :
    let d' := (({ d with process } : Desk).clear logger).addConsole logger level
    Posted d { d' with system := { d'.system with files } }
      ⟨logger, ⟨d.system.next, level, .console⟩, none⟩ := by
  obtain ⟨handlers, closed, hsystem⟩ := d.system.detachAll_eq logger d.tracked
  have hnext : (d.system.detachAll logger d.tracked).next = d.system.next := by rw [hsystem]
  constructor
  case handlers =>
    intro other
    rw [clear_eq]
    show ((d.system.detachAll logger d.tracked).attach logger level .console).handlersOf other = _
    rw [System.handlersOf_attach, System.handlersOf_detachAll, hnext]
    dsimp only
    split
    · rfl
    · rfl
  case closed =>
    intro c
    rw [clear_eq]
    exact System.mem_closed_detachAll d.tracked
  case numbers => rfl
  case next =>
    rw [clear_eq]
    show (d.system.detachAll logger d.tracked).next + 1 = _
    rw [hnext]
    rfl
  case console =>
    rw [clear_eq]
    exact congrArg some hnext
  case file =>
    rw [clear_eq]
    rfl
  case proper => exact ⟨rfl, nofun⟩

variable {d} {logger} {level} {d' : Desk}

/-- A handler for a file comes after the one for the console. -/
theorem Posted.attach {c : Handler} (h : Posted d d' ⟨logger, c, none⟩) (path : Path) (retention : Int) :
    Posted d
      { d' with file := some d'.system.next
                system := d'.system.attach logger level (.file path retention) }
      ⟨logger, c, some ⟨d'.system.next, level, .file path retention⟩⟩ := by
  have hnext : d'.system.next = d.system.next + 1 := h.next
  have hfirst : c.id = d.system.next := List.singleton_inj.mp h.numbers
  constructor
  case handlers =>
    intro other
    rw [System.handlersOf_attach, h.handlers]
    dsimp only
    split
    · rw [List.append_assoc]
      rfl
    · rfl
  case closed => exact h.closed
  case numbers =>
    show [c.id, d'.system.next] = [d.system.next, d.system.next + 1]
    rw [hfirst, hnext]
  case next => exact congrArg (· + 1) hnext
  case console => exact h.console
  case file => rfl
  case proper =>
    refine ⟨h.proper.console, ?_⟩
    rintro f ⟨⟩
    rfl

/-- What is left to do changes no handlers. -/
theorem Posted.finish {p : Posting} (h : Posted d d' p) (directory : Value) (retention : Int) :
    Posted d (d'.finish logger level directory retention) p := by
  obtain ⟨registry, console, files, hlog⟩ :=
    ((d'.system.setLevel logger level).setLevel protocolLogger (protocolLevel level)).log_eq
      (report logger level directory retention)
  rw [Desk.finish, hlog]
  exact ⟨h.handlers, h.closed, h.numbers, h.next, h.console, h.file, h.proper⟩

/-- The numbers of a posting are those that were given away for it. -/
theorem Posted.mem_numbers_iff {p : Posting} (h : Posted d d' p) (c : Nat) :
    (∃ a ∈ p.handlers, a.id = c) ↔ d.system.next ≤ c ∧ c < d'.system.next := by
  rw [← List.mem_map, h.numbers, List.mem_range'_1, h.next]

/-- The levels are set at the end, that of the protocol last. So on the logger of the protocol itself its
level is the one that stays. -/
theorem levelOf_finish (d : Desk) (logger : String) (level : SetLevel) (directory : Value)
    (retention : Int) (other : String) :
    (d.finish logger level directory retention).system.levelOf other =
      if protocolLogger = other then protocolLevel level
      else if logger = other then level else d.system.levelOf other := by
  obtain ⟨registry, console, files, hlog⟩ :=
    ((d.system.setLevel logger level).setLevel protocolLogger (protocolLevel level)).log_eq
      (report logger level directory retention)
  rw [finish, hlog, ← System.levelOf_setLevel, ← System.levelOf_setLevel]
  rfl

end Setup

/-! ### The log file

Whether there is a file is decided by the directory, and whether it can be opened by the files. Handlers and
levels have no part in it, which is why two setups with one environment and the same files succeed together. -/

/-- The file for the records that are kept in a directory, if one is named. -/
def logFile? (directory : Value) : Option Path :=
  match directory with
  | .text path => if path.isEmpty then none else some (FileTree.normal (path ++ "/" ++ fileName))
  | _ => none

/-- A file fails to open, is not wished for, or gets a handler. -/
theorem addFile_cases (d : Desk) (logger : String) (level : SetLevel) (directory : Value)
    (retention : Int) :
    (∃ e files, d.addFile logger level directory retention =
      (some e, { d with system := { d.system with files } })) ∨
    (directory.isVoid ∧ logFile? directory = none ∧
      d.addFile logger level directory retention = (none, d)) ∨
    ∃ target files, ¬ directory.isVoid ∧ logFile? directory = some target ∧
      d.addFile logger level directory retention =
        (none, { d with
          file := some d.system.next
          system := { d.system with files }.attach logger level (.file target retention) }) := by
  unfold addFile
  split
  · next hvoid =>
    refine .inr (.inl ⟨hvoid, ?_, rfl⟩)
    cases directory with
    | text path => exact if_pos hvoid
    | _ => rfl
  · next hgiven =>
    split
    · next path =>
      split
      · exact .inl ⟨_, _, rfl⟩
      · dsimp only
        split
        · exact .inl ⟨_, _, rfl⟩
        · exact .inr (.inr ⟨_, _, hgiven, if_neg hgiven, rfl⟩)
    · exact .inl ⟨_, d.system.files, rfl⟩
    · exact .inl ⟨_, d.system.files, rfl⟩

/-- Whether a file can be added is a matter of the files alone. -/
theorem addFile_congr {d d' : Desk} (h : d.system.files = d'.system.files) (logger : String)
    (level : SetLevel) (directory : Value) (retention : Int) :
    (d.addFile logger level directory retention).1 = (d'.addFile logger level directory retention).1 := by
  unfold addFile
  rw [h]
  split
  · rfl
  · split
    · split
      · rfl
      · dsimp only
        split
        · rfl
        · rfl
    · rfl
    · rfl

/-! ### Setups

The stages of a setup, put together. What can go wrong before the first handler is touched is put into `plan`,
so that a setup with a plan posts something in any case. -/

/-- What a wish comes to at a desk: a level, a directory, a retention and a logger, or the fault that the wish
is refused with. -/
def plan (d : Desk) (w : Wish) : Except Fault (SetLevel × Value × Int × String) :=
  (d.fill w).1 >>= fun filled => settle w filled.1 filled.2

/-- A wish is filled in from the environment, and nothing but that is changed. -/
theorem fill_eq (d : Desk) (w : Wish) :
    ∃ filled process, ∀ d' : Desk, d'.process = d.process → d'.fill w = (filled, { d' with process }) := by
  refine ⟨(d.fill w).1, (d.fill w).2.process, ?_⟩
  rintro ⟨system, process, file, console⟩ rfl
  unfold fill
  split
  · dsimp only
    split
    · rfl
    · rfl
  · dsimp only
    split
    · rfl
    · rfl
  · rfl

/-- A plan is made of the wish and the environment. -/
theorem plan_congr {d d' : Desk} (hprocess : d'.process = d.process) (w : Wish) :
    d'.plan w = d.plan w := by
  obtain ⟨filled, process, hfill⟩ := d.fill_eq w
  rw [plan, plan, hfill d rfl, hfill d' hprocess]

/-- What a setup that succeeded has made of its wish. -/
structure Finished (d : Desk) (p : Posting) (level : SetLevel) (directory : Value) (retention : Int) :
    Prop where
  file : (logFile? directory).isSome = !directory.isVoid
  duties : p.handlers.map Handler.duty =
    (level, .console) :: ((logFile? directory).map fun target => (level, .file target retention)).toList
  own : p.logger ≠ protocolLogger → d.system.levelOf p.logger = level
  protocol : d.system.levelOf protocolLogger = protocolLevel level

/-- The last stage sets the levels, and what was posted before it stays. -/
theorem finished_finish (d : Desk) {p : Posting} {logger : String} {level : SetLevel} {directory : Value}
    {retention : Int} (hlogger : p.logger = logger) (hfile : (logFile? directory).isSome = !directory.isVoid)
    (hduties : p.handlers.map Handler.duty =
      (level, .console) :: ((logFile? directory).map fun target => (level, .file target retention)).toList) :
    Finished (d.finish logger level directory retention) p level directory retention where
  file := hfile
  duties := hduties
  own := fun hne => by rw [levelOf_finish, if_neg (Ne.symm hne), if_pos hlogger.symm]
  protocol := by rw [levelOf_finish, if_pos rfl]

/-- A setup is refused before it does anything to the handlers, or makes a posting; then it still fails where
the file is not to be had. -/
theorem setup_cases (d : Desk) (w : Wish) :
    (∃ e process, d.plan w = .error e ∧ d.setup w = (.error e, { d with process })) ∨
    ∃ level directory retention p, d.plan w = .ok (level, directory, retention, p.logger) ∧
      Posted d (d.setup w).2 p ∧
      ((∃ e, (d.setup w).1 = .error e) ∨
        (d.setup w).1 = .ok p.logger ∧ Finished (d.setup w).2 p level directory retention) := by
  obtain ⟨filled, process, hfill⟩ := d.fill_eq w
  have hfill := hfill d rfl
  rw [plan, setup, hfill]
  cases filled with
  | error e => exact .inl ⟨e, process, rfl, rfl⟩
  | ok filled =>
    obtain ⟨level, directory⟩ := filled
    show (∃ e _, settle w level directory = _ ∧ _) ∨ ∃ _ _ _ p, settle w level directory = _ ∧ _
    dsimp only
    cases hsettle : settle w level directory with
    | error e => exact .inl ⟨e, process, rfl, rfl⟩
    | ok settled =>
      obtain ⟨level, directory, retention, logger⟩ := settled
      refine .inr ⟨level, directory, retention, ?_⟩
      have hposted := d.posted_console logger level process
      dsimp only at hposted ⊢
      generalize (({ d with process } : Desk).clear logger).addConsole logger level = d₁ at hposted ⊢
      rcases d₁.addFile_cases logger level directory retention with
        ⟨e, files, hadd⟩ | ⟨hvoid, hnone, hadd⟩ | ⟨target, files, hgiven, hsome, hadd⟩
      · -- The file does not open. By then the handlers of the last setup are off and the console is attached.
        rw [hadd]
        exact ⟨_, rfl, hposted files, .inl ⟨e, rfl⟩⟩
      · rw [hadd]
        refine ⟨_, rfl, (hposted d₁.system.files).finish directory retention,
          .inr ⟨rfl, finished_finish _ rfl ?_ ?_⟩⟩
        · rw [hnone, hvoid]
          rfl
        · rw [hnone]
          rfl
      · rw [hadd]
        refine ⟨_, rfl, ((hposted files).attach target retention).finish directory retention,
          .inr ⟨rfl, finished_finish _ rfl ?_ ?_⟩⟩
        · rw [hsome, Bool.eq_false_iff.mpr hgiven]
          rfl
        · rw [hsome]
          rfl

/-- Whether a setup succeeds is a matter of the environment and the files alone. -/
theorem setup_congr {d d' : Desk} (hprocess : d'.process = d.process)
    (hfiles : d'.system.files = d.system.files) (w : Wish) : (d'.setup w).1 = (d.setup w).1 := by
  obtain ⟨filled, process, hfill⟩ := d.fill_eq w
  rw [setup, setup, hfill d rfl, hfill d' hprocess]
  cases filled with
  | error e => rfl
  | ok filled =>
    dsimp only
    cases settle w filled.1 filled.2 with
    | error e => rfl
    | ok settled =>
      obtain ⟨level, directory, retention, logger⟩ := settled
      dsimp only
      -- Whatever was taken off before, the files are the same.
      have hsame : ((({ d' with process } : Desk).clear logger).addConsole logger level).system.files =
          ((({ d with process } : Desk).clear logger).addConsole logger level).system.files := by
        obtain ⟨handlers, closed, hsystem⟩ := d.system.detachAll_eq logger d.tracked
        obtain ⟨handlers', closed', hsystem'⟩ := d'.system.detachAll_eq logger d'.tracked
        rw [clear_eq, clear_eq]
        show (d'.system.detachAll logger d'.tracked).files = (d.system.detachAll logger d.tracked).files
        rw [hsystem, hsystem']
        exact hfiles
      generalize (({ d' with process } : Desk).clear logger).addConsole logger level = d₁' at hsame ⊢
      generalize (({ d with process } : Desk).clear logger).addConsole logger level = d₁ at hsame ⊢
      have hadd := addFile_congr hsame logger level directory retention
      rcases h' : d₁'.addFile logger level directory retention with ⟨fault', left'⟩
      rcases h : d₁.addFile logger level directory retention with ⟨fault, left⟩
      rw [h', h] at hadd
      obtain rfl : fault' = fault := hadd
      cases fault' with
      | none => rfl
      | some e => rfl

end Desk

end NamingDirectory.Log
