import NamingDirectory.Proofs.Fault
import NamingDirectory.Proofs.Log.Stacking

/-!
# Setting up again

Setups on one logger. Each takes off what the last one left there, so there is never more than one posting
(`staying_eq_nil`), wherever the setups before have failed. What a setup that succeeds makes of the logger is
then a matter of its wish, of the environment and of the handlers of others (`Holds.setup_ok`), and
`setup_forgets` compares it with the same setup at a desk where none was made before.

The comparison uses the same lemma twice, for the desk with a past and for the fresh one, each with a ledger
of which nothing stays. What the two make of the logger is then given by the same plan, which depends on the
environment and the wish alone (`plan_congr`), and the setup succeeds at both or at none, since the files are
the same (`setup_congr`).

The logger of the protocol is another case: its own level is set last, whatever the wish says.
-/

namespace NamingDirectory.Log

/-! ### Wishes

What counts of a wish, said without the steps in which it is filled in. -/

namespace Desk

/-- The level and the directory that count for a wish: its own ones, and those of the environment where it has
none. -/
structure IsEffective (process : Process) (w : Wish) (level directory : Value) : Prop where
  level : w.level ≠ .null ∧ level = w.level ∨
    w.level = .null ∧ ∃ env, process.environment.1 = .ok env ∧ level = .text env.logLevel
  directory : w.directory ≠ .null ∧ directory = w.directory ∨
    w.directory = .null ∧
      ∃ env, process.environment.1 = .ok env ∧ directory = (Value.text env.logDirectory).orElse .null

variable {d d₁ fresh : Desk} {w : Wish} {logger : String}

/-- A wish is filled in with the environment where it says nothing. -/
theorem isEffective_of_fill {level directory : Value} (h : (d.fill w).1 = .ok (level, directory)) :
    IsEffective d.process w level directory := by
  unfold fill at h
  split at h
  · next hlevel =>
    dsimp only at h
    split at h
    · cases h
    · next env henv =>
      cases h
      constructor
      · exact .inr ⟨hlevel, env, henv, by rw [hlevel]⟩
      · split
        · next hdirectory => exact .inr ⟨hdirectory, env, henv, rfl⟩
        · next hdirectory => exact .inl ⟨hdirectory, rfl⟩
  · next hdirectory _ =>
    dsimp only at h
    split at h
    · cases h
    · next env henv =>
      cases h
      constructor
      · split
        · next hlevel => exact .inr ⟨hlevel, env, henv, rfl⟩
        · next hlevel => exact .inl ⟨hlevel, rfl⟩
      · exact .inr ⟨hdirectory, env, henv, by rw [hdirectory]⟩
  · next hlevel hdirectory =>
    cases h
    exact ⟨.inl ⟨hlevel, rfl⟩, .inl ⟨hdirectory, rfl⟩⟩

/-- What a plan is made of. -/
theorem plan_ok {level : SetLevel} {directory : Value} {kept : Int}
    (h : d.plan w = .ok (level, directory, kept, logger)) :
    ∃ v days, IsEffective d.process w v directory ∧ SetLevel.ofValue v = .ok level ∧
      Desk.days w.retention = .ok days ∧ kept = max 1 (min 365 days) ∧ loggerName w.logger = .ok logger := by
  obtain ⟨⟨v, directory'⟩, hfill, hsettle⟩ := bind_eq_ok_iff.mp h
  obtain ⟨level', hlevel, hrest⟩ := bind_eq_ok_iff.mp hsettle
  obtain ⟨kept', hkept, hrest⟩ := bind_eq_ok_iff.mp hrest
  obtain ⟨logger', hlogger, hrest⟩ := bind_eq_ok_iff.mp hrest
  cases hrest
  rw [retention] at hkept
  cases hdays : Desk.days w.retention with
  | error e =>
    rw [hdays] at hkept
    cases hkept
  | ok days =>
    rw [hdays] at hkept
    cases hkept
    exact ⟨v, days, isEffective_of_fill hfill, hlevel, rfl, rfl, hlogger⟩

/-! ### Setups on one logger

The run is over events of any kind, and only the setups that get anywhere matter to the ledger. -/

/-- Only setups on one logger get anywhere in a run whose setups are all on that logger. -/
theorem eq_of_mem_visited {events : List Event} {past : List String}
    (hevents : ∀ w name, Event.setup w ∈ events → loggerName w.logger = .ok name → name = logger)
    (hpast : ∀ name ∈ past, name = logger) : ∀ name ∈ d.visited past events, name = logger := by
  induction events generalizing d past with
  | nil => exact hpast
  | cons e rest ih =>
    rw [visited]
    refine ih (fun w name hw => hevents w name (List.mem_cons_of_mem e hw)) fun name hname => ?_
    rcases List.mem_append.mp hname with hname | hname
    · cases e with
      | setup w =>
        rw [Option.mem_toList, turn?, Option.map_eq_some_iff] at hname
        obtain ⟨⟨level, directory, kept, name'⟩, hplan, rfl⟩ := hname
        cases hw : d.plan w with
        | error e =>
          rw [hw] at hplan
          cases hplan
        | ok plan =>
          rw [hw] at hplan
          cases hplan
          obtain ⟨-, -, -, -, -, -, hlogger⟩ := plan_ok hw
          exact hevents w name' List.mem_cons_self hlogger
      | _ => cases hname
    · exact hpast name hname

/-- Postings on one logger do not add up: no two in a row are on the same. -/
theorem staying_eq_nil {ledger : List Posting} (hchain : (ledger.map (·.logger)).IsChain (· ≠ ·))
    (hsame : ∀ name ∈ ledger.map (·.logger), name = logger) : staying logger ledger = [] := by
  cases ledger with
  | nil => rfl
  | cons p rest =>
    rw [staying, if_pos (hsame p.logger List.mem_cons_self)]
    cases rest with
    | nil => rfl
    | cons q rest =>
      have hne : p.logger ≠ q.logger := (List.isChain_cons_cons.mp hchain).1
      refine absurd ?_ hne
      rw [hsame p.logger List.mem_cons_self, hsame q.logger (List.mem_cons_of_mem _ List.mem_cons_self)]

/-- What is seen of a logger: what its handlers do, its level and that of the protocol. -/
def standing (d : Desk) (logger : String) : List (SetLevel × Target) × SetLevel × SetLevel :=
  ((d.system.handlersOf logger).map Handler.duty, d.system.levelOf logger,
    d.system.levelOf protocolLogger)

/-- A setup that succeeds where no posting stays adds its own to the handlers of others. What it leaves on its
logger is told by levels and targets, without the numbers of handlers, as these depend on the past. -/
theorem Holds.setup_ok {ledger : List Posting} {name : String} (h : Holds fresh d ledger)
    (hfresh : fresh.IsFresh) (hstaying : staying logger ledger = []) (hlogger : logger ≠ protocolLogger)
    (hw : loggerName w.logger = .ok logger) (hok : d.setup w = (.ok name, d₁)) :
    ∃ level directory kept ours, d.plan w = .ok (level, directory, kept, logger) ∧ name = logger ∧
      (logFile? directory).isSome = !directory.isVoid ∧
      d₁.system.handlersOf logger = fresh.system.handlersOf logger ++ ours ∧
      ours.map Handler.duty = (level, .console) ::
        ((logFile? directory).map fun target => (level, .file target kept)).toList ∧
      d₁.system.levelOf logger = level ∧ d₁.system.levelOf protocolLogger = protocolLevel level := by
  rcases d.setup_cases w with ⟨e, process, -, hsetup⟩ | ⟨level, directory, kept, p, hplan, hp, hend⟩
  · rw [hsetup] at hok
    cases hok
  · obtain ⟨-, -, -, -, -, -, hname⟩ := plan_ok hplan
    have hsame : p.logger = logger := Except.ok.inj (hname.symm.trans hw)
    rw [hok] at hp hend
    rcases hend with ⟨e, he⟩ | ⟨hresult, hfinished⟩
    · cases he
    · have hafter := (h.post hfresh hp).handlers logger
      rw [hsame, hstaying, posted, if_pos hsame] at hafter
      refine ⟨level, directory, kept, p.handlers, hsame ▸ hplan, ?_, hfinished.file, hafter, hfinished.duties,
        ?_, hfinished.protocol⟩
      · exact (Except.ok.inj hresult).trans hsame
      · rw [← hsame]
        exact hfinished.own (hsame ▸ hlogger)

/-- The level of the protocol is raised to that of a warning, and not lowered. -/
theorem level_protocolLevel (level : SetLevel) :
    (protocolLevel level).level = max level.level Level.warning := by
  rw [protocolLevel]
  split
  · next h => exact (Int.max_eq_right (Int.le_of_lt h)).symm
  · next h => exact (Int.max_eq_left (Int.not_lt.mp h)).symm

/-- Setting up a logger again forgets the past. Take any run whose setups are all on one logger, other than
that of the protocol, and a setup there that then succeeds. The level and the directory that count are those of
its wish or of the environment. The logger has the handlers of others and behind them one for the console, and
one for the file if a directory is named; its level is the one that counts, and that of the protocol is no lower
than a warning. The same setup with the same environment and files succeeds at any fresh desk with these
handlers of others, and makes the same of the logger. -/
theorem setup_forgets (d₀ : Desk) (h₀ : d₀.IsFresh) (logger : String) (hlogger : logger ≠ protocolLogger)
    (events : List Event)
    (hevents : ∀ w name, Event.setup w ∈ events → loggerName w.logger = .ok name → name = logger)
    (w : Wish) (hw : loggerName w.logger = .ok logger) (d₁ : Desk) (name : String)
    (hsetup : (d₀.run events).setup w = (.ok name, d₁)) :
    let d := d₀.run events
    (∃ v directory level days, IsEffective d.process w v directory ∧ SetLevel.ofValue v = .ok level ∧
      Desk.days w.retention = .ok days ∧ name = logger ∧
      (logFile? directory).isSome = !directory.isVoid ∧
      (∃ ours, d₁.system.handlersOf logger = d₀.system.handlersOf logger ++ ours ∧
        ours.map Handler.duty = (level, .console) :: ((logFile? directory).map fun target =>
          (level, .file target (max 1 (min 365 days)))).toList) ∧
      d₁.system.levelOf logger = level ∧
      (d₁.system.levelOf protocolLogger).level = max level.level Level.warning) ∧
    ∀ fresh : Desk, fresh.IsFresh → fresh.process = d.process → fresh.system.files = d.system.files →
      fresh.system.handlersOf logger = d₀.system.handlersOf logger →
      ∃ f₁, fresh.setup w = (.ok logger, f₁) ∧ f₁.standing logger = d₁.standing logger := by
  intro d
  obtain ⟨ledger, h, hturns⟩ := h₀.holds.run h₀ events [] rfl
  have hstaying : staying logger ledger = [] := by
    refine staying_eq_nil (hturns ▸ List.isChain_destutter _ _) fun name hname => ?_
    rw [hturns] at hname
    have hvisited := (List.destutter_sublist _ _).subset hname
    exact eq_of_mem_visited hevents (fun _ hnil => absurd hnil List.not_mem_nil) name hvisited
  obtain ⟨level, directory, kept, ours, hplan, rfl, hfile, hours, hduties, hown, hprotocol⟩ :=
    h.setup_ok h₀ hstaying hlogger hw hsetup
  constructor
  · obtain ⟨v, days, heffective, hlevel, hdays, rfl, -⟩ := plan_ok hplan
    refine ⟨v, directory, level, days, heffective, hlevel, hdays, rfl, hfile, ⟨ours, hours, hduties⟩, hown,
      ?_⟩
    rw [hprotocol, level_protocolLevel]
  · intro fresh hfresh hprocess hfiles hforeign
    obtain ⟨f₁, hf₁⟩ : ∃ f₁, fresh.setup w = (.ok name, f₁) := by
      have hresult : (fresh.setup w).1 = .ok name := by
        rw [setup_congr hprocess hfiles w, hsetup]
      exact ⟨(fresh.setup w).2, Prod.ext hresult rfl⟩
    obtain ⟨level', directory', kept', ours', hplan', -, -, hours', hduties', hown', hprotocol'⟩ :=
      hfresh.holds.setup_ok hfresh rfl hlogger hw hf₁
    -- Both setups have one plan, since they have one environment.
    rw [plan_congr hprocess, hplan] at hplan'
    cases hplan'
    refine ⟨f₁, hf₁, ?_⟩
    rw [standing, standing, hours', hours, List.map_append, List.map_append, hforeign, hduties', hduties,
      hown', hown, hprotocol', hprotocol]

/-- A desk where others have put a handler for the console on a logger. -/
def shared (logger : String) : Desk :=
  { initial with system := System.initial.attach logger (.number Level.debug) .console }

/-- Handlers of others do not make a desk any less fresh. -/
theorem isFresh_shared (logger : String) : (shared logger).IsFresh where
  file := rfl
  console := rfl
  attached := by
    intro other h hh
    rw [shared, System.handlersOf_attach] at hh
    split at hh
    · cases List.mem_singleton.mp hh
      exact Nat.zero_lt_one
    · cases hh
  closed := nofun

/-- After a setup with a file, one that is refused and one that fails halfway, a setup gives the logger what
it would give it alone. -/
theorem setup_forgets_failures :
    let w : Wish := { Wish.on "a" with level := .text "error" }
    let events : List Event := [.setup { Wish.on "a" with directory := .text "logs" },
      .setup { Wish.on "a" with retention := .text "x" }, .setup { Wish.on "a" with directory := .int 5 }]
    let d := (shared "a").run events
    ∃ d₁, d.setup w = (.ok "a", d₁) ∧
      ∃ f₁, Desk.setup { shared "a" with
          process := d.process
          system := { (shared "a").system with files := d.system.files } } w = (.ok "a", f₁) ∧
        f₁.standing "a" = d₁.standing "a" := by
  intro w events d
  have hok : (d.setup w).1.toOption = some "a" := by decide +kernel
  obtain ⟨d₁, hsetup⟩ : ∃ d₁, d.setup w = (.ok "a", d₁) := by
    refine ⟨(d.setup w).2, Prod.ext ?_ rfl⟩
    cases hresult : (d.setup w).1 with
    | error e => rw [hresult] at hok; cases hok
    | ok name => rw [hresult] at hok; cases hok; rfl
  have hevents : ∀ w name, Event.setup w ∈ events → loggerName w.logger = .ok name → name = "a" := by
    intro w name hw hname
    have hlogger : w.logger = .text "a" := by
      simp only [events, List.mem_cons, Event.setup.injEq, List.not_mem_nil, or_false] at hw
      rcases hw with rfl | rfl | rfl <;> rfl
    rw [hlogger] at hname
    exact (Except.ok.inj hname).symm
  have hshared := isFresh_shared "a"
  obtain ⟨-, hfresh⟩ :=
    setup_forgets (shared "a") hshared "a" (by decide) events hevents w rfl d₁ "a" hsetup
  exact ⟨d₁, hsetup, hfresh _ ⟨rfl, rfl, hshared.attached, hshared.closed⟩ rfl rfl rfl⟩

end Desk

end NamingDirectory.Log
