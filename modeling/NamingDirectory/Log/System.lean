import NamingDirectory.Log.FileTree
import NamingDirectory.Log.Registry

/-!
# The logging system

Loggers with their levels and handlers. A record that its logger lets through goes to the handlers of
that logger and of all above it, and each handler writes it if its own level lets it through. Where no
handler is found, warnings and graver records go to the console as they are.
-/

namespace NamingDirectory.Log

inductive Target where
  | console
  /-- A file that is begun anew at midnight; so many old ones are kept. -/
  | file (path : Path) (retention : Int)
deriving DecidableEq

/-- A handler. Handlers are told apart by their numbers. -/
structure Handler where
  id : Nat
  level : SetLevel
  target : Target
deriving DecidableEq

structure System where
  registry : Registry
  /-- The levels that were set; zero is none. -/
  levels : OrderedMap String SetLevel
  /-- The handlers of each logger, in the order in which they were attached. -/
  handlers : OrderedMap String (List Handler)
  next : Nat
  closed : List Nat
  console : String
  files : FileTree

namespace System

def initial : System := ⟨.initial, [(top, .number Level.warning)], [], 0, [], "", .empty⟩

def levelOf (s : System) (logger : String) : SetLevel := (s.levels.get? logger).getD (.number 0)

def handlersOf (s : System) (logger : String) : List Handler := (s.handlers.get? logger).getD []

/-- The level that counts for a logger: the nearest one that was set. -/
def effectiveLevel (s : System) (logger : String) : Level :=
  ((s.registry.chain logger).map fun l => (s.levelOf l).level).find? (· != 0) |>.getD 0

/-- Whether a logger lets a level through. No level below one ever passes. -/
def isEnabled (s : System) (logger : String) (level : Level) : Bool :=
  decide (0 < level) && decide (s.effectiveLevel logger ≤ level)

/-- The name of a level, widened to eight characters. -/
def column (level : Level) : String :=
  let name := Level.name level
  name ++ String.ofList (List.replicate (8 - name.length) ' ')

/-- The line of a record, without the time. -/
def line (r : Record) : String :=
  "[" ++ column r.level ++ "] " ++ r.logger ++ ": " ++ r.message ++ "\n"

/-- A handler writes a record, if its level lets it through. -/
def write (s : System) (r : Record) (h : Handler) : System :=
  if r.level < h.level.level then s
  else match h.target with
    | .console => { s with console := s.console ++ line r }
    | .file path _ => { s with files := s.files.append path (line r) }

/-- Makes sure that there is a logger of a name. -/
def register (s : System) (logger : String) : System :=
  { s with registry := s.registry.add logger }

/-- A record goes its way. -/
def log (s : System) (r : Record) : System :=
  let s := s.register r.logger
  if !s.isEnabled r.logger r.level then s
  else match (s.registry.chain r.logger).flatMap s.handlersOf with
    | [] =>
      if r.level < Level.warning then s else { s with console := s.console ++ r.message ++ "\n" }
    | handlers => handlers.foldl (fun s h => s.write r h) s

def setLevel (s : System) (logger : String) (level : SetLevel) : System :=
  { s.register logger with levels := s.levels.put logger level }

/-- Attaches a new handler to a logger, after those it has. Its number is the next one. -/
def attach (s : System) (logger : String) (level : SetLevel) (target : Target) : System :=
  { s.register logger with
    handlers := s.handlers.put logger (s.handlersOf logger ++ [⟨s.next, level, target⟩])
    next := s.next + 1 }

/-- Takes a handler off a logger and closes it, if the logger has it. -/
def detach (s : System) (logger : String) (id : Nat) : System :=
  if (s.handlersOf logger).any (·.id == id) then
    { s with handlers := s.handlers.put logger ((s.handlersOf logger).filter (·.id != id))
             closed := s.closed ++ [id] }
  else s

end System
end NamingDirectory.Log
