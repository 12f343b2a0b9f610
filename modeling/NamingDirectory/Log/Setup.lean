import NamingDirectory.Environment
import NamingDirectory.Log.System

/-!
# Setting up the log

Gives a logger a handler for the console and, where a directory is named, one for a file in it. The
handlers that the last call attached are remembered, and a new call on the same logger replaces them.
-/

namespace NamingDirectory.Log

/-- The logging system, the environment that fills in what a call leaves open, and the handlers that the
last calls attached. -/
structure Desk where
  system : System
  process : Process
  file : Option Nat
  console : Option Nat

namespace Desk

def initial : Desk := ⟨.initial, .empty, none, none⟩

/-- What a call asks for. -/
structure Wish where
  level : Value := .null
  directory : Value := .null
  retention : Value := .int 30
  logger : Value := .text "dirbind"

/-- Sets one part of a wish by its keyword. -/
def Wish.set (w : Wish) (keyword : String) (v : Value) : Except Fault Wish :=
  match keyword with
  | "level" => .ok { w with level := v }
  | "log_dir" => .ok { w with directory := v }
  | "retention_days" => .ok { w with retention := v }
  | "logger_name" => .ok { w with logger := v }
  | _ =>
    .error (.defect .wrongKind
      ("setup_logging() got an unexpected keyword argument '" ++ keyword ++ "'"))

def Wish.ofArguments (arguments : List (String × Value)) : Except Fault Wish :=
  arguments.foldlM (fun w a => w.set a.1 a.2) {}

/-- The integer of a numeral, which a fault shows in its quoted form. -/
def daysOf (quoted numeral : String) : Except Fault Int :=
  (Numeral.integer numeral).mapError fun p => .defect .badValue (p.message quoted)

/-- Reads a number of days as an integer. -/
def days (v : Value) : Except Fault Int :=
  if v.isVoid then .ok 30
  else match v with
    | .bool b => .ok (if b then 1 else 0)
    | .int i => .ok i
    | .float x =>
      if x.isNaN then .error (.defect .badValue "cannot convert float NaN to integer")
      else if x.isInfinite then
        .error (.defect .overflow "cannot convert float infinity to integer")
      else .ok x.truncate
    | .text s => daysOf (Text.quoted s) s
    | .bytes bs => daysOf (Text.quotedBytes (bs.take 200)) (Value.markedText bs)
    | v =>
      .error (.defect .wrongKind ("int() argument must be a string, a bytes-like object or a real " ++
        "number, not '" ++ v.kind ++ "'"))

/-- The number of days for which files are kept: one at least, and a year at most. -/
def retention (v : Value) : Except Fault Int := (days v).map fun n => max 1 (min 365 n)

def loggerName (v : Value) : Except Fault String :=
  match v with
  | .text s => .ok (loggerNamed s)
  | v =>
    if v.isVoid then .ok top
    else .error (.defect .wrongKind "A logger name must be a string")

/-- Level and directory of a wish, filled in from the environment where they are left open. -/
def fill (d : Desk) (w : Wish) : Except Fault (Value × Value) × Desk :=
  match w.level, w.directory with
  | .null, _ | _, .null =>
    let (env, process) := d.process.environment
    let d := { d with process }
    match env with
    | .error e => (.error e, d)
    | .ok env =>
      let level := match w.level with | .null => .text env.logLevel | v => v
      let directory := match w.directory with
        | .null => (Value.text env.logDirectory).orElse .null
        | v => v
      (.ok (level, directory), d)
  | level, directory => (.ok (level, directory), d)

/-- Takes the handlers of the last calls off a logger. -/
def clear (d : Desk) (logger : String) : Desk :=
  let system := [d.file, d.console].foldl (fun s id? =>
    match id? with
    | some id => System.detach s logger id
    | none => s) d.system
  { d with system, file := none }

/-- The name of the log file. -/
def fileName : String := "dirbind.log"

/-- The logger whose records of the protocol are kept down. -/
def protocolLogger : String := "ldap3"

def addConsole (d : Desk) (logger : String) (level : SetLevel) : Desk :=
  { d with console := some d.system.next, system := d.system.attach logger level .console }

/-- Attaches the file handler, if a directory is named. -/
def addFile (d : Desk) (logger : String) (level : SetLevel) (directory : Value) (retention : Int) :
    Option Fault × Desk :=
  if directory.isVoid then (none, d)
  else match directory with
    | .text path =>
      match d.system.files.makeDirectory path with
      | (some e, files) => (some e, { d with system := { d.system with files } })
      | (none, files) =>
        let target := FileTree.normal (path ++ "/" ++ fileName)
        match files.openFile target with
        | .error e => (some e, { d with system := { d.system with files } })
        | .ok files =>
          let system := { d.system with files }
          (none, { d with file := some system.next
                          system := system.attach logger level (.file target retention) })
    | .bytes bs =>
      (some (if bs.contains 0 then FileTree.embeddedNull
        else .defect .wrongKind "Can't mix strings and bytes in path components"), d)
    | v =>
      (some (.defect .wrongKind ("expected str, bytes or os.PathLike object, not " ++ v.kind)), d)

/-- The level of the protocol's own logger: warnings at least. -/
def protocolLevel (level : SetLevel) : SetLevel :=
  if level.level < Level.warning then .number Level.warning else level

/-- The record of a finished setup. -/
def report (logger : String) (level : SetLevel) (directory : Value) (retention : Int) : Record :=
  ⟨.debug, logger, "Logging configured: level=" ++ level.name ++ ", dir=" ++
    (directory.orElse (.text "-")).plain ++ ", retention=" ++ toString retention ++ " days", none⟩

/-- Sets the levels and reports. -/
def finish (d : Desk) (logger : String) (level : SetLevel) (directory : Value) (retention : Int) :
    Desk :=
  let system := (d.system.setLevel logger level).setLevel protocolLogger (protocolLevel level)
  { d with system := system.log (report logger level directory retention) }

/-- What a filled-in wish comes to. -/
def settle (w : Wish) (level directory : Value) :
    Except Fault (SetLevel × Value × Int × String) := do
  let level ← SetLevel.ofValue level
  let retention ← retention w.retention
  let logger ← loggerName w.logger
  return (level, directory, retention, logger)

/-- Sets up the log, and gives the name of the logger. What was done before a fault stays done. -/
def setup (d : Desk) (w : Wish) : Except Fault String × Desk :=
  match d.fill w with
  | (.error e, d) => (.error e, d)
  | (.ok (level, directory), d) =>
    match settle w level directory with
    | .error e => (.error e, d)
    | .ok (level, directory, retention, logger) =>
      let d := (d.clear logger).addConsole logger level
      match d.addFile logger level directory retention with
      | (some e, d) => (.error e, d)
      | (none, d) => (.ok logger, d.finish logger level directory retention)

end Desk
end NamingDirectory.Log
