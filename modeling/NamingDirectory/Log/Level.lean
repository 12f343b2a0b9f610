import NamingDirectory.Fault
import NamingDirectory.Text.Blank
import NamingDirectory.Text.Case

/-!
# Log levels

A level is a number; six of them have names. A configured level is a number already or the name of a
level in any case, and a name that is not known means INFO.
-/

namespace NamingDirectory.Log

abbrev Level := Int

namespace Level

def trace : Level := 5
def debug : Level := 10
def info : Level := 20
def warning : Level := 30
def error : Level := 40
def critical : Level := 50

/-- The levels that words can name. -/
def named : List (String × Level) := [
  ("TRACE", trace), ("DEBUG", debug), ("INFO", info), ("WARNING", warning), ("ERROR", error),
  ("CRITICAL", critical)]

def name (level : Level) : String :=
  match named.find? (·.2 == level) with
  | some entry => entry.1
  | none => if level == 0 then "NOTSET" else "Level " ++ toString level

/-- The level that a word names, INFO for any other word. -/
def ofWord (word : String) : Level :=
  match named.find? fun entry => Text.spells word entry.1 with
  | some entry => entry.2
  | none => info

end Level

/-- A level as it was set: a number, or a truth value that counts as one or zero. -/
inductive SetLevel where
  | number (n : Int)
  | truth (b : Bool)
deriving DecidableEq

namespace SetLevel

/-- The severity that a set level stands for. -/
def level : SetLevel → Level
  | .number n => n
  | .truth b => if b then 1 else 0

def name : SetLevel → String
  | .number n => Level.name n
  | .truth b => if b then "Level True" else Level.name 0

/-- Reads a configured level. What counts as not given is INFO. -/
def ofValue (v : Value) : Except Fault SetLevel :=
  match v with
  | .int i => .ok (.number i)
  | .bool b => .ok (.truth b)
  | v =>
    v.readText (fun s => .ok (.number (Level.ofWord (Text.trimmed s))))
      fun _ => .ok (.number Level.info)

end SetLevel
end NamingDirectory.Log
