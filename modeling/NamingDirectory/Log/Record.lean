import NamingDirectory.Log.Level

/-!
# Log records

What the library reports while it works: a level, the logger it goes to, a text, and the fault that
was the occasion, if there was one.
-/

namespace NamingDirectory.Log

structure Record where
  level : Level
  logger : String
  message : String
  fault : Option Fault

/-- The logger above all others. -/
def top : String := "root"

/-- The logger that a text names; an empty one names the top. -/
def loggerNamed (text : String) : String := if text.isEmpty then top else text

end NamingDirectory.Log
