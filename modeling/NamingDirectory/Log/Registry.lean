import NamingDirectory.Log.Record
import NamingDirectory.OrderedMap

/-!
# The tree of loggers

Loggers form a tree by the dots in their names. What is left of a name when it is cut at a dot names a
logger above, and the nearest of those that there are is the one right above. A new logger comes between
those below it and those above it.
-/

namespace NamingDirectory.Log

/-- The texts that are left when a text is cut at its dots, from the last dot to the first. All of them are
written backwards. Something has to be left, and the character in front of a dot is no place to cut. -/
def cuts : List Char → List (List Char)
  | '.' :: c :: rest => (c :: rest) :: cuts rest
  | _ :: rest => cuts rest
  | [] => []

/-- The names of loggers above a logger, from the nearest up. -/
def namesAbove (logger : String) : List String :=
  (cuts logger.toList.reverse).map fun cs => String.ofList cs.reverse

/-- The loggers that there are, each with the one right above it. -/
abbrev Registry := OrderedMap String String

namespace Registry

/-- The logger right above another one: the nearest that there is, or the top. -/
def above (r : Registry) (logger : String) : String :=
  match r.get? logger with
  | some parent => parent
  | none => ((namesAbove logger).find? r.has).getD top

/-- Puts a new logger right above another one, if it belongs there: the new name is one above the other,
and what is right above the other does not start with it. -/
def insertAbove (logger : String) (entry : String × String) : String × String :=
  if (namesAbove entry.1).contains logger && !logger.toList.isPrefixOf entry.2.toList then
    (entry.1, logger)
  else entry

/-- Adds a logger, if there is none of its name. -/
def add (r : Registry) (logger : String) : Registry :=
  if logger == top || r.has logger then r
  else r.map (insertAbove logger) ++ [(logger, r.above logger)]

/-- A logger and those above it, at most as many as the first argument says, and the top. -/
def climb (r : Registry) : Nat → String → List String
  | 0, _ => [top]
  | n + 1, logger => if logger == top then [top] else logger :: climb r n (r.above logger)

/-- A logger and those above it. Each has a shorter name than the one below it. -/
def chain (r : Registry) (logger : String) : List String := r.climb logger.length logger

/-- Whether a logger is `ancestor` or lies below it. -/
def isBelow (r : Registry) (ancestor logger : String) : Bool := (r.chain logger).contains ancestor

/-- The loggers of this library, and the one above them. -/
def initial : Registry :=
  ["dirbind", "dirbind.naming", "dirbind.ldap.client"].foldl add []

end Registry
end NamingDirectory.Log
