import NamingDirectory.Fault
import NamingDirectory.Url.Address

/-!
# The tree of log files

The directories and the text files below one directory. A path is followed part by part from the
directory above all others: `resolve` says where it leads, or what stands in the way. Making a directory
makes those around it (`makeDirectory`), working on the path as it is written, so that the directory that
a part leads out of has to be there too.
-/

namespace NamingDirectory.Log

/-- The parts of a path, without empty parts and dots. -/
abbrev Path := List String

/-- A path as it is written: its text, and its parts that are not empty. -/
structure WrittenPath where
  text : String
  parts : List String

/-- Directories and files. The directory above all others is always there. -/
structure FileTree where
  directories : List Path
  files : OrderedMap Path String

namespace FileTree

def empty : FileTree := ⟨[], []⟩

/-! ### Paths -/

/-- One step along a path. Two dots lead back up. -/
def step (path : Path) (part : String) : Path :=
  if part == "" || part == "." then path
  else if part == ".." then path.dropLast
  else path ++ [part]

/-- The parts of a text between slashes. -/
def parts (path : String) : List String := (Url.splitAt '/' path.toList).map String.ofList

/-- The path that a text means. -/
def normal (path : String) : Path := (parts path).foldl step []

def text (path : Path) : String := "/".intercalate path

/-- A path as it is written, and the paths around it: the text is cut behind each of its parts, and the
longest comes first, with the slashes at its end. -/
def written (path : String) : List WrittenPath :=
  let parts := parts path
  let upTo (n : Nat) : WrittenPath :=
    ⟨"/".intercalate (parts.take n), (parts.take n).filter (· != "")⟩
  let ends := (List.range parts.length).filter fun i => parts[i]?.any (· != "")
  match (ends.map fun i => upTo (i + 1)).reverse with
  | [] => []
  | w :: around => { w with text := path } :: around

/-! ### Where paths lead -/

inductive Obstacle where
  | taken
  | absent
  | notADirectory
  | isADirectory
  | tooLong
deriving DecidableEq

def Obstacle.fault (path : String) : Obstacle → Fault
  | .taken => .defect .fileExists ("[Errno 17] File exists: " ++ Text.quoted path)
  | .absent => .defect .noSuchFile ("[Errno 2] No such file or directory: " ++ Text.quoted path)
  | .notADirectory => .defect .notADirectory ("[Errno 20] Not a directory: " ++ Text.quoted path)
  | .isADirectory => .defect .isADirectory ("[Errno 21] Is a directory: " ++ Text.quoted path)
  | .tooLong => .defect .system ("[Errno 36] File name too long: " ++ Text.quoted path)

/-- The number of bytes that a part of a path may have. -/
def partLimit : Nat := 255

/-- The number of bytes that a path may have. -/
def pathLimit : Nat := 4095

def isDirectory (t : FileTree) (path : Path) : Bool := path.length ≤ 1 || t.directories.contains path

def has (t : FileTree) (path : Path) : Bool := t.isDirectory path || t.files.has path

/-- One step from a path, which has to be a directory, to something that is there. -/
def enter (t : FileTree) (path : Path) (part : String) : Except Obstacle Path :=
  if !t.isDirectory path then .error .notADirectory
  else if part == "." then .ok path
  else if part == ".." then .ok path.dropLast
  else if partLimit < part.utf8ByteSize then .error .tooLong
  else if t.has (path ++ [part]) then .ok (path ++ [part])
  else .error .absent

/-- Where the parts of a path lead. -/
def resolve (t : FileTree) (parts : List String) : Except Obstacle Path := parts.foldlM t.enter []

/-- Whether a text can be a path at all: no character of it is zero. -/
def isPath (text : String) : Bool := !text.toList.contains '\x00'

/-- The fault that a text cannot be a path. -/
def embeddedNull : Fault := .defect .badValue "embedded null byte"

/-- Where a written path leads. -/
def follow (t : FileTree) (w : WrittenPath) : Except Obstacle Path :=
  if pathLimit < w.text.utf8ByteSize then .error .tooLong else t.resolve w.parts

def leads (t : FileTree) (w : WrittenPath) : Bool := isPath w.text && (t.follow w).toBool

def leadsToDirectory (t : FileTree) (w : WrittenPath) : Bool :=
  match t.follow w with
  | .ok path => t.isDirectory path
  | .error _ => false

/-! ### Changes -/

/-- Adds a directory at a written path where nothing is. -/
def addDirectory (t : FileTree) (w : WrittenPath) : Except Obstacle FileTree := do
  if pathLimit < w.text.utf8ByteSize then throw .tooLong
  let around ← t.resolve w.parts.dropLast
  match t.enter around (w.parts.getLastD ".") with
  | .ok _ => throw .taken
  | .error .absent =>
    return { t with directories := t.directories ++ [around ++ [w.parts.getLastD "."]] }
  | .error obstacle => throw obstacle

/-- Makes one directory, unless it is there. -/
def makeOne (t : FileTree) (w : WrittenPath) : Option Fault × FileTree :=
  if !isPath w.text then (some embeddedNull, t)
  else match t.addDirectory w with
    | .ok t => (none, t)
    | .error obstacle =>
      (if t.leadsToDirectory w then none else some (obstacle.fault w.text), t)

def isFileExists : Fault → Bool
  | .defect .fileExists _ => true
  | _ => false

/-- Makes the first of some written paths, after those around it if they lead nowhere. A file that turns out
to stand in the place of one of these is left to the next; a dot at the end is made with what it follows. -/
def makeNested (t : FileTree) : List WrittenPath → Option Fault × FileTree
  | [] => (none, t)
  | [w] => t.makeOne w
  | w :: around :: outer =>
    if t.leads around then t.makeOne w
    else
      let (e?, t) := t.makeNested (around :: outer)
      match e?.filter (!isFileExists ·) with
      | some e => (some e, t)
      | none => if w.parts.getLast? == some "." then (none, t) else t.makeOne w

/-- Makes a directory and those around it. The tree is given back as far as it came. -/
def makeDirectory (t : FileTree) (path : String) : Option Fault × FileTree :=
  t.makeNested (written path)

/-- Opens a file for appending, and creates it if it is not there. -/
def openFile (t : FileTree) (path : Path) : Except Fault FileTree :=
  let w : WrittenPath := ⟨text path, path⟩
  let place : Except Obstacle Path := do
    let _ ← t.follow { w with parts := path.dropLast }
    if !t.isDirectory path.dropLast then throw .notADirectory
    if t.isDirectory path then throw .isADirectory
    return path
  match place with
  | .ok path => .ok { t with files := t.files.put path ((t.files.get? path).getD "") }
  | .error obstacle => .error (obstacle.fault w.text)

/-- Adds an empty file and the directories around it, unless they are there. -/
def addFile (t : FileTree) (path : Path) : Except Fault FileTree :=
  match t.makeDirectory (text path.dropLast) with
  | (some e, _) => .error e
  | (none, t) => t.openFile path

def append (t : FileTree) (path : Path) (s : String) : FileTree :=
  { t with files := t.files.put path ((t.files.get? path).getD "" ++ s) }

end FileTree
end NamingDirectory.Log
