import Stencil.Files.Route
import Stencil.Value.Entries

/-!
# Disks

A tree of directories and files, and the directory that work is done in.
-/

namespace Stencil.Files

/-- Why something cannot be done with a file. -/
inductive Trouble where
  | notFound
  | notDirectory
  | isDirectory
  | denied
  | noDevice
deriving DecidableEq, Repr

def Trouble.message : Trouble → Text
  | .notFound => "no such file or directory"
  | .notDirectory => "not a directory"
  | .isDirectory => "is a directory"
  | .denied => "permission denied"
  | .noDevice => "no such device or address"

/-- What was to be done with a file. -/
inductive Action where
  | open
  | read
  | examine
  | create
deriving DecidableEq, Repr

def Action.word : Action → Text
  | .open => "open"
  | .read => "read"
  | .examine => "stat"
  | .create => "mkdir"

/-- What stands in a directory. -/
inductive Entry where
  | file (content : Text)
  | directory (entries : List (Text × Entry))
  /-- A link or a pipe, or a file that may not be read. All that is known of it is what reading it comes
  to. No route leads through it. -/
  | special (reading : Except (Action × Trouble) Text)

structure FileError where
  action : Action
  route : Route
  trouble : Trouble
deriving DecidableEq, Repr

def FileError.message (e : FileError) : Text :=
  e.action.word ++ " " ++ e.route ++ ": " ++ e.trouble.message

namespace Entry

def isDirectory : Entry → Bool
  | .directory _ => true
  | _ => false

/-- What reading an entry comes to: its content, or what cannot be done and why. -/
def read : Entry → Except (Action × Trouble) Text
  | .file content => .ok content
  | .directory _ => .error (.read, .isDirectory)
  | .special reading => reading

/-- The entry that names lead to; `above` are the directories passed through, innermost first. An empty
name stays where it is, but only in a directory. -/
def find (above : List Entry) : Entry → List Text → Except Trouble Entry
  | e, [] => .ok e
  | .directory entries, name :: rest =>
    if name.isEmpty || name == Route.here then find above (.directory entries) rest
    else if name == Route.up then
      match above with
      | outer :: above => find above outer rest
      | [] => find [] (.directory entries) rest
    else
      match Entries.get? name entries with
      | some child => find (.directory entries :: above) child rest
      | none => .error .notFound
  | _, _ :: _ => .error .notDirectory

/-- The tree with directories along names that come after `passed`. What is no directory and in the way is
an error, with the names that lead to it. -/
def makeDirectories (passed : List Text) : Entry → List Text → Except (List Text) Entry
  | e, [] => if e.isDirectory then .ok e else .error passed
  | .directory entries, name :: rest =>
    let child := (Entries.get? name entries).getD (.directory [])
    (makeDirectories (passed ++ [name]) child rest).map fun child =>
      .directory (Entries.set name child entries)
  | _, _ :: _ => .error passed

/-- The tree with something else at the place that names lead to, given what is there. -/
def change (new : Option Entry → Except Trouble Entry) : Entry → List Text → Except Trouble Entry
  | e, [] => new (some e)
  | .directory entries, name :: rest =>
    match Entries.get? name entries with
    | some child =>
      (change new child rest).map fun child => .directory (Entries.set name child entries)
    | none =>
      if rest.isEmpty then (new none).map fun child => .directory (Entries.set name child entries)
      else .error .notFound
  | _, _ :: _ => .error .notDirectory

/-- What is there after a text was written to it. What cannot be read cannot be written to. -/
def written (content : Text) : Option Entry → Except Trouble Entry
  | none | some (.file _) => .ok (.file content)
  | some (.directory _) => .error .isDirectory
  | some (.special (.ok _)) => .ok (.special (.ok content))
  | some (.special (.error (_, t))) => .error t

mutual

/-- The texts that can be read in a tree with the names that lead to them, after `passed`. -/
def filesBelow (passed : List Text) : Entry → List (List Text × Text)
  | .file content | .special (.ok content) => [(passed, content)]
  | .special (.error _) => []
  | .directory entries => filesAmong passed entries

def filesAmong (passed : List Text) : List (Text × Entry) → List (List Text × Text)
  | [] => []
  | (name, e) :: rest => filesBelow (passed ++ [name]) e ++ filesAmong passed rest

end

end Entry

/-- A tree of directories and files, and the directory that work is done in, as a route from the top. -/
structure Disk where
  top : Entry
  workplace : Route

namespace Disk

/-- A disk with nothing on it but the directory that work is done in. -/
def empty (workplace : Route) : Disk where
  top :=
    match Entry.makeDirectories [] (.directory []) (Route.names workplace) with
    | .ok top => top
    | .error _ => .directory []
  workplace := workplace

/-- The shortest route from the top to the same place. -/
def absolute (d : Disk) (r : Route) : Route :=
  if Route.isAbsolute r then Route.clean r else Route.join [d.workplace, r]

def find (d : Disk) (r : Route) : Except Trouble Entry :=
  if r.isEmpty then .error .notFound
  else
    let steps := Text.splitOn 0x2F r
    d.top.find [] (if Route.isAbsolute r then steps else Route.names d.workplace ++ steps)

def read (d : Disk) (r : Route) : Except FileError Text :=
  match d.find r with
  | .error t => .error ⟨.open, r, t⟩
  | .ok e =>
    match e.read with
    | .ok content => .ok content
    | .error (action, t) => .error ⟨action, r, t⟩

/-- The disk with a directory, and those it is in. -/
def makeDirectories (d : Disk) (r : Route) : Except FileError Disk :=
  match d.top.makeDirectories [] (Route.names (d.absolute r)) with
  | .ok top => .ok { d with top := top }
  | .error names => .error ⟨.create, Route.ofNames true names, .notDirectory⟩

def change (d : Disk) (r : Route) (new : Option Entry → Except Trouble Entry) : Except FileError Disk :=
  match d.top.change new (Route.names (d.absolute r)) with
  | .ok top => .ok { d with top := top }
  | .error t => .error ⟨.open, r, t⟩

/-- The disk with a file. The directory it is in must be there. -/
def write (d : Disk) (r : Route) (content : Text) : Except FileError Disk := d.change r (Entry.written content)

def files (d : Disk) : List (Route × Text) :=
  (d.top.filesBelow []).map fun f => (Route.ofNames true f.1, f.2)

/-- The files of a disk that are not the same on another one. -/
def newFiles (before after : Disk) : List (Route × Text) :=
  let old := before.files
  after.files.filter fun f => Entries.get? f.1 old ≠ some f.2

end Disk

end Stencil.Files
