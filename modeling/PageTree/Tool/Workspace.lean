import PageTree.Tool.Run

/-!
# Workspaces

A workspace is a disk and the directory that the tool works in. Everything on the disk has a place,
told by the names that lead to it from the root, and the working directory has one as well. A path
leads to a place from the root, if it begins with a slash, and otherwise from the working directory;
on its way it may come through the directories around and through links. So one place has many
paths, and the output of a command may be what the command has read under another path.

Commands run in a workspace one after the other; each changes at most the one file that it writes.

## Main definitions

* `Workspace`, `Workspace.isDirectory`
* `Workspace.locate?`: the place that a path leads to
* `Workspace.read`, `Workspace.write?`
* `Workspace.run`: a command line in a workspace
-/

namespace PageTree

/-- The bytes of a text. -/
def bytesOfText (text : String) : Array UInt8 := text.toUTF8.data

/-- The text that bytes encode, if they encode one. -/
def textOfBytes? (bytes : Array UInt8) : Option String := String.fromUTF8? ⟨bytes⟩

/-- What can be read from and written to. -/
inductive Entry where
  /-- A file, which holds what was written last. -/
  | file (content : Array UInt8)
  /-- A device, which reads the same at all times and keeps nothing of what is written. -/
  | device (content : Array UInt8)
  deriving DecidableEq, Repr

/-- What is read from it. -/
def Entry.content : Entry → Array UInt8
  | .file content | .device content => content

/-- A disk, and the directory that the tool works in. -/
structure Workspace where
  /-- The place of the working directory. -/
  home : List String
  /-- The files and devices, by their places. -/
  entries : List (List String × Entry) := []
  /-- Directories that are there even if nothing is in them. -/
  folders : List (List String) := []
  /-- The places of symbolic links, and the paths that they stand for. -/
  links : List (List String × String) := []
  /-- The places that are closed to reading: an entry there is not read, and no path leads through a
  directory there. -/
  unreadable : List (List String) := []
  /-- The places that are closed to writing: an entry there takes nothing, and a directory there
  takes no new file. -/
  unwritable : List (List String) := []
  deriving DecidableEq, Repr

namespace Workspace

variable (w : Workspace)

/-! ## Paths -/

/-- There is a directory at this place: a folder or the working directory is at or below it, or an
entry or a link is below it. -/
def isDirectory (place : List String) : Bool :=
  (w.home :: w.folders).any (place.isPrefixOf ·) ||
    (w.entries.map Prod.fst ++ w.links.map Prod.fst).any fun held =>
      place.isPrefixOf held && held != place

/-- A path may go on from here. -/
def isPassable (place : List String) : Bool :=
  w.isDirectory place && !w.unreadable.contains place

/-- A text that can be the name of a file. -/
def isFileName (name : String) : Bool :=
  name.utf8ByteSize < 256 && !name.toList.contains '\x00'

/-- The parts of a path. -/
def parts (path : String) : List String :=
  (Text.split '/' path.toList).map String.ofList

/-- Where a path begins that is met at a place: at the root or there. -/
def start (place : List String) (path : String) : List String :=
  if path.toList.head? = some '/' then [] else place

/-- The place that the parts of a path lead to. A part that is empty or a dot leads to the directory
itself, two dots lead to the one around it, and the root is around itself. Where a link is met, the
path that it stands for takes its place, and `jump` tells where that leads. -/
def walk? (jump : List String → List String → Option (List String)) (place : List String) :
    List String → Option (List String)
  | [] => some place
  | part :: rest =>
    if !w.isPassable place then none
    else if part = "" ∨ part = "." then walk? jump place rest
    else if part = ".." then walk? jump place.dropLast rest
    else if !isFileName part then none
    else
      match w.links.lookup (place ++ [part]) with
      | some path => jump (start place path) (parts path ++ rest)
      | none => walk? jump (place ++ [part]) rest

/-- The place that the parts of a path lead to, with so many links on the way at most. -/
def follow? : Nat → List String → List String → Option (List String)
  | 0 => w.walk? fun _ _ => none
  | links + 1 => w.walk? (follow? links)

/-- The most bytes that a path can have. -/
def pathLimit : Nat := 4095

/-- The most links that a path can come through. -/
def linkLimit : Nat := 40

/-- The place that a path leads to. A path that is too long leads nowhere. -/
def locate? (path : String) : Option (List String) :=
  if pathLimit < path.utf8ByteSize then none
  else w.follow? linkLimit (start w.home path) (parts path)

/-- The path from the root to what a path leads to from the working directory. -/
def fullPath (path : String) : String :=
  "/" ++ "/".intercalate (w.home ++ [path])

/-! ## Reading and writing -/

/-- The text under a path. -/
def read (path : String) : Option String :=
  (w.locate? path).bind fun place =>
    if w.unreadable.contains place then none
    else (w.entries.lookup place).bind fun entry => textOfBytes? entry.content

/-- There is a file of this name in the working directory, which is looked for from the root. -/
def isFile (name : String) : Bool :=
  match (w.locate? (w.fullPath name)).bind fun place => w.entries.lookup place with
  | some (.file _) => true
  | _ => false

/-- The files as the tool sees them. -/
def files : Files := ⟨w.read, w.isFile⟩

/-- Something can be written at this place: to the entry that is there, or to a new file. -/
def isWritable (place : List String) : Bool :=
  !w.isDirectory place && !w.unwritable.contains
    (if (w.entries.lookup place).isSome then place else place.dropLast)

/-- The entries with one of them set, in its old place or at the end. -/
def put (place : List String) (entry : Entry) :
    List (List String × Entry) → List (List String × Entry)
  | [] => [(place, entry)]
  | (p, e) :: rest => if p = place then (p, entry) :: rest else (p, e) :: put place entry rest

/-- The workspace with a text written, if that can be done. -/
def write? (writing : Writing) : Option Workspace :=
  (w.locate? writing.path).bind fun place =>
    if !w.isWritable place then none
    else
      match w.entries.lookup place with
      | some (.device _) => some w
      | _ => some { w with entries := put place (.file (bytesOfText writing.text)) w.entries }

/-! ## Command lines -/

/-- What came of a command line. -/
inductive Verdict where
  /-- The arguments make no command. -/
  | usage
  /-- The command did its work. -/
  | done (printed : String)
  /-- The command failed. -/
  | failed (printed : String) (fault : ToolFault)
  deriving DecidableEq, Repr

/-- Has the file of a product written. -/
def finish (product : Product) : Verdict × Workspace :=
  match product.outcome with
  | .error fault => (.failed product.printed fault, w)
  | .ok none => (.done product.printed, w)
  | .ok (some writing) =>
    match w.write? writing with
    | some written => (.done product.printed, written)
    | none => (.failed product.printed (.unwritten writing.path), w)

/-- Runs a command line. -/
def run (arguments : List String) : Verdict × Workspace :=
  match Invocation.ofArguments? arguments with
  | none => (.usage, w)
  | some invocation => w.finish (invocation.run w.files)

/-! ## Listings -/

/-- The working directory with these files in it, by their paths, on a disk that has nothing else
but the device that is always empty and the one that is always full. -/
def ofFiles (files : List (String × String)) : Workspace :=
  let home := ["tmp", "pages"]
  let full := ["dev", "full"]
  { home
    entries := [(["dev", "null"], .device #[]), (full, .device #[])] ++
      files.map fun (path, text) => (home ++ parts path, .file (bytesOfText text))
    unreadable := [full]
    unwritable := [full] }

/-- The texts of the files below the working directory by their paths, in the order of the paths. -/
def toFiles : List (String × String) :=
  (w.entries.filterMap fun (place, entry) =>
    match w.home.isPrefixOf? place, entry with
    | some inner, .file content =>
      some ("/".intercalate inner, (textOfBytes? content).getD "")
    | _, _ => none).mergeSort fun a b => a.1 ≤ b.1

end Workspace

end PageTree
