import OpenApi.FilePath
import OpenApi.Fault
import OpenApi.Keyed

/-!
# Disks

Folders and files as far as a run needs them: what stands at a place, and how making a folder and
writing a file change that.  A place is the list of names that leads to it from the root of all
folders.  What a run wants of a place the system may refuse, for want of a permission or because a
device fails.  Steps may fail, and what earlier steps of an operation did then stays done.
-/

namespace OpenApi

/-- The names that lead from the root to a file or folder. -/
abbrev Place := List String

/-- What stands at a place. -/
inductive Content where
  | file (bytes : List UInt8)
  | folder
deriving DecidableEq, Inhabited, Repr

/-- What a run may want of a place. -/
inductive Access where
  /-- To follow a name in a folder. -/
  | follow
  /-- To put a new file or folder into a folder. -/
  | add
  /-- To open a file in order to read it. -/
  | openRead
  /-- To read a file that was opened. -/
  | read
  /-- To write over a file. -/
  | write
deriving DecidableEq, Inhabited, Repr

/-- Why the system refuses something: a number and a reason.  The numbers of what a disk finds to be in
the way by itself are none of these. -/
structure Refusal where
  number : Nat
  reason : String
  other : number ∉ [2, 17, 20, 21, 36] := by decide
deriving DecidableEq, Repr

/-- Files and folders with their places, the place of the current folder, and what the system refuses. -/
structure Disk where
  entries : List (Place × Content)
  here : Place := []
  refusals : List ((Place × Access) × Refusal) := []
deriving Inhabited, Repr

/-- What is in the way of an operation on a path. -/
inductive Obstacle where
  /-- Nothing is there. -/
  | absent
  /-- Something is there already. -/
  | taken
  /-- A name that has to be a folder is a file. -/
  | notFolder
  /-- A folder is where a file has to be. -/
  | isFolder
  /-- A name or the whole path is too long. -/
  | tooLong
  /-- The path holds the character zero, which ends a path. -/
  | zero
  /-- The system refuses. -/
  | refused (refusal : Refusal)
deriving DecidableEq, Inhabited, Repr

/-- An obstacle and the path at which it arose. -/
structure DiskError where
  obstacle : Obstacle
  path : FilePath
deriving DecidableEq, Inhabited, Repr

/-- The wording of an obstacle, with its number. -/
def Obstacle.message : Obstacle → String
  | absent => "[Errno 2] No such file or directory"
  | taken => "[Errno 17] File exists"
  | notFolder => "[Errno 20] Not a directory"
  | isFolder => "[Errno 21] Is a directory"
  | tooLong => "[Errno 36] File name too long"
  | zero => "embedded null byte"
  | refused refusal => s!"[Errno {refusal.number}] {refusal.reason}"

/-- Whether what is in the way of a look-up counts as nothing being there.  Of the refusals these are
the ones whose numbers say that a file is bad, or that links lead in a circle. -/
def Obstacle.isAbsence : Obstacle → Bool
  | absent | notFolder | zero => true
  | taken | isFolder | tooLong => false
  | refused refusal => refusal.number ∈ [9, 40]

/-- The wording of an error, with the path. -/
def DiskError.message (error : DiskError) : String :=
  let shown := Text.shown error.path.text
  s!"{error.obstacle.message}: {shown}"

namespace Disk

/-- The most bytes that a name may have. -/
def maxNameBytes : Nat := 255

/-- The most bytes that a path may have. -/
def maxPathBytes : Nat := 4095

/-- What stands at a place.  The folders that lead to the current one are always there. -/
def content? (disk : Disk) (place : Place) : Option Content :=
  if place.isPrefixOf disk.here then some .folder else disk.entries.lookup place

/-- Refuse what the system refuses. -/
def permit (disk : Disk) (place : Place) (access : Access) : Except Obstacle Unit :=
  match disk.refusals.lookup (place, access) with
  | some refusal => .error (.refused refusal)
  | none => .ok ()

/-- The place to which names lead from a place.  All names but the last have to be folders; two points
lead back to the folder before. -/
def follow (disk : Disk) : Place → List String → Except Obstacle Place
  | place, [] => .ok place
  | place, name :: rest =>
    match disk.content? place with
    | none => .error .absent
    | some (.file _) => .error .notFolder
    | some .folder =>
      match disk.permit place .follow with
      | .error refused => .error refused
      | .ok () =>
        if name = ".." then follow disk place.dropLast rest
        else if maxNameBytes < name.utf8ByteSize then .error .tooLong
        else follow disk (place ++ [name]) rest

def locate (disk : Disk) (path : FilePath) : Except Obstacle Place :=
  if path.text.contains '\x00' then .error .zero
  else if maxPathBytes < path.text.utf8ByteSize then .error .tooLong
  else disk.follow (if path.start = .here then disk.here else []) path.names

/-- What stands at a path. -/
def find (disk : Disk) (path : FilePath) : Except Obstacle Content := do
  match disk.content? (← disk.locate path) with
  | some content => return content
  | none => .error .absent

/-- Whether anything is at a path, if that can be told. -/
def holds (disk : Disk) (path : FilePath) : Except Fault Bool :=
  match disk.find path with
  | .ok _ => .ok true
  | .error obstacle =>
    if obstacle.isAbsence then .ok false
    else .error (.lookUpFailed (DiskError.message ⟨obstacle, path⟩))

/-- The bytes of the file at a path, or the wording of what is in the way of reading it.  Once the file
is open, the system refuses without naming the path. -/
def readFile (disk : Disk) (path : FilePath) : Except String (List UInt8) := do
  let named (obstacle : Obstacle) : String := DiskError.message ⟨obstacle, path⟩
  let place ← (disk.locate path).mapError named
  (disk.permit place .openRead).mapError named
  (disk.permit place .read).mapError Obstacle.message
  match disk.content? place with
  | some (.file bytes) => return bytes
  | some .folder => .error (named .isFolder)
  | none => .error (named .absent)

/-- The disk with other content at a place. -/
def set (disk : Disk) (place : Place) (content : Content) : Disk :=
  { disk with entries := Keyed.put (· == ·) place content disk.entries }

/-- Make a folder where nothing is. -/
def makeFolder (disk : Disk) (path : FilePath) : Except Obstacle Disk := do
  let place ← disk.locate path
  match disk.content? place with
  | some _ => .error .taken
  | none => do
    disk.permit place.dropLast .add
    return disk.set place .folder

/-- Write a file, over an older one if there is one. -/
def writeFile (disk : Disk) (path : FilePath) (bytes : List UInt8) : Except Obstacle Disk := do
  let place ← disk.locate path
  match disk.content? place with
  | some .folder => .error .isFolder
  | some (.file _) => do
    disk.permit place .write
    return disk.set place (.file bytes)
  | none => do
    disk.permit place.dropLast .add
    return disk.set place (.file bytes)

/-- A disk and what was in the way of the last step, if anything was. -/
abbrev Attempt := Disk × Option DiskError

/-- The error of a folder that could not be made; it is none if the folder is there. -/
def unlessFolder (disk : Disk) (path : FilePath) (obstacle : Obstacle) : Option DiskError :=
  match disk.find path with
  | .ok .folder => none
  | .ok (.file _) => some ⟨obstacle, path⟩
  | .error other => some ⟨if other.isAbsence then obstacle else other, path⟩

/-- Make a folder once the folder that holds it is there. -/
def makeLastFolder (disk : Disk) (path : FilePath) : Attempt :=
  match disk.makeFolder path with
  | .ok after => (after, none)
  | .error obstacle => (disk, disk.unlessFolder path obstacle)

/-- Make a folder and the folders that lead to it, as far as they are not there yet. -/
def ensureFolder (disk : Disk) (path : FilePath) : Attempt :=
  match disk.makeFolder path with
  | .ok after => (after, none)
  | .error .absent =>
    if path.names = [] then (disk, some ⟨.absent, path⟩)
    else
      match ensureFolder disk path.parent with
      | (after, none) => after.makeLastFolder path
      | failed => failed
  | .error obstacle => (disk, disk.unlessFolder path obstacle)
termination_by path.names.length
decreasing_by
  have : 0 < path.names.length := List.length_pos_iff.mpr ‹_›
  simp only [FilePath.parent, List.length_dropLast]
  omega

/-- Write a text into a file, making the folders that lead to it. -/
def save (disk : Disk) (path : FilePath) (bytes : List UInt8) : Attempt :=
  match disk.ensureFolder path.parent with
  | (after, none) =>
    match after.writeFile path bytes with
    | .ok written => (written, none)
    | .error obstacle => (after, some ⟨obstacle, path⟩)
  | failed => failed

/-- The bytes of the files, with their places. -/
def files (disk : Disk) : List (Place × List UInt8) :=
  disk.entries.filterMap fun entry =>
    match entry.2 with
    | .file bytes => some (entry.1, bytes)
    | .folder => none

end Disk

end OpenApi
