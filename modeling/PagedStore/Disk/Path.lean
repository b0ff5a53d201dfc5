import PagedStore.Disk.Basic
import PagedStore.Text

/-!
Finding files by path. The directory holds files only, so a path leads to a directory or ends with
a name of which there may or may not be a file. Repeated slashes count as one, a single dot is a step
that stays in place, and a path without steps leads to the directory. What is outside the directory
is not kept: no file is found there, and none can be made.

A path is followed up to its last name before that name is looked up. So a path that is to make a
file and ends in a slash asks for a directory, whether or not there is a file of this name.
-/

namespace PagedStore.Disk

structure Ending where
  name : String
  /-- The name is one in a directory that is not this one. -/
  outside : Bool
  /-- A slash follows the name. -/
  slashed : Bool
deriving DecidableEq, Repr

inductive Place where
  /-- This directory, or one outside it. -/
  | directory
  | ending (last : Ending)
deriving DecidableEq, Repr

def nameLimit : Nat := 255

/-- The longest path, in bytes. A system takes 4096 with the path of the directory in front and a
zero byte behind, for which 32 are set aside. -/
def pathLimit : Nat := 4064

def index? (disk : Disk) (name : String) : Option Nat := disk.files.findIdx? (·.name == name)

def steps : List Char → List (List Char)
  | [] => [[]]
  | char :: rest =>
      if char = '/' then [] :: steps rest
      else match steps rest with
        | [] => [[char]]
        | first :: others => (char :: first) :: others

def search (disk : Disk) (outside : Bool) (name : String) : Except IoError (Option Nat) :=
  if nameLimit < (Text.encode name).length then .error .invalidFilename
  else .ok (if outside then none else disk.index? name)

def follow (disk : Disk) (outside slashed : Bool) : List (List Char) → Except IoError Place
  | [] => .ok .directory
  | step :: rest =>
      if step = ['.'] then follow disk outside slashed rest
      else if step = ['.', '.'] then follow disk true slashed rest
      else if rest = [] then .ok (.ending ⟨String.ofList step, outside, slashed⟩)
      else match disk.search outside (String.ofList step) with
        | .error cause => .error cause
        | .ok (some _) => .error .notADirectory
        | .ok none => .error .notFound

/-- Finds out what a path leads to. A path that begins with a slash begins outside. -/
def locate (disk : Disk) (path : String) : Except IoError Place :=
  if '\x00' ∈ path.toList then .error .invalidInput
  else if pathLimit < (Text.encode path).length then .error .invalidFilename
  else
    let parts := steps path.toList
    let outside := path.toList.head? = some '/'
    let slashed := parts.getLast? = some []
    disk.follow outside slashed (parts.filter (· ≠ []))

def existing (disk : Disk) (path : String) : Except IoError Nat := do
  match ← disk.locate path with
  | .directory => .error .isADirectory
  | .ending last =>
      match ← disk.search last.outside last.name with
      | none => .error .notFound
      | some index => if last.slashed then .error .notADirectory else .ok index

def create (disk : Disk) (name : String) : Disk :=
  { disk with files := disk.files ++ [⟨name, .ofBytes []⟩] }

def countOpening (disk : Disk) : Disk := { disk with traffic := disk.traffic ++ [.none] }

/-- The name that a path gives to a file which is to be made unless it exists, and the file if it
does. -/
def wanted (disk : Disk) (path : String) : Except IoError (String × Option Nat) := do
  match ← disk.locate path with
  | .directory => .error .isADirectory
  | .ending last =>
      if last.slashed then .error .isADirectory
      else
        let found ← disk.search last.outside last.name
        if last.outside then .error .permissionDenied else .ok (last.name, found)

/-- The file that a path leads to, made empty if there is none, and a new opening of it. -/
def openFile (path : String) : Action Disk (Nat × Nat) := do
  let disk ← get
  match disk.wanted path with
  | .error cause => Action.fail (.io cause)
  | .ok (_, some index) =>
      set disk.countOpening
      pure (index, disk.traffic.length)
  | .ok (name, none) =>
      set (disk.create name).countOpening
      pure (disk.files.length, disk.traffic.length)

end PagedStore.Disk
