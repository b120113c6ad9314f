import TopologicalOrder.Text.Utf8

/-!
# Files and the paths to them

Files are kept in folders, which may hold further folders. A path leads from one
folder to the next, starting from where the command is run or, if it begins with a
stroke, from the outermost folder; a dot stays in a folder and two dots leave it.
Walking along a path fails at the first name at which it cannot go on, so a path
over a missing folder leads nowhere even if it comes back at once.
-/

namespace TopologicalOrder.Command

/-- Why a file cannot be read. -/
inductive ReadError
  /-- There is none. -/
  | missing
  /-- The path goes on after a file. -/
  | notDirectory
  /-- The path leads to a folder. -/
  | isDirectory
  /-- The name cannot be the name of a file. -/
  | badName
  /-- The path or a name in it is too long. -/
  | nameTooLong
  /-- The file may not be read. -/
  | denied
  deriving DecidableEq, Repr

/-- The wording of a failed attempt to read a file. A folder can be opened, so it
fails only afterwards. -/
def ReadError.message (name : String) : ReadError → String
  | .missing => s!"open {name}: no such file or directory"
  | .notDirectory => s!"open {name}: not a directory"
  | .isDirectory => s!"read {name}: is a directory"
  | .badName => s!"open {name}: invalid argument"
  | .nameTooLong => s!"open {name}: file name too long"
  | .denied => s!"open {name}: permission denied"

/-- What a folder holds under a name. -/
inductive Entry
  /-- A file with its content. -/
  | file (content : List UInt8)
  /-- Another folder. -/
  | folder (entries : List (String × Entry))

/-- The entries of a folder; of two with one name the first counts. -/
abbrev Folder := List (String × Entry)

namespace Folder

/-- Puts a file into a folder, or into those inside of it that a path leads
through. -/
def insert (content : List UInt8) : List String → Folder → Folder
  | [], f => f
  | [name], f => (name, .file content) :: f
  | name :: rest, f =>
    let inner :=
      match f.lookup name with
      | some (.folder f) => f
      | _ => []
    (name, .folder (insert content rest inner)) :: f

/-- The folder with the given files. -/
def ofFiles (files : List (String × List UInt8)) : Folder :=
  files.foldl (fun f e => insert e.2 (e.1.splitOn "/") f) []

end Folder

/-- The most bytes that one name may have. -/
def maxName : Nat := 255

/-- The most bytes that a path may have. -/
def maxPath : Nat := 4095

/-- **A place among folders**: the folder itself, and those around it from the
inside to the outermost one. -/
structure Place where
  /-- The folder. -/
  here : Folder
  /-- The folders around it. -/
  around : List Folder := []

namespace Place

/-- The folder around a place; nothing is around the outermost one. -/
def leave (p : Place) : Place :=
  match p.around with
  | [] => p
  | f :: around => { here := f, around := around }

/-- The outermost folder. -/
def outermost (p : Place) : Place := { here := p.around.getLastD p.here }

/-- Enters a folder that a place holds. -/
def enter (p : Place) (f : Folder) : Place := { here := f, around := p.here :: p.around }

/-- Walks along the names of a path to a file. -/
def walk (p : Place) : List String → Except ReadError (List UInt8)
  | [] => .error .isDirectory
  | name :: rest =>
    if name = "" || name = "." then walk p rest
    else if name = ".." then walk p.leave rest
    else if maxName < name.utf8ByteSize then .error .nameTooLong
    else
      match p.here.lookup name with
      | none => .error .missing
      | some (.folder f) => walk (p.enter f) rest
      | some (.file content) => if rest.isEmpty then .ok content else .error .notDirectory

/-- **Reads the file that a path leads to.** -/
def read (p : Place) (path : String) : Except ReadError (List UInt8) :=
  if path.toList.contains '\x00' then .error .badName
  else if path = "" then .error .missing
  else if maxPath < path.utf8ByteSize then .error .nameTooLong
  else (if path.toList.head? = some '/' then p.outermost else p).walk (path.splitOn "/")

end Place

end TopologicalOrder.Command
