/-
# Files

The program reads and writes whole files by name.  `FileAccess` is all it knows of the place where
they are: the file system of a machine, or a `Folder` in memory, a single directory without others
inside it, on which what the program does can be computed and reasoned about.
-/

namespace MappingCanvas

/-- Why a file could not be read or written. -/
inductive FileError
  | missing | isDirectory | notDirectory | notText
  | other (reason : String)
  deriving DecidableEq

/-- The wording of a file error. -/
def FileError.message : FileError → String
  | missing => "No such file or directory (os error 2)"
  | isDirectory => "Is a directory (os error 21)"
  | notDirectory => "Not a directory (os error 20)"
  | notText => "stream did not contain valid UTF-8"
  | other reason => reason

/-- A world with files in it. -/
class FileAccess (m : Type → Type) where
  /-- The bytes of a file. -/
  readBytes : String → m (Except FileError (List UInt8))
  /-- Makes a file of some bytes, in place of the one that had the name. -/
  writeBytes : String → List UInt8 → m (Except FileError Unit)

namespace FileAccess

variable {m : Type → Type} [Monad m] [FileAccess m]

/-- The text of a file. -/
def readText (path : String) : m (Except FileError String) := do
  match ← readBytes path with
  | .error e => return .error e
  | .ok bytes =>
    match String.fromUTF8? ⟨bytes.toArray⟩ with
    | some s => return .ok s
    | none => return .error .notText

/-- Makes a file of a text. -/
def writeText (path text : String) : m (Except FileError Unit) :=
  writeBytes path text.toUTF8.toList

end FileAccess

/-- The files of one directory. -/
structure Folder where
  files : List (String × List UInt8)
  deriving DecidableEq

namespace Folder

/-- The bytes of a file. -/
def find? (d : Folder) (name : String) : Option (List UInt8) :=
  (d.files.find? fun f => f.1 == name).map Prod.snd

/-- Some files with one of them replaced or, if it is new, added at the end. -/
def put (name : String) (bytes : List UInt8) :
    List (String × List UInt8) → List (String × List UInt8)
  | [] => [(name, bytes)]
  | f :: fs => if f.1 = name then (name, bytes) :: fs else f :: put name bytes fs

/-- What a path leads to. -/
inductive Place
  | self
  | file (name : String)
  /-- A name with a slash behind it. -/
  | inner (name : String)
  /-- Something inside an entry, or outside the directory. -/
  | beyond (name : String)

/-- The place of a path; empty parts and single dots lead nowhere else. -/
def place (path : String) : Place :=
  let parts := (path.splitOn "/").filter fun part => part ≠ "" ∧ part ≠ "."
  if path.isEmpty || path.startsWith "/" then .beyond ""
  else match parts with
    | [] => .self
    | [name] => if path.endsWith "/" || path.endsWith "/." then .inner name else .file name
    | name :: _ => .beyond name

/-- Why there is nothing inside an entry. -/
def nothingInside (d : Folder) (name : String) : FileError :=
  if (d.find? name).isSome then .notDirectory else .missing

/-- Reads a file. -/
def read (d : Folder) (path : String) : Except FileError (List UInt8) :=
  match place path with
  | .self => .error .isDirectory
  | .file name =>
    match d.find? name with
    | some bytes => .ok bytes
    | none => .error .missing
  | .inner name | .beyond name => .error (d.nothingInside name)

/-- Writes a file. -/
def write (d : Folder) (path : String) (bytes : List UInt8) : Except FileError Folder :=
  match place path with
  | .self | .inner _ => .error .isDirectory
  | .file name => .ok ⟨put name bytes d.files⟩
  | .beyond name => .error (d.nothingInside name)

instance : FileAccess (StateM Folder) where
  readBytes path := fun d => (d.read path, d)
  writeBytes path bytes := fun d =>
    match d.write path bytes with
    | .ok after => (.ok (), after)
    | .error e => (.error e, d)

end Folder
end MappingCanvas
