import Stencil.Path

/-! # Files

The files that templates are read from, as a finite table. A path names an entry by its lexical
normal form, and every entry but the root lies in a directory.
-/
namespace Stencil

/-- What a path can lead to. -/
inductive Entry
  | text (content : String)
  /-- A file whose bytes are no text. -/
  | binary
  | directory
  deriving DecidableEq, Repr, Inhabited

/-- The file that holds some bytes. -/
def Entry.ofBytes (bytes : ByteArray) : Entry :=
  match String.fromUTF8? bytes with
  | some content => .text content
  | none => .binary

/-- Why a file cannot be read. -/
inductive ReadError
  | nulInPath
  | notFound
  /-- The path goes through a file. -/
  | notDirectory
  | isDirectory
  | notText
  deriving DecidableEq, Repr, Inhabited

/-- The report of a file that cannot be read. -/
def ReadError.message : ReadError → String
  | .nulInPath => "file name contained an unexpected NUL byte"
  | .notFound => "No such file or directory (os error 2)"
  | .notDirectory => "Not a directory (os error 20)"
  | .isDirectory => "Is a directory (os error 21)"
  | .notText => "stream did not contain valid UTF-8"

/-- A table of entries, each with the names on the way to it from the root. The root itself is not
listed. -/
structure Files where
  entries : List (List (List Char) × Entry)
  deriving DecidableEq, Repr, Inhabited

namespace Files

/-- A file system with nothing in it. -/
def empty : Files := ⟨[]⟩

/-- The number of entries. -/
def size (f : Files) : Nat := f.entries.length

/-- The entry at the end of a list of names. -/
def entry? (f : Files) (names : List (List Char)) : Option Entry :=
  if names.isEmpty then some .directory else f.entries.lookup names

/-- The directories on the way to an entry, outermost first, without the root. -/
def ancestors (names : List (List Char)) : List (List (List Char)) :=
  (List.range names.length).tail.map names.take

/-- Whether the way to an entry goes through a file. -/
def isBlocked (f : Files) (names : List (List Char)) : Bool :=
  (ancestors names).any fun a =>
    match f.entry? a with
    | some .directory | none => false
    | some _ => true

/-- The text of the file at the end of a list of names. -/
def readNames (f : Files) (names : List (List Char)) : Except ReadError String :=
  match f.entry? names with
  | some (.text content) => .ok content
  | some .binary => .error .notText
  | some .directory => .error .isDirectory
  | none => if f.isBlocked names then .error .notDirectory else .error .notFound

/-- The text of the file at a path. -/
def read (f : Files) (path : String) : Except ReadError String :=
  if path.toList.contains '\x00' then .error .nulInPath else f.readNames (Path.names path)

/-- Lists an entry in place of what was listed for its names. -/
def set (f : Files) (names : List (List Char)) (entry : Entry) : Files :=
  ⟨(names, entry) :: f.entries.filter (·.1 != names)⟩

/-- Makes a directory unless there is an entry already. -/
def makeDirectory (f : Files) (names : List (List Char)) : Files :=
  match f.entry? names with
  | some _ => f
  | none => f.set names .directory

/-- Writes an entry, and makes the directories on the way to it. A directory is never replaced, and
nothing can be written below a file. -/
def write (f : Files) (path : String) (entry : Entry) : Files :=
  let names := Path.names path
  if f.isBlocked names then f
  else
    let f := (ancestors names).foldl makeDirectory f
    match f.entry? names, entry with
    | some .directory, _ => f
    | some _, .directory => f
    | _, _ => f.set names entry

/-- Removes a file. The directory that it lay in stays. -/
def remove (f : Files) (path : String) : Files :=
  let names := Path.names path
  match f.entry? names with
  | some .directory | none => f
  | some _ => ⟨f.entries.filter (·.1 != names)⟩

end Files

end Stencil
