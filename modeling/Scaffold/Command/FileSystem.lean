import Scaffold.Fault
import Scaffold.Text.Split

/-!
# File systems

What a command knows of the files around it: paths lead to files, files have contents, and
every request for a path can fail. Files that are kept in memory are one such system.
-/
namespace Scaffold

/-- The answers to the requests of a command, with `σ` for what they depend on and `φ` for the
files, however these are told apart. -/
structure FileSystem (σ φ : Type) where
  /-- The file that a path leads to. -/
  leads? : σ → String → Option φ
  content? : σ → φ → Option ByteArray
  size : σ → String → Except FileError Nat
  read : σ → String → Except FileError ByteArray
  /-- A write that fails may leave something behind too. -/
  write : σ → String → ByteArray → Except FileError Unit × σ

namespace FileSystem

variable {σ φ : Type}

/-- No file was created, changed or removed. -/
def SameFiles (fs : FileSystem σ φ) (before after : σ) : Prop :=
  ∀ f, fs.content? after f = fs.content? before f

/-- What a command counts on. -/
structure Lawful (fs : FileSystem σ φ) : Prop where
  read_ok : ∀ s path bytes, fs.read s path = .ok bytes →
    ∃ f, fs.leads? s path = some f ∧ fs.content? s f = some bytes
  /-- A write changes the file that the path leads to afterwards, and no other one. -/
  write_ok : ∀ s path bytes t, fs.write s path bytes = (.ok (), t) →
    ∃ f, fs.leads? t path = some f ∧ fs.content? t f = some bytes ∧
      ∀ g, g ≠ f → fs.content? t g = fs.content? s g
  /-- A write that fails changes nothing. -/
  write_error : ∀ s path bytes e t, fs.write s path bytes = (.error e, t) → fs.SameFiles s t

end FileSystem

inductive Entry
  | file (content : ByteArray)
  | folder

/-- Names from the working folder down or, behind a slash, from the root down. -/
abbrev Location := List String

/-- All entries by location. The working folder lies in the root. -/
structure Folder where
  entries : List (Location × Entry) := []

namespace Folder

/-- The entry at a location. The working folder and the root are always there. -/
def get? (folder : Folder) (l : Location) : Option Entry :=
  if l = [] ∨ l = ["/"] then some .folder else folder.entries.lookup l

/-- Sets the entry at a location. -/
def insert (folder : Folder) (l : Location) (e : Entry) : Folder :=
  ⟨folder.entries.filter (·.1 ≠ l) ++ [(l, e)]⟩

/-- The parts of a path between its slashes. -/
def parts (path : String) : List String := (Text.splitOn '/' path.toList).map String.ofList

/-- A path that starts with a slash starts at the root. -/
def start (path : String) : Location :=
  match path.toList with
  | '/' :: _ => ["/"]
  | _ => []

/-- The folder around a location. The root lies in itself. -/
def parent : Location → Location
  | [] | ["/"] => ["/"]
  | l => l.dropLast

def isFolder (folder : Folder) (l : Location) : Except FileError Unit :=
  match folder.get? l with
  | some .folder => .ok ()
  | some (.file _) => .error .notDirectory
  | none => .error .noEntry

/-- One part of a path, taken from a location that must be a folder. -/
def enter (folder : Folder) (l : Location) (part : String) : Except FileError Location := do
  folder.isFolder l
  return if part = "" ∨ part = "." then l else if part = ".." then parent l else l ++ [part]

def walk (folder : Folder) (l : Location) : List String → Except FileError Location
  | [] => .ok l
  | part :: rest => do
    let l ← folder.enter l part
    folder.walk l rest

/-- Where a path leads, to an entry or not. -/
def locate (folder : Folder) (path : String) : Except FileError Location :=
  folder.walk (start path) (parts path)

def entry (folder : Folder) (path : String) : Except FileError Entry := do
  match folder.get? (← folder.locate path) with
  | some e => return e
  | none => .error .noEntry

/-- The size of a file; a folder has a size of its own. -/
def size (folder : Folder) (path : String) : Except FileError Nat := do
  match ← folder.entry path with
  | .file content => return content.size
  | .folder => return 4096

def read (folder : Folder) (path : String) : Except FileError ByteArray := do
  match ← folder.entry path with
  | .file content => return content
  | .folder => .error .isDirectory

/-- Where a write to a path puts its file: a name in an existing folder, without a slash
behind it, that is not itself a folder. -/
def destination (folder : Folder) (path : String) : Except FileError Location := do
  let all := parts path
  let kept := (all.reverse.dropWhile (· = "")).reverse
  match kept.getLast? with
  | none => .error .isDirectory
  | some name =>
    let l ← folder.walk (start path) kept.dropLast
    folder.isFolder l
    if kept.length < all.length ∨ name = "." ∨ name = ".." then .error .isDirectory
    else match folder.get? (l ++ [name]) with
      | some .folder => .error .isDirectory
      | _ => return l ++ [name]

def write (folder : Folder) (path : String) (content : ByteArray) :
    Except FileError Unit × Folder :=
  match folder.destination path with
  | .ok l => (.ok (), folder.insert l (.file content))
  | .error e => (.error e, folder)

def content? (folder : Folder) (l : Location) : Option ByteArray :=
  match folder.get? l with
  | some (.file content) => some content
  | _ => none

/-- A folder as a file system. -/
def system : FileSystem Folder Location where
  leads? folder path := (folder.locate path).toOption
  content? := content?
  size := size
  read := read
  write := write

end Folder

end Scaffold
