/-
A working directory, as far as a command can tell: the files in it, and what
a path leads to.

Below the directory there are only the files. Of what lies outside, only the
usual directories at the top and two devices are known: one that holds
nothing and takes everything, and one that has no end and takes nothing.
Everything else outside is taken to be directories with nothing in them.
-/
import LS8.Program

namespace LS8

/-- The files of a directory by their names. -/
structure Folder where
  files : List (String × ByteArray) := []

namespace Folder

def empty : Folder := {}

/-- A directory with one file. -/
def ofFile (name : String) (bytes : ByteArray) : Folder := ⟨[(name, bytes)]⟩

-- ================================================================ paths

/-- The directories that are told apart. -/
inductive Directory where
  /-- The directory itself. -/
  | here
  /-- The one that absolute paths begin in. -/
  | top
  /-- The one with the devices. -/
  | devices
  /-- Any other. -/
  | elsewhere
  deriving DecidableEq, Repr

/-- The devices that are known. -/
inductive Device where
  | null
  | full
  deriving DecidableEq, Repr

/-- Where a path has led so far. -/
inductive Place where
  | directory (d : Directory)
  /-- A file of the directory itself. -/
  | file (name : String) (bytes : ByteArray)
  | device (d : Device)
  /-- A name that nothing has in that directory. -/
  | absent (parent : Directory) (name : String)

/-- The directory above. The one above the directory itself is not known,
and the one at the top is above itself. -/
def Directory.above : Directory → Directory
  | here | elsewhere => elsewhere
  | top | devices => top

/-- The directories at the top, without that of the devices. -/
def topNames : List String :=
  ["bin", "boot", "etc", "home", "lib", "media", "mnt", "opt", "proc", "root", "run", "sbin",
   "srv", "sys", "tmp", "usr", "var"]

/-- The names in a path, given what of the first one has been read, held
backwards. -/
def namesFrom (read : List Char) : List Char → List String
  | [] => [String.ofList read.reverse]
  | '/' :: path => String.ofList read.reverse :: namesFrom [] path
  | c :: path => namesFrom (c :: read) path

/-- How many bytes a name may have. -/
def longestName : Nat := 255

/-- How many bytes a path may have. -/
def longestPath : Nat := 4095

/-- What has a name in a directory. -/
def lookup (folder : Folder) (d : Directory) (name : String) : Place :=
  match d with
  | .here =>
      match folder.files.lookup name with
      | some bytes => .file name bytes
      | none => .absent .here name
  | .top =>
      if name = "dev" then .directory .devices
      else if topNames.contains name then .directory .elsewhere
      else .absent .top name
  | .devices =>
      if name = "null" then .device .null
      else if name = "full" then .device .full
      else .absent .devices name
  | .elsewhere => .absent .elsewhere name

/-- One name further. The empty name and the dot lead nowhere else, two dots
to the directory above. The length of a name matters only where the name is
looked up, which is in a directory. -/
def enter (folder : Folder) (place : Place) (name : String) : Except FileFailure Place :=
  match place with
  | .directory d =>
      if name = "" ∨ name = "." then .ok (.directory d)
      else if name = ".." then .ok (.directory d.above)
      else if longestName < name.utf8ByteSize then .error .nameTooLong
      else .ok (folder.lookup d name)
  | .file _ _ | .device _ => .error .notDirectory
  | .absent _ _ => .error .notFound

/-- Where the names lead. -/
def follow (folder : Folder) : Place → List String → Except FileFailure Place
  | place, [] => .ok place
  | place, name :: names =>
      match folder.enter place name with
      | .error e => .error e
      | .ok place => folder.follow place names

/-- Where a path leads, before it is known to be one. A path that begins
with a slash begins at the top. -/
def walk (folder : Folder) (path : String) : Except FileFailure Place :=
  match path.toList with
  | '/' :: path => folder.follow (.directory .top) (namesFrom [] path)
  | path => folder.follow (.directory .here) (namesFrom [] path)

/-- A text is a path if it holds no NUL, is not empty and is not too long.
These are looked at in this order, and before any name is. -/
def checkPath (path : String) : Except FileFailure Unit :=
  if path.toList.contains '\x00' then .error .nulInPath
  else if path = "" then .error .notFound
  else if longestPath < path.utf8ByteSize then .error .nameTooLong
  else .ok ()

/-- Where a path leads. -/
def resolve (folder : Folder) (path : String) : Except FileFailure Place :=
  match checkPath path with
  | .error e => .error e
  | .ok () => folder.walk path

-- ================================================================ files

/-- The bytes of the file at a path. The ones of the device without end do
not fit. -/
def read (folder : Folder) (path : String) : Except FileFailure ByteArray :=
  match folder.resolve path with
  | .error e => .error e
  | .ok (.file _ bytes) => .ok bytes
  | .ok (.device .null) => .ok .empty
  | .ok (.device .full) => .error (.other "out of memory")
  | .ok (.directory _) => .error .isDirectory
  | .ok (.absent _ _) => .error .notFound

/-- The directory with a file that has the given name and bytes. -/
def put (folder : Folder) (name : String) (bytes : ByteArray) : Folder :=
  ⟨(name, bytes) :: folder.files.filter fun file => file.1 ≠ name⟩

/-- The directory that the last name of a path is to be found in: the path
with a dot for that name and the slashes behind it. -/
def parent (path : String) : String :=
  let kept := (path.toList.reverse.dropWhile (· = '/')).dropWhile (· ≠ '/')
  String.ofList kept.reverse ++ "."

/-- Where a path leads that is to be written. One that ends with a slash
means a directory, whatever has its last name, which is not looked up. -/
def resolveTarget (folder : Folder) (path : String) : Except FileFailure Place :=
  match checkPath path with
  | .error e => .error e
  | .ok () => folder.walk (if path.toList.getLast? = some '/' then parent path else path)

/-- The directory after a file at a path has been written, or created if
nothing was there. A file outside changes nothing in it. -/
def write (folder : Folder) (path : String) (bytes : ByteArray) : Except FileFailure Folder :=
  match folder.resolveTarget path with
  | .error e => .error e
  | .ok (.file name _) | .ok (.absent .here name) => .ok (folder.put name bytes)
  | .ok (.absent _ _) | .ok (.device .null) => .ok folder
  | .ok (.device .full) => .error .noSpace
  | .ok (.directory _) => .error .isDirectory

end Folder

end LS8
