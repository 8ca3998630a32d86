/-
  Rv32Sim.FileTree

  A tree of files held in memory, and what a path leads to in it. A path with a
  slash in front starts at the root, any other in the working folder. It is
  followed name by name, so that the first name that leads nowhere decides.
-/
import Rv32Sim.Image

namespace Rv32Sim

/-- The names on the way from the root to a file or a folder. -/
abbrev Location := List String

/-- The names that a path goes through. The name of the folder itself and the empty
    one do not move. -/
def Location.ofPath (path : String) : Location :=
  ((Text.pieces (· == '/') path.toList).map String.ofList).filter fun name =>
    name != "" && name != "."

/-- A tree of files. -/
structure FileTree where
  files : List (Location × ByteArray)
  /-- The folders that are there even without a file in them. -/
  folders : List Location
  /-- The working folder. -/
  home : Location

namespace FileTree

/-! ## What is there -/

/-- The file at a location. -/
def file? (t : FileTree) (l : Location) : Option ByteArray := t.files.lookup l

/-- Whether a folder is at a location. Whatever is in the tree has folders on the way to it. -/
def hasFolder (t : FileTree) (l : Location) : Bool :=
  l.isEmpty || t.folders.any (l.isPrefixOf ·) ||
    t.files.any fun (file, _) => l.isPrefixOf file && l != file

/-- Make a folder in the working folder. This fails only where a file has the name. -/
def makeFolder? (t : FileTree) (name : String) : Option FileTree :=
  let l := t.home ++ [name]
  if (t.file? l).isSome then none else some { t with folders := l :: t.folders }

/-! ## Paths -/

/-- The greatest number of bytes in a name. -/
def nameLimit : Nat := 255

/-- The greatest number of bytes in a path. -/
def pathLimit : Nat := 4095

/-- The file that names lead to from the folder at `here`. The root is the folder above
    itself. A file can only be the end: even a slash behind it asks for a folder. -/
def follow (t : FileTree) (here : Location) : List String → Except ReadError ByteArray
  | [] => .error .isFolder
  | name :: rest =>
    if name = "" ∨ name = "." then t.follow here rest
    else if name = ".." then t.follow here.dropLast rest
    else if nameLimit < name.utf8ByteSize then .error .nameTooLong
    else
      match t.file? (here ++ [name]) with
      | some content => if rest.isEmpty then .ok content else .error .notFolder
      | none =>
        if t.hasFolder (here ++ [name]) then t.follow (here ++ [name]) rest
        else .error .notFound

/-- The folder in which a path starts. -/
def start (t : FileTree) (path : String) : Location :=
  if path.toList.head? = some '/' then [] else t.home

/-- The file that a path leads to. -/
def read (t : FileTree) (path : String) : Except ReadError ByteArray :=
  if path.isEmpty then .error .notFound
  else if pathLimit < path.utf8ByteSize then .error .nameTooLong
  else t.follow (t.start path) ((Text.pieces (· == '/') path.toList).map String.ofList)

/-! ## Surroundings -/

/-- The folders that a system has at its root. -/
def topFolders : List String :=
  ["bin", "boot", "dev", "etc", "home", "lib", "media", "mnt", "opt", "proc", "root", "run",
   "sbin", "srv", "sys", "tmp", "usr", "var"]

/-- A fresh working folder with files, each at a path in it. Around it are the folders at
    the root and the device that reads as an empty file. -/
def ofFiles (files : List (String × ByteArray)) : FileTree :=
  let home := ["tmp", "work"]
  { files := (["dev", "null"], .empty) ::
      files.map fun (path, content) => (home ++ Location.ofPath path, content)
    folders := home :: topFolders.map ([·])
    home }

end FileTree

end Rv32Sim
