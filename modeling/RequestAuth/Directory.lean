import RequestAuth.Context

/-!
# A working directory

A place is where a file or a directory may be. It is written as the names that lead to it from the
working directory, after as many `..` as lead out of that, or after a slash if they lead down from
the root. A path leads from place to place, where every one but the last must be a directory.

Writing a file first makes the directories on the way to it, and they stay when it is removed.
-/

namespace RequestAuth

/-- Where a file or a directory may be. -/
abbrev Place := List String

namespace Place

/-- The root of all files. -/
def root : Place := ["/"]

/-- Whether a place is the working directory, one that it lies in, or the root. -/
def isGiven (place : Place) : Bool :=
  place.all fun name => name = ".." ∨ name = "/"

/-- The place that a directory lies in. The root lies in itself. -/
def parent (place : Place) : Place :=
  if place = root then root
  else if place.isGiven then place ++ [".."]
  else place.dropLast

end Place

/-- A path as the names between its slashes, some of which may be empty. -/
abbrev Path := List String

namespace Path

/-- The number of bytes from which on a path is too long to be followed. -/
def limit : Nat := 4096

/-- The number of bytes that a name may have. -/
def nameLimit : Nat := 255

/-- Reads a path. -/
def ofString (text : String) : Path := text.splitOn "/"

/-- Whether a path can be followed. -/
def isUsable (path : Path) : Bool :=
  ("/".intercalate path).utf8ByteSize < limit ∧ path.all fun name => '\x00' ∉ name.toList

/-- Where a path begins. -/
def start (path : Path) : Place :=
  match path with
  | "" :: _ :: _ => .root
  | _ => []

/-- A path without the names at its end that do not lead on. -/
def trimEnd (path : Path) : Path :=
  (path.reverse.dropWhile fun name => name = "" ∨ name = ".").reverse

/-- The path to the directory in which a path ends. -/
def parent (path : Path) : Path :=
  trimEnd (trimEnd path).dropLast

end Path

/-- The files and the directories that have been made. -/
structure Directory where
  /-- Places of files, and their contents. -/
  files : List (Place × Bytes) := []
  /-- Places of directories. -/
  directories : List Place := []

namespace Directory

/-- Whether there is a directory at a place. -/
def isDirectory (directory : Directory) (place : Place) : Bool :=
  place.isGiven ∨ place ∈ directory.directories

/-- The place that a name leads to from another one. -/
def step? (directory : Directory) (place : Place) (name : String) : Option Place :=
  if ¬ directory.isDirectory place then none
  else if name = "" ∨ name = "." then some place
  else if name = ".." then some place.parent
  else if Path.nameLimit < name.utf8ByteSize then none
  else some (place ++ [name])

/-- The place that a path leads to. -/
def follow? (directory : Directory) (path : Path) : Option Place :=
  if path.isUsable then path.foldlM directory.step? path.start else none

/-- The contents of the file that a path leads to. -/
def read? (directory : Directory) (path : String) : Option Bytes :=
  (directory.follow? (.ofString path)).bind fun place => directory.files.lookup place

/-- The directory without the file at a place. -/
def clear (directory : Directory) (place : Place) : Directory :=
  { directory with files := directory.files.filter (·.1 ≠ place) }

/-- The directory without the file that a path leads to. -/
def remove (directory : Directory) (path : String) : Directory :=
  match directory.follow? (.ofString path) with
  | some place => directory.clear place
  | none => directory

/-- The directory with a directory at a place where there is nothing. -/
def make (directory : Directory) (place : Place) : Directory :=
  if directory.isDirectory place ∨ (directory.files.lookup place).isSome then directory
  else { directory with directories := place :: directory.directories }

/-- The directory with directories at all places that names lead to, up to one where there can be
none. -/
def makeFrom (directory : Directory) (place : Place) : Path → Directory
  | [] => directory
  | name :: rest =>
    match directory.step? place name with
    | some next => (directory.make next).makeFrom next rest
    | none => directory

/-- The directory with all directories on a path. -/
def makeAll (directory : Directory) (path : Path) : Directory :=
  if path.isUsable then directory.makeFrom path.start path else directory

/-- The directory with a file that has the given contents, if there can be one. -/
def write (directory : Directory) (path : String) (contents : Bytes) : Directory :=
  let path := Path.ofString path
  let directory := directory.makeAll path.parent
  match directory.follow? path with
  | some place =>
    if directory.isDirectory place then directory
    else { directory with files := (place, contents) :: (directory.clear place).files }
  | none => directory

/-- The files of the given paths, written one after the other. -/
def ofPaths (files : List (String × Bytes)) : Directory :=
  files.foldl (fun directory (path, contents) => directory.write path contents) {}

/-- The directory as a way to read files. -/
def fileReader (directory : Directory) : FileReader where
  label := "Directory"
  read path := match directory.read? path with
    | some contents => .ok contents
    | none => .error (.unreadableFile path true)

end Directory

end RequestAuth
