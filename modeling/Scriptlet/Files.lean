import Scriptlet.Text.Utf8

set_option autoImplicit false

/-!
# Files

What a program sees of the file system is an interface of two questions, `Files`: whether a path
leads anywhere, and what text stands there.

`FileTable` answers them for the paths that have been read.  `FileTree` answers them for a tree that
is given as a whole: what has been written to it, the directories that every system has at its top,
and the null device, which is always empty.  A path is walked name by name, so what stands on the
way has to be a directory even where the next name leads back out of it.
-/

namespace Scriptlet

/-- Why a path could not be read. -/
inductive FileFault where
  | notFound
  /-- the path goes on behind something that is no directory -/
  | notDirectory
  | isDirectory
  | nameTooLong
  | noPermission
  /-- the path holds a NUL character -/
  | nulInName
  /-- the bytes of the file are no text -/
  | notText
  /-- any other fault, in the words of the system -/
  | other (message : String)
  deriving DecidableEq, Repr, Inhabited

/-- The fault in words. -/
def FileFault.message : FileFault → String
  | .notFound => "No such file or directory (os error 2)"
  | .notDirectory => "Not a directory (os error 20)"
  | .isDirectory => "Is a directory (os error 21)"
  | .nameTooLong => "File name too long (os error 36)"
  | .noPermission => "Permission denied (os error 13)"
  | .nulInName => "file name contained an unexpected NUL byte"
  | .notText => "stream did not contain valid UTF-8"
  | .other message => message

/-- Whether a path with such a fault leads to no file or directory. -/
def FileFault.leadsNowhere : FileFault → Bool
  | .notFound | .notDirectory | .nameTooLong | .nulInName => true
  | .isDirectory | .noPermission | .notText | .other _ => false

/-- What a program can ask about files. -/
structure Files where
  /-- whether the path leads to a file or a directory -/
  exist : String → Bool
  /-- the text of the file that the path leads to -/
  read : String → Except FileFault String

/-! ## Files that have been read -/

/-- What reading each of some paths led to. -/
abbrev FileTable := List (String × Except FileFault String)

/-- The table as a program sees it: all other paths lead nowhere. -/
def FileTable.toFiles (table : FileTable) : Files where
  exist path :=
    match table.lookup path with
    | some (.ok _) => true
    | some (.error fault) => !fault.leadsNowhere
    | none => false
  read path := (table.lookup path).getD (.error .notFound)

/-! ## A tree of files -/

/-- The longest path, in bytes. -/
def maxPathBytes : Nat := 4095

/-- The longest name of a file or a directory, in bytes. -/
def maxNameBytes : Nat := 255

/-- What stands at a place in a tree. -/
inductive FileTree.Entry where
  | file (bytes : List UInt8)
  | directory
  deriving DecidableEq, Repr, Inhabited

/-- A place in a tree: the names that lead to it from the top. -/
abbrev FileTree.Place := List String

/-- Where a name leads from a directory.  There is nothing around the top. -/
def FileTree.Place.enter (directory : Place) (name : String) : Place :=
  if name = "" ∨ name = "." then directory
  else if name = ".." then directory.dropLast
  else directory ++ [name]

/-- A tree of files and directories. -/
structure FileTree where
  /-- the directory in which relative paths start -/
  start : FileTree.Place
  /-- what stands at each place, the latest first -/
  entries : List (FileTree.Place × FileTree.Entry)
  deriving Repr, Inhabited

namespace FileTree

/-- Directories at the top of every file system. -/
def topDirectories : List String :=
  ["bin", "boot", "dev", "etc", "home", "lib", "media", "mnt", "opt", "proc", "root", "run", "sbin",
    "srv", "sys", "tmp", "usr", "var"]

/-- The tree in which nothing has been written yet: relative paths start in an empty directory. -/
def empty : FileTree where
  start := ["tmp", "scriptlet"]
  entries :=
    (["tmp", "scriptlet"], .directory) :: (["dev", "null"], .file [])
      :: topDirectories.map fun name => ([name], .directory)

/-- What stands at a place, if anything does. -/
def get? (tree : FileTree) (place : Place) : Option Entry :=
  if place = [] then some .directory else tree.entries.lookup place

/-- The tree with an entry at a place. -/
def put (tree : FileTree) (place : Place) (entry : Entry) : FileTree :=
  { tree with entries := (place, entry) :: tree.entries }

theorem get?_put_self (tree : FileTree) {place : Place} (entry : Entry) (h : place ≠ []) :
    (tree.put place entry).get? place = some entry := by
  simp [get?, put, h]

theorem get?_put_of_ne (tree : FileTree) {place other : Place} (entry : Entry)
    (h : other ≠ place) : (tree.put place entry).get? other = tree.get? other := by
  have differs : (other == place) = false := beq_eq_false_iff_ne.mpr h
  simp [get?, put, List.lookup_cons, differs]

/-- What the names of a path lead to from a place. -/
def walk (tree : FileTree) (place : Place) : List String → Except FileFault Entry
  | [] =>
    match tree.get? place with
    | some entry => .ok entry
    | none => .error .notFound
  | name :: names =>
    match tree.get? place with
    | none => .error .notFound
    | some (.file _) => .error .notDirectory
    | some .directory =>
      if name.utf8ByteSize > maxNameBytes then .error .nameTooLong
      else tree.walk (place.enter name) names

/-- The parts of a text between the occurrences of a character. -/
def splitOnChar (separator : Char) : List Char → List (List Char)
  | [] => [[]]
  | c :: rest =>
    if c = separator then [] :: splitOnChar separator rest
    else
      match splitOnChar separator rest with
      | [] => [[c]]
      | part :: parts => (c :: part) :: parts

/-- The names in a path. -/
def pathNames (path : String) : List String := (splitOnChar '/' path.toList).map String.ofList

/-- The place from which the names of a path lead on. -/
def origin (tree : FileTree) (path : String) : Place :=
  if path.toList.head? = some '/' then [] else tree.start

/-- What a path leads to. -/
def resolve (tree : FileTree) (path : String) : Except FileFault Entry :=
  if path.toList.contains '\x00' then .error .nulInName
  else if path.utf8ByteSize > maxPathBytes then .error .nameTooLong
  else if path = "" then .error .notFound
  else tree.walk (tree.origin path) (pathNames path)

/-- The text of the file that a path leads to. -/
def read (tree : FileTree) (path : String) : Except FileFault String :=
  match tree.resolve path with
  | .error fault => .error fault
  | .ok .directory => .error .isDirectory
  | .ok (.file bytes) =>
    match Text.decode? bytes with
    | some text => .ok text
    | none => .error .notText

/-- The tree as a program sees it. -/
def toFiles (tree : FileTree) : Files where
  exist path := (tree.resolve path).toBool
  read := tree.read

/-- The tree with all directories that the names of a path go through, and the last of them. -/
def makeDirectories (tree : FileTree) (place : Place) : List String → FileTree × Place
  | [] => (tree, place)
  | name :: names =>
    match tree.get? (place.enter name) with
    | some _ => tree.makeDirectories (place.enter name) names
    | none => (tree.put (place.enter name) .directory).makeDirectories (place.enter name) names

/-- The tree with one more file, and with the directories that its path goes through: behind
`"a/../b"` there is a directory `a` beside the file `b`. -/
def add (path : String) (bytes : List UInt8) (tree : FileTree) : FileTree :=
  match tree.makeDirectories (tree.origin path) (pathNames path).dropLast with
  | (tree, place) => tree.put (place.enter ((pathNames path).getLast?.getD "")) (.file bytes)

end FileTree

end Scriptlet
