import PreferenceLogic.File.Source
import PreferenceLogic.Text.Utf8

/-!
# Trees of files

A path is followed name by name, from the root if it starts with a slash and from the home of the
tree otherwise. An empty name and a single dot stay in a directory, two dots go back to the
directory that holds it, and the root holds itself. Nothing follows a file, not even a slash.

Definitions:
* `FileTree.source`: what a path leads to.
* `FileTree.ofFiles`: the tree of some files in the home directory of a usual system.

Results:
* `FileTree.walk_stay`: empty names and dots on a path do not matter.
-/

namespace PreferenceLogic

/-- A tree of files. -/
structure FileTree where
  /-- The names on the way from the root to the directory where relative paths start. -/
  home : List Text
  /-- What is in the tree, with the names on the way from the root. -/
  entries : List (List Text × Source)

namespace FileTree

/-! ## Following paths -/

/-- Stands between the names of a path. -/
def slash : Char := '/'

/-- The name that stays in a directory. -/
def here : Text := ".".toList

/-- The name that goes back to the directory that holds a directory. -/
def back : Text := "..".toList

/-- A name has at most this many bytes. -/
def nameLimit : Nat := 255

/-- A path has at most this many bytes. -/
def pathLimit : Nat := 4095

/-- What is at the end of a way from the root. All that lies on the way to an entry is a
directory. -/
def at? (tree : FileTree) (way : List Text) : Option Source :=
  match tree.entries.lookup way with
  | some source => some source
  | none => if tree.entries.any fun entry => way.isPrefixOf entry.1 then some .directory else none

/-- What some names lead to from a directory. -/
def walk (tree : FileTree) : List Text → List Text → Except SystemError Source
  | _, [] => .ok .directory
  | way, name :: rest =>
    if name = [] ∨ name = here then tree.walk way rest
    else if name = back then tree.walk way.dropLast rest
    else if (Utf8.encode name).length > nameLimit then .error .nameTooLong
    else match tree.at? (way ++ [name]) with
      | none => .error .missing
      | some .directory => tree.walk (way ++ [name]) rest
      | some source => if rest = [] then .ok source else .error .notDirectory

theorem walk_stay (tree : FileTree) (way rest : List Text) {name : Text}
    (h : name = [] ∨ name = here) : tree.walk way (name :: rest) = tree.walk way rest := by
  rw [walk, if_pos h]

/-- What a path leads to. -/
def source (tree : FileTree) (path : Text) : Except SystemError Source :=
  if path = [] then .error .missing
  else if (Utf8.encode path).length > pathLimit then .error .nameTooLong
  else tree.walk (if path.head? = some slash then [] else tree.home)
    (path.splitOn slash)

/-! ## Usual systems -/

/-- The paths that lead to the standard input. -/
def inputPaths : List Text :=
  ["/dev/stdin", "/dev/fd/0", "/proc/self/fd/0"].map String.toList

/-- The names of a path from the root. -/
def namesOf (path : Text) : List Text :=
  (path.splitOn slash).filter fun name => name != [] && name != here

/-- The directories at the root of a usual system. -/
def usualDirectories : List Text :=
  ["bin", "boot", "dev", "etc", "home", "lib", "media", "mnt", "opt", "proc", "root", "run", "sbin",
    "srv", "sys", "tmp", "usr", "var"].map String.toList

/-- What a usual system has besides the files of its users: an empty device, the standard input and
some directories. -/
def usualEntries : List (List Text × Source) :=
  (["dev".toList, "null".toList], .content []) ::
    inputPaths.map (fun path => (namesOf path, .input)) ++
    usualDirectories.map (fun name => ([name], .directory))

/-- Where files are kept in a usual system. -/
def usualHome : List Text := ["tmp".toList, "work".toList]

/-- The tree of some files in the home directory of a usual system, each with its path from
there. -/
def ofFiles (files : List (Text × List UInt8)) : FileTree where
  home := usualHome
  entries := files.map (fun file => (usualHome ++ namesOf file.1, .content file.2)) ++
    (usualHome, .directory) :: usualEntries

end FileTree

end PreferenceLogic
