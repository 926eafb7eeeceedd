/-
# Jvm.Files — the files that classes are read from

A set of files is a tree of directories, kept as the places where directories were made and
the files with their contents, the latest first. A path is followed one segment at a time:
an empty segment and `.` stay in place, `..` goes up, and any other segment enters what has
that name. A path that starts with a slash starts at the root, whose name is `/`.

Writing a file makes every directory on the way to it, also those that the path leaves
again. Reading makes nothing, and finds nothing at a path that is too long. Main statement:
`follow_writeFrom`, a path that was written is found.
-/
namespace Jvm

set_option autoImplicit false

/-- Where a directory or file is: its name and the names around it, the innermost first. The
list is empty for the directory where relative paths start; what lies above that one is
reached through names `..`. -/
abbrev Place := List String

namespace Place

def root : String := "/"

def parent : Place → Place
  | [] => [".."]
  | name :: outer =>
      if name = root then [root]
      else if name = ".." then ".." :: name :: outer
      else outer

def isStay (segment : String) : Bool := segment == "" || segment == "."

/-- The place that a segment of a path leads to. -/
def enter (here : Place) (segment : String) : Place :=
  if isStay segment then here
  else if segment = ".." then here.parent
  else segment :: here

/-- The root, and the directories around the one where relative paths start. -/
def isGiven (place : Place) : Bool := place.all fun name => name == root || name == ".."

/-- The segments of a path, the root first if the path starts there. -/
def segments (path : String) : List String :=
  match path.splitOn "/" with
  | "" :: rest => root :: rest
  | names => names

end Place

structure File where
  place : Place
  content : List UInt8
  deriving DecidableEq, Repr

structure Files where
  directories : List Place
  files : List File
  deriving DecidableEq, Repr

namespace Files

def empty : Files := ⟨[], []⟩

/-- How many files have been written. -/
def count (files : Files) : Nat := files.files.length

def isDirectory (files : Files) (place : Place) : Bool :=
  place.isGiven || files.directories.contains place

def content? (files : Files) (place : Place) : Option (List UInt8) :=
  (files.files.find? (·.place == place)).map (·.content)

/-! ## Writing -/

def makeDirectory (files : Files) (place : Place) : Files :=
  { files with directories := place :: files.directories }

/-- Put a file in its place, instead of one that is there. -/
def put (files : Files) (place : Place) (content : List UInt8) : Files :=
  { files with files := ⟨place, content⟩ :: files.files }

/-- Write a file at the end of a path, whose segments are followed from a directory. -/
def writeFrom (files : Files) (here : Place) (content : List UInt8) : List String → Files
  | [] => files
  | [name] => files.put (name :: here) content
  | segment :: rest =>
      (files.makeDirectory (here.enter segment)).writeFrom (here.enter segment) content rest

def write (files : Files) (path : String) (content : List UInt8) : Files :=
  files.writeFrom [] content (Place.segments path)

/-- The files that are there when the given ones have been written in turn. -/
def ofList (contents : List (String × List UInt8)) : Files :=
  contents.foldl (fun files (path, content) => files.write path content) empty

/-! ## Reading -/

/-- Follow segments from a directory. -/
def follow (files : Files) (here : Place) : List String → Option (List UInt8)
  | [] => none
  | [name] => files.content? (name :: here)
  | segment :: rest =>
      if files.isDirectory (here.enter segment) then files.follow (here.enter segment) rest
      else none

/-- The longest path that is followed. -/
def pathLimit : Nat := 4095

/-- The content of the file at a path; an empty file counts as missing. -/
def read? (files : Files) (path : String) : Option (List UInt8) :=
  if pathLimit < path.length then none
  else (files.follow [] (Place.segments path)).filter (! ·.isEmpty)

/-! ## What was written is found -/

theorem isDirectory_makeDirectory (files : Files) (place : Place) :
    (files.makeDirectory place).isDirectory place = true := by
  simp [isDirectory, makeDirectory]

theorem isDirectory_writeFrom (files : Files) (here place : Place) (content : List UInt8)
    (segments : List String) (h : files.isDirectory place = true) :
    (files.writeFrom here content segments).isDirectory place = true := by
  fun_induction writeFrom files here content segments with
  | case1 => exact h
  | case2 => exact h
  | case3 files here segment rest _ ih =>
      refine ih ?_
      simp only [isDirectory, makeDirectory, List.contains_cons, Bool.or_eq_true] at h ⊢
      exact h.imp_right Or.inr

theorem follow_writeFrom (files : Files) (here : Place) (content : List UInt8)
    (segments : List String) (h : segments ≠ []) :
    (files.writeFrom here content segments).follow here segments = some content := by
  fun_induction writeFrom files here content segments with
  | case1 => exact absurd rfl h
  | case2 => simp [follow, content?, put]
  | case3 files here segment rest rest_ne ih =>
      rw [follow, if_pos (isDirectory_writeFrom _ _ _ _ _ (isDirectory_makeDirectory _ _))]
      · exact ih rest_ne
      · exact rest_ne

end Files

end Jvm
