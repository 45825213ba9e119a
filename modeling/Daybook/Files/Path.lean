import Daybook.Text.Basic

/-!
# Paths

A path is a text with slashes between its segments. One that begins with a slash is absolute and
starts at the root.
-/

namespace Daybook.Path

open Daybook.Text

def isSeparator (c : Char) : Bool := c = '/'

def isAbsolute (path : String) : Bool := path.toList.head?.any isSeparator

/-- The segments of a path; an absolute one has an empty segment in front. -/
def segments (path : String) : List String := (pieces isSeparator path.toList).map String.ofList

def ofSegments (names : List String) : String := "/" ++ "/".intercalate names

/-- The path that `path` means to one who stands in the directory. -/
def join (directory path : String) : String :=
  if isAbsolute path then path
  else if directory = "" || directory.toList.getLast?.any isSeparator then directory ++ path
  else directory ++ "/" ++ path

/-- The directory in which the file of an absolute path lies. -/
def directory (path : String) : String :=
  match cutLast? isSeparator path.toList with
  | some ([], _) => "/"
  | some (before, _) => String.ofList before
  | none => ""

end Daybook.Path
