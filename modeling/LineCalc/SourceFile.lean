/-
  LineCalc/SourceFile.lean
  ========================
  **Source files.**  A source file is a path and a text whose lines are numbered
  from one.  Opening one looks the path up among the files of a directory tree;
  the file must hold UTF-8.
-/
import LineCalc.Text.Lines

namespace LineCalc

/-! ### Errors -/

/-- Why a file could not be opened. -/
inductive OpenFailure where
  | notFound
  | permissionDenied
  | notADirectory
  | isADirectory
  | nameTooLong
  | nulInPath
  | notUtf8
  | other (reason : String)
  deriving DecidableEq, Repr

def OpenFailure.reason : OpenFailure → String
  | .notFound => "No such file or directory (os error 2)"
  | .permissionDenied => "Permission denied (os error 13)"
  | .notADirectory => "Not a directory (os error 20)"
  | .isADirectory => "Is a directory (os error 21)"
  | .nameTooLong => "File name too long (os error 36)"
  | .nulInPath => "file name contained an unexpected NUL byte"
  | .notUtf8 => "stream did not contain valid UTF-8"
  | .other reason => reason

inductive SourceError where
  | fileNotOpened (path : String) (failure : OpenFailure)
  | lineOutOfBounds (line lines : Nat)
  deriving DecidableEq, Repr

def SourceError.message : SourceError → String
  | .fileNotOpened path failure => s!"Failed to open '{path}': {failure.reason}."
  | .lineOutOfBounds line lines =>
    s!"Line {line} is out of bounds, the text has {lines} lines."

/-! ### Directories -/

/-- A directory tree: the files in and below the current directory. -/
structure Directory where
  files : List (String × ByteArray)

namespace Directory

/-- What stands between the slashes of a path. -/
def splitSlashes : List Char → List (List Char)
  | [] => [[]]
  | c :: cs =>
    if c = '/' then [] :: splitSlashes cs
    else
      match splitSlashes cs with
      | [] => [[c]]
      | part :: parts => (c :: part) :: parts

def parts (path : String) : List String := (splitSlashes path.toList).map String.ofList

/-- The names along a path; `.` and repeated slashes lead nowhere. -/
def steps (path : String) : List String :=
  (parts path).filter fun step => step ≠ "" ∧ step ≠ "."

/-- The path can only lead to a directory. -/
def endsInDirectory (path : String) : Bool :=
  (parts path).getLast?.any fun step => step = "" ∨ step = "."

/-- The longest name of a file or directory, in bytes. -/
def nameLimit : Nat := 255

/-- The longest path, in bytes. -/
def pathLimit : Nat := 4095

/-- The first step along a path that none of the files lies at or below. -/
def firstMissing? (files : List (List String)) : List String → Option String
  | [] => none
  | step :: target =>
    let below := files.filterMap fun file =>
      match file with
      | [] => none
      | name :: rest => if name = step then some rest else none
    if below.isEmpty then some step else firstMissing? below target

/-- Why nothing is found at a path outside the tree: a name that no directory can
    hold is refused at the step that asks for it. -/
def missing (files : List (List String)) (target : List String) : OpenFailure :=
  if (firstMissing? files target).any (nameLimit < ·.utf8ByteSize) then .nameTooLong
  else .notFound

/-- The bytes of the file at a path.  Nothing is known of the world outside the
    tree but that its parents are directories. -/
def read (dir : Directory) (path : String) : Except OpenFailure ByteArray :=
  let target := steps path
  if path.toList.contains '\x00' then .error .nulInPath
  else if path = "" then .error .notFound
  else if pathLimit < path.utf8ByteSize then .error .nameTooLong
  else if target.all (· = "..") then .error .isADirectory
  else if path.startsWith "/" then .error (missing [] target)
  else
    match dir.files.find? fun (name, _) => steps name = target with
    | some (_, bytes) => if endsInDirectory path then .error .notADirectory else .ok bytes
    | none =>
      if dir.files.any fun (name, _) => target.isPrefixOf (steps name) then
        .error .isADirectory
      else if dir.files.any fun (name, _) => (steps name).isPrefixOf target then
        .error .notADirectory
      else .error (missing (dir.files.map fun (name, _) => steps name) target)

end Directory

/-! ### Source files -/

structure SourceFile where
  path : String
  text : String
  deriving DecidableEq, Repr

namespace SourceFile

/-- The source file of these bytes. -/
def ofBytes (path : String) (bytes : ByteArray) : Except SourceError SourceFile :=
  match String.fromUTF8? bytes with
  | some text => .ok ⟨path, text⟩
  | none => .error (.fileNotOpened path .notUtf8)

def read (dir : Directory) (path : String) : Except SourceError SourceFile :=
  match dir.read path with
  | .ok bytes => ofBytes path bytes
  | .error failure => .error (.fileNotOpened path failure)

def lineCount (file : SourceFile) : Nat := (Text.lines file.text).length

/-- The line with this number, counted from one. -/
def line (file : SourceFile) (number : Nat) : Except SourceError String :=
  match number with
  | 0 => .error (.lineOutOfBounds 0 file.lineCount)
  | index + 1 =>
    match (Text.lines file.text)[index]? with
    | some line => .ok line
    | none => .error (.lineOutOfBounds number file.lineCount)

end SourceFile

end LineCalc
