/-!
# Paths in a directory

A `Directory` is the directory in which a program runs, known by the files it holds. `read` follows
a path through it, part by part, and gives the content of the file at its end or the reason why
there is none.

Of what lies around the directory only this is known: above a directory there is a directory. Names
are looked up there in vain.
-/

namespace Shader

/-- Why a path leads to no content. -/
inductive PathFailure where
  | notFound
  /-- The path goes on after a file. -/
  | notDirectory
  | isDirectory
  /-- The path, or a name in it, is too long. -/
  | tooLong
  | denied
  deriving DecidableEq, Repr

namespace PathFailure

/-- The number by which a failure is known to the system. -/
def number : PathFailure → Nat
  | .notFound => 2
  | .denied => 13
  | .notDirectory => 20
  | .isDirectory => 21
  | .tooLong => 36

def text : PathFailure → String
  | .notFound => "No such file or directory"
  | .denied => "Permission denied"
  | .notDirectory => "Not a directory"
  | .isDirectory => "Is a directory"
  | .tooLong => "File name too long"

def message (f : PathFailure) : String := s!"{f.text} (os error {f.number})"

def ofNumber? (n : Nat) : Option PathFailure :=
  [.notFound, .denied, .notDirectory, .isDirectory, .tooLong].find? (number · = n)

end PathFailure

structure Directory where
  files : List (String × String)
  deriving DecidableEq, Repr

namespace Directory

/-- Where a path has led so far. -/
inductive Place where
  /-- The directory itself. -/
  | inside
  /-- A directory around it. -/
  | outside
  | file (content : String)
  deriving DecidableEq, Repr

/-- The most bytes that a name has. -/
def nameLimit : Nat := 255

/-- The most bytes that a path has. -/
def pathLimit : Nat := 4095

def find (d : Directory) (p : Place) (name : String) : Except PathFailure Place :=
  if nameLimit < name.utf8ByteSize then .error .tooLong
  else
    match p, d.files.lookup name with
    | .inside, some content => .ok (.file content)
    | _, _ => .error .notFound

/-- Follows one part of a path. An empty part and a point stay, two points go up. -/
def step (d : Directory) (p : Place) (part : String) : Except PathFailure Place :=
  match p, part with
  | .file _, _ => .error .notDirectory
  | p, "" => .ok p
  | p, "." => .ok p
  | _, ".." => .ok .outside
  | p, name => d.find p name

/-- The content of the file at the end of a path. A path that starts with a slash starts outside. -/
def read (d : Directory) (path : String) : Except PathFailure String := do
  if pathLimit < path.utf8ByteSize then throw .tooLong
  let start : Place := if path.startsWith "/" then .outside else .inside
  match ← (path.splitOn "/").foldlM d.step start with
  | .file content => .ok content
  | _ => throw .isDirectory

end Directory

end Shader
