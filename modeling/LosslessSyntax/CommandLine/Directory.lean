import LosslessSyntax.CommandLine

/-!
# CommandLine/Directory — sources without a file system

A directory that holds nothing but some files, together with what stands on the standard input, is
all that a call can read from.  Paths are taken from the directory, part by part: empty parts and
single dots lead nowhere else, two dots lead one level up, and a file leads no further.  Of what lies
outside nothing is known but that it consists of directories; a path that begins with a slash begins
there.
-/

namespace LosslessSyntax.CommandLine

/-- A directory of files, each with its path, and the standard input. -/
structure Directory where
  files : List (String × ByteArray)
  stdin : ByteArray

namespace Directory

/-- The parts of a path that lead somewhere. -/
def parts (path : String) : List String :=
  (path.splitOn "/").filter fun p => p != "" && p != "."

/-- Whether a path can only be that of a directory. -/
def endsInDirectory (path : String) : Bool :=
  path.endsWith "/" || path.endsWith "/."

/-- The content of the file at a place. -/
def file? (d : Directory) (place : List String) : Option ByteArray :=
  (d.files.find? fun f => parts f.1 == place).map (·.2)

/-- Whether a place is a directory, which only a file in it makes it. -/
def isDirectory (d : Directory) (place : List String) : Bool :=
  d.files.any fun f => place.length < (parts f.1).length && place.isPrefixOf (parts f.1)

/-- The most bytes that a name has. -/
def nameLimit : Nat := 255

/-- Fewer bytes than this make up a path. -/
def pathLimit : Nat := 4096

/-- A directory that a path has led to. -/
inductive Place
  /-- The directory itself, or one in it. -/
  | inside (parts : List String)
  /-- A directory around it. -/
  | outside
  deriving DecidableEq, Repr

/-- The directory around another. -/
def Place.parent : Place → Place
  | inside [] | outside => outside
  | inside parts => inside parts.dropLast

/-- What the parts of a path lead to from a place. -/
def follow (d : Directory) (place : Place) : List String → Except ReadFailure ByteArray
  | [] => .error .isDirectory
  | part :: more =>
    if part = ".." then d.follow place.parent more
    else if nameLimit < part.utf8ByteSize then .error .nameTooLong
    else
      match place with
      | .outside => .error .notFound
      | .inside parts =>
        match d.file? (parts ++ [part]) with
        | some bytes => if more.isEmpty then .ok bytes else .error .notDirectory
        | none =>
          if d.isDirectory (parts ++ [part]) then d.follow (.inside (parts ++ [part])) more
          else .error .notFound

/-- What a path leads to. -/
def readFile (d : Directory) (path : String) : Except ReadFailure ByteArray :=
  if pathLimit ≤ path.utf8ByteSize then .error .nameTooLong
  else
    match d.follow (if path.startsWith "/" then .outside else .inside []) (parts path) with
    | .ok bytes => if endsInDirectory path then .error .notDirectory else .ok bytes
    | .error e => .error e

/-- What a source holds. -/
def read (d : Directory) : Source → Except ReadFailure ByteArray
  | .stdin => .ok d.stdin
  | .file path => d.readFile path

end Directory

end LosslessSyntax.CommandLine
