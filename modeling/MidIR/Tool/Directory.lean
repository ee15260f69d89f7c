import MidIR.Tool.Failure

namespace MidIR.Tool

structure Directory where
  files : List (List String × List UInt8)

namespace Directory

def contents? (directory : Directory) (names : List String) : Option (List UInt8) :=
  directory.files.lookup names

def isDirectory (directory : Directory) (names : List String) : Bool :=
  names.isEmpty || directory.files.any fun (file, _) => file.length > names.length
    && file.take names.length == names

def enter (place : List String) (name : String) : List String :=
  if name = "" ∨ name = "." then place
  else if name = ".." then place.dropLast
  else place ++ [name]

def follow (directory : Directory) (place : List String) :
    List String → Except FileError (List String)
  | [] => .ok place
  | name :: names =>
    if (directory.contents? place).isSome then .error .notDirectory
    else if !directory.isDirectory place then .error .notFound
    else directory.follow (enter place name) names

/-- Where a path leads. Only the paths inside the directory lead anywhere. -/
def locate (directory : Directory) (path : String) : Except FileError (List String) :=
  match path.toList with
  | [] | '/' :: _ => .error .notFound
  | _ => directory.follow [] (Text.pieces '/' path)

def read (directory : Directory) (path : String) : Except FileError (List UInt8) :=
  match directory.locate path with
  | .error error => .error error
  | .ok place =>
    match directory.contents? place with
    | some bytes => .ok bytes
    | none => .error (if directory.isDirectory place then .isDirectory else .notFound)

def put (directory : Directory) (place : List String) (bytes : List UInt8) : Directory :=
  ⟨(place, bytes) :: directory.files.filter fun (file, _) => file != place⟩

def trimmed (path : String) : String :=
  String.ofList (path.toList.reverse.dropWhile (· = '/')).reverse

/-- Creates or replaces a file. No path that ends in a slash names a file. -/
def write (directory : Directory) (path : String) (bytes : List UInt8) :
    Except FileError Directory :=
  match directory.locate (trimmed path) with
  | .error error => .error error
  | .ok place =>
    if directory.isDirectory place || path.toList.getLast? = some '/' then .error .isDirectory
    else .ok (directory.put place bytes)

end Directory

end MidIR.Tool
