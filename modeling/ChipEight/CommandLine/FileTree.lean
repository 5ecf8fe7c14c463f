/-!
Files in folders, and what reading a path gives.
-/

namespace ChipEight

inductive FileError
  | notFound
  | isFolder
  /-- A file stands where the path needs a folder. -/
  | notFolder
  /-- Anything else that the system reports. -/
  | other (description : String)
  deriving DecidableEq, Repr

def FileError.message : FileError → String
  | .notFound => "No such file or directory (os error 2)"
  | .isFolder => "Is a directory (os error 21)"
  | .notFolder => "Not a directory (os error 20)"
  | .other description => description

/-- A file, or a folder with named entries. -/
inductive FileTree
  | file (bytes : List UInt8)
  | folder (entries : List (String × FileTree))

namespace FileTree

/-- Follow names from a node whose surrounding folders are `above`, the nearest
first.  The top folder lies in itself. -/
def follow (here : FileTree) (above : List FileTree) :
    List String → Except FileError FileTree
  | [] => .ok here
  | name :: rest =>
    match here with
    | .file _ => .error .notFolder
    | .folder entries =>
      if name = "" ∨ name = "." then follow here above rest
      else if name = ".." then
        match above with
        -- the top folder
        | [] => follow here [] rest
        | up :: further => follow up further rest
      else
        match entries.lookup name with
        | none => .error .notFound
        | some found => follow found (here :: above) rest

def parts : List Char → List (List Char)
  | [] => [[]]
  | '/' :: rest => [] :: parts rest
  | c :: rest =>
    match parts rest with
    | [] => [[c]]
    | first :: others => (c :: first) :: others

/-- Read the file of a path in a folder `here` inside the folders `above`.  A
path that starts with a slash starts at the top. -/
def read (here : FileTree) (above : List FileTree) (path : String) :
    Except FileError (List UInt8) :=
  let names := (parts path.toList).map String.ofList
  let found :=
    if path.toList.head? = some '/' then follow (above.getLastD here) [] names
    else follow here above names
  match found with
  | .error e => .error e
  | .ok (.folder _) => .error .isFolder
  | .ok (.file bytes) => .ok bytes

end FileTree

end ChipEight
