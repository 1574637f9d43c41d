/-!
# File trees

Folders and files by name, and how a path leads through them.
-/

namespace Addons

/-- Why a file cannot be read. -/
inductive FileFault where
  | missing
  | isFolder
  /-- The path goes on after a file. -/
  | notFolder
  | nameTooLong
  | nulInName
  | notText
  deriving DecidableEq, Repr

def FileFault.message : FileFault → String
  | .missing => "No such file or directory (os error 2)"
  | .isFolder => "Is a directory (os error 21)"
  | .notFolder => "Not a directory (os error 20)"
  | .nameTooLong => "File name too long (os error 36)"
  | .nulInName => "file name contained an unexpected NUL byte"
  | .notText => "stream did not contain valid UTF-8"

inductive Tree where
  | file (bytes : ByteArray)
  | folder (entries : List (List UInt8 × Tree))
  deriving Inhabited

namespace Tree

def dot : UInt8 := 46

def slash : UInt8 := 47

/-- The names between the slashes of a path. -/
def names : List UInt8 → List (List UInt8)
  | [] => [[]]
  | b :: rest =>
    if b = slash then [] :: names rest
    else
      match names rest with
      | n :: ns => (b :: n) :: ns
      | [] => [[b]]

/-- Follow names from a place, of which `above` are the folders it lies in, the nearest first. An empty
name or a dot stays, two dots go up. -/
def follow (here : Tree) (above : List Tree) : List (List UInt8) → Except FileFault Tree
  | [] => .ok here
  | name :: rest =>
    match here with
    | .file _ => .error .notFolder
    | .folder entries =>
      if name = [] ∨ name = [dot] then follow here above rest
      else if name = [dot, dot] then
        match above with
        | [] => follow here [] rest
        | parent :: above => follow parent above rest
      else if 255 < name.length then .error .nameTooLong
      else
        match entries.lookup name with
        | some there => follow there (here :: above) rest
        | none => .error .missing

/-- The content of the file at a path. -/
def read (t : Tree) (path : List UInt8) : Except FileFault ByteArray := do
  if path.contains 0 then throw .nulInName
  match ← follow t [] (names path) with
  | .file bytes => return bytes
  | .folder _ => throw .isFolder

end Tree

end Addons
