/-!
Folders: the files a host can read, by name, and reading one by a path through them. A folder
holds files and empty folders; what lies outside it is not there.
-/
namespace ChipEight.Host

/-- Why a file could not be read. -/
inductive ReadError where
  | notFound
  /-- The path goes on behind a file. -/
  | notADirectory
  /-- The path ends at a folder. -/
  | isADirectory
  /-- The path, or a name in it, has too many bytes. -/
  | nameTooLong
  /-- The path holds a character that no path can hold. -/
  | nulInName
  /-- Anything else, in the words of the system. -/
  | other (message : String)
  deriving DecidableEq

/-- The wording shown for a file that could not be read. -/
def ReadError.message : ReadError → String
  | notFound => "No such file or directory (os error 2)"
  | notADirectory => "Not a directory (os error 20)"
  | isADirectory => "Is a directory (os error 21)"
  | nameTooLong => "File name too long (os error 36)"
  | nulInName => "file name contained an unexpected NUL byte"
  | other message => message

/-- Names, each with the bytes of a file, or with nothing for an empty folder. -/
structure Folder where
  entries : List (String × Option (List UInt8))
  deriving DecidableEq

/-- Where a path has led to. -/
inductive Place where
  /-- The folder itself. -/
  | top
  /-- An empty folder in it. -/
  | inner
  /-- The folders around it. -/
  | outside
  | file (contents : List UInt8)
  deriving DecidableEq

namespace Folder

/-- The bytes a path has at most. -/
def pathCapacity : Nat := 4095

/-- The bytes a name in a path has at most. -/
def nameCapacity : Nat := 255

/-- One step of a path. -/
def enter (folder : Folder) (name : String) : Place → Except ReadError Place
  | .file _ => .error .notADirectory
  | place =>
      if name = "" ∨ name = "." then .ok place
      else if nameCapacity < name.utf8ByteSize then .error .nameTooLong
      else if name = ".." then .ok (if place = .inner then .top else .outside)
      else
        match place, folder.entries.lookup name with
        | .top, some (some contents) => .ok (.file contents)
        | .top, some none => .ok .inner
        | _, _ => .error .notFound

/-- The bytes of the file at a path. -/
def read (folder : Folder) (path : String) : Except ReadError (List UInt8) := do
  if path.toList.contains (Char.ofNat 0) then throw .nulInName
  if pathCapacity < path.utf8ByteSize then throw .nameTooLong
  let start := if path.startsWith "/" then .outside else .top
  match ← (path.splitOn "/").foldlM (fun place name => folder.enter name place) start with
  | .file contents => return contents
  | _ => throw .isADirectory

end Folder
end ChipEight.Host
