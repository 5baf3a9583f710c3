/-!
# Files and folders

What a command reads comes from files, each named by a path. `Folder` is a folder in memory in
which paths lead where they would lead on a disk. Around it lie the folders above it and the few
places that every system has, `Folder.system`.
-/

namespace WeightedDns.CommandLine

/-- Why a file cannot be read. -/
inductive FileError where
  | notFound
  | isFolder
  /-- The path leads through a file. -/
  | notAFolder
  | nameTooLong
  /-- The path holds the character with the code zero. -/
  | nameEnds
  /-- The file is no text in UTF-8. -/
  | notText
  /-- Any other reason in words. -/
  | other (reason : String)
  deriving DecidableEq, Repr

/-- The wording of a reason. -/
def FileError.message : FileError → String
  | .notFound => "No such file or directory (os error 2)"
  | .isFolder => "Is a directory (os error 21)"
  | .notAFolder => "Not a directory (os error 20)"
  | .nameTooLong => "File name too long (os error 36)"
  | .nameEnds => "file name contained an unexpected NUL byte"
  | .notText => "stream did not contain valid UTF-8"
  | .other reason => reason

/-- The text of a file. -/
def textOf (content : ByteArray) : Except FileError String :=
  match String.fromUTF8? content with
  | some s => .ok s
  | none => .error .notText

/-- A folder with the contents of its files by their paths. -/
structure Folder where
  files : List (String × ByteArray)
  /-- Further folders in it. -/
  folders : List String := []

namespace Folder

/-- The most bytes that the name of a file takes. -/
def longestName : Nat := 255

/-- The most bytes that a path takes. -/
def longestPath : Nat := 4095

/-- A name that leads to no other place, or up. -/
def isDots (name : String) : Bool := ["", ".", ".."].contains name

/-- The names on a path, with those left out that stay where they are. -/
def steps (path : String) : List String :=
  (path.splitOn "/").filter fun name => name != "" && name != "."

/-- The content of the file to which some steps lead. -/
def content? (f : Folder) (here : List String) : Option ByteArray :=
  (f.files.find? fun file => steps file.1 == here).map (·.2)

/-- Whether some steps lead to a folder: to this one, to one that a file lies in, or to a further
one. -/
def isFolder (f : Folder) (here : List String) : Bool :=
  here.isEmpty || f.folders.any (fun path => here.isPrefixOf (steps path)) ||
    f.files.any fun file =>
      here.length < (steps file.1).length && here.isPrefixOf (steps file.1)

/-- Why the names that are left lead to no file once a path has gone up out of the folder. Only the
folders on the way up are known to be there. -/
def astray : List String → FileError
  | [] => .isFolder
  | name :: rest =>
    if isDots name then astray rest
    else if longestName < name.utf8ByteSize then .nameTooLong
    else .notFound

/-- Follow the names of a path from a place in the folder. -/
def follow (f : Folder) (here : List String) : List String → Except FileError ByteArray
  | [] =>
    match f.content? here with
    | some content => .ok content
    | none => .error (if f.isFolder here then .isFolder else .notFound)
  | name :: rest =>
    if !f.isFolder here then
      .error (if (f.content? here).isSome then .notAFolder else .notFound)
    else if longestName < name.utf8ByteSize then .error .nameTooLong
    else if name == "" || name == "." then f.follow here rest
    else if name == ".." then
      if here.isEmpty then .error (astray rest) else f.follow here.dropLast rest
    else f.follow (here ++ [name]) rest

/-- What every system has at the same place: some folders, and a file that is always empty. -/
def system : Folder where
  files := [("dev/null", .empty)]
  folders := ["bin", "dev", "etc", "home", "proc", "root", "sys", "tmp", "usr", "var"]

/-- The text of the file at a path. A path that begins with a slash leaves from the top of the
system, where going up leads nowhere else. -/
def read (f : Folder) (path : String) : Except FileError String := do
  if path.toList.contains '\x00' then throw .nameEnds
  if longestPath < path.utf8ByteSize then throw .nameTooLong
  let names := path.splitOn "/"
  if names.head? == some "" then textOf (← system.follow [] (names.dropWhile isDots))
  else textOf (← f.follow [] names)

end Folder

end WeightedDns.CommandLine
