/-!
# Files

What comes of reading a file by its path, and a directory of texts as one place to read from.
-/

namespace LoxLang

/-- Why a file cannot be read. -/
inductive ReadFailure
  | missing
  | denied
  | notADirectory
  | isADirectory
  | nameTooLong
  | notText
  | other (reason : String)
  deriving DecidableEq, Repr

def ReadFailure.message : ReadFailure → String
  | missing => "No such file or directory (os error 2)"
  | denied => "Permission denied (os error 13)"
  | notADirectory => "Not a directory (os error 20)"
  | isADirectory => "Is a directory (os error 21)"
  | nameTooLong => "File name too long (os error 36)"
  | notText => "stream did not contain valid UTF-8"
  | other reason => reason

/-- The texts of the files that can be read, by path. -/
abbrev Files := String → Except ReadFailure String

/-- Cut a text at every slash. -/
def pathNames : List Char → List String
  | [] => [""]
  | c :: cs =>
    if c = '/' then "" :: pathNames cs
    else match pathNames cs with
      | [] => [c.toString]
      | name :: rest => (c.toString ++ name) :: rest

/-- A directory and all that lies in it: texts, each with the names that lead to it. -/
structure Directory where
  texts : List (List String × String)

namespace Directory

/-- The number of bytes in the longest name. -/
def nameLimit : Nat :=
  255

/-- The number of bytes in the longest path. -/
def pathLimit : Nat :=
  4095

/-- Whether a name leads nowhere else. -/
def stays (name : String) : Bool :=
  name = "" || name = "."

/-- The names that lead one place up, if that is not outside. -/
def up? : List String → Option (List String)
  | [] => none
  | names => some names.dropLast

def ofFiles (files : List (String × String)) : Directory where
  texts := files.map fun (path, text) => ((pathNames path.toList).filter (!stays ·), text)

/-- Follow a path on from the place that the given names lead to. Outside the directory no names are
known. -/
def follow (d : Directory) : Option (List String) → List String → Except ReadFailure String
  | _, [] => .error .isADirectory
  | here, name :: rest =>
    if stays name then d.follow here rest
    else if name = ".." then d.follow (here.bind up?) rest
    else if nameLimit < name.utf8ByteSize then .error .nameTooLong
    else match here with
      | none => .error .missing
      | some names =>
        let names := names ++ [name]
        match d.texts.lookup names with
        | some text => if rest.isEmpty then .ok text else .error .notADirectory
        | none =>
          if d.texts.any fun (way, _) => names.isPrefixOf way then d.follow (some names) rest
          else .error .missing

/-- The text of a file. A path that begins with a slash begins outside the directory. -/
def read (d : Directory) : Files := fun path =>
  if pathLimit < path.utf8ByteSize then .error .nameTooLong
  else d.follow (if path.startsWith "/" then none else some []) (pathNames path.toList)

/-- On from a directory, a name that leads nowhere else may be left out. -/
theorem follow_of_stays (d : Directory) (here : Option (List String)) {name : String}
    (rest : List String) (h : stays name) : d.follow here (name :: rest) = d.follow here rest := by
  simp [follow, h]

end Directory

end LoxLang
