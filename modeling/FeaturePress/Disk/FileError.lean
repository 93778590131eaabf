import FeaturePress.Path

/-! Why a disk operation fails: what was asked for is missing, or the disk refuses. An error names
the path that the operation was given.
-/

namespace FeaturePress

/-- Why a disk refuses an operation on something that it may hold. -/
inductive Refusal where
  | permissionDenied
  | alreadyExists
  | notADirectory
  | isADirectory
  | invalidName
  | tooManyOpen
  | nameTooLong
  | nulInPath
  | outsideDirectory
deriving DecidableEq

namespace Refusal

/-- All refusals. -/
def all : List Refusal :=
  [.permissionDenied, .alreadyExists, .notADirectory, .isADirectory, .invalidName, .tooManyOpen,
   .nameTooLong, .nulInPath, .outsideDirectory]

/-- The text of a refusal, with the number that systems know it by. -/
def message : Refusal → Text
  | .permissionDenied => "Permission denied (os error 13)".toList
  | .alreadyExists => "File exists (os error 17)".toList
  | .notADirectory => "Not a directory (os error 20)".toList
  | .isADirectory => "Is a directory (os error 21)".toList
  | .invalidName => "Invalid argument (os error 22)".toList
  | .tooManyOpen => "Too many open files (os error 24)".toList
  | .nameTooLong => "File name too long (os error 36)".toList
  | .nulInPath => "file name contained an unexpected NUL byte".toList
  | .outsideDirectory => "a path led outside of the filesystem".toList

end Refusal

/-- What stands in the way of an operation, before a path is named. -/
inductive Obstacle where
  | missing
  | refused (refusal : Refusal)
deriving DecidableEq

/-- The text of an obstacle. -/
def Obstacle.message : Obstacle → Text
  | .missing => "No such file or directory (os error 2)".toList
  | .refused refusal => refusal.message

/-- Why a file has no text: it cannot be read, or its bytes are not UTF-8. -/
inductive Fault where
  | blocked (obstacle : Obstacle)
  | notUtf8
deriving DecidableEq

/-- The text of a fault. -/
def Fault.message : Fault → Text
  | .blocked obstacle => obstacle.message
  | .notUtf8 => "stream did not contain valid UTF-8".toList

/-- Why an operation on files fails. -/
inductive FileError where
  | notFound (path : Path)
  | refused (path : Path) (refusal : Refusal)
  | noFileName (path : Path)
  | notUtf8 (path : Path)
  | unlistable (root directory : Path) (refusal : Refusal)
deriving DecidableEq

namespace FileError

/-- The start of every message about a path that is there. -/
def failureAt (path : Path) (reason : Text) : Text :=
  "I/O error at '".toList ++ path.spelling ++ "': ".toList ++ reason

/-- The text of a file error. -/
def message : FileError → Text
  | .notFound path => "path not found: ".toList ++ path.spelling
  | .refused path refusal => failureAt path refusal.message
  | .noFileName path =>
    failureAt path ("'".toList ++ path.spelling ++ "' has no file name".toList)
  | .notUtf8 path => failureAt path Fault.notUtf8.message
  | .unlistable root directory refusal =>
    failureAt root
      ("IO error for operation on ".toList ++ directory.spelling ++ ": ".toList
        ++ refusal.message)

end FileError

/-- The error of an operation on a path that meets an obstacle. -/
def Obstacle.at (path : Path) : Obstacle → FileError
  | .missing => .notFound path
  | .refused refusal => .refused path refusal

/-- The error of reading a path whose file has no text. -/
def Fault.at (path : Path) : Fault → FileError
  | .blocked obstacle => obstacle.at path
  | .notUtf8 => .notUtf8 path

end FeaturePress
