/-! What the operating system reports when a file or a process cannot be used. -/

namespace BallotServer

inductive SystemError
  | noSuchFile
  | permissionDenied
  | fileExists
  | notADirectory
  | brokenPipe
  | nameTooLong
  | other (text : String)
  deriving DecidableEq, Repr

def SystemError.message : SystemError → String
  | noSuchFile => "No such file or directory (os error 2)"
  | permissionDenied => "Permission denied (os error 13)"
  | fileExists => "File exists (os error 17)"
  | notADirectory => "Not a directory (os error 20)"
  | brokenPipe => "Broken pipe (os error 32)"
  | nameTooLong => "File name too long (os error 36)"
  | other text => text

end BallotServer
