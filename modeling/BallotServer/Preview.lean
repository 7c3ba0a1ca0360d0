import BallotServer.Bytes
import BallotServer.SystemError
import BallotServer.Utf8

/-! The PNG preview of a ballot's first page. A program is run with the PDF on its standard input;
what it prints is the preview if it ended well, took the whole PDF and printed something. -/

namespace BallotServer

inductive ExitStatus
  | code (code : Nat)
  | signal (number : Nat) (coreDumped : Bool)
  deriving DecidableEq, Repr

namespace ExitStatus

def isSuccess : ExitStatus → Bool
  | code n => n == 0
  | signal _ _ => false

def signalNames : List String :=
  ["HUP", "INT", "QUIT", "ILL", "TRAP", "ABRT", "BUS", "FPE", "KILL", "USR1", "SEGV", "USR2",
    "PIPE", "ALRM", "TERM", "STKFLT", "CHLD", "CONT", "STOP", "TSTP", "TTIN", "TTOU", "URG",
    "XCPU", "XFSZ", "VTALRM", "PROF", "WINCH", "IO", "PWR", "SYS"]

def signalName? (number : Nat) : Option String :=
  if number = 0 then none else (signalNames[number - 1]?).map fun name => "SIG" ++ name

def text : ExitStatus → String
  | code n => "exit status: " ++ toString n
  | signal number coreDumped =>
    "signal: " ++ toString number ++
      (match signalName? number with
        | some name => " (" ++ name ++ ")"
        | none => "") ++
      (if coreDumped then " (core dumped)" else "")

end ExitStatus

inductive PreviewError
  | cannotStart (program : String) (cause : SystemError)
  | io (cause : SystemError)
  | failed (status : ExitStatus) (excerpt : String)
  | emptyOutput
  deriving DecidableEq, Repr

def PreviewError.message : PreviewError → String
  | cannotStart program cause => "could not run " ++ program ++ ": " ++ cause.message
  | io cause => "rasterizer i/o failed: " ++ cause.message
  | failed status excerpt => "rasterizer exited with " ++ status.text ++ ": " ++ excerpt
  | emptyOutput => "rasterizer produced no output"

namespace Preview

def excerptLength : Nat := 512

inductive Run
  | notStarted (cause : SystemError)
  | lost (cause : SystemError)
  | ended (status : ExitStatus) (feeding : Option SystemError) (output complaint : ByteArray)
  deriving DecidableEq

end Preview

structure Rasterizer where
  program : String
  dotsPerInch : Nat
  deriving DecidableEq, Repr

namespace Rasterizer

def defaultDotsPerInch : Nat := 100

def ofProgram (program : String) : Rasterizer := ⟨program, defaultDotsPerInch⟩

/-- The first page as a PNG, from standard input to standard output. -/
def arguments (r : Rasterizer) : List String :=
  ["-png", "-singlefile", "-f", "1", "-r", toString r.dotsPerInch, "-", "-"]

/-- The outcome of a conversion, from what came of the run. A bad end hides a PDF that was not
taken, and that hides an empty output. -/
def preview (r : Rasterizer) : Preview.Run → Except PreviewError ByteArray
  | .notStarted cause => .error (.cannotStart r.program cause)
  | .lost cause => .error (.io cause)
  | .ended status feeding output complaint =>
    if !status.isSuccess then
      .error (.failed status (Utf8.excerpt Preview.excerptLength complaint))
    else match feeding with
      | some cause => .error (.io cause)
      | none => if output.isEmpty then .error .emptyOutput else .ok output

theorem preview_eq_ok_iff (r : Rasterizer) (run : Preview.Run) (png : ByteArray) :
    r.preview run = .ok png ↔
      ∃ complaint, run = .ended (.code 0) none png complaint ∧ png.isEmpty = false := by
  cases run with
  | notStarted cause => simp [preview]
  | lost cause => simp [preview]
  | ended status feeding output complaint =>
    cases status with
    | signal number coreDumped => simp [preview, ExitStatus.isSuccess]
    | code n =>
      cases feeding <;> by_cases hn : n = 0 <;> by_cases ho : output.isEmpty <;>
        simp [preview, ExitStatus.isSuccess, hn, ho] <;> grind

end Rasterizer

end BallotServer
