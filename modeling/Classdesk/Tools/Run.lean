import Classdesk.Bytes

/-!
# Runs of programs

A program that was run has written some output and some diagnostics, and has ended with
a code or by a signal.
-/

namespace Classdesk.Tools

/-- How a program ended. -/
inductive ExitStatus
  | code (n : Nat)
  | signal (n : Nat)
  deriving DecidableEq, Repr

namespace ExitStatus

/-- Whether a program ended well. -/
def isSuccess (s : ExitStatus) : Bool := s == code 0

/-- The names of signals, from the first. -/
def signalNames : List String :=
  ["SIGHUP", "SIGINT", "SIGQUIT", "SIGILL", "SIGTRAP", "SIGABRT", "SIGBUS", "SIGFPE", "SIGKILL",
   "SIGUSR1", "SIGSEGV", "SIGUSR2", "SIGPIPE", "SIGALRM", "SIGTERM"]

/-- How the end of a program is told. -/
def text : ExitStatus → String
  | code n => s!"exit status: {n}"
  | signal n =>
    match if n = 0 then none else signalNames[n - 1]? with
    | some name => s!"signal: {n} ({name})"
    | none => s!"signal: {n}"

end ExitStatus

/-- What a program that was run has left. -/
structure Run where
  status : ExitStatus
  output : Bytes
  diagnostics : Bytes
  deriving DecidableEq, Repr

end Classdesk.Tools
