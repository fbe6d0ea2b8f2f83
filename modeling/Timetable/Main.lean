import Timetable.CommandLine

/-!
The program: reads the files that its arguments name, answers and ends with the code of the reply.
-/

namespace Timetable.CommandLine

/-- A path with the text of its file, if that can be read. -/
def readText (path : String) : IO (Option (String × String)) := do
  try return some (path, ← IO.FS.readFile path)
  catch _ => return none

/-- Replies to a command line with the files of the working directory. -/
def replyFromFiles (environment : Option String) (arguments : List String) : IO Reply := do
  let paths := match parse arguments environment with
    | .ok request => request.files
    | .error _ => []
  let texts ← paths.filterMapM readText
  return run (fun path => texts.lookup path) environment arguments

end Timetable.CommandLine

def main (arguments : List String) : IO UInt32 := do
  let environment ← IO.getEnv "EXAMPLAN__CONFIG"
  let reply ← Timetable.CommandLine.replyFromFiles environment arguments
  (← IO.getStdout).putStr reply.output
  return reply.code.toUInt32
