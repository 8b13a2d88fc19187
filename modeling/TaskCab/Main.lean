import Std.Time.Format
import TaskCab.CommandLine.Run

/-!
# The program

Calls on the files of the machine. Pages are not fetched: each counts as one that cannot be reached.
-/

namespace TaskCab.Main

def causeOf : IO.Error → FileError
  | .noFileOrDirectory .. | .noSuchThing .. => .notFound
  | .alreadyExists .. => .alreadyExists
  | .inappropriateType .. => .isDirectory
  | error => .other (toString error)

def guarded {Result : Type} (action : IO Result) : IO (Except FileError Result) := do
  try
    return .ok (← action)
  catch error => return .error (causeOf error)

def time : IO String := do
  let now ← Std.Time.Timestamp.now
  return (Std.Time.DateTime.ofTimestamp now Std.Time.TimeZone.ZoneRules.UTC).toISO8601String

def host : Host IO where
  isFile path := return (← guarded (IO.FS.readBinFile path)).isOk
  read path := guarded (IO.FS.readBinFile path)
  createDirectories path := guarded (if path.isEmpty then pure () else IO.FS.createDirAll path)
  write path text := guarded (IO.FS.writeFile path text)
  page _ := return none
  time := time
  print text := IO.print text
  parseConfig := Config.ofFile

end TaskCab.Main

open TaskCab in
def main (arguments : List String) : IO UInt32 := do
  let exit ← Main.host.call arguments
  match exit with
  | .success => pure ()
  | .failed failure => IO.eprintln failure.message
  | .misused => IO.eprint Request.usage
  return exit.code.toUInt32
