import KeyedLocks.CommandLine.Response

/-!
# The program

Reads the one file that the arguments ask for, and writes the response to the arguments.
-/

namespace KeyedLocks

/-- The reason why a file could not be opened, in which case the error names it, or read. -/
def FileError.ofError : IO.Error → FileError
  | .noFileOrDirectory .. => .notFound
  | .inappropriateType (some _) .. => .notDirectory
  | .inappropriateType none .. => .isDirectory
  | e => .other (toString e)

/-- The text of a file. -/
def readText (path : String) : IO (Except FileError String) := do
  try
    let bytes ← IO.FS.readBinFile path
    match String.fromUTF8? bytes with
    | some text => return .ok text
    | none => return .error .notUtf8
  catch e => return .error (.ofError e)

end KeyedLocks

open KeyedLocks CommandLine in
def main (args : List String) : IO UInt32 := do
  let path := (Request.read args).toOption.bind Request.path?
  let contents ← match path with
    | none => pure (.error .notFound)
    | some path => readText path
  let response := respond { files := fun _ => contents, tellsTimes := true } args
  IO.print response.output
  IO.eprint response.errors
  return response.exitCode.toUInt32
