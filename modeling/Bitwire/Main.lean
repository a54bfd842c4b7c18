import Bitwire.Command.Line

/-! The program: the commands over the files of the system. -/
namespace Bitwire.Command

/-- The cause behind an error of the system, whose codes may come negated. -/
def causeOfError (e : IO.Error) : FileCause :=
  match e with
  | .noFileOrDirectory .. => .notFound
  | .inappropriateType _ code _ =>
    if code = 20 ∨ 0 - code = 20 then .notDirectory else .isDirectory
  | .permissionDenied .. => .other (utf8 "permission denied")
  | .resourceExhausted _ code text =>
    if code = 28 ∨ 0 - code = 28 then .noSpace else .other (utf8 text)
  | e => .other (utf8 (toString e))

def pathString (path : Bytes) : String :=
  (String.fromUTF8? path.toByteArray).getD ""

instance : FileStore IO where
  readFile path := do
    match ← (IO.FS.Handle.mk (pathString path) .read).toBaseIO with
    | .error e => return .error ⟨.opening, path, causeOfError e⟩
    | .ok file =>
      try return .ok (← file.readBinToEnd).data.toList
      catch e => return .error ⟨.reading, path, causeOfError e⟩
  writeFile path content := do
    match ← (IO.FS.Handle.mk (pathString path) .write).toBaseIO with
    | .error e => return .error ⟨.opening, path, causeOfError e⟩
    | .ok file =>
      try
        file.write content.toByteArray
        -- what is still held back would be lost without notice when the file is closed
        file.flush
        return .ok ()
      catch e => return .error ⟨.writing, path, causeOfError e⟩

end Bitwire.Command

def main (args : List String) : IO UInt32 := do
  let ending ← Bitwire.Command.run (m := IO) (args.map Bitwire.utf8)
  (← IO.getStdout).write ending.stdout.toByteArray
  (← IO.getStderr).write ending.stderr.toByteArray
  return ending.exitCode.toUInt32
