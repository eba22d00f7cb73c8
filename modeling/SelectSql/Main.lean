import SelectSql.CommandLine

/-!
# SelectSql.Main

The program: it reads the files that the command line asks for, and prints the outcome.
-/

namespace SelectSql.CommandLine

/-- Reads a file. -/
def readPath (path : String) : IO Content := do
  try
    return .ok (← IO.FS.readFile path)
  catch
    | .noFileOrDirectory .. => return .error .missing
    | .inappropriateType _ 20 _ => return .error .notDirectory
    | .inappropriateType _ 21 _ => return .error .isDirectory
    | .invalidArgument _ 36 _ => return .error .nameTooLong
    | e => return .error (.other (toString e))

/-- The directory of settings: the one that the environment names by an absolute path, or
else the usual one of the user. -/
def settingsDirectory? : IO (Option String) := do
  match ← IO.getEnv "XDG_CONFIG_HOME" with
  | some dir => if dir.startsWith "/" then return some dir
  | none => pure ()
  return (← IO.getEnv "HOME").map (· ++ "/.config")

/-- What the command line can see. -/
def surroundings (args : List String) : IO Surroundings := do
  let contents ← (paths args).mapM fun path => do return (path, ← readPath path)
  let settings ← match ← settingsDirectory? with
    | some dir => pure (Content.ifPresent (← readPath (dir ++ "/sqlweave/config.toml")))
    | none => pure none
  return {
    read := fun path => (contents.lookup path).getD (.error .missing)
    settings
    url := ← IO.getEnv "SQLWEAVE_DATABASE_URL" }

end SelectSql.CommandLine

open SelectSql.CommandLine in
/-- Runs the command. -/
def main (args : List String) : IO UInt32 := do
  let outcome := run args (← surroundings args)
  IO.print outcome.stdout
  IO.eprint outcome.stderr
  return UInt32.ofNat outcome.exitCode
