import AbbrevSite.CommandLine.Run

/-! The command line program. -/
open AbbrevSite CommandLine

def orElseGive {α : Type} (failed : α) (action : IO α) : IO α :=
  try action catch _ => pure failed

def machineFiles : Files IO where
  read? path := orElseGive none do
    let bytes ← IO.FS.readBinFile path
    pure (String.fromUTF8? bytes)
  isFile path := orElseGive false do
    let info ← (← IO.FS.realPath path).metadata
    pure (info.type == .file)
  isThere path := orElseGive false do
    (← IO.FS.realPath path).pathExists
  write path text := orElseGive false do
    IO.FS.writeFile path text
    pure true
  makeFolder path := orElseGive false do
    IO.FS.createDirAll path
    pure true

def settingsFolder : IO (Option String) := do
  match ← IO.getEnv "HOME", ← IO.getEnv "XDG_CONFIG_HOME" with
  | none, _ => pure none
  | some home, base =>
    let base := (base.filter fun b => b.startsWith "/").getD (home ++ "/.config")
    pure (some (base ++ "/emmetgate"))

def main (arguments : List String) : IO UInt32 := do
  let outcome ← run machineFiles (← settingsFolder) arguments
  IO.print outcome.output
  match outcome with
  | .done _ => pure ()
  | .failed f => IO.eprintln ("Error: " ++ f.message)
  | .misused => IO.eprintln "Usage: emmetgate [OPTIONS] [FILE]"
  pure outcome.exitCode.toUInt32
