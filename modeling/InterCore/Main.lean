import InterCore.Demo

/-!
# Command line

Runs the demonstration. An argument names a file with settings; without one, and where the file
cannot be read, the defaults hold.
-/

namespace InterCore.CommandLine

/-- The settings in a file, or the defaults. -/
def readSwitches (path : String) : IO Switches := do
  try
    let bytes ← IO.FS.readBinFile path
    return Switches.ofBytes bytes.toList
  catch _ =>
    return {}

/-- Run the demonstration, print what it leaves, and return its exit code. -/
def run (args : List String) : IO UInt32 := do
  let switches ← match args with
    | path :: _ => readSwitches path
    | [] => pure {}
  let transcript := Demo.run switches
  for line in transcript.out do
    IO.println line
  for line in transcript.err do
    IO.eprintln line
  return transcript.exitCode

end InterCore.CommandLine

/-- The program. -/
def main (args : List String) : IO UInt32 :=
  InterCore.CommandLine.run args
