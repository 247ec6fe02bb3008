import Pivotal.CommandLine

/-!
# The program

Runs the command line on the files of the machine.
-/

namespace Pivotal.CommandLine

/-- Why the machine refused a file. -/
def faultOf : IO.Error → FileFault
  | .noFileOrDirectory _ _ _ => .notFound
  | .inappropriateType _ _ _ => .isDirectory
  | e => .other (toString e)

/-- The files of the machine. -/
def machineFiles : Files IO where
  read path := do
    try return .ok (← IO.FS.readBinFile path)
    catch e => return .error (faultOf e)
  write path text := do
    try return .ok (← IO.FS.writeFile path text)
    catch e => return .error (faultOf e)

end Pivotal.CommandLine

def main (args : List String) : IO UInt32 := do
  let outcome ← Pivotal.CommandLine.run Pivotal.CommandLine.machineFiles args
  IO.print outcome.out
  IO.eprint outcome.err
  return outcome.code
