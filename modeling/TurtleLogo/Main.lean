import TurtleLogo.CommandLine.Drawing
import TurtleLogo.CommandLine.Tracing

/-! The program: the first argument chooses the tool, and the others are for the tool. -/

namespace TurtleLogo.CommandLine

def FileError.ofIO (e : IO.Error) : FileError :=
  match e with
  | .noFileOrDirectory .. => .notFound
  | .inappropriateType _ 21 _ => .isADirectory
  | .inappropriateType .. => .notADirectory
  | e => .other (toString e)

def readFile (path : String) : IO (Except FileError String) := do
  match ← (IO.FS.readBinFile path).toBaseIO with
  | .ok bytes => return textOf (.ok bytes)
  | .error e => return .error (.ofIO e)

def tell (r : Report) : IO UInt32 := do
  IO.print r.output
  IO.eprint r.complaint
  return r.exitCode.toUInt32

def trace (t : Tracing) : IO UInt32 := do tell (t.report (← readFile t.file))

def draw (d : Drawing) : IO UInt32 := do
  let result := d.result (← readFile d.file)
  match result.svg with
  | none => tell result.report
  | some svg =>
    match ← (IO.FS.writeFile d.output svg).toBaseIO with
    | .ok () => tell result.report
    | .error e => tell (Drawing.unwritten (.ofIO e))

end TurtleLogo.CommandLine

open TurtleLogo CommandLine in
def main (args : List String) : IO UInt32 := do
  match args with
  | "trace" :: rest =>
    match Tracing.ofArguments rest with
    | .ok t => trace t
    | .error text => tell (.usage text)
  | "draw" :: rest =>
    match Drawing.ofArguments rest with
    | .ok d => draw d
    | .error text => tell (.usage text)
  | _ => tell (.usage "usage: trace FILE or draw FILE")
