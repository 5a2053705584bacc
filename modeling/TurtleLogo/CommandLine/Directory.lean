import TurtleLogo.CommandLine.Drawing
import TurtleLogo.CommandLine.Tracing

/-! Running the tools on a directory that is held in memory and has no directories inside. -/

namespace TurtleLogo.CommandLine

/-- One use of a tool. -/
inductive Invocation
  | trace (t : Tracing)
  | draw (d : Drawing)

structure Directory where
  files : Table ByteArray

/-- Where a path leads. -/
inductive Place
  | file (name : String)
  | failed (e : FileError)

namespace Directory

/-- Empty parts and single dots of a path stay where they are. -/
def find (d : Directory) (path : String) : Place :=
  let parts := (path.splitOn "/").filter fun part => part != "" && part != "."
  if path = "" then .failed .notFound
  else if parts.all (· == "..") then .failed .isADirectory
  else if path.startsWith "/" then .failed .notFound
  else
    match parts with
    | [name] =>
      if !path.endsWith "/" then .file name
      else .failed (if d.files.contains name then .notADirectory else .notFound)
    | name :: _ => .failed (if d.files.contains name then .notADirectory else .notFound)
    | [] => .failed .isADirectory

def read (d : Directory) (path : String) : Except FileError ByteArray :=
  match d.find path with
  | .failed e => .error e
  | .file name =>
    match d.files.lookup name with
    | some bytes => .ok bytes
    | none => .error .notFound

def write (d : Directory) (path text : String) : Except FileError Directory :=
  match d.find path with
  | .failed e => .error e
  | .file name => .ok ⟨d.files.insert name text.toUTF8⟩

/-- The report of a tool, and the directory afterwards. -/
def run (d : Directory) : Invocation → Report × Directory
  | .trace t => (t.report (textOf (d.read t.file)), d)
  | .draw drawing =>
    let result := drawing.result (textOf (d.read drawing.file))
    match result.svg with
    | none => (result.report, d)
    | some svg =>
      match d.write drawing.output svg with
      | .ok after => (result.report, after)
      | .error e => (Drawing.unwritten e, d)

end Directory
end TurtleLogo.CommandLine
