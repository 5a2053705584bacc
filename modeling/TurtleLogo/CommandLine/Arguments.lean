import TurtleLogo.Text.Digits

/-! Telling flags, their values and file names apart. -/

namespace TurtleLogo.CommandLine

/-- The flags of a tool; a letter is a short name for a flag with a value. -/
structure Flags where
  switches : List String
  valued : List String
  letters : List (Char × String)

structure Arguments where
  files : List String
  switches : List String
  values : List (String × String)

/-- One argument by its looks. -/
inductive Argument
  | long (name : String) (value : Option String)
  | short (letter : Char) (attached : List Char)
  | plain (text : String)

/-- An equals sign separates a flag from its value. -/
def Argument.ofString (arg : String) : Argument :=
  match arg.toList with
  | '-' :: '-' :: flag =>
    let name := String.ofList (flag.takeWhile (· != '='))
    match flag.dropWhile (· != '=') with
    | [] => .long name none
    | _ :: value => .long name (some (String.ofList value))
  | '-' :: letter :: '=' :: attached => .short letter attached
  | '-' :: letter :: attached => .short letter attached
  | _ => .plain arg

def looksLikeFlag (arg : String) : Bool :=
  match arg.toList with
  | '-' :: _ :: _ => true
  | _ => false

namespace Arguments

def addSwitch (a : Arguments) (name : String) : Except String Arguments :=
  if a.switches.contains name then .error ("--" ++ name ++ " is given twice")
  else .ok { a with switches := a.switches ++ [name] }

def addValue (a : Arguments) (name value : String) : Except String Arguments :=
  if (a.values.lookup name).isSome then .error ("--" ++ name ++ " is given twice")
  else .ok { a with values := a.values ++ [(name, value)] }

def addFile (a : Arguments) (file : String) : Arguments := { a with files := a.files ++ [file] }

/-- A value may follow its flag as an argument of its own. -/
def collect (flags : Flags) (a : Arguments) : List String → Except String Arguments
  | [] => .ok a
  | arg :: rest =>
    let detached (name : String) : Except String Arguments :=
      match rest with
      | [] => .error ("--" ++ name ++ " needs a value")
      | value :: rest =>
        if looksLikeFlag value then .error ("--" ++ name ++ " needs a value")
        else do collect flags (← a.addValue name value) rest
    match Argument.ofString arg with
    | .plain file => collect flags (a.addFile file) rest
    | .long "" none => .ok { a with files := a.files ++ rest }
    | .long name none =>
      if flags.switches.contains name then do collect flags (← a.addSwitch name) rest
      else if flags.valued.contains name then detached name
      else .error ("there is no flag --" ++ name)
    | .long name (some value) =>
      if flags.valued.contains name then do collect flags (← a.addValue name value) rest
      else .error ("there is no flag --" ++ name ++ " with a value")
    | .short letter attached =>
      match flags.letters.lookup letter with
      | none => .error ("there is no flag -" ++ letter.toString)
      | some name =>
        if attached.isEmpty then detached name
        else do collect flags (← a.addValue name (String.ofList attached)) rest

def ofList (flags : Flags) (args : List String) : Except String Arguments :=
  collect flags ⟨[], [], []⟩ args

def theFile (a : Arguments) : Except String String :=
  match a.files with
  | [file] => .ok file
  | [] => .error "no file is given"
  | _ => .error "more than one file is given"

/-- The value of a flag as `read?` understands it, or what stands for a missing flag. -/
def get {α : Type} (a : Arguments) (name : String) (read? : String → Option α) (missing : α) :
    Except String α :=
  match a.values.lookup name with
  | none => .ok missing
  | some text =>
    match read? text with
    | some value => .ok value
    | none => .error (text ++ " is no value for --" ++ name)

end Arguments

/-- A natural number of at most 64 bits. -/
def readNat? (text : String) : Option Nat :=
  let digits :=
    match text.toList with
    | '+' :: rest => rest
    | cs => cs
  if digits.isEmpty || !digits.all Char.isDigit then none
  else
    let n := Text.natOfDigits digits
    if n < Nat.pow 2 64 then some n else none

end TurtleLogo.CommandLine
