import JavaSmith.Generate
import JavaSmith.Source

/-! The command line as a function of its arguments: what is printed, what is to be written to a
file, and the exit code. Arguments are read from left to right and the first that is not understood,
or that asks for the version, decides. -/
namespace JavaSmith.CommandLine

def programName : String := "jvmfuzz"

def versionNumber : String := "0.1.0"

structure Request where
  seed : Option UInt64
  className : Option String
  knobs : List String
  output : Option String
  deriving Inhabited

inductive Command where
  | generate (r : Request)
  | listKnobs
  /-- The version of the program or of one of its commands. -/
  | version (name : String)
  deriving Inhabited

inductive Opt where
  | seed | className | knob | output
  deriving DecidableEq, Inhabited

def Opt.ofLong? : List Char → Option Opt
  | cs =>
    if cs = "seed".toList then some .seed
    else if cs = "class-name".toList then some .className
    else if cs = "knob".toList then some .knob
    else if cs = "output".toList then some .output
    else none

/-- How an argument is written, apart from what it means. -/
inductive Token where
  /-- `--name` or `--name=value`. -/
  | long (name : List Char) (value : Option (List Char))
  /-- `-x`, with what is attached to it. -/
  | short (flag : Char) (attached : List Char)
  /-- `--`, after which nothing is an option. -/
  | escape
  | plain (text : List Char)
  deriving Inhabited

def Token.of (arg : String) : Token :=
  match arg.toList with
  | ['-', '-'] => .escape
  | '-' :: '-' :: rest =>
    match rest.dropWhile (· != '=') with
    | [] => .long rest none
    | _ :: value => .long (rest.takeWhile (· != '=')) (some value)
  | '-' :: flag :: attached => .short flag attached
  | text => .plain text

/-- Takes the value of an option. Only knobs may be given more than once, a seed is a 64-bit number,
and a path is not empty. -/
def Request.accept? (r : Request) (opt : Opt) (value : List Char) : Option Request :=
  match opt with
  | .seed =>
    match r.seed, Text.unsigned? UInt64.size value with
    | none, some n => some { r with seed := some (UInt64.ofNat n) }
    | _, _ => none
  | .className =>
    if r.className.isSome then none else some { r with className := some (.ofList value) }
  | .knob => some { r with knobs := r.knobs ++ [.ofList value] }
  | .output =>
    if r.output.isSome || value.isEmpty then none
    else some { r with output := some (.ofList value) }

/-- The value of an option from the argument after it, which must not look like an option. -/
def plain? : List String → Option (List Char × List String)
  | [] => none
  | arg :: rest =>
    match Token.of arg with
    | .plain value => some (value, rest)
    | _ => none

def isVersion : Token → Bool
  | .long name none => name == "version".toList
  | .short 'V' _ => true
  | _ => false

def optionOf? : Token → Option (Opt × Option (List Char))
  | .long name value => (Opt.ofLong? name).map fun opt => (opt, value)
  | .short 'o' [] => some (.output, none)
  | .short 'o' ('=' :: value) => some (.output, some value)
  | .short 'o' value => some (.output, some value)
  | _ => none

/-- Reads the arguments of `generate`, of which at most `fuel` remain. -/
def readRequest (r : Request) : (fuel : Nat) → List String → Option Command
  | _, [] => some (.generate r)
  | 0, _ => none
  | fuel + 1, arg :: rest =>
    let token := Token.of arg
    if isVersion token then some (.version (programName ++ "-generate"))
    else match token, optionOf? token with
      | .escape, _ => if rest.isEmpty then some (.generate r) else none
      | _, none => none
      | _, some (opt, some value) => do
        let r ← r.accept? opt value
        readRequest r fuel rest
      | _, some (opt, none) => do
        let (value, rest) ← plain? rest
        let r ← r.accept? opt value
        readRequest r fuel rest

def readBare (command : Command) (name : String) : List String → Option Command
  | [] => some command
  | arg :: rest =>
    let token := Token.of arg
    if isVersion token then some (.version (programName ++ "-" ++ name))
    else match token with
      | .escape => if rest.isEmpty then some command else none
      | _ => none

def read? : List String → Option Command
  | [] => none
  | arg :: rest =>
    if isVersion (Token.of arg) then some (.version programName)
    else if arg = "generate" then readRequest ⟨none, none, [], none⟩ rest.length rest
    else if arg = "list-knobs" then readBare .listKnobs "list-knobs" rest
    else none

/-- What a run comes to. -/
inductive Outcome where
  | printed (text : String)
  | written (path content : String)
  | failed (f : Fault)
  /-- The arguments were not understood. -/
  | refused
  deriving Inhabited

def padRight (width : Nat) (s : String) : String :=
  s ++ String.ofList (List.replicate (width - s.length) ' ')

def padLeft (width : Nat) (s : String) : String :=
  String.ofList (List.replicate (width - s.length) ' ') ++ s

def knobLine (k : Knob) : String :=
  padRight 28 k.name ++ " default " ++ padLeft 3 (toString k.spec.default) ++
  s!"  range {k.spec.least}..={k.spec.greatest}\n"

/-- Settings come before everything else, so a fault in them is told first. -/
def Request.source (r : Request) (chosenSeed : UInt64) : Except Fault String := do
  let knobs ← (Knobs.ofAssignments r.knobs).mapError Fault.knob
  let p ← JavaSmith.generate (r.seed.getD chosenSeed)
    ⟨r.className.getD Config.default.className, knobs⟩
  p.source

/-- Carries out a command. The chosen seed stands in for one that is not given. -/
def Command.run (c : Command) (chosenSeed : UInt64) : Outcome :=
  match c with
  | .version name => .printed (name ++ " " ++ versionNumber ++ "\n")
  | .listKnobs => .printed (String.join (Knob.all.map knobLine))
  | .generate r =>
    match r.source chosenSeed, r.output with
    | .error f, _ => .failed f
    | .ok text, none => .printed (text ++ "\n")
    | .ok text, some path => .written path text

def run (args : List String) (chosenSeed : UInt64) : Outcome :=
  match read? args with
  | none => .refused
  | some c => c.run chosenSeed

def fatalCode : Nat := 1

/-- A class that cannot be emitted, and arguments that are not understood, share a code. -/
def exitCodeOf : Fault → Nat
  | .emission _ _ => 2
  | .knob _ => 3
  | .breach _ | .unknownType _ => fatalCode

def refusedCode : Nat := 2

def Outcome.exitCode : Outcome → Nat
  | printed _ | written _ _ => 0
  | failed f => exitCodeOf f
  | refused => refusedCode

def logText (f : Fault) : String :=
  match exitCodeOf f with
  | 2 => "Could not emit the generated class: " ++ f.message
  | 3 => "Invalid configuration: " ++ f.message
  | _ => "Generator bug: " ++ f.message

end JavaSmith.CommandLine
