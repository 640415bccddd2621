import Instrumentation.Text.Pieces

/-!
Reading arguments by the table of a command's options. Options have a long name after two dashes
and maybe a letter after one; letters may share a dash, a value may follow after an equals sign or
as the next argument, and after two dashes alone nothing is an option any more.
-/
namespace Instrumentation.CommandLine

/-- What an option takes. -/
inductive Takes where
  /-- Nothing, and it is given at most once. -/
  | flag
  /-- Nothing, and it counts how often it is given. -/
  | count
  /-- A value that passes a test, at most once unless it may be repeated. -/
  | value (accepts : String → Bool) (repeated : Bool)
  /-- It asks for help, whatever follows. -/
  | help
  /-- It asks for the version, whatever follows. -/
  | version

structure OptionSpec where
  name : String
  letter : Option Char := none
  takes : Takes

/-- The arguments that a command knows. -/
structure Spec where
  options : List OptionSpec
  /-- The test that arguments without a dash have to pass. -/
  accepts : String → Bool := fun _ => false
  /-- How many such arguments there may be, if not any number. -/
  limit : Option Nat := some 0
  /-- What follows two dashes is kept apart. -/
  keepsTrailing : Bool := false

/-- The arguments that were given. -/
structure Given where
  flags : List String := []
  values : List (String × String) := []
  plain : List String := []
  trailing : List String := []
  deriving Inhabited

/-- Why reading ends early. -/
inductive Ending where
  | usage
  | help
  | version
  deriving DecidableEq, Repr

namespace Given

def hasFlag (g : Given) (name : String) : Bool := g.flags.contains name

/-- The values of an option, in order. -/
def valuesOf (g : Given) (name : String) : List String :=
  (g.values.filter fun v => v.1 == name).map Prod.snd

def value? (g : Given) (name : String) : Option String := (g.valuesOf name).head?

/-- Gives a value to an option. -/
def give (g : Given) (o : OptionSpec) (value : String) : Except Ending Given :=
  match o.takes with
  | .value accepts repeated =>
    if accepts value && (repeated || (g.valuesOf o.name).isEmpty) then
      .ok { g with values := g.values ++ [(o.name, value)] }
    else .error .usage
  | _ => .error .usage

/-- Gives an option that takes no value. -/
def raise (g : Given) (o : OptionSpec) : Except Ending Given :=
  match o.takes with
  | .flag => if g.hasFlag o.name then .error .usage else .ok { g with flags := g.flags ++ [o.name] }
  | .count => .ok { g with flags := g.flags ++ [o.name] }
  | .value .. => .error .usage
  | .help => .error .help
  | .version => .error .version

/-- One more argument without a dash. -/
def addPlain (spec : Spec) (g : Given) (a : String) : Except Ending Given :=
  if spec.accepts a && (spec.limit.all fun n => g.plain.length < n) then
    .ok { g with plain := g.plain ++ [a] }
  else .error .usage

end Given

def OptionSpec.takesValue (o : OptionSpec) : Bool :=
  match o.takes with
  | .value .. => true
  | _ => false

/-- What one argument amounts to: more is given, and maybe an option waits for its value. -/
abbrev Read := Except Ending (Given × Option OptionSpec)

/-- Letters that share a dash. -/
def readLetters (spec : Spec) : Given → List Char → Read
  | g, [] => .ok (g, none)
  | g, c :: cs =>
    match spec.options.find? fun o => o.letter == some c with
    | none => .error .usage
    | some o =>
      if o.takesValue then
        match cs with
        | [] => .ok (g, some o)
        | '=' :: value => (g.give o (String.ofList value)).map fun g => (g, none)
        | value => (g.give o (String.ofList value)).map fun g => (g, none)
      else match g.raise o with
        | .ok g => readLetters spec g cs
        | .error e => .error e

/-- A long name, maybe with a value. -/
def readLong (spec : Spec) (g : Given) (cs : List Char) : Read :=
  let (name, value) := match Text.cut '=' cs with
    | some (name, value) => (name, some (String.ofList value))
    | none => (cs, none)
  match spec.options.find? fun o => o.name == String.ofList name with
  | none => .error .usage
  | some o => match value with
    | some value => (g.give o value).map fun g => (g, none)
    | none => if o.takesValue then .ok (g, some o) else (g.raise o).map fun g => (g, none)

def readArgument (spec : Spec) (g : Given) (a : String) : Read :=
  match a.toList with
  | '-' :: '-' :: cs => readLong spec g cs
  | '-' :: c :: cs => readLetters spec g (c :: cs)
  | _ => (g.addPlain spec a).map fun g => (g, none)

/-- Whether an argument can be the value of the option before it. -/
def isValue (a : String) : Bool := a == "-" || a.toList.head? != some '-'

/-- The arguments after two dashes. -/
def readTrailing (spec : Spec) (g : Given) (args : List String) : Except Ending Given :=
  if spec.keepsTrailing then .ok { g with trailing := args }
  else args.foldlM (Given.addPlain spec) g

/-- Reads all arguments of a command. -/
def readArguments (spec : Spec) : Given → List String → Except Ending Given
  | g, [] => .ok g
  | g, a :: rest =>
    if a = "--" then readTrailing spec g rest
    else match readArgument spec g a with
      | .error e => .error e
      | .ok (g, none) => readArguments spec g rest
      | .ok (g, some o) => match rest with
        | [] => .error .usage
        | v :: rest =>
          if isValue v then
            match g.give o v with
            | .ok g => readArguments spec g rest
            | .error e => .error e
          else .error .usage

end Instrumentation.CommandLine
