import PugTemplate.Path

/-!
# Arguments of the command line

A command line names a command and gives it switches, options with a value, and at most one
operand. An option's value is the rest of its argument or the next argument; it may begin with a
dash only in the first case. Behind a double dash everything is an operand.
-/

namespace PugTemplate.Command

inductive Shape where
  | switch
  /-- A value, which may be given several times or may be empty. -/
  | value (repeats mayBeEmpty : Bool)
  deriving DecidableEq, Repr

structure Flag where
  name : String
  letter : Option Char
  shape : Shape
  deriving DecidableEq, Repr

inductive Refusal where
  | misuse
  | helpWanted
  deriving DecidableEq, Repr

structure Given where
  operand : Option String
  switches : List String
  values : List (String × String)
  deriving DecidableEq, Repr

namespace Given

def nothing : Given :=
  ⟨none, [], []⟩

def isOn (given : Given) (name : String) : Bool :=
  given.switches.contains name

def all (given : Given) (name : String) : List String :=
  given.values.filterMap fun (other, value) => if other == name then some value else none

def turnOn (given : Given) (name : String) : Except Refusal Given :=
  if name == "help" then .error .helpWanted
  else if given.isOn name then .error .misuse
  else .ok { given with switches := name :: given.switches }

def addValue (given : Given) (name : String) (repeats mayBeEmpty : Bool) (value : String) :
    Except Refusal Given :=
  if (value.isEmpty && !mayBeEmpty) || (!repeats && !(given.all name).isEmpty) then
    .error .misuse
  else
    .ok { given with values := given.values ++ [(name, value)] }

def addOperand (given : Given) (value : String) : Except Refusal Given :=
  if value.isEmpty || given.operand.isSome then
    .error .misuse
  else
    .ok { given with operand := some value }

end Given

/-- What has been read, and the option that still waits for its value. -/
structure Reading where
  given : Given
  waiting : Option Flag
  deriving DecidableEq, Repr

def readLong (flags : List Flag) (given : Given) (text : List Char) : Except Refusal Reading :=
  let name := String.ofList (text.takeWhile (· != '='))
  let attached := (text.dropWhile (· != '=')).tail?.map String.ofList
  match flags.find? fun flag => flag.name == name with
  | none => .error .misuse
  | some flag =>
    match flag.shape, attached with
    | .switch, none => (given.turnOn flag.name).map fun given => ⟨given, none⟩
    | .switch, some _ => .error .misuse
    | .value _ _, none => .ok ⟨given, some flag⟩
    | .value repeats mayBeEmpty, some value =>
      (given.addValue flag.name repeats mayBeEmpty value).map fun given => ⟨given, none⟩

def readShort (flags : List Flag) (given : Given) : List Char → Except Refusal Reading
  | [] => .ok ⟨given, none⟩
  | letter :: rest =>
    match flags.find? fun flag => flag.letter == some letter with
    | none => .error .misuse
    | some flag =>
      match flag.shape with
      | .switch => do
        let turned ← given.turnOn flag.name
        readShort flags turned rest
      | .value repeats mayBeEmpty =>
        if rest.isEmpty then
          .ok ⟨given, some flag⟩
        else
          let value := if rest.head? == some '=' then rest.drop 1 else rest
          (given.addValue flag.name repeats mayBeEmpty (String.ofList value)).map fun given =>
            ⟨given, none⟩

def looksLikeOption (argument : String) : Bool :=
  argument.toList.head? == some '-' && argument != "-"

def readOption (flags : List Flag) (given : Given) (argument : String) : Except Refusal Reading :=
  if "--".toList.isPrefixOf argument.toList then
    readLong flags given (argument.toList.drop 2)
  else
    readShort flags given (argument.toList.drop 1)

def readArguments (flags : List Flag) : Reading → List String → Except Refusal Given
  | ⟨given, none⟩, [] => .ok given
  | ⟨_, some _⟩, [] => .error .misuse
  | ⟨given, none⟩, argument :: more =>
    if argument == "--" then
      more.foldlM Given.addOperand given
    else if looksLikeOption argument then do
      let reading ← readOption flags given argument
      readArguments flags reading more
    else do
      let added ← given.addOperand argument
      readArguments flags ⟨added, none⟩ more
  | ⟨given, some flag⟩, argument :: more =>
    match flag.shape with
    | .value repeats mayBeEmpty =>
      if looksLikeOption argument then
        .error .misuse
      else do
        let added ← given.addValue flag.name repeats mayBeEmpty argument
        readArguments flags ⟨added, none⟩ more
    | .switch => .error .misuse

def commonFlags : List Flag :=
  [⟨"verbose", some 'v', .switch⟩, ⟨"help", some 'h', .switch⟩]

def readName : Given → List String → Except Refusal (String × List String)
  | _, [] => .error .misuse
  | given, argument :: more =>
    if argument == "--" then
      .error .misuse
    else if looksLikeOption argument then do
      let reading ← readOption commonFlags given argument
      readName reading.given more
    else
      .ok (argument, more)

inductive Source where
  | standardInput
  | file (path : Path)
  deriving DecidableEq, Repr

structure CompileRequest where
  source : Source
  pretty : Bool
  paths : List Path
  extensions : List String
  config : Option Path
  deriving DecidableEq, Repr

inductive Request where
  /-- Compiles templates to files next to them, or standard input to standard output. -/
  | compile (request : CompileRequest)
  | tokens (source : Source) (json : Bool)
  | outline (source : Source)
  deriving DecidableEq, Repr

def compileFlags : List Flag :=
  [⟨"stdin", none, .switch⟩, ⟨"pretty", none, .switch⟩, ⟨"path", some 'I', .value true false⟩,
    ⟨"ext", none, .value true true⟩, ⟨"config", none, .value false false⟩] ++ commonFlags

def tokensFlags : List Flag :=
  [⟨"stdin", none, .switch⟩, ⟨"json", none, .switch⟩] ++ commonFlags

def outlineFlags : List Flag :=
  ⟨"stdin", none, .switch⟩ :: commonFlags

/-- Where the template is: standard input if that is asked for, else the operand, which is
needed then. -/
def Given.source (given : Given) : Except Refusal Source :=
  match given.isOn "stdin", given.operand with
  | true, _ => .ok .standardInput
  | false, some path => .ok (.file ⟨path⟩)
  | false, none => .error .misuse

def commandNames : List String :=
  ["compile", "tokens", "ast"]

namespace Request

def ofCommand (name : String) (arguments : List String) : Except Refusal Request :=
  if name == "compile" then do
    let given ← readArguments compileFlags ⟨.nothing, none⟩ arguments
    let source ← given.source
    return .compile ⟨source, given.isOn "pretty", (given.all "path").map Path.mk, given.all "ext",
      (given.all "config").head?.map Path.mk⟩
  else if name == "tokens" then do
    let given ← readArguments tokensFlags ⟨.nothing, none⟩ arguments
    let source ← given.source
    return .tokens source (given.isOn "json")
  else if name == "ast" then do
    let given ← readArguments outlineFlags ⟨.nothing, none⟩ arguments
    let source ← given.source
    return .outline source
  else if name == "help" && arguments.length ≤ 1 && arguments.all commandNames.contains then
    .error .helpWanted
  else
    .error .misuse

def ofArguments (arguments : List String) : Except Refusal Request := do
  let (name, rest) ← readName .nothing arguments
  ofCommand name rest

end Request

end PugTemplate.Command
