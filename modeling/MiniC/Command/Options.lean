import MiniC.Machine.Image

/-!
# Command line arguments

The arguments name one source file and may set the limits of the run. They are read from left to
right (`Request.ofArgs`): the first fault or the first demand for information decides, and only at
the end is it asked whether a file was named. Options may stand before and after the file; two
hyphens alone say that no more options follow.
-/

set_option autoImplicit false

namespace MiniC

/-- Why arguments are refused. -/
inductive UsageFault where
  | unknownOption (text : String)
  | repeatedOption (name : String)
  | missingValue (name : String)
  | invalidValue (name value : String)
  /-- An option that is a mere flag was given a value. -/
  | unexpectedValue (name : String)
  | extraArgument (text : String)
  | emptyFileName
  | missingFile
  deriving DecidableEq

/-- The wording of a refusal. -/
def UsageFault.message : UsageFault → String
  | unknownOption text => s!"unexpected argument '{text}' found"
  | repeatedOption name => s!"the argument '{name}' cannot be used multiple times"
  | missingValue name => s!"a value is required for '{name}' but none was supplied"
  | invalidValue name value => s!"invalid value '{value}' for '{name}'"
  | unexpectedValue name => s!"unexpected value for '{name}' found; no more were expected"
  | extraArgument text => s!"unexpected argument '{text}' found"
  | emptyFileName => "a value is required for '<FILE>' but none was supplied"
  | missingFile => "the following required arguments were not provided: <FILE>"

/-! ## Options -/

/-- The options that take a number. -/
inductive NumberOption where
  | heapSize | maxCallDepth
  deriving DecidableEq

/-- The long name of an option that takes a number. -/
def NumberOption.name : NumberOption → String
  | heapSize => "--heap-size"
  | maxCallDepth => "--max-call-depth"

/-- The options that take no value. -/
inductive FlagOption where
  | strict | verbose | version | help
  deriving DecidableEq

namespace FlagOption

/-- The long name of a flag. -/
def name : FlagOption → String
  | strict => "--strict"
  | verbose => "--verbose"
  | version => "--version"
  | help => "--help"

/-- The flag with a long name. -/
def ofName? (name : String) : Option FlagOption :=
  [strict, verbose, version, help].find? fun flag => flag.name = name

/-- The flag with a letter. -/
def ofLetter? : Char → Option FlagOption
  | 'v' => some verbose
  | 'V' => some version
  | 'h' => some help
  | _ => none

end FlagOption

/-- What the arguments read so far have set. -/
structure Settings where
  file : Option String := none
  heapSize : Option Nat := none
  maxCallDepth : Option Nat := none
  strict : Bool := false

/-- What the arguments ask for. -/
inductive Request where
  | run (file : String) (config : Config)
  | version
  | help
  | refuse (fault : UsageFault)

namespace Settings

/-- The limits that the settings fix; the others keep their usual values. -/
def config (settings : Settings) : Config :=
  let usual : Config := {}
  { heapCapacity := settings.heapSize.getD usual.heapCapacity
    maxCallDepth := settings.maxCallDepth.getD usual.maxCallDepth
    strict := settings.strict }

/-- The number that a decimal numeral below `2 ^ 64` writes; a plus sign may stand before it. -/
def number? (text : String) : Option Nat :=
  let digits := match text.toList with
    | '+' :: digits => digits
    | digits => digits
  if digits.isEmpty || !digits.all Char.isDigit then none
  else
    let n := digits.foldl (fun value d => 10 * value + (d.toNat - '0'.toNat)) 0
    if n < UInt64.size then some n else none

/-- Sets an option that takes a number; it may be set once. -/
def setNumber (settings : Settings) (opt : NumberOption) (text : String) :
    Except UsageFault Settings :=
  let current := match opt with
    | .heapSize => settings.heapSize
    | .maxCallDepth => settings.maxCallDepth
  if current.isSome then throw (.repeatedOption opt.name)
  else match number? text, opt with
    | some n, .heapSize => pure { settings with heapSize := some n }
    | some n, .maxCallDepth => pure { settings with maxCallDepth := some n }
    | none, _ => throw (.invalidValue opt.name text)

/-- Takes an argument that is no option, which names the file. -/
def setFile (settings : Settings) (text : String) : Except UsageFault Settings :=
  if settings.file.isSome then throw (.extraArgument text)
  else if text.isEmpty then throw .emptyFileName
  else pure { settings with file := some text }

end Settings

namespace Request

/-- Goes on with settings, or refuses. -/
def orRefuse (settings : Except UsageFault Settings) (next : Settings → Request) : Request :=
  match settings with
  | .ok settings => next settings
  | .error fault => refuse fault

/-- Carries out a flag and goes on, unless the flag decides. The flag that asks for more messages
may be repeated and changes nothing. -/
def afterFlag (settings : Settings) (next : Settings → Request) : FlagOption → Request
  | .verbose => next settings
  | .version => version
  | .help => help
  | .strict =>
    if settings.strict then refuse (.repeatedOption FlagOption.strict.name)
    else next { settings with strict := true }

/-- Carries out a cluster of letters after one hyphen and goes on. -/
def afterLetters (next : Settings → Request) : List Char → Settings → Request
  | [], settings => next settings
  | c :: letters, settings =>
    match FlagOption.ofLetter? c with
    | some flag => afterFlag settings (afterLetters next letters) flag
    | none => refuse (.unknownOption s!"-{c}")

/-- The request that settings amount to when all arguments are read. -/
def ofSettings (settings : Settings) : Request :=
  match settings.file with
  | some file => run file settings.config
  | none => refuse .missingFile

/-- Reads the arguments after two hyphens. -/
def afterHyphens : List String → Settings → Request
  | [], settings => ofSettings settings
  | arg :: args, settings => orRefuse (settings.setFile arg) (afterHyphens args)

/-- The long option that an argument writes: its name and the value after an equals sign. -/
def longOption? (arg : String) : Option (String × Option String) :=
  match arg.toList with
  | '-' :: '-' :: c :: rest =>
    let name := (c :: rest).takeWhile (· ≠ '=')
    let value := match (c :: rest).dropWhile (· ≠ '=') with
      | [] => none
      | _ :: value => some (String.ofList value)
    some ("--" ++ String.ofList name, value)
  | _ => none

/-- The letters of an argument that is a cluster of them. -/
def letters? (arg : String) : Option (List Char) :=
  match arg.toList with
  | '-' :: c :: letters => if c = '-' then none else some (c :: letters)
  | _ => none

/-- The option that takes a number and has a long name. -/
def numberOption? (name : String) : Option NumberOption :=
  [NumberOption.heapSize, .maxCallDepth].find? fun opt => opt.name = name

/-- Whether an argument can be the value of the option before it. -/
def isValue (arg : String) : Bool :=
  arg ≠ "--" && (longOption? arg).isNone && (letters? arg).isNone

/-- Reads arguments from left to right. -/
def afterArgs : List String → Settings → Request
  | [], settings => ofSettings settings
  | arg :: args, settings =>
    if arg = "--" then afterHyphens args settings
    else match longOption? arg with
      | some (name, attached) =>
        match numberOption? name with
        | some opt =>
          match attached with
          | some value => orRefuse (settings.setNumber opt value) (afterArgs args)
          | none =>
            match args with
            | [] => refuse (.missingValue name)
            | value :: others =>
              if isValue value then orRefuse (settings.setNumber opt value) (afterArgs others)
              else refuse (.missingValue name)
        | none =>
          match FlagOption.ofName? name, attached with
          | some flag, none => afterFlag settings (afterArgs args) flag
          | some _, some _ => refuse (.unexpectedValue name)
          | none, _ => refuse (.unknownOption name)
      | none =>
        match letters? arg with
        | some letters => afterLetters (afterArgs args) letters settings
        | none => orRefuse (settings.setFile arg) (afterArgs args)

/-- What a list of arguments asks for. -/
def ofArgs (args : List String) : Request := afterArgs args {}

end Request

end MiniC
