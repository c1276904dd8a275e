/-!
# Command line

Options are read from left to right. An option that takes a value is only
settled when the next one begins or the line ends, so that a missing or a
repeated value is noticed then; a word that is no option at all is noticed
at once.
-/

namespace ChainSync

structure Options where
  config : String
  network : String
  apiBind : Option String
  p2pBind : Option String
  seeds : List String
  noApi : Bool
  logLevel : String
  versionInfo : Bool
deriving DecidableEq

inductive OptionsStop
  | unknownArgument
  | invalidValue
  /-- An option that may be given once is given again. -/
  | argumentConflict
  /-- A value for an option that takes none. -/
  | tooManyValues
  | displayHelp
  | displayVersion
deriving DecidableEq

namespace OptionsStop

def name : OptionsStop → String
  | unknownArgument => "UnknownArgument"
  | invalidValue => "InvalidValue"
  | argumentConflict => "ArgumentConflict"
  | tooManyValues => "TooManyValues"
  | displayHelp => "DisplayHelp"
  | displayVersion => "DisplayVersion"

def message : OptionsStop → String
  | unknownArgument => "unexpected argument"
  | invalidValue => "a value is missing"
  | argumentConflict => "an argument cannot be used multiple times"
  | tooManyValues => "a value for an argument that takes none"
  | displayHelp => "help was asked for"
  | displayVersion => "the version was asked for"

/-- Whether the program was asked for what it then shows. -/
def isRequest : OptionsStop → Bool
  | displayHelp | displayVersion => true
  | _ => false

end OptionsStop

inductive Flag
  | config
  | network
  | apiBind
  | p2pBind
  | seed
  | noApi
  | logLevel
  | versionInfo
  | help
  | version
deriving DecidableEq

namespace Flag

def ofLong? : String → Option Flag
  | "config" => some config
  | "network" => some network
  | "api-bind" => some apiBind
  | "p2p-bind" => some p2pBind
  | "seed" => some seed
  | "no-api" => some noApi
  | "log-level" => some logLevel
  | "version-info" => some versionInfo
  | "help" => some help
  | "version" => some version
  | _ => none

def ofShort? : Char → Option Flag
  | 'c' => some config
  | 'n' => some network
  | 'h' => some help
  | 'V' => some version
  | _ => none

def takesValue : Flag → Bool
  | config | network | apiBind | p2pBind | seed | logLevel => true
  | noApi | versionInfo | help | version => false

end Flag

namespace Options

/-! ## What has been given -/

/-- The options settled so far, and the one that still waits, with its value if that has come. -/
structure Given where
  settled : List (Flag × String)
  waiting : Option (Flag × Option String)

def Given.has (f : Flag) (g : Given) : Bool :=
  g.settled.any (·.1 = f)

/-- Settles an option. Only the path of the configuration may not be empty. -/
def Given.settle (f : Flag) (value : Option String) (g : Given) : Except OptionsStop Given :=
  match f, value with
  | .help, _ => .error .displayHelp
  | .version, _ => .error .displayVersion
  | f, value =>
    if f.takesValue && value.isNone then .error .invalidValue
    else if g.has f && f ≠ .seed then .error .argumentConflict
    else if f = .config && value = some "" then .error .invalidValue
    else .ok { g with settled := g.settled ++ [(f, value.getD "")] }

def Given.complete (g : Given) : Except OptionsStop Given :=
  match g.waiting with
  | none => .ok g
  | some (f, value) => { g with waiting := none }.settle f value

/-- An option begins, with its value if that is attached. -/
def Given.begin (f : Flag) (value : Option String) (g : Given) : Except OptionsStop Given := do
  let g ← g.complete
  if f.takesValue && value.isNone then return { g with waiting := some (f, none) }
  g.settle f value

/-- A word that is no option is the value of the one that waits for it. -/
def Given.takeWord (w : String) (g : Given) : Except OptionsStop Given :=
  match g.waiting with
  | some (f, none) => .ok { g with waiting := some (f, some w) }
  | _ => .error .unknownArgument

/-! ## Words -/

/-- Behind `--`: a name, and what follows an equals sign. -/
def long (cs : List Char) (g : Given) : Except OptionsStop Given :=
  let name := cs.takeWhile (· ≠ '=')
  let value := match cs.dropWhile (· ≠ '=') with
    | _ :: value => some (String.ofList value)
    | [] => none
  match Flag.ofLong? (String.ofList name) with
  | none => .error .unknownArgument
  | some f => if !f.takesValue && value.isSome then .error .tooManyValues else g.begin f value

/-- Behind a single `-`: letters, of which one that takes a value takes the rest for it. -/
def short : List Char → Given → Except OptionsStop Given
  | [], g => .ok g
  | c :: rest, g =>
    match Flag.ofShort? c with
    | none => .error .unknownArgument
    | some f =>
      if f.takesValue then
        match rest with
        | [] => g.begin f none
        | '=' :: value => g.begin f (some (String.ofList value))
        | value => g.begin f (some (String.ofList value))
      else do short rest (← g.begin f none)

def words : List String → Given → Except OptionsStop Given
  | [], g => g.complete
  | w :: rest, g =>
    match w.toList with
    | ['-', '-'] => if rest.isEmpty then g.complete else .error .unknownArgument
    | '-' :: '-' :: cs => do words rest (← long cs g)
    | '-' :: c :: cs => do words rest (← short (c :: cs) g)
    | _ => do words rest (← g.takeWord w)

/-! ## Options -/

def Given.value? (f : Flag) (g : Given) : Option String :=
  (g.settled.find? (·.1 = f)).map (·.2)

def ofGiven (g : Given) : Options where
  config := (g.value? .config).getD "neo-node.toml"
  network := (g.value? .network).getD "mainnet"
  apiBind := g.value? .apiBind
  p2pBind := g.value? .p2pBind
  seeds := (g.settled.filter (·.1 = .seed)).map (·.2)
  noApi := g.has .noApi
  logLevel := (g.value? .logLevel).getD "info"
  versionInfo := g.has .versionInfo

/-- Reads the words of a command line, the program's name left out. -/
def parse (line : List String) : Except OptionsStop Options :=
  (words line ⟨[], none⟩).map ofGiven

end Options

end ChainSync
