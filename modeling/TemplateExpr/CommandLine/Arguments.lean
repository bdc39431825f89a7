/-!
# Arguments of the command line

Arguments are read from left to right, and the first one that settles the outcome does so: a
request for help or for the version, or a mistake. A switch or option is given at most once,
and what begins with a minus sign is no operand unless `--` stands before it.
-/

namespace TemplateExpr

/-- The commands that work on an expression. -/
inductive CommandName where
  | tokens
  | tree
  | check
  | evaluate
  deriving DecidableEq

/-- The pages of help: of the whole program, of the word `help` itself and of each command. -/
inductive HelpPage where
  | program
  | help
  | command (name : CommandName)
  deriving DecidableEq

/-- What the command line asks for. -/
inductive Request where
  | tokens (expression : String)
  | tree (expression : String) (pretty : Bool)
  | check (expression : String)
  | evaluate (expression : String) (scope locals : Option String) (pretty : Bool)
  | help (page : HelpPage)
  | version
  /-- The arguments make no sense. -/
  | usage
  deriving DecidableEq

namespace Arguments

/-- The switches and options. -/
inductive Flag where
  | verbose
  | help
  | pretty
  | scope
  | locals
  deriving DecidableEq

/-- Whether the flag is followed by a value. -/
def Flag.takesValue : Flag → Bool
  | .scope | .locals => true
  | _ => false

/-- The flags that are known everywhere, with their long and short names. -/
def commonFlags : List (String × Char × Flag) :=
  [("verbose", 'v', .verbose), ("help", 'h', .help)]

/-- The flags that are known where a page of help applies. -/
def flagsOf : HelpPage → List (String × Char × Flag)
  | .command .tree => ("pretty", 'p', .pretty) :: commonFlags
  | .command .evaluate =>
    ("scope", 's', .scope) :: ("locals", 'l', .locals) :: ("pretty", 'p', .pretty) :: commonFlags
  | _ => commonFlags

/-- What has been read of the arguments of a command. -/
structure Collected where
  operand : Option String := none
  switches : List Flag := []
  values : List (Flag × String) := []

/-- Whether the flag was given. -/
def Collected.has (collected : Collected) (flag : Flag) : Bool :=
  collected.switches.contains flag || (collected.values.lookup flag).isSome

/-- Add the value of an option, which may have only one. -/
def Collected.addValue (collected : Collected) (flag : Flag) (value : String) :
    Except Request Collected :=
  if collected.has flag then .error .usage
  else .ok { collected with values := (flag, value) :: collected.values }

/-- Add a switch, which may be given only once. -/
def Collected.addSwitch (collected : Collected) (page : HelpPage) (flag : Flag) :
    Except Request Collected :=
  if flag = .help then .error (.help page)
  else if collected.has flag then .error .usage
  else .ok { collected with switches := flag :: collected.switches }

/-- Add an operand, of which there is one. -/
def Collected.addOperand (collected : Collected) (operand : String) : Except Request Collected :=
  match collected.operand with
  | none => .ok { collected with operand := some operand }
  | some _ => .error .usage

/-- Take up an argument `--name` or `--name=value`. An option without its value waits for it. -/
def addLong (page : HelpPage) (collected : Collected) (text : List Char) :
    Except Request (Collected × Option Flag) :=
  let name := String.ofList (text.takeWhile (· != '='))
  let value := match text.dropWhile (· != '=') with
    | [] => none
    | _ :: value => some (String.ofList value)
  match (flagsOf page).find? (·.1 == name), value with
  | none, _ => .error .usage
  | some (_, _, flag), some value =>
    if flag.takesValue then (collected.addValue flag value).map (·, none) else .error .usage
  | some (_, _, flag), none =>
    if flag.takesValue then .ok (collected, some flag)
    else (collected.addSwitch page flag).map (·, none)

/-- Take up the letters after a minus sign. An option takes the rest of them as its value, and
waits for one if there are none. -/
def addShort (page : HelpPage) (collected : Collected) :
    List Char → Except Request (Collected × Option Flag)
  | [] => .ok (collected, none)
  | letter :: rest =>
    match (flagsOf page).find? (·.2.1 == letter) with
    | none => .error .usage
    | some (_, _, flag) =>
      if flag.takesValue then
        match rest with
        | [] => .ok (collected, some flag)
        | '=' :: value => (collected.addValue flag (String.ofList value)).map (·, none)
        | value => (collected.addValue flag (String.ofList value)).map (·, none)
      else do addShort page (← collected.addSwitch page flag) rest

/-- Take up the arguments of a command; `waiting` is the option whose value comes next. -/
def collect (page : HelpPage) (collected : Collected) (waiting : Option Flag) :
    List String → Except Request Collected
  | [] => if waiting.isSome then .error .usage else .ok collected
  | argument :: rest =>
    match argument.toList, waiting with
    | ['-', '-'], some _ => .error .usage
    | ['-', '-'], none => rest.foldlM Collected.addOperand collected
    | '-' :: _ :: _, some _ => .error .usage
    | '-' :: '-' :: text, none => do
      let (collected, waiting) ← addLong page collected text
      collect page collected waiting rest
    | '-' :: letter :: letters, none => do
      let (collected, waiting) ← addShort page collected (letter :: letters)
      collect page collected waiting rest
    | _, some flag => do collect page (← collected.addValue flag argument) none rest
    | _, none => do collect page (← collected.addOperand argument) none rest

/-- The command of a word. -/
def command? : String → Option CommandName
  | "tokens" => some .tokens
  | "ast" => some .tree
  | "check" => some .check
  | "eval" => some .evaluate
  | _ => none

/-- The request that the arguments of a command make. -/
def requestOf (command : CommandName) (arguments : List String) : Except Request Request := do
  let collected ← collect (.command command) {} none arguments
  match collected.operand with
  | none => return .usage
  | some expression =>
    match command with
    | .tokens => return .tokens expression
    | .tree => return .tree expression (collected.has .pretty)
    | .check => return .check expression
    | .evaluate =>
      return .evaluate expression (collected.values.lookup .scope)
        (collected.values.lookup .locals) (collected.has .pretty)

/-- The page that is asked for after the word `help`. -/
def helpRequest : List String → Request
  | [] => .help .program
  | ["help"] => .help .help
  | [name] => match command? name with
    | some command => .help (.command command)
    | none => .usage
  | _ => .usage

/-- Take up the letters after a minus sign that come before the command. -/
def addLeadingShort (collected : Collected) : List Char → Except Request Collected
  | [] => .ok collected
  | 'V' :: _ => .error .version
  | letter :: rest => do
    let (collected, _) ← addShort .program collected [letter]
    addLeadingShort collected rest

/-- The request of a whole command line. -/
def requestFrom (collected : Collected) : List String → Except Request Request
  | [] => .error .usage
  | "help" :: rest => .ok (helpRequest rest)
  | argument :: rest =>
    match argument.toList with
    | ['-', '-'] => .error .usage
    | '-' :: '-' :: text =>
      if argument = "--version" then .error .version
      else do
        let (collected, _) ← addLong .program collected text
        requestFrom collected rest
    | '-' :: letter :: letters => do
      let collected ← addLeadingShort collected (letter :: letters)
      requestFrom collected rest
    | _ =>
      match command? argument with
      | some command => requestOf command rest
      | none => .error .usage

end Arguments

/-- The request that the arguments of the command line make. -/
def Request.ofArguments (arguments : List String) : Request :=
  match Arguments.requestFrom {} arguments with
  | .ok request => request
  | .error request => request

end TemplateExpr
