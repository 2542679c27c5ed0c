import CodeListing.Highlighter
import CodeListing.Stylesheet

/-!
# The command line

Shows the code on the standard input as one fenced block, or prints the style sheet.
`CommandLine.parse` makes an invocation of the arguments; `Invocation.respond` says what is written
and with which exit code, for given contents of the files and of the input.
-/

namespace CodeListing.CommandLine

/-- What the arguments have said so far. -/
structure Options where
  info : Option String := none
  light : Option String := none
  dark : Option String := none
  numberLines : Bool := false
  css : Bool := false
  aliases : List String := []
  deriving DecidableEq, Repr

/-- What is wrong with the arguments. -/
inductive UsageError
  | unknownOption (option : String)
  | missingValue (option : String)
  | unexpectedValue (option : String)
  | repeated (option : String)
  | extraArgument (argument : String)
  | missingTheme (option : String)
  deriving DecidableEq, Repr

/-- The error in words. -/
def UsageError.message : UsageError → String
  | .unknownOption option => "unknown option '" ++ option ++ "'"
  | .missingValue option => "a value is required for '" ++ option ++ "'"
  | .unexpectedValue option => "'" ++ option ++ "' takes no value"
  | .repeated option => "'" ++ option ++ "' is given twice"
  | .extraArgument argument => "unexpected argument '" ++ argument ++ "'"
  | .missingTheme option => "'" ++ option ++ "' is required"

/-- What the program is asked to do. -/
inductive Invocation
  /-- To say how it is used. -/
  | help
  /-- To print the style sheet. -/
  | stylesheet
  /-- To show the input, with the light and the dark theme from these files. -/
  | listing (light dark : String) (options : Options)
  deriving DecidableEq, Repr

/-- Options that are followed by a value. -/
inductive ValueOption
  | light
  | dark
  | languageAlias
  deriving DecidableEq, Repr

/-- Options that stand on their own. -/
inductive Flag
  | numberLines
  | css
  deriving DecidableEq, Repr

/-- An argument that stands for an option. -/
inductive OptionName
  | valued (option : ValueOption)
  | flag (flag : Flag)
  | help
  deriving DecidableEq, Repr

/-- The option of this name. -/
def optionName? (name : String) : Option OptionName :=
  [("--light", .valued .light), ("--dark", .valued .dark),
    ("--language-alias", .valued .languageAlias),
    ("--line-numbers-by-default", .flag .numberLines), ("--css", .flag .css),
    ("--help", .help), ("--version", .help)].lookup name

/-- The options with a value for one of them.  A file has a name, and each theme is given once. -/
def Options.setValue (o : Options) (name value : String) : ValueOption → Except UsageError Options
  | .light =>
    if o.light.isSome then .error (.repeated name)
    else if value.isEmpty then .error (.missingValue name)
    else .ok { o with light := some value }
  | .dark =>
    if o.dark.isSome then .error (.repeated name)
    else if value.isEmpty then .error (.missingValue name)
    else .ok { o with dark := some value }
  | .languageAlias => .ok { o with aliases := o.aliases ++ [value] }

/-- The options with a flag set, which is given once. -/
def Options.setFlag (o : Options) (name : String) : Flag → Except UsageError Options
  | .numberLines =>
    if o.numberLines then .error (.repeated name) else .ok { o with numberLines := true }
  | .css => if o.css then .error (.repeated name) else .ok { o with css := true }

/-- The options with an argument that is no option: the words on the fence. -/
def Options.setInfo (o : Options) (argument : String) : Except UsageError Options :=
  match o.info with
  | some _ => .error (.extraArgument argument)
  | none => .ok { o with info := some argument }

/-- Whether an argument is written like an option, and so is no value of the option in front of
it. -/
def looksLikeOption (argument : String) : Bool := argument.startsWith "-" && argument != "-"

/-- An argument with a value in it: what stands in front of the first `=`, and what stands behind
it. -/
def splitValue (argument : String) : String × Option String :=
  match argument.toList.span (· != '=') with
  | (name, _ :: value) => (String.ofList name, some (String.ofList value))
  | (name, []) => (String.ofList name, none)

/-- The arguments behind `--`, none of which is an option. -/
def positional (o : Options) : List String → Except UsageError Options
  | [] => .ok o
  | argument :: arguments => do positional (← o.setInfo argument) arguments

/-- The options that arguments set, taken one after the other; none if they ask for help. -/
def collect (o : Options) : List String → Except UsageError (Option Options)
  | [] => .ok (some o)
  | argument :: arguments =>
    if argument = "--" then
      (positional o arguments).map some
    else if argument.startsWith "-h" || argument.startsWith "-V" then
      .ok none
    else if looksLikeOption argument then
      let (name, value) := splitValue argument
      match optionName? name, value with
      | none, _ => .error (.unknownOption name)
      | some .help, none => .ok none
      | some (.flag flag), none => do collect (← o.setFlag name flag) arguments
      | some .help, some _ => .error (.unexpectedValue name)
      | some (.flag _), some _ => .error (.unexpectedValue name)
      | some (.valued option), some value => do collect (← o.setValue name value option) arguments
      | some (.valued option), none =>
        match arguments with
        | [] => .error (.missingValue name)
        | value :: arguments =>
          if looksLikeOption value then .error (.missingValue name)
          else do collect (← o.setValue name value option) arguments
    else do
      collect (← o.setInfo argument) arguments

/-- What the arguments ask for.  Both themes are needed unless the style sheet is asked for. -/
def parse (arguments : List String) : Except UsageError Invocation := do
  match ← collect {} arguments with
  | none => return .help
  | some o =>
    if o.css then
      return .stylesheet
    else
      match o.light, o.dark with
      | none, _ => throw (.missingTheme "--light")
      | _, none => throw (.missingTheme "--dark")
      | some light, some dark => return .listing light dark o

/-- What the program writes, and its exit code. -/
structure Response where
  code : UInt8
  stdout : String := ""
  stderr : String := ""
  deriving DecidableEq, Repr

/-- How the program is used. -/
def usage : String :=
  "Shows the code on the standard input as a fenced code block.\n\n" ++
  "Arguments: [info] --light FILE --dark FILE\n\n" ++
  "  info                       the words on the fence, such as haskell:line-numbers[example]\n" ++
  "  --light FILE               the theme for light pages\n" ++
  "  --dark FILE                the theme for dark pages\n" ++
  "  --line-numbers-by-default  number the lines unless the fence says otherwise\n" ++
  "  --language-alias NAME      a language to accept; all are accepted if none is given\n" ++
  "  --css                      print the style sheet\n"

/-- The response to wrong arguments. -/
def UsageError.response (e : UsageError) : Response where
  code := 2
  stderr := "error: " ++ e.message ++ "\n\n" ++ usage

/-- The response to a failure. -/
def failure (e : Error) : Response where
  code := 1
  stderr := "Error: " ++ e.message ++ "\n"

/-- The theme in a file. -/
def loadTheme (readFile : String → Except String String) (path : String) : Except Error Theme :=
  match readFile path with
  | .error detail => .error (.unreadable detail)
  | .ok content => Theme.ofJson content

/-- The listing of the input, and why it is shown as plain text if it is. -/
def showInput (light dark : Theme) (options : Options) (input : String) :
    Except Error (String × Option FallbackReason) := do
  let languages := if options.aliases.isEmpty then none else some options.aliases
  let highlighter : Highlighter Unit Unit := {
    tokenizer := .plain languages
    stylist := .ofThemes light dark
    fallback := .plain
    config := { numberLines := options.numberLines } }
  let rendering := highlighter.render (.fenced (options.info.getD "") input) ""
  match ← rendering.outcome with
  | .highlighted .. => return (rendering.out, none)
  | .fallback reason => return (rendering.out, some reason)

/-- What the program does, for given files and a given input. -/
def Invocation.respond (readFile : String → Except String String)
    (readInput : Except String String) :
    Invocation → Response
  | .help => { code := 0, stdout := usage }
  | .stylesheet => { code := 0, stdout := Stylesheet.text }
  | .listing lightPath darkPath options =>
    let result := do
      let light ← loadTheme readFile lightPath
      let dark ← loadTheme readFile darkPath
      let input ← readInput.mapError .unreadable
      showInput light dark options input
    match result with
    | .error e => failure e
    | .ok (html, reason) => {
        code := 0
        stdout := html ++ "\n"
        stderr := match reason with
          | some reason => "Rendered as plain text: " ++ reason.message ++ "\n"
          | none => "" }

/-- The files whose contents a response depends on. -/
def Invocation.paths : Invocation → List String
  | .listing light dark _ => [light, dark]
  | _ => []

/-- What the program does with these arguments. -/
def run (arguments : List String) (readFile : String → Except String String)
    (readInput : Except String String) : Response :=
  match parse arguments with
  | .error e => e.response
  | .ok invocation => invocation.respond readFile readInput

end CodeListing.CommandLine
