/-!
# Command lines

The words of a command line are options, then a job with words of its own. Words are
taken from left to right and the first that is wrong decides; a request for the version
or for help is granted as soon as it is reached.

Options are `-c FILE` or `--config FILE`, once, and `-v` or `--verbose`, any number of
times. Short options may share a word, and a value may stand in the word of its option.
The jobs are `eval EXPR` and `keys KEY...`; without one there is a session. Behind the
word `--` no word is an option.

* `Request.ofWords`: what a command line asks for.
* `Options.withFile`: the rules for the settings file.
-/

namespace PocketCalculator.Command

/-- What is to be done. -/
inductive Job where
  | evaluate (expression : String)
  | press (labels : List String)
  | session
  deriving DecidableEq, Repr

/-- The options before the job. -/
structure Options where
  settingsFile? : Option String := none
  verbosity : Nat := 0
  deriving DecidableEq, Repr

/-- What a command line asks for. -/
inductive Request where
  | run (options : Options) (job : Job)
  | version
  | help
  deriving DecidableEq, Repr

/-- Why a command line cannot be followed. -/
inductive UsageError where
  | unknownOption (word : String)
  | unknownJob (word : String)
  | unexpected (word : String)
  | missingValue (word : String)
  | emptyValue
  | repeatedFile
  | needlessValue (word : String)
  | missingExpression
  | missingKeys
  deriving DecidableEq, Repr

/-- The wording of a usage error. -/
def UsageError.message : UsageError → String
  | unknownOption word => "unexpected option " ++ word
  | unknownJob word => "unknown command " ++ word
  | unexpected word => "unexpected argument " ++ word
  | missingValue word => "a value is required for " ++ word
  | emptyValue => "a value is required for --config"
  | repeatedFile => "--config cannot be used twice"
  | needlessValue word => "no value is expected in " ++ word
  | missingExpression => "an expression is required"
  | missingKeys => "a key is required"

/-- **Words that open an option**: a dash with something behind it. -/
def isOption (word : String) : Bool := word.toList.head? == some '-' && word != "-"

/-- The settings file is given once, and not as an empty word. -/
def Options.withFile (o : Options) (file : String) : Except UsageError Options :=
  if o.settingsFile?.isSome then .error .repeatedFile
  else if file.isEmpty then .error .emptyValue
  else .ok { o with settingsFile? := some file }

/-- What a word of options leads to. -/
inductive Effect where
  /-- The next word is read with these options. -/
  | proceed (o : Options)
  /-- The next word is the settings file. -/
  | awaitFile (o : Options)
  | version
  | help

/-- The effect of short options in one word, given without their dash. -/
def shortOptions (o : Options) : List Char → Except UsageError Effect
  | [] => .ok (.proceed o)
  | 'v' :: rest => shortOptions { o with verbosity := o.verbosity + 1 } rest
  | 'V' :: _ => .ok .version
  | 'h' :: _ => .ok .help
  | ['c'] => .ok (.awaitFile o)
  | 'c' :: '=' :: file => return .proceed (← o.withFile (String.ofList file))
  | 'c' :: file => return .proceed (← o.withFile (String.ofList file))
  | c :: _ => .error (.unknownOption ("-" ++ String.singleton c))

/-- The effect of a long option, given without its dashes. -/
def longOption (o : Options) (cs : List Char) : Except UsageError Effect :=
  let name := String.ofList (cs.takeWhile (· != '='))
  let value := cs.dropWhile (· != '=')
  match name, value with
  | "config", [] => .ok (.awaitFile o)
  | "config", _ :: file => return .proceed (← o.withFile (String.ofList file))
  | "verbose", [] => .ok (.proceed { o with verbosity := o.verbosity + 1 })
  | "version", [] => .ok .version
  | "help", [] => .ok .help
  | name, _ =>
    if ["verbose", "version", "help"].contains name then .error (.needlessValue name)
    else .error (.unknownOption ("--" ++ name))

/-- The effect of a word that opens an option. -/
def optionWord (o : Options) (word : String) : Except UsageError Effect :=
  match word.toList with
  | '-' :: '-' :: cs => longOption o cs
  | _ :: cs => shortOptions o cs
  | [] => .ok (.proceed o)

/-- **The words of a job**: all that are no options, and all behind `--`. The only
option is a request for help, for which nothing is returned. -/
def jobWords (most : Nat) : List String → Except UsageError (Option (List String))
  | [] => .ok (some [])
  | word :: rest =>
    if word = "--" then
      match rest[most]? with
      | some extra => .error (.unexpected extra)
      | none => .ok (some rest)
    else if isOption word then
      if word = "--help" ∨ word.toList.take 2 = ['-', 'h'] then .ok none
      else .error (.unknownOption word)
    else
      match most with
      | 0 => .error (.unexpected word)
      | most + 1 => do return (← jobWords most rest).map (word :: ·)

/-- A request for help on a job, or on help itself. -/
def helpRequest : List String → Except UsageError Request
  | [] => .ok .help
  | word :: rest =>
    if ["eval", "keys", "help"].contains word then
      match rest with
      | [] => .ok .help
      | extra :: _ => .error (.unexpected extra)
    else .error (.unknownJob word)

/-- The request for a job by its name. -/
def jobRequest (o : Options) (name : String) (words : List String) :
    Except UsageError Request :=
  if name = "eval" then do
    match ← jobWords 1 words with
    | none => return .help
    | some (expression :: _) => return .run o (.evaluate expression)
    | some [] => throw .missingExpression
  else if name = "keys" then do
    match ← jobWords words.length words with
    | none => return .help
    | some [] => throw .missingKeys
    | some labels => return .run o (.press labels)
  else if name = "help" then helpRequest words
  else .error (.unknownJob name)

/-- The request of the words behind so many options. -/
def Request.ofWordsWith (o : Options) : List String → Except UsageError Request
  | [] => .ok (.run o .session)
  | word :: rest =>
    if word = "--" then
      match rest with
      | [] => .ok (.run o .session)
      | extra :: _ => .error (.unexpected extra)
    else if isOption word then do
      match ← optionWord o word with
      | .version => return .version
      | .help => return .help
      | .proceed o => Request.ofWordsWith o rest
      | .awaitFile o =>
        match rest with
        | [] => throw (.missingValue word)
        | file :: rest =>
          if isOption file then throw (.missingValue word)
          else Request.ofWordsWith (← o.withFile file) rest
    else jobRequest o word rest

/-- **What a command line asks for.** -/
def Request.ofWords (words : List String) : Except UsageError Request :=
  Request.ofWordsWith {} words

end PocketCalculator.Command
