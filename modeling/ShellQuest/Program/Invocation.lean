/-
# The command line

What the program is asked to do.  A command line names a task, with options before and after the
name.  It is read from left to right: a wish to see the help or the version is granted where it
stands, and the first thing that does not fit ends the reading.

The options that stand before the task and those after it are kept apart: either part may give an
option that takes a value once, and what is given after the task counts.
-/
namespace ShellQuest.Program

inductive Task where
  | play
  | serve
  | init
deriving DecidableEq, Repr

namespace Task

def all : List Task := [play, serve, init]

def name : Task → String
  | play => "play"
  | serve => "serve"
  | init => "init"

def ofName? (name : String) : Option Task := all.find? fun t => t.name == name

end Task

/-- The options of the command line. -/
inductive Choice where
  | config
  | bind
  | verbose
  | help
  | version
deriving DecidableEq, Repr

namespace Choice

def all : List Choice := [config, bind, verbose, help, version]

/-- What follows two dashes. -/
def name : Choice → String
  | config => "config"
  | bind => "bind"
  | verbose => "verbose"
  | help => "help"
  | version => "version"

/-- What follows a single dash. -/
def letter : Choice → Char
  | config => 'c'
  | bind => 'b'
  | verbose => 'v'
  | help => 'h'
  | version => 'V'

def takesValue : Choice → Bool
  | config | bind => true
  | verbose | help | version => false

/-- The option may stand after a task, or before all tasks. -/
def allowed : Option Task → Choice → Bool
  | none, bind => false
  | none, _ => true
  | some task, bind => task = .serve
  | some _, version => false
  | some _, _ => true

def allowedAt (place : Option Task) : List Choice := all.filter (allowed place)

end Choice

/-- Why the program does not start: the user wants to see something else, or is mistaken. -/
inductive Stop where
  | help
  | version
  | misuse
deriving DecidableEq, Repr

/-- The options given on one side of the task's name. -/
structure Choices where
  config : Option String := none
  bind : Option String := none
  verbosity : Nat := 0
deriving DecidableEq, Repr

namespace Choices

/-- Gives an option the value that follows it. -/
def give (o : Choices) (choice : Choice) (value : String) : Except Stop Choices :=
  match choice with
  | .config => if o.config.isSome then .error .misuse else .ok { o with config := some value }
  | .bind => if o.bind.isSome then .error .misuse else .ok { o with bind := some value }
  | .verbose | .help | .version => .error .misuse

/-- Sets an option that takes no value. -/
def mark (o : Choices) : Choice → Except Stop Choices
  | .verbose => .ok { o with verbosity := o.verbosity + 1 }
  | .help => .error .help
  | .version => .error .version
  | .config | .bind => .error .misuse

end Choices

/-- What one word of the command line says. -/
inductive Reading where
  | chosen (choices : Choices)
  | awaiting (choice : Choice) (choices : Choices)
  | plainWord

/-- Reads the letters after a single dash.  A letter whose option takes a value takes what is left
of the word, or else the next word. -/
def readLetters (place : Option Task) (o : Choices) : List Char → Except Stop Reading
  | [] => .ok (.chosen o)
  | c :: rest =>
      match (Choice.allowedAt place).find? fun choice => choice.letter == c with
      | none => .error .misuse
      | some choice =>
          if choice.takesValue then
            match rest with
            | [] => .ok (.awaiting choice o)
            | '=' :: value => (o.give choice (String.ofList value)).map .chosen
            | value => (o.give choice (String.ofList value)).map .chosen
          else
            match o.mark choice with
            | .error stop => .error stop
            | .ok o => readLetters place o rest

/-- Reads what follows two dashes: a name, and a value after an equals sign if there is one. -/
def readName (place : Option Task) (o : Choices) (s : List Char) : Except Stop Reading :=
  let name := String.ofList (s.takeWhile (· != '='))
  match (Choice.allowedAt place).find? fun choice => choice.name == name with
  | none => .error .misuse
  | some choice =>
      match s.dropWhile (· != '='), choice.takesValue with
      | [], true => .ok (.awaiting choice o)
      | [], false => (o.mark choice).map .chosen
      | _ :: value, _ => (o.give choice (String.ofList value)).map .chosen

/-- Reads one word.  One dash alone, and two, are plain words. -/
def readWord (place : Option Task) (o : Choices) (word : String) : Except Stop Reading :=
  match word.toList with
  | ['-'] | ['-', '-'] => .ok .plainWord
  | '-' :: '-' :: s => readName place o s
  | '-' :: s => readLetters place o s
  | _ => .ok .plainWord

/-- The word can be the value of the option before it. -/
def isValue (word : String) : Bool :=
  match word.toList with
  | ['-'] => true
  | '-' :: _ => false
  | _ => true

/-- Reads words up to the first that belongs to no option. -/
def readChoices (place : Option Task) (o : Choices) :
    List String → Except Stop (Choices × List String)
  | [] => .ok (o, [])
  | word :: rest =>
      match readWord place o word with
      | .error stop => .error stop
      | .ok .plainWord => .ok (o, word :: rest)
      | .ok (.chosen o) => readChoices place o rest
      | .ok (.awaiting choice o) =>
          match rest with
          | [] => .error .misuse
          | value :: rest =>
              if isValue value then
                match o.give choice value with
                | .error stop => .error stop
                | .ok o => readChoices place o rest
              else .error .misuse

/-- What the program is asked to do: a task, the path of the settings, how much is to be logged, and
an address for the relay. -/
structure Invocation where
  task : Task
  config : String
  verbosity : Nat
  bind : Option String
deriving DecidableEq, Repr

namespace Invocation

/-- A task with the options before and after its name. -/
def ofChoices (task : Task) (before after : Choices) : Invocation where
  task := task
  config := (after.config <|> before.config).getD "config.toml"
  verbosity := if after.verbosity = 0 then before.verbosity else after.verbosity
  bind := after.bind

/-- What the words after `help` come to: at most one is allowed, which names what to explain. -/
def helpOn : List String → Stop
  | [] => .help
  | [topic] => if topic == "help" || (Task.ofName? topic).isSome then .help else .misuse
  | _ => .misuse

/-- What some words ask for.  After the options of a task two dashes may close the line. -/
def ofArguments (words : List String) : Except Stop Invocation :=
  match readChoices none {} words with
  | .error stop => .error stop
  | .ok (_, []) => .error .misuse
  | .ok (before, word :: rest) =>
      if word = "help" then .error (helpOn rest)
      else
        match Task.ofName? word with
        | none => .error .misuse
        | some task =>
            match readChoices (some task) {} rest with
            | .error stop => .error stop
            | .ok (after, []) | .ok (after, ["--"]) => .ok (ofChoices task before after)
            | .ok _ => .error .misuse

/-- What is shown to a user who asks for help. -/
def usage : String :=
  "\n".intercalate [
    "Learn the shell by recovering a stolen treasure",
    "",
    "Usage: cli-adventures [OPTIONS] <COMMAND>",
    "",
    "Commands:",
    "  play   Play interactively in this terminal",
    "  serve  Serve games to remote front-ends over TCP",
    "  init   Write a default configuration file",
    "  help   Print this message",
    "",
    "Options:",
    "  -c, --config <CONFIG>  Configuration file path [default: config.toml]",
    "  -b, --bind <BIND>      Listen address of `serve`, overriding the configuration",
    "  -v, --verbose...       Verbose logging (-v, -vv for more)",
    "  -h, --help             Print help",
    "  -V, --version          Print version",
    ""]

end Invocation

end ShellQuest.Program
