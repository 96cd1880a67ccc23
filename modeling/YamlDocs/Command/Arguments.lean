/-
  YamlDocs.Command.Arguments
  ────────────────────────────────
  **THE ARGUMENTS OF THE COMMAND LINE.**

  Arguments are words, and a word is a byte string: the bytes of a path may
  be any, while overrides and the name of a format are texts.  A word behind
  two hyphens is the long name of an option, one behind a single hyphen a
  cluster of short names; the value of an option stands behind an equals
  sign, at the end of the cluster, or in the next word.  Such a next word
  does not begin with a hyphen, unless it is one.  Behind the word `--`
  everything is an operand.

  The first operand is the command.  Options for all commands may stand on
  both sides of it, and those behind the command replace those before.  Only
  overrides may be given more than once on one side.

  Words are read from the left until one does not fit or asks for the version
  or for help, which are printed at once, whatever follows.  A value in a
  word of its own is only checked when the next option or operand is read, or
  when the words end.  So the last value in front of a command is checked
  behind all words of the command.
-/
import YamlDocs.Command.Basic

namespace YamlDocs

/-! ## §1. Options. -/

/-- The options of the command line. -/
inductive OptionName where
  | config
  | set
  | verbose
  | help
  | version
  | format
  | srcdir
  | output
deriving DecidableEq, Repr

namespace OptionName

/-- What stands behind two hyphens. -/
def long : OptionName → Text
  | .config => "config".toList
  | .set => "set".toList
  | .verbose => "verbose".toList
  | .help => "help".toList
  | .version => "version".toList
  | .format => "format".toList
  | .srcdir => "srcdir".toList
  | .output => "output".toList

/-- What stands behind one hyphen. -/
def short? : OptionName → Option Char
  | .config => some 'c'
  | .verbose => some 'v'
  | .help => some 'h'
  | .version => some 'V'
  | .format => some 'f'
  | .output => some 'o'
  | .set => none
  | .srcdir => none

/-- Whether an option takes a value. -/
def takesValue : OptionName → Bool
  | .verbose => false
  | .help => false
  | .version => false
  | _ => true

/-- Whether bytes are the long name of an option. -/
def isLong (option : OptionName) (name : Bytes) : Bool := Utf8.encode option.long = name

/-- Whether a byte is the short name of an option. -/
def isShort (option : OptionName) (letter : UInt8) : Bool :=
  option.short?.any fun c => Utf8.encodeChar c = [letter]

/-- The options that may stand in front of a command, in the order of the help. -/
def inFront : List OptionName := [.config, .set, .verbose, .help, .version]

end OptionName

/-! ## §2. What is given on one side of the command. -/

/-- Why words are not read to their end. -/
inductive Stop where
  /-- A word is not used as it should be. -/
  | misuse
  /-- The version is asked for. -/
  | version
  /-- Help is asked for, in detail or in short. -/
  | help (detailed : Bool)
deriving DecidableEq, Repr

/-- What there is; without it something is not used as it should be. -/
def orMisuse {α : Type} : Option α → Except Stop α
  | some value => .ok value
  | none => .error .misuse

/-- The options and the operand on one side of the command. -/
structure Given where
  config : Option Path := none
  overrides : List Text := []
  verbose : Bool := false
  format : Option Format := none
  sourceDirectory : Option Path := none
  output : Option Path := none
  operand : Option Path := none
deriving DecidableEq, Repr

namespace Given

/-- A path that is given for the first time and is not empty. -/
def path? (before : Option Path) (value : Bytes) : Option Path :=
  if before.isSome ∨ value = [] then none else some ⟨value⟩

/-- The format that is given for the first time. -/
def format? (before : Option Format) (value : Bytes) : Option Format :=
  if before.isSome then none
  else (Utf8.decode? value).bind fun name => (Format.ofName name).toOption

/-- What is given after one more option with a value. -/
def put? (given : Given) (value : Bytes) : OptionName → Option Given
  | .config => (path? given.config value).map fun path => { given with config := some path }
  | .set =>
    (Utf8.decode? value).map fun text => { given with overrides := given.overrides ++ [text] }
  | .format => (format? given.format value).map fun format => { given with format := some format }
  | .srcdir =>
    (path? given.sourceDirectory value).map fun path => { given with sourceDirectory := some path }
  | .output => (path? given.output value).map fun path => { given with output := some path }
  | .verbose => none
  | .help => none
  | .version => none

/-- What is given after one more option without a value. -/
def raise (given : Given) (detailed : Bool) : OptionName → Except Stop Given
  | .verbose => if given.verbose then .error .misuse else .ok { given with verbose := true }
  | .help => .error (.help detailed)
  | .version => .error .version
  | _ => .error .misuse

/-- What is given after one more operand. -/
def operand? (given : Given) (word : Bytes) : Option Given :=
  (path? given.operand word).map fun path => { given with operand := some path }

end Given

/-! ## §3. Words. -/

/-- The byte in front of options. -/
def hyphen : UInt8 := 0x2D

/-- The byte between the long name of an option and its value. -/
def equals : UInt8 := 0x3D

/-- What a word looks like. -/
inductive Shape where
  /-- An operand, or the value of an option. -/
  | plain
  /-- The end of all options. -/
  | escape
  /-- A long option, without its hyphens. -/
  | long (body : Bytes)
  /-- Short options, without their hyphen. -/
  | cluster (letters : Bytes)
deriving DecidableEq, Repr

/-- The shape of a word; a hyphen alone is a plain word. -/
def Shape.of : Bytes → Shape
  | first :: second :: rest =>
    if first ≠ hyphen then .plain
    else if second ≠ hyphen then .cluster (second :: rest)
    else if rest = [] then .escape
    else .long rest
  | _ => .plain

/-- What is still to come of an option whose value is a word of its own. -/
inductive Waiting where
  | nothing
  /-- The value. -/
  | value (option : OptionName)
  /-- The check of the value. -/
  | check (option : OptionName) (value : Bytes)
deriving DecidableEq, Repr

/-- The reading of words up to some place. -/
structure Reading where
  given : Given := {}
  waiting : Waiting := .nothing
  /-- Whether all words are operands from here on. -/
  operandsOnly : Bool := false
deriving DecidableEq, Repr

namespace Reading

/-- The reading after one more option with a value. -/
def put (reading : Reading) (option : OptionName) (value : Bytes) : Except Stop Reading :=
  (orMisuse (reading.given.put? value option)).map fun given =>
    { reading with given, waiting := .nothing }

/-- The reading after one more option without a value. -/
def raise (reading : Reading) (detailed : Bool) (option : OptionName) : Except Stop Reading :=
  (reading.given.raise detailed option).map fun given => { reading with given }

/-- The reading after one more operand. -/
def operand (reading : Reading) (word : Bytes) : Except Stop Reading :=
  (orMisuse (reading.given.operand? word)).map fun given => { reading with given }

/-- The reading without anything to come; an option must not lack its value. -/
def settle (reading : Reading) : Except Stop Reading :=
  match reading.waiting with
  | .nothing => .ok reading
  | .value _ => .error .misuse
  | .check option value => reading.put option value

/-- The reading after a long option. -/
def long (scope : List OptionName) (reading : Reading) (body : Bytes) : Except Stop Reading := do
  let (name, value) := match splitFirst? equals body with
    | some (name, value) => (name, some value)
    | none => (body, none)
  let option ← orMisuse (scope.find? (·.isLong name))
  match option.takesValue, value with
  | true, some value => reading.put option value
  | true, none => .ok { reading with waiting := .value option }
  | false, none => reading.raise true option
  | false, some _ => .error .misuse

/-- The value that stands behind a short option in its cluster. -/
def attached (rest : Bytes) : Bytes := if rest.head? = some equals then rest.tail else rest

/-- The reading after a cluster of short options. -/
def cluster (scope : List OptionName) (reading : Reading) : Bytes → Except Stop Reading
  | [] => .ok reading
  | letter :: rest => do
    let option ← orMisuse (scope.find? (·.isShort letter))
    if option.takesValue then
      -- What is left of the word is the value; if nothing is left, the next word is.
      if rest = [] then .ok { reading with waiting := .value option }
      else reading.put option (attached rest)
    else
      cluster scope (← reading.raise false option) rest

/-- The reading after a word that is no value of an option. -/
def take (scope : List OptionName) (reading : Reading) (word : Bytes) : Except Stop Reading :=
  if reading.operandsOnly then reading.operand word
  else
    match Shape.of word with
    | .plain => reading.operand word
    | .escape => .ok { reading with operandsOnly := true }
    | .long body => reading.long scope body
    | .cluster letters => reading.cluster scope letters

/-- The reading after one more word; `scope` holds the options that may stand here. -/
def step (scope : List OptionName) (reading : Reading) (word : Bytes) : Except Stop Reading :=
  match reading.waiting, Shape.of word with
  | .value option, .plain => .ok { reading with waiting := .check option word }
  | _, _ => do (← reading.settle).take scope word

end Reading

/-! ## §4. Requests. -/

/-- The word for a command. -/
inductive Verb where
  | extract
  | expand
  | deps
deriving DecidableEq, Repr

namespace Verb

/-- All commands, in the order of the help. -/
def all : List Verb := [.extract, .expand, .deps]

/-- How a command is called. -/
def name : Verb → Text
  | .extract => "extract".toList
  | .expand => "expand".toList
  | .deps => "deps".toList

/-- The command that is called so. -/
def ofWord? (word : Bytes) : Option Verb := all.find? fun verb => Utf8.encode verb.name = word

/-- The options that may stand behind a command, in the order of the help. -/
def scope : Verb → List OptionName
  | .extract => [.config, .format, .set, .verbose, .help]
  | .expand => [.config, .srcdir, .output, .set, .verbose, .help]
  | .deps => [.config, .srcdir, .set, .verbose, .help]

/-- The command with what is given behind it. -/
def command (verb : Verb) (operand : Path) (given : Given) : Command :=
  match verb with
  | .extract => .extract operand (given.format.getD .rst)
  | .expand => .expand operand given.sourceDirectory given.output
  | .deps => .dependencies operand given.sourceDirectory

end Verb

/-- What help can be given on. -/
inductive Subject where
  | program
  | command (verb : Verb)
  /-- The word that asks for help. -/
  | help
deriving DecidableEq, Repr

namespace Subject

/-- The word that asks for help where a command may stand. -/
def helpName : Text := "help".toList

/-- What the words behind the word for help ask for; no option may stand among them. -/
def ofWords? : List Bytes → Option Subject
  | [] => some .program
  | [word] => if word = Utf8.encode helpName then some .help else (Verb.ofWord? word).map .command
  | _ => none

end Subject

/-- What the program is asked to do. -/
inductive Request where
  /-- Print the version. -/
  | version
  /-- Print help, in detail or in short. -/
  | help (subject : Subject) (detailed : Bool)
  /-- Run a command with the settings of a file and with overrides. -/
  | run (config : Option Path) (overrides : List Text) (command : Command)
deriving DecidableEq, Repr

namespace Request

/-- The request of words that are not read to their end. -/
def ofStop? (subject : Subject) : Stop → Option Request
  | .misuse => none
  | .version => some .version
  | .help detailed => some (.help subject detailed)

/-- What the words behind a command give. -/
def readOperands (verb : Verb) (words : List Bytes) : Except Stop Given := do
  let reading ← words.foldlM (Reading.step verb.scope) {}
  return (← reading.settle).given

/-- The request for a command; what is given behind it goes before what is given in front. -/
def ofSides? (verb : Verb) (front back : Given) : Option Request :=
  back.operand.map fun operand =>
    .run (back.config <|> front.config)
      (if back.overrides = [] then front.overrides else back.overrides)
      (verb.command operand back)

/-- The request for a command behind what was read; the words of the command come first. -/
def ofCommand? (reading : Reading) (verb : Verb) (words : List Bytes) : Option Request :=
  match readOperands verb words with
  | .error stop => ofStop? (.command verb) stop
  | .ok back =>
    match reading.settle with
    | .error stop => ofStop? .program stop
    | .ok front => ofSides? verb front.given back

/-- Whether the next word may be a command. -/
def mayCall (reading : Reading) : Bool :=
  match reading.waiting with
  | .value _ => false
  | _ => !reading.operandsOnly

/-- The command that a word calls where a command may stand. -/
def verb? (reading : Reading) (word : Bytes) : Option Verb :=
  if mayCall reading then Verb.ofWord? word else none

/-- The request of the remaining words, of which the first may be a command. -/
def read? (reading : Reading) : List Bytes → Option Request
  | [] => none
  | word :: rest =>
    if mayCall reading ∧ word = Utf8.encode Subject.helpName then
      (Subject.ofWords? rest).map (.help · true)
    else
      match verb? reading word with
      | some verb => ofCommand? reading verb rest
      | none =>
        match reading.step OptionName.inFront word with
        | .error stop => ofStop? .program stop
        -- Only a command may stand in front as an operand.
        | .ok reading => if reading.given.operand.isSome then none else read? reading rest

/-- The request that arguments make; none if they are not used as they should be. -/
def ofArguments? (arguments : List Bytes) : Option Request := read? {} arguments

end Request

/-- Words that are texts are given by their bytes. -/
instance : Coe (List Text) (List Bytes) := ⟨List.map Utf8.encode⟩

end YamlDocs
