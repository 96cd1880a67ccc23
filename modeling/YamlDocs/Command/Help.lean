/-
  YamlDocs.Command.Help
  ────────────────────────────────
  **THE HELP TEXTS.**

  Help says what its subject is for and how it is used, and lists commands,
  arguments and options with their meanings.  In short a meaning stands
  behind its term, all meanings in one column.  The help on a command that
  takes a format has more to tell: in detail, every meaning stands below its
  term, and the formats are explained one by one.
-/
import YamlDocs.Command.Arguments

namespace YamlDocs

/-! ## §1. Terms and meanings. -/

/-- What a format holds. -/
def Format.meaning : Format → Text
  | .rst => "Extracted markup text".toList
  | .json => "Every entry with its origin and kind".toList
  | .tag => "`source:line <kind> text` debugging view".toList

namespace OptionName

/-- What the value of an option is called. -/
def valueName? : OptionName → Option Text
  | .config => some "CONFIG".toList
  | .set => some "KEY=VALUE".toList
  | .format => some "FORMAT".toList
  | .srcdir => some "SRCDIR".toList
  | .output => some "OUTPUT".toList
  | .verbose => none
  | .help => none
  | .version => none

/-- What an option is for, in a line. -/
def meaning : OptionName → Text
  | .config => "Configuration file layered over the defaults".toList
  | .set => "Override a setting, e.g. --set autoyaml_root=../config".toList
  | .verbose => "Enable debug logging".toList
  | .help => "Print help".toList
  | .version => "Print version".toList
  | .format => "Output format".toList
  | .srcdir => "Documentation source root (defaults to the document's directory)".toList
  | .output => "Write the expanded document here instead of stdout".toList

/-- The names of an option and of its value; long names stand in one column. -/
def term (option : OptionName) : Text :=
  let short := match option.short? with
    | some c => ['-', c, ',', ' ']
    | none => List.replicate 4 ' '
  let value := match option.valueName? with
    | some name => " <".toList ++ name ++ ['>']
    | none => []
  short ++ "--".toList ++ option.long ++ value

end OptionName

namespace Verb

/-- What a command is for. -/
def about : Verb → Text
  | .extract => "Extract the documentation of one YAML file".toList
  | .expand => "Expand autoyaml directives in a reST document".toList
  | .deps => "Print the YAML files a document depends on".toList

/-- What the operand of a command is called. -/
def operandName : Verb → Text
  | .extract => "PATH".toList
  | .expand => "DOCUMENT".toList
  | .deps => "DOCUMENT".toList

/-- What the operand of a command is. -/
def operandMeaning : Verb → Text
  | .extract => "Path to the YAML file".toList
  | .expand => "Path to the reST document".toList
  | .deps => "Path to the reST document".toList

end Verb

/-! ## §2. Lists. -/

/-- A term and its meaning; the meaning is a list of blocks, and a block a list of lines. -/
structure Row where
  term : Text
  meaning : List (List Text)
deriving DecidableEq, Repr

namespace Row

/-- A row whose meaning is one line. -/
def line (term meaning : Text) : Row := ⟨term, [[meaning]]⟩

/-- A line break and blanks up to the meanings below a term. -/
def lineStart : Text := '\n' :: List.replicate 10 ' '

/-- The meaning behind the term, in the column that `width` gives. -/
def behind (width : Nat) (row : Row) : Text :=
  "  ".toList ++ row.term ++ List.replicate (width - row.term.length) ' ' ++ "  ".toList ++
    Text.join " ".toList row.meaning.flatten

/-- The meaning below the term. -/
def below (row : Row) : Text :=
  "  ".toList ++ row.term ++ lineStart ++
    Text.join ('\n' :: lineStart) (row.meaning.map (Text.join lineStart))

/-- Rows under a title; a list without rows is left out. -/
def list? (detailed : Bool) (title : Text) (rows : List Row) : Option Text :=
  if rows = [] then none
  else
    let width := (rows.map fun row => row.term.length).foldl max 0
    let lines := if detailed then Text.join "\n\n".toList (rows.map below)
      else Text.join "\n".toList (rows.map (behind width))
    some (title ++ ":\n".toList ++ lines)

end Row

/-! ## §3. Subjects. -/

namespace Subject

/-- What a subject is for. -/
def about : Subject → Text
  | .program => "Extract documentation comments from YAML files".toList
  | .command verb => verb.about
  | .help => "Print this message or the help of the given subcommand(s)".toList

/-- How a subject is used. -/
def usage : Subject → Text
  | .program => "Usage: autoyaml [OPTIONS] <COMMAND>".toList
  | .command verb =>
    "Usage: autoyaml ".toList ++ verb.name ++ " [OPTIONS] <".toList ++ verb.operandName ++ ['>']
  | .help => "Usage: autoyaml help [COMMAND]...".toList

/-- The options that a subject takes. -/
def options : Subject → List OptionName
  | .program => OptionName.inFront
  | .command verb => verb.scope
  | .help => []

/-- Whether the help on a subject has more to tell in detail. -/
def hasDetails (subject : Subject) : Bool := subject.options.contains .format

/-- The commands that a subject has. -/
def commandRows : Subject → List Row
  | .program =>
    Verb.all.map (fun verb => .line verb.name verb.about) ++ [.line helpName (about .help)]
  | _ => []

/-- The operands that a subject takes. -/
def operandRows : Subject → List Row
  | .program => []
  | .command verb => [.line ('<' :: verb.operandName ++ ['>']) verb.operandMeaning]
  | .help => [.line "[COMMAND]...".toList "Print help for the subcommand(s)".toList]

/-- The format that is taken if none is given. -/
def defaultFormat : Text := "[default: ".toList ++ Format.name .rst ++ [']']

/-- What a format may be, in a line. -/
def formatNames : Text :=
  "[possible values: ".toList ++ Text.join ", ".toList (Format.all.map Format.name) ++ [']']

/-- What a format may be, with a line for each; the meanings stand in one column. -/
def formatMeanings : List Text :=
  let width := (Format.all.map fun format => format.name.length).foldl max 0
  "Possible values:".toList :: Format.all.map fun format =>
    "- ".toList ++ format.name ++ ": ".toList ++
      List.replicate (width - format.name.length) ' ' ++ format.meaning

/-- What an option means in the help on a subject. -/
def optionRow (subject : Subject) (detailed : Bool) (option : OptionName) : Row where
  term := option.term
  meaning :=
    match option, detailed with
    | .format, true => [[option.meaning, [], defaultFormat], formatMeanings]
    | .format, false => [[option.meaning, defaultFormat, formatNames]]
    | .help, true => [[option.meaning ++ " (see a summary with '-h')".toList]]
    | .help, false =>
      if subject.hasDetails then [[option.meaning ++ " (see more with '--help')".toList]]
      else [[option.meaning]]
    | _, _ => [[option.meaning]]

end Subject

/-- The help on a subject; in detail only if there is more to tell. -/
def helpText (subject : Subject) (detailed : Bool) : Text :=
  let detailed := detailed && subject.hasDetails
  let lists :=
    [Row.list? detailed "Commands".toList subject.commandRows,
      Row.list? detailed "Arguments".toList subject.operandRows,
      Row.list? detailed "Options".toList (subject.options.map (subject.optionRow detailed))]
  Text.join "\n\n".toList (subject.about :: subject.usage :: lists.filterMap id) ++ ['\n']

end YamlDocs
