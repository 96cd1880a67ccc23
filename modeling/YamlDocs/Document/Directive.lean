/-
  YamlDocs.Document.Directive
  ────────────────────────────────
  **DIRECTIVES IN A DOCUMENT.**

  A directive line is an indent of spaces and tabs, two dots, a gap of spaces
  and tabs, the word `autoyaml::` and arguments up to the end of the text,
  which holds no line feed from there on.  Its argument is its only word.

  Every explicit directive line has a name: the shortest run of name
  characters behind the gap that `::` follows.
-/
import YamlDocs.Extraction.Entry
import YamlDocs.Extraction.Load
import YamlDocs.Text.Blank

namespace YamlDocs

/-- A directive that names a YAML file. -/
structure Directive where
  /-- What stands in front of it. -/
  indent : Text
  argument : Text
  /-- The number of its line in the document. -/
  line : Nat
deriving DecidableEq, Repr

/-! ## §1. Errors. -/

/-- What is wrong with a directive. -/
inductive DirectiveFault where
  /-- It has no argument. -/
  | missingArgument
  /-- It has more than one argument. -/
  | tooManyArguments
  /-- The documentation of its file cannot be loaded. -/
  | unloaded (error : LoadError)
deriving DecidableEq, Repr

/-- A fault with the place of its directive. -/
structure DirectiveError where
  document : Path
  line : Nat
  fault : DirectiveFault
deriving DecidableEq, Repr

/-- The wording of a `DirectiveFault`. -/
def DirectiveFault.message : DirectiveFault → Text
  | .missingArgument => "autoyaml directive requires one argument".toList
  | .tooManyArguments => "autoyaml directive takes exactly one argument".toList
  | .unloaded error => error.message

/-- The wording of a `DirectiveError`. -/
def DirectiveError.message (error : DirectiveError) : Text :=
  error.document.display ++ ':' :: Text.ofNat error.line ++ ": ".toList ++ error.fault.message

namespace Directive

/-! ## §2. The shape of a directive line. -/

/-- The blanks of indents and gaps. -/
def isGap (c : Char) : Bool := c == ' ' || c == '\t'

/-- The two dots that open explicit markup. -/
def opener : Text := ['.', '.']

/-- The name of the directive with its colons. -/
def keyword : Text := "autoyaml::".toList

/-- The indent of an explicit markup line and what stands behind its dots and its gap. -/
def explicitMarkup? (text : Text) : Option (Text × Text) :=
  let (indent, rest) := text.span isGap
  match opener.isPrefixOf? rest with
  | none => none
  | some rest =>
    match rest.span isGap with
    | ([], _) => none
    | (_, body) => some (indent, body)

/-- The indent and the arguments of a directive line. -/
def match? (text : Text) : Option (Text × Text) :=
  match explicitMarkup? text with
  | none => none
  | some (indent, body) =>
    match keyword.isPrefixOf? body with
    | none => none
    | some arguments => if arguments.contains '\n' then none else some (indent, arguments)

/-! ## §3. Parsing. -/

/-- The directive on a line; none if it is not a directive line. -/
def parse (document : Path) (line : Nat) (text : Text) :
    Except DirectiveError (Option Directive) :=
  match match? text with
  | none => .ok none
  | some (indent, arguments) =>
    match Text.words arguments with
    | [] => .error ⟨document, line, .missingArgument⟩
    | [argument] => .ok (some { indent, argument, line })
    | _ => .error ⟨document, line, .tooManyArguments⟩

/-! ## §4. Names of explicit directives. -/

/-- The characters of directive names. -/
def isNameChar (c : Char) : Bool := c.isAlphanum || "_.+:-".toList.contains c

/-- The shortest non-empty run of name characters that two colons follow. -/
def shortestName? : Text → Option Text
  | [] => none
  | c :: rest =>
    if isNameChar c then
      if [':', ':'].isPrefixOf rest then some [c] else (shortestName? rest).map (c :: ·)
    else none

/-- The name of the explicit directive that a line begins. -/
def name? (text : Text) : Option Text :=
  match explicitMarkup? text with
  | none => none
  | some (_, body) => shortestName? body

/-! ## §5. Rendering. -/

/-- A line of documentation behind the indent; an empty one stays empty. -/
def renderLine (directive : Directive) (entry : Entry) : Text :=
  if entry.text = [] then [] else directive.indent ++ entry.text

/-- The lines that take the place of a directive. -/
def render (directive : Directive) (buffer : Buffer) : List Text :=
  buffer.map directive.renderLine

end Directive

end YamlDocs
