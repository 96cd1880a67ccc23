import YamlDocs.Document.Session
import YamlDocs.Main
import YamlDocs.Json.Reader
import YamlDocs.Proofs.Extraction.LookBack
import YamlDocs.Proofs.Document.Expansion
import YamlDocs.Proofs.Document.Dependency
import YamlDocs.Proofs.Document.Run
import YamlDocs.Proofs.Document.Markup
import YamlDocs.Proofs.Document.Paragraph
import YamlDocs.Proofs.Document.Root
import YamlDocs.Proofs.Document.Resolution
import YamlDocs.Proofs.Extraction.Break
import YamlDocs.Proofs.Document.Rendering
import YamlDocs.Proofs.Settings.Binding
import YamlDocs.Proofs.Settings.Precedence
import YamlDocs.Proofs.Extraction.Flags
import YamlDocs.Proofs.Command.LineEnd
import YamlDocs.Proofs.Document.Passing
import YamlDocs.Proofs.Document.Stability
import YamlDocs.Proofs.Text.Decomposition
import YamlDocs.Proofs.Command.Outcome
import YamlDocs.Proofs.Files.Naming
import YamlDocs.Proofs.Document.History
import YamlDocs.Proofs.Document.Grammar
import YamlDocs.Proofs.Text.Utf8
import YamlDocs.Proofs.Text.Numeral
import YamlDocs.Proofs.Json.Reading
import YamlDocs.Proofs.Extraction.Json
import YamlDocs.Proofs.Extraction.Tag
import YamlDocs.Proofs.Extraction.Append
import YamlDocs.Proofs.Extraction.Authoring
import YamlDocs.Proofs.Command.Override
import YamlDocs.Proofs.Document.Recognition
import YamlDocs.Proofs.Text.Offset
