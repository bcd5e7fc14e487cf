import TreeMarkdown.Document.Cursor
import TreeMarkdown.Html.Parser
import TreeMarkdown.Profile
import TreeMarkdown.Proofs.Conversion.Recursion
import TreeMarkdown.Proofs.Conversion.Silence
import TreeMarkdown.Proofs.Conversion.Tidiness
import TreeMarkdown.Proofs.Document.Additions
import TreeMarkdown.Proofs.Document.Boundaries
import TreeMarkdown.Proofs.Document.Construction
import TreeMarkdown.Proofs.Document.Flow
import TreeMarkdown.Proofs.Document.Folding
import TreeMarkdown.Proofs.Document.Growth
import TreeMarkdown.Proofs.Document.Naming
import TreeMarkdown.Proofs.Document.Order
import TreeMarkdown.Proofs.Document.Renumbering
import TreeMarkdown.Proofs.Document.Seams
import TreeMarkdown.Proofs.Document.Subtree
import TreeMarkdown.Proofs.Document.Transcription
import TreeMarkdown.Proofs.Document.Walk
import TreeMarkdown.Proofs.Html.Planting
import TreeMarkdown.Proofs.Markdown.Fencing
import TreeMarkdown.Proofs.Markdown.Keeping
import TreeMarkdown.Proofs.Markdown.Listing
import TreeMarkdown.Proofs.Markdown.Quoting
import TreeMarkdown.Proofs.Markdown.Tabling
import TreeMarkdown.Proofs.RuleTable.Choice
import TreeMarkdown.Proofs.RuleTable.History
import TreeMarkdown.Proofs.RuleTable.LastWrites
import TreeMarkdown.Proofs.RuleTable.Lookup
import TreeMarkdown.Proofs.RuleTable.Mixing
import TreeMarkdown.Proofs.RuleTable.Overwriting
import TreeMarkdown.Proofs.RuleTable.Precedence
import TreeMarkdown.Proofs.Rules.Chosen
import TreeMarkdown.Proofs.Rules.CutText
import TreeMarkdown.Proofs.Rules.Dispatch
import TreeMarkdown.Proofs.Rules.Entries
import TreeMarkdown.Proofs.Rules.Extension
import TreeMarkdown.Proofs.Rules.FencedCode
import TreeMarkdown.Proofs.Rules.Headings
import TreeMarkdown.Proofs.Rules.IndentedCode
import TreeMarkdown.Proofs.Rules.ItemLines
import TreeMarkdown.Proofs.Rules.Items
import TreeMarkdown.Proofs.Rules.KeepsFlow
import TreeMarkdown.Proofs.Rules.KeptText
import TreeMarkdown.Proofs.Rules.Outline
import TreeMarkdown.Proofs.Rules.QuotedDocument
import TreeMarkdown.Proofs.Rules.Renumbered
import TreeMarkdown.Proofs.Rules.Resemblance
import TreeMarkdown.Proofs.Rules.ReservedName
import TreeMarkdown.Proofs.Rules.Respelled
import TreeMarkdown.Proofs.Rules.References
import TreeMarkdown.Proofs.Rules.RunningText
import TreeMarkdown.Proofs.Rules.Tables
import TreeMarkdown.Proofs.Rules.TextNodes
import TreeMarkdown.Proofs.Rules.Totality
import TreeMarkdown.Proofs.Rules.Transcribed
import TreeMarkdown.Proofs.Selector.Ancestry
import TreeMarkdown.Proofs.Selector.Matching
import TreeMarkdown.Proofs.Selector.Reading
import TreeMarkdown.Proofs.Selector.RuleNames
import TreeMarkdown.Proofs.Text.Ascii
import TreeMarkdown.Proofs.Text.Capitals
import TreeMarkdown.Proofs.Text.Folding
import TreeMarkdown.Proofs.Text.Lines
import TreeMarkdown.Proofs.Text.Spacing
import TreeMarkdown.Proofs.Text.Visible
import TreeMarkdown.Proofs.Rules.InnerCode
import TreeMarkdown.Proofs.Text.Numerals
import TreeMarkdown.Proofs.Markdown.Starts
import TreeMarkdown.Proofs.Markdown.Ordinals
import TreeMarkdown.Proofs.Rules.Numbering
import TreeMarkdown.Proofs.Markdown.Delimiting
import TreeMarkdown.Proofs.Rules.CodeSpans
import TreeMarkdown.Proofs.Rules.HeaderRows
import TreeMarkdown.Proofs.Text.Clipping
import TreeMarkdown.Proofs.Rules.QuotedCode
import TreeMarkdown.Proofs.Rules.HeadingLines
import TreeMarkdown.Proofs.Rules.EmphasisEdges
import TreeMarkdown.Proofs.Text.Escaping
import TreeMarkdown.Proofs.Text.Unescaping
import TreeMarkdown.Proofs.Document.StackReading
import TreeMarkdown.Proofs.Document.Neighbours
