import Highlighter.Main
import Highlighter.Proofs.Catalog.Documents
import Highlighter.Proofs.CommandLine.Effects
import Highlighter.Proofs.Engine.Consumption
import Highlighter.Proofs.Engine.Overlap
import Highlighter.Proofs.Engine.Retention
import Highlighter.Proofs.Engine.Termination
import Highlighter.Proofs.Catalog.LineBreaks
import Highlighter.Proofs.Config.Colors
import Highlighter.Proofs.Grammar.Scientific
import Highlighter.Proofs.Markup.Comments
import Highlighter.Proofs.Markup.Edges
import Highlighter.Proofs.Markup.Exhaustion
import Highlighter.Proofs.Markup.Grouping
import Highlighter.Proofs.Markup.Lines
import Highlighter.Proofs.Markup.Restyling
import Highlighter.Proofs.Markup.Strings
import Highlighter.Proofs.Registry.Lookup
import Highlighter.Proofs.Rule.Ending
import Highlighter.Proofs.Rule.Mirror
import Highlighter.Proofs.Rule.OnePass
import Highlighter.Regex.Matching.Loop
import Highlighter.Proofs.CommandLine.Trace
