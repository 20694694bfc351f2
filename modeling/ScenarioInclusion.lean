import ScenarioInclusion.Expansion
import ScenarioInclusion.Library.Disk
import ScenarioInclusion.Library.Register
import ScenarioInclusion.Library.Shelf
import ScenarioInclusion.Skip
import ScenarioInclusion.Proofs.Placeholder
import ScenarioInclusion.Proofs.DirectiveLine
import ScenarioInclusion.Proofs.Expansion.Splice
import ScenarioInclusion.Proofs.Expansion.Assembly
import ScenarioInclusion.Proofs.Expansion.Compositional
import ScenarioInclusion.Proofs.Expansion.Completeness
import ScenarioInclusion.Proofs.Passage
import ScenarioInclusion.Proofs.Excerpt
import ScenarioInclusion.Proofs.Expansion.OwnTags
import ScenarioInclusion.Proofs.Passage.Retagged
import ScenarioInclusion.Proofs.Expansion.LibraryTags
import ScenarioInclusion.Proofs.Expansion.Descent
import ScenarioInclusion.Proofs.Expansion.Stack
import ScenarioInclusion.Proofs.Expansion.Chain
import ScenarioInclusion.Proofs.Expansion.CycleGuard
import ScenarioInclusion.Proofs.Directive
import ScenarioInclusion.Proofs.Expansion.Diagnostics
import ScenarioInclusion.Proofs.Directive.Spelling
import ScenarioInclusion.Proofs.Directive.KeyPlace
import ScenarioInclusion.Proofs.Directive.Respelled
import ScenarioInclusion.Proofs.Excerpt.Respelled
import ScenarioInclusion.Proofs.Expansion.KeySpelling
import ScenarioInclusion.Proofs.Expansion.DepthLimit
import ScenarioInclusion.Proofs.Directive.Written
import ScenarioInclusion.Proofs.DirectiveLine.Written
import ScenarioInclusion.Proofs.Expansion.Scoping
import ScenarioInclusion.Proofs.Expansion.WholeTag
import ScenarioInclusion.Proofs.Expansion.Mirror
import ScenarioInclusion.Proofs.Expansion.GrowingShelf
import ScenarioInclusion.Proofs.Expansion.Faults
import ScenarioInclusion.Proofs.Text.Lines
import ScenarioInclusion.Proofs.Expansion.Characters
import ScenarioInclusion.Proofs.Expansion.Reread
import ScenarioInclusion.Proofs.Substitution.OnePass
import ScenarioInclusion.Proofs.Substitution.Hidden
import ScenarioInclusion.Proofs.Excerpt.Exact
import ScenarioInclusion.Proofs.Passage.LeadIn
import ScenarioInclusion.Proofs.Excerpt.ExamplesRows
import ScenarioInclusion.Proofs.Path.Search
import ScenarioInclusion.Proofs.Directive.Grammar
import ScenarioInclusion.Proofs.Substitution.Plain
import ScenarioInclusion.Proofs.Directive.Forwarded
import ScenarioInclusion.Proofs.Library.History
import ScenarioInclusion.Proofs.Expansion.Recognition
import ScenarioInclusion.Proofs.TableRow
import ScenarioInclusion.Proofs.TableRow.Written
import ScenarioInclusion.Proofs.Expansion.BoundRows
import ScenarioInclusion.Proofs.Document
import ScenarioInclusion.Proofs.Skip
import ScenarioInclusion.Proofs.Path.Location
import ScenarioInclusion.Proofs.Expansion.AbsolutePaths
import ScenarioInclusion.Proofs.Settings
import ScenarioInclusion.Proofs.Directive.Keys
import ScenarioInclusion.Proofs.Tag.Layout
import ScenarioInclusion.Proofs.Text.Parts
