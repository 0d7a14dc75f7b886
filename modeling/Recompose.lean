import Recompose.Main
import Recompose.Proofs.Boundary
import Recompose.Proofs.EditConflicts
import Recompose.Proofs.EditLayout
import Recompose.Proofs.ComponentTags
import Recompose.Proofs.ComponentRoundTrip
import Recompose.Proofs.ComponentReprint
import Recompose.Proofs.Script.Tokens
import Recompose.Proofs.Script.Logic
import Recompose.Proofs.Script.Grammar
import Recompose.Proofs.Script.Types
import Recompose.Proofs.Script.Patterns
import Recompose.Proofs.Script.Expressions
import Recompose.Proofs.Script.Statements
import Recompose.Proofs.Script.Markup
import Recompose.Proofs.Script.Modules
import Recompose.Proofs.Script.Parser
import Recompose.Proofs.Accesses
import Recompose.Proofs.Script.Paths
import Recompose.Proofs.EditRoom
import Recompose.Proofs.PluginFaults
import Recompose.Proofs.EditSafety
import Recompose.Proofs.OptionsPass
import Recompose.Proofs.Collected
import Recompose.Proofs.Inquiry
import Recompose.Proofs.EntryPoints
import Recompose.Proofs.Registration
import Recompose.Proofs.OptionCalls
import Recompose.Proofs.Replacements
import Recompose.Proofs.RegisteredTags
import Recompose.Proofs.Sites
import Recompose.Proofs.Resolution
import Recompose.Proofs.Scopes
import Recompose.Proofs.Additions
import Recompose.Proofs.MergedRequests
import Recompose.Proofs.HoistedBindings
import Recompose.Proofs.MergingAgain
import Recompose.Proofs.SourcePositions
import Recompose.Proofs.ComponentFrame
import Recompose.Proofs.PositionBoundaries
import Recompose.Proofs.ErrorPlaces
import Recompose.Proofs.Script.LineEnds
import Recompose.Proofs.Script.Endings
import Recompose.Proofs.JoinedCode
import Recompose.Proofs.DiskWrites
import Recompose.Proofs.FileEffects
import Recompose.Proofs.Interleaving
import Recompose.Proofs.MemberNodes
import Recompose.Proofs.MemberEdits
import Recompose.Proofs.WritePositions
import Recompose.Proofs.EmittedCode
import Recompose.Proofs.InlinedSetup
import Recompose.Proofs.SectionOrder
import Recompose.Proofs.NestedTemplates
import Recompose.Proofs.Script.Spelling
import Recompose.Proofs.Script.Written
import Recompose.Proofs.PropAccesses
import Recompose.Proofs.Script.Declared
import Recompose.Proofs.StoreSnippets
import Recompose.Proofs.PluginDeclarations
import Recompose.Proofs.StoreDeclarations
import Recompose.Proofs.MergedStores
import Recompose.Proofs.JsonTexts
import Recompose.Proofs.Script.Literals
import Recompose.Proofs.Script.Arrows
import Recompose.Proofs.Script.LiteralTrees
import Recompose.Proofs.Script.HandedObjects
import Recompose.Proofs.ExportedConfigs
import Recompose.Proofs.LinePositions
import Recompose.Proofs.ReplacedRanges
import Recompose.Proofs.Script.Lexemes
import Recompose.Proofs.Reindentation
import Recompose.Proofs.CommonIndentation
import Recompose.Proofs.QuotedStrings
import Recompose.Proofs.JoinedStatements
