import InstallScript.Json.Read
import InstallScript.Main
import InstallScript.Rehearsal
import InstallScript.Proofs.Syntax.Phrase
import InstallScript.Proofs.Syntax.Reading
import InstallScript.Proofs.Syntax.Sound
import InstallScript.Proofs.Syntax.Complete
import InstallScript.Proofs.Syntax.Exact
import InstallScript.Proofs.Number.Decimals
import InstallScript.Proofs.Number.Spelling
import InstallScript.Proofs.Number.Overflow
import InstallScript.Proofs.Number.WholeNumbers
import InstallScript.Proofs.Syntax.Lexeme
import InstallScript.Proofs.Syntax.Comment
import InstallScript.Proofs.Syntax.Tokens
import InstallScript.Proofs.Syntax.Written
import InstallScript.Proofs.Syntax.WrittenScript
import InstallScript.Proofs.Syntax.Bare
import InstallScript.Proofs.Syntax.Derived
import InstallScript.Proofs.Syntax.RoundTrip
import InstallScript.Proofs.Syntax.Tiling
import InstallScript.Proofs.Syntax.Uncommented
import InstallScript.Proofs.Syntax.Placement
import InstallScript.Proofs.Syntax.KeptComments
import InstallScript.Proofs.Syntax.Viable
import InstallScript.Proofs.Syntax.Online
import InstallScript.Proofs.Syntax.OnlineParser
import InstallScript.Proofs.Syntax.FirstMisfit
import InstallScript.Proofs.Syntax.Breaks
import InstallScript.Proofs.Catalog.Binding
import InstallScript.Proofs.Catalog.ExactBinding
import InstallScript.Proofs.Catalog.Checking
import InstallScript.Proofs.Catalog.Loading
import InstallScript.Proofs.Number.NormalValues
import InstallScript.Proofs.Catalog.KeptArguments
import InstallScript.Proofs.Syntax.Kinship
import InstallScript.Proofs.Syntax.NodePlaces
import InstallScript.Proofs.Catalog.FoldedChecks
import InstallScript.Proofs.Run.Contract
import InstallScript.Proofs.Run.Parallel
import InstallScript.Proofs.Run.Congruent
import InstallScript.Proofs.Run.Upkeep
import InstallScript.Proofs.Run.CatalogUse
import InstallScript.Proofs.Run.Moves
import InstallScript.Proofs.Run.CheckedRun
import InstallScript.Proofs.Run.History
import InstallScript.Proofs.Run.Defects
import InstallScript.Proofs.Run.Following
import InstallScript.Proofs.Run.Abreast
import InstallScript.Proofs.Run.Memory
import InstallScript.Proofs.Run.Failures
import InstallScript.Proofs.Run.Protocol
import InstallScript.Proofs.Run.Trace
import InstallScript.Proofs.Run.Paired
import InstallScript.Proofs.Run.Erasure
import InstallScript.Proofs.Run.Chronicle
import InstallScript.Proofs.Run.Variables
import InstallScript.Proofs.Run.ScopeStack
import InstallScript.Proofs.Run.LinkedScopes
import InstallScript.Proofs.Run.ChronicleOfRuns
import InstallScript.Proofs.Run.Cancellation
import InstallScript.Proofs.Run.Nesting
import InstallScript.Proofs.Run.NormalNumbers
import InstallScript.Proofs.Run.Bounds
import InstallScript.Proofs.Run.Finishers
import InstallScript.Proofs.Run.BrokenOff
import InstallScript.Proofs.Run.PendingEdits
import InstallScript.Proofs.Files.Places
import InstallScript.Proofs.Files.CleanParts
import InstallScript.Proofs.Files.PathMeaning
import InstallScript.Proofs.Files.Confined
import InstallScript.Proofs.Files.Operations
import InstallScript.Proofs.Files.Handlers
import InstallScript.Proofs.Files.Changes
import InstallScript.Proofs.Files.Outcomes
import InstallScript.Proofs.Files.VersionOrder
import InstallScript.Proofs.Settings.Encoding
import InstallScript.Proofs.Settings.Options
import InstallScript.Proofs.Settings.Plain
import InstallScript.Proofs.Settings.Written
import InstallScript.Proofs.Settings.Read
import InstallScript.Proofs.Settings.Edited
import InstallScript.Proofs.Settings.Updates
import InstallScript.Proofs.Settings.ReadBack
import InstallScript.Proofs.Settings.Confinement
import InstallScript.Proofs.Run.HostInvariants
import InstallScript.Proofs.Run.FailingFiles
import InstallScript.Proofs.Run.SettingsReadBack
import InstallScript.Proofs.Run.Confinement
import InstallScript.Proofs.Run.Sooner
import InstallScript.Proofs.Run.CommentedRuns
import InstallScript.Proofs.Run.Agreement
import InstallScript.Proofs.Run.AgreeingSessions
import InstallScript.Proofs.Run.FoldedNames
import InstallScript.Proofs.Run.UnassignedReads
import InstallScript.Proofs.Run.ShownLines
import InstallScript.Proofs.Run.CurrentDirectory
import InstallScript.Proofs.Run.CountedLoops
import InstallScript.Proofs.Catalog.ErrorLimit
import InstallScript.Proofs.Syntax.CallPlaces
import InstallScript.Proofs.Run.SourceOrder
import InstallScript.Proofs.Syntax.FewestParentheses
import InstallScript.Proofs.Syntax.PrintedWords
import InstallScript.Proofs.Syntax.PrintedExpressions
import InstallScript.Proofs.Syntax.NeededParentheses
import InstallScript.Proofs.Syntax.Rescanned
import InstallScript.Proofs.Syntax.AlikeTokens
import InstallScript.Proofs.Syntax.Layout
import InstallScript.Proofs.Syntax.LaterVersions
import InstallScript.Proofs.Files.Below
import InstallScript.Proofs.Files.Deliveries
import InstallScript.Proofs.Files.KeptByCopies
import InstallScript.Proofs.Syntax.Children
import InstallScript.Proofs.Syntax.Stretches
import InstallScript.Proofs.Syntax.Delimited
import InstallScript.Proofs.Syntax.DocumentOrder
import InstallScript.Proofs.Syntax.Cores
import InstallScript.Proofs.Syntax.Slices
import InstallScript.Proofs.Syntax.SpanText
import InstallScript.Proofs.Syntax.HandedOut
import InstallScript.Proofs.Run.TerminalAnswers
import InstallScript.Proofs.Run.UnattendedInstalls
