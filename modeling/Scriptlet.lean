import Scriptlet.Ast.Basic
import Scriptlet.Ast.Fault
import Scriptlet.Ast.Parser
import Scriptlet.Ast.Printer
import Scriptlet.Diagnostic
import Scriptlet.Frame
import Scriptlet.Heap
import Scriptlet.Host
import Scriptlet.Host.Sample
import Scriptlet.Library.ListMethod
import Scriptlet.Library.MapMethod
import Scriptlet.Library.Prepare
import Scriptlet.Machine.Basic
import Scriptlet.Machine.Fault
import Scriptlet.Machine.Operator
import Scriptlet.Machine.Run
import Scriptlet.Machine.Step
import Scriptlet.Main
import Scriptlet.Number.Basic
import Scriptlet.Number.Decimal
import Scriptlet.Number.Reader
import Scriptlet.Proofs.Grammar
import Scriptlet.Proofs.ParserLaws
import Scriptlet.Proofs.Targets
import Scriptlet.Proofs.ParserSound
import Scriptlet.Proofs.Lookahead
import Scriptlet.Proofs.ParserComplete
import Scriptlet.Proofs.ParserExact
import Scriptlet.Proofs.Parts
import Scriptlet.Proofs.Numbering
import Scriptlet.Proofs.AnalysisLaws
import Scriptlet.Proofs.PartAnalysis
import Scriptlet.Proofs.Sites
import Scriptlet.Proofs.SiteNames
import Scriptlet.Proofs.StoreLaws
import Scriptlet.Proofs.SessionLaws
import Scriptlet.Proofs.History
import Scriptlet.Proofs.Alignment
import Scriptlet.Proofs.Layout
import Scriptlet.Proofs.AlignedSteps
import Scriptlet.Proofs.AlignedRuns
import Scriptlet.Proofs.Texts
import Scriptlet.Proofs.AlignedLife
import Scriptlet.Proofs.ResolvedNames
import Scriptlet.Proofs.Relabel
import Scriptlet.Proofs.LexerSeam
import Scriptlet.Proofs.GrammarShift
import Scriptlet.Proofs.AnalysisAccord
import Scriptlet.Proofs.RunLaws
import Scriptlet.Proofs.Followed
import Scriptlet.Proofs.Unlined
import Scriptlet.Proofs.UnlinedSteps
import Scriptlet.Proofs.SplitTexts
import Scriptlet.Proofs.Operations
import Scriptlet.Proofs.NodeNumbers
import Scriptlet.Proofs.Containment
import Scriptlet.Proofs.StoredCode
import Scriptlet.Proofs.ContainedRuns
import Scriptlet.Proofs.Looks
import Scriptlet.Proofs.Recast
import Scriptlet.Scope.Analysis
import Scriptlet.Scope.Basic
import Scriptlet.Scope.Distance
import Scriptlet.Session.Address
import Scriptlet.Session.Basic
import Scriptlet.Shell.Basic
import Scriptlet.Shell.Command
import Scriptlet.Shell.Folder
import Scriptlet.Store
import Scriptlet.Table
import Scriptlet.Text.Blank
import Scriptlet.Text.Quoted
import Scriptlet.Text.Unseen
import Scriptlet.Token.Basic
import Scriptlet.Token.Lexer
import Scriptlet.Token.Listing
import Scriptlet.Value
import Scriptlet.Proofs.TwinStores
import Scriptlet.Proofs.TwinStates
import Scriptlet.Proofs.TwinSteps
import Scriptlet.Proofs.AnalysisRenumber
import Scriptlet.Proofs.TwinSessions
import Scriptlet.Proofs.RefusedTexts
import Scriptlet.Proofs.LocalNames
import Scriptlet.Proofs.TokenClasses
import Scriptlet.Proofs.MaximalMunch
import Scriptlet.Proofs.ParserBudget
import Scriptlet.Proofs.Stages
import Scriptlet.Proofs.Reports
import Scriptlet.Proofs.ShellRuns
import Scriptlet.Proofs.ErrorFlags
import Scriptlet.Proofs.CallSites
import Scriptlet.Proofs.FailureKinds
import Scriptlet.Proofs.BondedRuns
import Scriptlet.Proofs.CallReturns
import Scriptlet.Proofs.Receivers
import Scriptlet.Proofs.Isolation
import Scriptlet.Proofs.Reachability
import Scriptlet.Proofs.Confinement
import Scriptlet.Proofs.AddressTexts
import Scriptlet.Proofs.AddressRuns
import Scriptlet.Proofs.AddressedValues
import Scriptlet.Proofs.HostCalls
import Scriptlet.Proofs.Initializers
import Scriptlet.Proofs.Separators
import Scriptlet.Proofs.Usage
import Scriptlet.Proofs.Warnings
import Scriptlet.Proofs.Acceptance
import Scriptlet.Proofs.WellFormed
import Scriptlet.Proofs.ParallelRuns
import Scriptlet.Proofs.ImitatedTexts
import Scriptlet.Proofs.SpareNames
import Scriptlet.Proofs.UpdateRuns
import Scriptlet.Proofs.Updates
import Scriptlet.Proofs.Lines
import Scriptlet.Proofs.ParserRecipes
import Scriptlet.Proofs.ParserRange
import Scriptlet.Proofs.Recovery
import Scriptlet.Proofs.RestoredFrames
import Scriptlet.Proofs.Annals
import Scriptlet.Proofs.Equipment
import Scriptlet.Proofs.Storage
import Scriptlet.Proofs.NumberValues
import Scriptlet.Proofs.StoredLists
import Scriptlet.Proofs.StoredMaps
import Scriptlet.Proofs.Arities
import Scriptlet.Proofs.SoundStores
import Scriptlet.Proofs.AddressSlots
import Scriptlet.Proofs.SoundSessions
import Scriptlet.Proofs.PrintedExpressions
import Scriptlet.Proofs.FrameChains
import Scriptlet.Proofs.Balance
