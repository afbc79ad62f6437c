import Graft.Pattern.Reader
import Graft.Files.Memory
import Graft.Files.Tree
import Graft.Main
import Graft.Proofs.Anchor
import Graft.Proofs.Block.Assignment
import Graft.Proofs.Fragment
import Graft.Proofs.Integration.Accessor
import Graft.Proofs.Integration.Contract
import Graft.Proofs.Integration.Entry
import Graft.Proofs.Integration.Script
import Graft.Proofs.Integration.Stray
import Graft.Proofs.Run.Calls
import Graft.Proofs.Run.Store
import Graft.Proofs.Step.Sink
import Graft.Proofs.Run.Isolation
import Graft.Proofs.Run.DryRun
import Graft.Proofs.Pattern.Prefer
import Graft.Proofs.Pattern.Successive
import Graft.Proofs.Resource.Closing
import Graft.Proofs.Resource.Layout
import Graft.Proofs.Resource.Draft
import Graft.Proofs.Resource.PropertyList
import Graft.Proofs.Resource.StringTable
import Graft.Proofs.Integration.ScriptBalance
import Graft.Proofs.Integration.DelegateSettled
import Graft.Proofs.Integration.Growth
import Graft.Proofs.Step.FieldsFound
import Graft.Proofs.Block.Retain
import Graft.Proofs.Block.Commute
import Graft.Proofs.Block.Overriding
import Graft.Proofs.Integration.Declaration
import Graft.Proofs.Scope.Start
import Graft.Proofs.Scope.Owner
import Graft.Proofs.Integration.Implementation
import Graft.Proofs.Fragment.Again
import Graft.Proofs.Resource.StringTable.Contents
import Graft.Proofs.Resource.PropertyList.Dictionary
import Graft.Proofs.Anchor.Extent
import Graft.Proofs.Fragment.Lines
import Graft.Proofs.Integration.DelegateReplaced
import Graft.Proofs.Config.Package
import Graft.Proofs.Config.Rearranged
import Graft.Proofs.Anchor.LastBrace
import Graft.Proofs.Block.HeaderLine
import Graft.Proofs.Text.Offset
