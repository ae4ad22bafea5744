import ExplicitInit.Agreement
import ExplicitInit.Events
import ExplicitInit.Normalize
import ExplicitInit.Options.Document
import ExplicitInit.Print.Class
import ExplicitInit.Proofs.ClassInitialization
import ExplicitInit.Proofs.Idempotence
import ExplicitInit.Proofs.InsertionOrder
import ExplicitInit.Proofs.ConstructionOrder
import ExplicitInit.Proofs.EnclosingMeaning
import ExplicitInit.Proofs.Rejection
import ExplicitInit.Proofs.Registration
import ExplicitInit.Proofs.DelegationPaths
import ExplicitInit.Proofs.Interfaces
import ExplicitInit.Proofs.KeptMembers
import ExplicitInit.Proofs.ParameterPassing
import ExplicitInit.Proofs.EnclosingHandover
import ExplicitInit.Proofs.PhaseOrder
import ExplicitInit.Proofs.Resuming
import ExplicitInit.Proofs.EnclosingScope
import ExplicitInit.Proofs.TypeChanges
import ExplicitInit.Proofs.ChangedTrees
import ExplicitInit.Proofs.EnclosingPointers
import ExplicitInit.Proofs.ChangedPhases
import ExplicitInit.Proofs.ChangedChecks
import ExplicitInit.Proofs.TypeIdentity
import ExplicitInit.Proofs.InheritedMembers
import ExplicitInit.Proofs.NamedInstances
import ExplicitInit.Proofs.DelegationCycles
import ExplicitInit.Proofs.ReportedChanges
import ExplicitInit.Proofs.MixedConcatenations
import ExplicitInit.Proofs.DistinctNames
import ExplicitInit.Proofs.Spans
import ExplicitInit.Proofs.Traversals
import ExplicitInit.Proofs.LexicalClosure
import ExplicitInit.Proofs.Grouping
