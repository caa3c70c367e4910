import PacketTypings.Cli.Directory
import PacketTypings.Main
import PacketTypings.Proofs.Cli.Outcome
import PacketTypings.Proofs.Document.Growth
import PacketTypings.Proofs.Document.Isolation
import PacketTypings.Proofs.Document.Names
import PacketTypings.Proofs.Document.Namespace
import PacketTypings.Proofs.Document.Policies
import PacketTypings.Proofs.Document.PropertyNames
import PacketTypings.Proofs.Document.Report
import PacketTypings.Proofs.Document.Sections
import PacketTypings.Proofs.FieldPath.Acceptance
import PacketTypings.Proofs.Schema.Positional
import PacketTypings.Proofs.TypeTerm.Indentation
import PacketTypings.Proofs.TypeTerm.Naming
import PacketTypings.Proofs.Typing.Additions
import PacketTypings.Proofs.Typing.Culprit
import PacketTypings.Proofs.Typing.CurrentStep
import PacketTypings.Proofs.Typing.DeclarationOrder
import PacketTypings.Proofs.Typing.Erasure
import PacketTypings.Proofs.Typing.Flattening
import PacketTypings.Proofs.Typing.Inlining
import PacketTypings.Proofs.Typing.Ownership
import PacketTypings.Proofs.Typing.Rendering
import PacketTypings.Proofs.Typing.Shape
import PacketTypings.Proofs.Typing.Siblings
