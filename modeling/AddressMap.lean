import AddressMap.Command.World
import AddressMap.Main
import AddressMap.Space.Slot
import AddressMap.Proofs.Space.Run
import AddressMap.Proofs.Element.Copies
import AddressMap.Proofs.Elaboration.Correspondence
import AddressMap.Proofs.Output.RoundTrip
import AddressMap.Proofs.Space.FirstFit
import AddressMap.Proofs.Space.EmptyChildren
import AddressMap.Proofs.Element.Values
import AddressMap.Proofs.Element.Consistency
import AddressMap.Proofs.Elaboration.Fidelity
import AddressMap.Proofs.Elaboration.Reordering
import AddressMap.Proofs.Elaboration.Extending
import AddressMap.Proofs.Elaboration.RootOrder
import AddressMap.Proofs.Elaboration.Attributes
import AddressMap.Proofs.Elaboration.Shapes
import AddressMap.Proofs.Elaboration.Deciding
import AddressMap.Proofs.Elaboration.Completeness
import AddressMap.Proofs.Element.Paths
import AddressMap.Proofs.Elaboration.Inheritance
import AddressMap.Proofs.Elaboration.Binding
import AddressMap.Proofs.Elaboration.Blame
import AddressMap.Proofs.Elaboration.ErrorPaths
import AddressMap.Proofs.Elaboration.RootErrors
import AddressMap.Proofs.Space.Partition
import AddressMap.Proofs.Element.Visiting
import AddressMap.Proofs.Elaboration.Revising
import AddressMap.Proofs.Elaboration.Usage
import AddressMap.Proofs.Elaboration.Exchanging
import AddressMap.Proofs.Decl.Texts
import AddressMap.Proofs.Command.Accounting
import AddressMap.Proofs.Elaboration.Numbering
import AddressMap.Proofs.Elaboration.Unplaced
import AddressMap.Proofs.Elaboration.Misfits
import AddressMap.Proofs.Elaboration.Seating
import AddressMap.Proofs.Elaboration.Alignment
import AddressMap.Proofs.Space.LastSlot
import AddressMap.Proofs.Element.MappedBytes
import AddressMap.Proofs.Text.Lines
import AddressMap.Proofs.Text.NumeralGrammar
import AddressMap.Proofs.Output.Outline
import AddressMap.Proofs.Text.Wrapping
import AddressMap.Proofs.Space.WordArithmetic
import AddressMap.Proofs.Output.Devices
import AddressMap.Proofs.Command.OptionOrder
