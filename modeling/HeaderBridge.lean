import HeaderBridge.Main
import HeaderBridge.Proofs.DeclaredType.RoundTrip
import HeaderBridge.Proofs.DeclaredType.Structure
import HeaderBridge.Proofs.Grammar.DeclaratorsReread
import HeaderBridge.Proofs.Outline.PreOrder
import HeaderBridge.Proofs.DeclaredType.Depth
import HeaderBridge.Proofs.Declaration.AssumeNonnull
import HeaderBridge.Proofs.Declaration.Fields
import HeaderBridge.Proofs.Declaration.Methods
import HeaderBridge.Proofs.Declaration.Nullability
import HeaderBridge.Proofs.Outline.DirectTypes
import HeaderBridge.Proofs.Outline.Balance
import HeaderBridge.Proofs.Outline.Arrangement
import HeaderBridge.Proofs.Outline.Forest
import HeaderBridge.Proofs.Grammar.Noting
import HeaderBridge.Proofs.Declaration.Positions
import HeaderBridge.Proofs.Declaration.Conformances
import HeaderBridge.Proofs.Declaration.FullyAudited
import HeaderBridge.Proofs.Declaration.PlainHeaders
import HeaderBridge.Proofs.SwiftType.ReadBack
import HeaderBridge.Proofs.DeclaredType.Faithful
import HeaderBridge.Proofs.Lowering.Gathered
import HeaderBridge.Proofs.Lowering.Respelled
import HeaderBridge.Proofs.SwiftType.OpenNullability
import HeaderBridge.Proofs.Lowering.Optionality
import HeaderBridge.Proofs.Lowering.Audited
import HeaderBridge.Proofs.Lowering.WellFormed
import HeaderBridge.Proofs.DeclaredType.GenericArguments
import HeaderBridge.Proofs.Grammar.Alternatives
import HeaderBridge.Proofs.DeclaredType.InnerWords
import HeaderBridge.Proofs.Lowering.Objects
import HeaderBridge.Proofs.DeclaredType.KeptWords
import HeaderBridge.Proofs.Declaration.Arrays
import HeaderBridge.Proofs.Declaration.FullNames
import HeaderBridge.Proofs.Outline.Faithfulness
import HeaderBridge.Proofs.Declaration.AdoptedProtocols
import HeaderBridge.Proofs.Files.NaturalOrder
import HeaderBridge.Proofs.Command.Colouring
import HeaderBridge.Proofs.Grammar.Traversal
import HeaderBridge.Proofs.SwiftType.Texts
import HeaderBridge.Proofs.SwiftType.Truncation
import HeaderBridge.Proofs.Outline.Printing
import HeaderBridge.Proofs.Declaration.SourceLayout
import HeaderBridge.Proofs.Grammar.Progress
