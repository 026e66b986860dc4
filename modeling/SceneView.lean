import SceneView.Element.Record
import SceneView.Main
import SceneView.Proofs.Clash
import SceneView.Proofs.Consistency
import SceneView.Proofs.EarlyRead
import SceneView.Proofs.Claiming
import SceneView.Proofs.Conflict
import SceneView.Proofs.SlotConflict
import SceneView.Proofs.Resolution
import SceneView.Proofs.Reference
import SceneView.Proofs.Script.Scan
import SceneView.Proofs.Script.Occurrence
import SceneView.Proofs.Script.Position
import SceneView.Proofs.Script.Locate
import SceneView.Proofs.Script.Parts
import SceneView.Proofs.Script.Grammar
import SceneView.Proofs.Script.Reading
import SceneView.Proofs.Script.Substitution
import SceneView.Proofs.Script.Splice
import SceneView.Proofs.Script.Lexeme
import SceneView.Proofs.ThisScope
import SceneView.Proofs.Script.Phrase
import SceneView.Proofs.Script.Steps
import SceneView.Proofs.Script.Recital
import SceneView.Proofs.Script.Redirection
import SceneView.Proofs.Bound
import SceneView.Proofs.Diagnosis
import SceneView.Proofs.Markup.Tags
import SceneView.Proofs.Markup.RoundTrip
import SceneView.Proofs.Branch
import SceneView.Proofs.Growth
import SceneView.Proofs.Account
import SceneView.Proofs.Mirror
import SceneView.Proofs.DeferredGroup
import SceneView.Proofs.Splicing
import SceneView.Proofs.Batch
import SceneView.Proofs.Containment
import SceneView.Proofs.Sections
import SceneView.Proofs.Nesting
import SceneView.Proofs.ImportGroups
import SceneView.Proofs.Markers
import SceneView.Proofs.MeshGui
import SceneView.Proofs.MeshLink
import SceneView.Proofs.Sharing
import SceneView.Proofs.Script.PropertyChain
import SceneView.Proofs.LiveBinding
import SceneView.Proofs.Mention
import SceneView.Proofs.Heed
import SceneView.Proofs.MeshOrder
import SceneView.Proofs.Literal
import SceneView.Proofs.Quoting
import SceneView.Proofs.Pattern
import SceneView.Proofs.Tuple
import SceneView.Proofs.Number
import SceneView.Proofs.Bytes
import SceneView.Proofs.DeclaredType
import SceneView.Proofs.Markup.Lexeme
import SceneView.Proofs.Markup.Lines
import SceneView.Proofs.Markup.Source
import SceneView.Proofs.ImportText
import SceneView.Proofs.NameCalls
import SceneView.Proofs.ClassParts
import SceneView.Proofs.Markup.CharacterData
import SceneView.Proofs.Inputs
