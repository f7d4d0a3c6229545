import EntityAtlas.Main
import EntityAtlas.Service.Response
import EntityAtlas.Proofs.MetadataFiles
import EntityAtlas.Proofs.SupertypeChoice
import EntityAtlas.Proofs.Scoping
import EntityAtlas.Proofs.Confinement
import EntityAtlas.Proofs.Layout
import EntityAtlas.Proofs.Records
import EntityAtlas.Proofs.Locality
import EntityAtlas.Proofs.FailurePhases
import EntityAtlas.Proofs.ClassLiterals
import EntityAtlas.Proofs.AncestorLines
import EntityAtlas.Proofs.FirstSuccess
import EntityAtlas.Proofs.Regeneration
import EntityAtlas.Proofs.Bystanders
import EntityAtlas.Proofs.FaithfulRendering
import EntityAtlas.Proofs.Overwriting
import EntityAtlas.Proofs.CamelCase
import EntityAtlas.Proofs.ClosedGraphs
import EntityAtlas.Proofs.GraphDescriptions
import EntityAtlas.Proofs.GeneratorChoice
import EntityAtlas.Proofs.SyntaxProblems
import EntityAtlas.Proofs.TypeNames
