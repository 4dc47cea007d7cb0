import RecordSchema.Files.Tree
import RecordSchema.Main
import RecordSchema.Schema.FromValue
import RecordSchema.Schema.Workbench
import RecordSchema.Proofs.Reference
import RecordSchema.Proofs.Compile
import RecordSchema.Proofs.Construction.Run
import RecordSchema.Proofs.Distinct
import RecordSchema.Proofs.Document.Routes
import RecordSchema.Proofs.Interpret
import RecordSchema.Proofs.LetterCase
import RecordSchema.Proofs.Looser
import RecordSchema.Proofs.Lowercase
import RecordSchema.Proofs.Modes
import RecordSchema.Proofs.PropertyWise
import RecordSchema.Proofs.Storage.Sharing
import RecordSchema.Proofs.ReportedPath
import RecordSchema.Proofs.Report
import RecordSchema.Proofs.Shape
import RecordSchema.Proofs.Spelling
import RecordSchema.Proofs.ToInteger
import RecordSchema.Proofs.Transform
import RecordSchema.Proofs.Visits
import RecordSchema.Proofs.Warnings
import RecordSchema.Proofs.Revalidate
import RecordSchema.Proofs.Emission.Address
import RecordSchema.Proofs.Emission.Module
import RecordSchema.Proofs.Emission.Naming
import RecordSchema.Proofs.Emission.Outline
import RecordSchema.Proofs.Emission.SnakeCase
import RecordSchema.Proofs.Emission.Clone
import RecordSchema.Proofs.Emission.Link
import RecordSchema.Proofs.Command.Crate
import RecordSchema.Proofs.Command.CratePath
import RecordSchema.Proofs.Document.Accept
import RecordSchema.Proofs.Document.Applies
import RecordSchema.Proofs.Files.Directory
import RecordSchema.Proofs.KeyOrder
import RecordSchema.Proofs.IsInteger
import RecordSchema.Proofs.NumberText
import RecordSchema.Proofs.Document.Blueprint
