import SchemaModels.Main
import SchemaModels.Proofs.Ddl.Account
import SchemaModels.Proofs.Run.Written
import SchemaModels.Proofs.Text.Parts
import SchemaModels.Proofs.Ddl.WellFormed
import SchemaModels.Proofs.Name.Camel
import SchemaModels.Proofs.Model.Constants
import SchemaModels.Proofs.Model.Layout
import SchemaModels.Proofs.Model.Reading
import SchemaModels.Proofs.Model.Declared
import SchemaModels.Proofs.Run.Declared
import SchemaModels.Proofs.Run.Reported
import SchemaModels.Proofs.Staging.Tracked
import SchemaModels.Proofs.Run.Session
import SchemaModels.Proofs.Ddl.Clause
import SchemaModels.Proofs.Ddl.Header
import SchemaModels.Proofs.Name.Identifier
import SchemaModels.Proofs.Model.Identifier
import SchemaModels.Proofs.Disk.Order
import SchemaModels.Proofs.Disk.Names
import SchemaModels.Proofs.Disk.Way
import SchemaModels.Proofs.Glob.Trail
import SchemaModels.Proofs.Discovery.Sorted
import SchemaModels.Proofs.Glob.Growth
import SchemaModels.Proofs.Staging.Again
import SchemaModels.Proofs.Run.Rewritten
import SchemaModels.Proofs.Discovery.Grown
import SchemaModels.Proofs.Run.Named
import SchemaModels.Proofs.Run.Rerun
import SchemaModels.Proofs.Glob.Once
import SchemaModels.Proofs.Name.Upper
import SchemaModels.Proofs.Name.Respelling
import SchemaModels.Proofs.Model.Members
import SchemaModels.Proofs.Text.Utf8
import SchemaModels.Proofs.Ddl.LineEndings
import SchemaModels.Proofs.Ddl.Replaced
import SchemaModels.Proofs.Ddl.EnumLine
import SchemaModels.Proofs.Model.Literal
import SchemaModels.Proofs.Model.EnumValues
import SchemaModels.Proofs.Model.Numbered
import SchemaModels.Proofs.Staging.Exact
import SchemaModels.Proofs.Staging.Atomic
import SchemaModels.Proofs.Ddl.Statement
import SchemaModels.Proofs.Discovery.Loaded
import SchemaModels.Proofs.Text.Word
import SchemaModels.Proofs.Ddl.TableName
import SchemaModels.Proofs.Kind.Spelling
import SchemaModels.Proofs.Ddl.ColumnLine
import SchemaModels.Proofs.Ddl.Modifier
import SchemaModels.Proofs.Text.Boundary
import SchemaModels.Proofs.Ddl.ScalarLine
import SchemaModels.Proofs.Text.Folded
import SchemaModels.Proofs.Text.Runs
import SchemaModels.Proofs.Name.Segments
import SchemaModels.Proofs.Kind.Catalog
import SchemaModels.Proofs.Selection.Accumulated
import SchemaModels.Proofs.Selection.Validated
import SchemaModels.Proofs.Model.TimeImport
import SchemaModels.Proofs.Glob.Escaped
import SchemaModels.Proofs.Glob.Descent
import SchemaModels.Proofs.Discovery.EntryPath
import SchemaModels.Proofs.Discovery.Direct
import SchemaModels.Proofs.Model.Aligned
import SchemaModels.Proofs.Model.Pointers
import SchemaModels.Proofs.Report.Columns
import SchemaModels.Proofs.Report.Summary
import SchemaModels.Proofs.Report.Json
import SchemaModels.Proofs.Report.Diagnostics
