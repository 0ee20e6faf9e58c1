import RecordTables.Database.Catalog
import RecordTables.Database.Options
import RecordTables.Database.Session
import RecordTables.Engine.Affinity
import RecordTables.Engine.Connection
import RecordTables.Engine.Evaluate
import RecordTables.Engine.Failure
import RecordTables.Engine.Grammar.Declaration
import RecordTables.Engine.Grammar.Expression
import RecordTables.Engine.Grammar.Reading
import RecordTables.Engine.Grammar.Statement
import RecordTables.Engine.Pattern
import RecordTables.Engine.Plan
import RecordTables.Engine.Real
import RecordTables.Engine.Statement
import RecordTables.Engine.Store
import RecordTables.Engine.Token
import RecordTables.Engine.Walk
import RecordTables.Engine.Walk.Candidate
import RecordTables.Engine.Walk.Magnitude
import RecordTables.Engine.Walk.Order
import RecordTables.Engine.Walk.Term
import RecordTables.Error
import RecordTables.Gallery.Fields
import RecordTables.Gallery.Records
import RecordTables.Json.Document
import RecordTables.Json.Number
import RecordTables.Json.Reader
import RecordTables.Json.Skip
import RecordTables.Number.Binary
import RecordTables.Number.Decimal
import RecordTables.Number.Extended
import RecordTables.Number.Floating
import RecordTables.Number.Text
import RecordTables.Record.Datum
import RecordTables.Record.Decode
import RecordTables.Record.Encode
import RecordTables.Record.Probe
import RecordTables.Record.Read
import RecordTables.Record.Read.Fields
import RecordTables.Record.Read.Key
import RecordTables.Record.Read.Variant
import RecordTables.Record.RecordType
import RecordTables.Record.Registry
import RecordTables.Record.Shape
import RecordTables.Record.TypeName
import RecordTables.Row
import RecordTables.Schema.Ascending
import RecordTables.Schema.Declared
import RecordTables.Schema.Table
import RecordTables.Sql.Identifier
import RecordTables.Sql.Predicate
import RecordTables.Sql.Query
import RecordTables.Sql.Statement
import RecordTables.Text.Blank
import RecordTables.Text.Hidden
import RecordTables.Text.Quoted
import RecordTables.Text.Symbol
import RecordTables.Value
import RecordTables.Proofs.Number.Digits
import RecordTables.Proofs.Sql.Tokens
import RecordTables.Proofs.Sql.Template
import RecordTables.Proofs.Sql.Command
import RecordTables.Proofs.Sql.Precedence
import RecordTables.Proofs.Sql.Filters
import RecordTables.Proofs.Sql.NormalForm
import RecordTables.Proofs.Sql.Unbroken
import RecordTables.Proofs.Schema.Texts
import RecordTables.Proofs.Engine.Reading
import RecordTables.Proofs.Engine.Expressions
import RecordTables.Proofs.Engine.Declarations
import RecordTables.Proofs.Engine.Created
import RecordTables.Proofs.Engine.Selected
import RecordTables.Proofs.Text.ByteOrder
import RecordTables.Proofs.Text.WellFormed
import RecordTables.Proofs.Engine.Listed
import RecordTables.Proofs.Database.Sessions
import RecordTables.Proofs.Database.Introspection
import RecordTables.Proofs.Json.RoundTrip
import RecordTables.Proofs.Record.Plain
import RecordTables.Proofs.Record.Document
import RecordTables.Proofs.Record.Scalars
import RecordTables.Proofs.Record.ReadBack
import RecordTables.Proofs.Record.Presented
import RecordTables.Proofs.Number.Widening
import RecordTables.Proofs.Record.Cells
import RecordTables.Proofs.Record.Rows
import RecordTables.Proofs.Record.Stored
import RecordTables.Proofs.Record.RoundTrip
import RecordTables.Proofs.Record.Probed
import RecordTables.Proofs.Record.Agreement
import RecordTables.Proofs.Number.Rounding
import RecordTables.Proofs.Number.Shortest
import RecordTables.Proofs.Json.Numerals
import RecordTables.Proofs.Json.Fractions
import RecordTables.Proofs.Json.Reals
import RecordTables.Proofs.Record.Legible
import RecordTables.Proofs.Record.DocumentParts
import RecordTables.Proofs.Record.ReadContents
import RecordTables.Proofs.Record.ReadObjects
import RecordTables.Proofs.Record.LegibleDocuments
import RecordTables.Proofs.Record.LegibleFields
import RecordTables.Proofs.Record.LegibleRows
import RecordTables.Proofs.Engine.Changes
import RecordTables.Proofs.Engine.Keyed
import RecordTables.Proofs.Engine.KeyedRows
import RecordTables.Proofs.Database.Issuing
import RecordTables.Proofs.Record.OneField
import RecordTables.Proofs.Record.SelfDescribing
import RecordTables.Proofs.Record.Usable
import RecordTables.Proofs.Engine.Accepted
import RecordTables.Proofs.Database.Ensured
import RecordTables.Proofs.Engine.KeyConditions
import RecordTables.Proofs.Engine.NamedParameters
import RecordTables.Proofs.Number.Integral
import RecordTables.Proofs.Record.Kept
import RecordTables.Proofs.Database.RecordKeys
import RecordTables.Proofs.Engine.KeyedStatements
import RecordTables.Proofs.Database.KeyedRecords
import RecordTables.Proofs.Json.Strings
import RecordTables.Proofs.Record.Levels
import RecordTables.Proofs.Record.SampleKeys
import RecordTables.Proofs.Record.Registered
import RecordTables.Proofs.Record.Typing
import RecordTables.Proofs.Schema.Columns
import RecordTables.Proofs.Sql.Boundaries
import RecordTables.Proofs.Record.MissingSamples
import RecordTables.Proofs.Database.Connections
import RecordTables.Proofs.Database.Reopening
import RecordTables.Proofs.Engine.Counters
import RecordTables.Proofs.Database.Scripts
import RecordTables.Proofs.Schema.Sorting
import RecordTables.Proofs.Schema.Parts
import RecordTables.Proofs.Schema.Agreeing
import RecordTables.Proofs.Database.Ensuring
import RecordTables.Proofs.Number.Exact
import RecordTables.Proofs.Number.Numerals
import RecordTables.Proofs.Number.Beyond
import RecordTables.Proofs.Record.Integers
import RecordTables.Proofs.Record.Mapping
import RecordTables.Proofs.Sql.Appended
import RecordTables.Proofs.Engine.Extension
import RecordTables.Proofs.Engine.PageTexts
import RecordTables.Proofs.Engine.Pages
import RecordTables.Proofs.Database.KeyTargets
import RecordTables.Proofs.Database.Paging
import RecordTables.Proofs.Schema.Determined
import RecordTables.Proofs.Database.CatalogOrder
import RecordTables.Proofs.Record.Dictionary
import RecordTables.Proofs.Record.Seeded
import RecordTables.Proofs.Record.WriteOnce
import RecordTables.Proofs.Record.Contents
import RecordTables.Proofs.Record.Choices
import RecordTables.Proofs.Record.DeclaredColumns
import RecordTables.Proofs.Json.Tokens
import RecordTables.Proofs.Json.Grammar
import RecordTables.Proofs.Record.VariantForms
import RecordTables.Proofs.Engine.WrittenRows
import RecordTables.Proofs.Engine.Tallies
import RecordTables.Proofs.Database.Counts
import RecordTables.Proofs.Text.AsciiWords
import RecordTables.Proofs.Schema.DeclaredTypes
import RecordTables.Proofs.Record.TypeNames
import RecordTables.Proofs.Record.TypeKeys
