import FilterQuery.Calendar.Date
import FilterQuery.Calendar.Instant
import FilterQuery.Calendar.Reading
import FilterQuery.Calendar.Time
import FilterQuery.Calendar.Zone
import FilterQuery.Calendar.Zone.Table
import FilterQuery.Calendar.Zoned
import FilterQuery.Catalog
import FilterQuery.Catalog.Definition
import FilterQuery.Catalog.Document
import FilterQuery.Condition
import FilterQuery.Condition.Document
import FilterQuery.Condition.Parse
import FilterQuery.Condition.Print
import FilterQuery.Escape
import FilterQuery.Example.Company
import FilterQuery.Failure
import FilterQuery.Json
import FilterQuery.Json.Scan
import FilterQuery.Literal
import FilterQuery.Naming
import FilterQuery.Number.Binary64
import FilterQuery.Number.Decimal
import FilterQuery.Operator
import FilterQuery.Pagination
import FilterQuery.Position
import FilterQuery.Query.BoundValue
import FilterQuery.Query.Clause
import FilterQuery.Query.Compile
import FilterQuery.Query.Names
import FilterQuery.Query.Quote
import FilterQuery.Query.Session
import FilterQuery.Service.Api
import FilterQuery.Service.Exchange
import FilterQuery.Service.Settings
import FilterQuery.Sorting
import FilterQuery.Text.Ascii
import FilterQuery.Text.Blank
import FilterQuery.Text.Bytes
import FilterQuery.Text.CaseMap
import FilterQuery.Text.Percent
import FilterQuery.Text.Replace
import FilterQuery.Text.Utf8
import FilterQuery.Token
import FilterQuery.Value
import FilterQuery.Proofs.Grammar
import FilterQuery.Proofs.Parse
import FilterQuery.Proofs.Resolve
import FilterQuery.Proofs.Escape
import FilterQuery.Proofs.Lexing
import FilterQuery.Proofs.Digits
import FilterQuery.Proofs.DateText
import FilterQuery.Proofs.ValueText
import FilterQuery.Proofs.RoundTrip
import FilterQuery.Proofs.Nesting
import FilterQuery.Proofs.Compiled
import FilterQuery.Proofs.QueryText
import FilterQuery.Proofs.QueryWords
import FilterQuery.Proofs.SessionRun
import FilterQuery.Proofs.Injection
import FilterQuery.Proofs.Reading
import FilterQuery.Proofs.BooleanStructure
import FilterQuery.Proofs.FreshNames
import FilterQuery.Proofs.CatalogWalk
import FilterQuery.Proofs.Placeholders
import FilterQuery.Proofs.Bindings
import FilterQuery.Proofs.Scoping
import FilterQuery.Proofs.Declarations
import FilterQuery.Proofs.CompileErrors
import FilterQuery.Proofs.Slices
import FilterQuery.Proofs.LiteralSlices
import FilterQuery.Proofs.LiteralFaults
import FilterQuery.Proofs.ParseFaults
import FilterQuery.Proofs.Renaming
import FilterQuery.Proofs.Operands
import FilterQuery.Proofs.LiteralText
import FilterQuery.Proofs.LikePattern
import FilterQuery.Proofs.Spacing
import FilterQuery.Proofs.HavingDepth
import FilterQuery.Proofs.Correlation
import FilterQuery.Proofs.Layout
import FilterQuery.Proofs.StringText
import FilterQuery.Proofs.ComponentRows
import FilterQuery.Proofs.LikeMatching
import FilterQuery.Proofs.ErrorPositions
import FilterQuery.Proofs.ParsedConditions
import FilterQuery.Proofs.Conjunction
import FilterQuery.Proofs.PathComposition
import FilterQuery.Proofs.Inverses
import FilterQuery.Proofs.PageNumbers
import FilterQuery.Proofs.DayCount
import FilterQuery.Proofs.OffsetText
import FilterQuery.Proofs.ZoneGaps
import FilterQuery.Proofs.InstantBounds
import FilterQuery.Proofs.PageBounds
import FilterQuery.Proofs.SortingText
import FilterQuery.Proofs.CamelCase
import FilterQuery.Proofs.DoubleRounding
import FilterQuery.Proofs.DoubleText
import FilterQuery.Proofs.Numerals
import FilterQuery.Proofs.QuotedStrings
