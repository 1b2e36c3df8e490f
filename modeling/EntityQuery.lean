import EntityQuery.AliasScope
import EntityQuery.Application
import EntityQuery.Binary64.Basic
import EntityQuery.Binary64.Decimal
import EntityQuery.Binary64.Rounding
import EntityQuery.Binary64.Shortest
import EntityQuery.Catalog
import EntityQuery.Dialect.Basic
import EntityQuery.Dialect.CommonTable
import EntityQuery.Dialect.ModifiedTable
import EntityQuery.Dialect.SetOperation
import EntityQuery.Dialect.Shaping
import EntityQuery.Error
import EntityQuery.Expression.Basic
import EntityQuery.Expression.Text
import EntityQuery.FunctionNames
import EntityQuery.JoinForest
import EntityQuery.Json.Basic
import EntityQuery.Json.Reader
import EntityQuery.Json.Record
import EntityQuery.Json.Writer
import EntityQuery.Logging
import EntityQuery.Predicate.Basic
import EntityQuery.Predicate.Parser
import EntityQuery.Profile
import EntityQuery.Proofs.AliasRounds
import EntityQuery.Proofs.AliasScope
import EntityQuery.Proofs.AttributePaths
import EntityQuery.Proofs.Binary64.Rounding
import EntityQuery.Proofs.Dialect.FailedShaping
import EntityQuery.Proofs.Dialect.GivenClauses
import EntityQuery.Proofs.Dialect.GroupedOperands
import EntityQuery.Proofs.Dialect.NewState
import EntityQuery.Proofs.Dialect.TableOffsets
import EntityQuery.Proofs.Expression.Calls
import EntityQuery.Proofs.Expression.Endless
import EntityQuery.Proofs.Expression.NullText
import EntityQuery.Proofs.Expression.Quotations
import EntityQuery.Proofs.Expression.Renaming
import EntityQuery.Proofs.Expression.Replacement
import EntityQuery.Proofs.Expression.SizeAliases
import EntityQuery.Proofs.Expression.SizeCalls
import EntityQuery.Proofs.ForestRuns
import EntityQuery.Proofs.FreshAlias
import EntityQuery.Proofs.JoinForest
import EntityQuery.Proofs.Outcome
import EntityQuery.Proofs.Predicate.Operators
import EntityQuery.Proofs.Predicate.Pairing
import EntityQuery.Proofs.Predicate.QuotedOperands
import EntityQuery.Proofs.Predicate.Reading
import EntityQuery.Proofs.Query.Contents
import EntityQuery.Proofs.Query.Declarations
import EntityQuery.Proofs.Query.Extension
import EntityQuery.Proofs.Query.FromClause
import EntityQuery.Proofs.Query.Growth
import EntityQuery.Proofs.Query.History
import EntityQuery.Proofs.Query.Landing
import EntityQuery.Proofs.Query.NodePaths
import EntityQuery.Proofs.Query.NullComparisons
import EntityQuery.Proofs.Query.Permanence
import EntityQuery.Proofs.Query.Placeholders
import EntityQuery.Proofs.Query.PlainText
import EntityQuery.Proofs.Query.References
import EntityQuery.Proofs.Query.RenamedText
import EntityQuery.Proofs.Query.Renaming
import EntityQuery.Proofs.Query.Rendering
import EntityQuery.Proofs.Query.SameText
import EntityQuery.Proofs.Query.Steps
import EntityQuery.Proofs.Query.Substitution
import EntityQuery.Proofs.Query.TakenAliases
import EntityQuery.Proofs.Query.Wiring
import EntityQuery.Proofs.Schema
import EntityQuery.Proofs.ScopeChain
import EntityQuery.Proofs.Text.Bytes
import EntityQuery.Proofs.Text.Occurrence
import EntityQuery.Proofs.Text.Parentheses
import EntityQuery.Proofs.Text.Paths
import EntityQuery.Proofs.Text.Quotations
import EntityQuery.Proofs.Value.Equality
import EntityQuery.Proofs.Value.Literals
import EntityQuery.Proofs.Value.Order
import EntityQuery.Proofs.View.Acceptance
import EntityQuery.Proofs.View.AliasOperands
import EntityQuery.Proofs.View.Bindings
import EntityQuery.Proofs.View.Cell
import EntityQuery.Proofs.View.Correlation
import EntityQuery.Proofs.View.FailedAccess
import EntityQuery.Proofs.View.Layout
import EntityQuery.Proofs.View.Lifetime
import EntityQuery.Proofs.View.Markers
import EntityQuery.Proofs.View.Neighbours
import EntityQuery.Proofs.View.ObjectPath
import EntityQuery.Proofs.View.OwnColumns
import EntityQuery.Proofs.View.Refilling
import EntityQuery.Proofs.View.SetsAndMaps
import EntityQuery.Proofs.View.SortedSets
import EntityQuery.Proofs.View.StoredRow
import EntityQuery.Proofs.View.UpdateProtocol
import EntityQuery.Proofs.View.ViewQuery
import EntityQuery.Query.Basic
import EntityQuery.Query.Build
import EntityQuery.Query.Statement
import EntityQuery.Query.Text
import EntityQuery.Renderer
import EntityQuery.Schema.Attribute
import EntityQuery.Schema.Basic
import EntityQuery.Schema.JoinTable
import EntityQuery.Schema.Json
import EntityQuery.Settings.Basic
import EntityQuery.Settings.Document
import EntityQuery.Settings.Json
import EntityQuery.Settings.Toml
import EntityQuery.Settings.Toml.Blank
import EntityQuery.Settings.Toml.Branch
import EntityQuery.Settings.Toml.Moment
import EntityQuery.Settings.Toml.Number
import EntityQuery.Settings.Toml.Quoted
import EntityQuery.Settings.Toml.Value
import EntityQuery.SizeExpansion
import EntityQuery.StatementKind
import EntityQuery.Text.Blank
import EntityQuery.Text.Escaped
import EntityQuery.Text.Hexadecimal
import EntityQuery.Text.Identifier
import EntityQuery.Text.Letters
import EntityQuery.Text.Quoted
import EntityQuery.Text.Unshown
import EntityQuery.UnitOfWork
import EntityQuery.Value.Basic
import EntityQuery.Value.Json
import EntityQuery.Value.Order
import EntityQuery.Value.Text
import EntityQuery.View.Collection
import EntityQuery.View.Correlation
import EntityQuery.View.Descriptor
import EntityQuery.View.Error
import EntityQuery.View.Instance
import EntityQuery.View.ObjectPath
import EntityQuery.View.Updater
import EntityQuery.View.ViewType
