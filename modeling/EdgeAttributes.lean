import EdgeAttributes.Main
import EdgeAttributes.Proofs.Access.Agreement
import EdgeAttributes.Proofs.Import.Sharding
import EdgeAttributes.Proofs.Layout.Writes
import EdgeAttributes.Proofs.Registry.Independence
import EdgeAttributes.Proofs.Registry.Totality
import EdgeAttributes.Proofs.Pipeline.Replay
import EdgeAttributes.Proofs.Registry.Wiring
import EdgeAttributes.Proofs.Attribute.TagValues
import EdgeAttributes.Proofs.Layout.Unwritten
import EdgeAttributes.Proofs.Registry.Decoding
import EdgeAttributes.Proofs.Layout.Growth
import EdgeAttributes.Proofs.Registry.Growth
import EdgeAttributes.Proofs.Pipeline.Ownership
import EdgeAttributes.Proofs.Storage.Rows
import EdgeAttributes.Proofs.Storage.Words
import EdgeAttributes.Proofs.Layout.Views
import EdgeAttributes.Proofs.Layout.Reach
import EdgeAttributes.Proofs.Pipeline.Failure
import EdgeAttributes.Proofs.Text.Split
import EdgeAttributes.Proofs.Access.Precedence
import EdgeAttributes.Proofs.Json.Quoted
import EdgeAttributes.Proofs.Json.Token
import EdgeAttributes.Proofs.Json.Value
import EdgeAttributes.Proofs.Way.Json
import EdgeAttributes.Proofs.Import.Lines
import EdgeAttributes.Proofs.Import.Ways
import EdgeAttributes.Proofs.Access.Monotone
import EdgeAttributes.Proofs.Access.Overriding
import EdgeAttributes.Proofs.Pipeline.Combination
import EdgeAttributes.Proofs.Field.Exactness
import EdgeAttributes.Proofs.Field.Tags
import EdgeAttributes.Proofs.Decimal.Value
import EdgeAttributes.Proofs.Decimal.Rounding
import EdgeAttributes.Proofs.Decimal.Arithmetic
import EdgeAttributes.Proofs.Field.Decimals
import EdgeAttributes.Proofs.Attribute.SlowLimits
import EdgeAttributes.Proofs.Text.Casing
import EdgeAttributes.Proofs.Attribute.Casing
import EdgeAttributes.Proofs.Registry.Redundancy
import EdgeAttributes.Proofs.Layout.Waste
import EdgeAttributes.Proofs.Text.Trim
import EdgeAttributes.Proofs.Attribute.AccessLists
import EdgeAttributes.Proofs.Decimal.Underflow
import EdgeAttributes.Proofs.Decimal.Numeral
import EdgeAttributes.Proofs.Attribute.SpeedGrammar
import EdgeAttributes.Proofs.Registry.Suggestions
import EdgeAttributes.Proofs.Import.Keys
import EdgeAttributes.Proofs.Layout.Readers
