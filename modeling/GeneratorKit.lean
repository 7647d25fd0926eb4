import GeneratorKit.Code.Accessibility
import GeneratorKit.Code.Constant
import GeneratorKit.Code.Encoding
import GeneratorKit.Code.SpecialType
import GeneratorKit.Code.TypeRef
import GeneratorKit.Diagnostics.Bag
import GeneratorKit.Diagnostics.Cache
import GeneratorKit.Diagnostics.Descriptor
import GeneratorKit.Diagnostics.Encoding
import GeneratorKit.Diagnostics.Location
import GeneratorKit.Diagnostics.Outcome
import GeneratorKit.Diagnostics.Path
import GeneratorKit.Diagnostics.Record
import GeneratorKit.Diagnostics.Severity
import GeneratorKit.Emission.Command
import GeneratorKit.Emission.Declarations
import GeneratorKit.Emission.Indent
import GeneratorKit.Emission.Lines
import GeneratorKit.Emission.Lists
import GeneratorKit.Emission.Scopes
import GeneratorKit.Emission.Session
import GeneratorKit.Emission.Stop
import GeneratorKit.Emission.Writer
import GeneratorKit.Fault
import GeneratorKit.Json.Basic
import GeneratorKit.Json.Decode
import GeneratorKit.Json.Printer
import GeneratorKit.Json.Reader
import GeneratorKit.Map.Ordered
import GeneratorKit.Map.Sorted
import GeneratorKit.Number.Binary
import GeneratorKit.Number.Literal
import GeneratorKit.Number.Shortest
import GeneratorKit.Options.Basic
import GeneratorKit.Options.Reader
import GeneratorKit.Proofs.Code.DisplayForm
import GeneratorKit.Proofs.Code.Kinds
import GeneratorKit.Proofs.Code.Literal
import GeneratorKit.Proofs.Code.Nullability
import GeneratorKit.Proofs.Code.Phrases
import GeneratorKit.Proofs.Code.Serialization
import GeneratorKit.Proofs.Diagnostics.Assembly
import GeneratorKit.Proofs.Diagnostics.BagHistory
import GeneratorKit.Proofs.Diagnostics.Batches
import GeneratorKit.Proofs.Diagnostics.CacheHistory
import GeneratorKit.Proofs.Diagnostics.Display
import GeneratorKit.Proofs.Diagnostics.Equality
import GeneratorKit.Proofs.Diagnostics.Ordering
import GeneratorKit.Proofs.Diagnostics.Serialization
import GeneratorKit.Proofs.Diagnostics.Spelling
import GeneratorKit.Proofs.Diagnostics.Substitution
import GeneratorKit.Proofs.Emission.Accounts
import GeneratorKit.Proofs.Emission.Attempts
import GeneratorKit.Proofs.Emission.Braces
import GeneratorKit.Proofs.Emission.Command
import GeneratorKit.Proofs.Emission.Depth
import GeneratorKit.Proofs.Emission.Draft
import GeneratorKit.Proofs.Emission.Guards
import GeneratorKit.Proofs.Emission.Isolation
import GeneratorKit.Proofs.Emission.Layout
import GeneratorKit.Proofs.Emission.Ledger
import GeneratorKit.Proofs.Emission.Lists
import GeneratorKit.Proofs.Emission.Session
import GeneratorKit.Proofs.Emission.Sheet
import GeneratorKit.Proofs.Emission.Slots
import GeneratorKit.Proofs.Emission.Statement
import GeneratorKit.Proofs.Emission.Twins
import GeneratorKit.Proofs.Emission.Workshop
import GeneratorKit.Proofs.Emission.Writer
import GeneratorKit.Proofs.Options.Collecting
import GeneratorKit.Proofs.Options.Flattening
import GeneratorKit.Proofs.Options.Integers
import GeneratorKit.Proofs.Options.Padding
import GeneratorKit.Proofs.Storage.Buffer
import GeneratorKit.Proofs.Storage.Capacity
import GeneratorKit.Proofs.Storage.Pool
import GeneratorKit.Proofs.Storage.PoolHistory
import GeneratorKit.Proofs.Storage.Shelf
import GeneratorKit.Proofs.Text.Spacing
import GeneratorKit.Proofs.Toml.Ascending
import GeneratorKit.Storage.Buffer
import GeneratorKit.Storage.Pool
import GeneratorKit.Storage.Shelf
import GeneratorKit.Text.Bytes
import GeneratorKit.Text.Classes
import GeneratorKit.Text.Numeral
import GeneratorKit.Text.Rendering
import GeneratorKit.Text.Words
import GeneratorKit.Toml.DateTime
import GeneratorKit.Toml.Printer
import GeneratorKit.Toml.Reader
import GeneratorKit.Toml.Resolution
import GeneratorKit.Toml.Strings
import GeneratorKit.Toml.Table
import GeneratorKit.Toml.Term
import GeneratorKit.Toml.Value
import GeneratorKit.Proofs.Diagnostics.Display
