import AllowList.Command.Invocation
import AllowList.Command.Option
import AllowList.Command.Reader
import AllowList.Command.Usage
import AllowList.Compiler
import AllowList.DefaultConfig
import AllowList.Diagnostic
import AllowList.Failure
import AllowList.Files.Access
import AllowList.Files.Basic
import AllowList.Files.Path
import AllowList.Issue
import AllowList.Json.Canonical
import AllowList.Json.Compact
import AllowList.Json.Escape
import AllowList.Json.Numeral
import AllowList.Json.Reader
import AllowList.Json.Token
import AllowList.Json.Value
import AllowList.Json.Written
import AllowList.Log.Basic
import AllowList.Log.Spelled
import AllowList.Main
import AllowList.NameList.Basic
import AllowList.NameList.Given
import AllowList.NameList.Join
import AllowList.NameList.Reader
import AllowList.Namespace
import AllowList.Numeric.Binary64
import AllowList.Numeric.Decimal
import AllowList.Numeric.Power
import AllowList.Numeric.Shortest
import AllowList.Numeric.Significand
import AllowList.Policy.Basic
import AllowList.Policy.Decoding
import AllowList.Policy.Encoding
import AllowList.Policy.Normal
import AllowList.Proofs.DefaultConfig
import AllowList.Proofs.Files.Replaced
import AllowList.Proofs.Firsts
import AllowList.Proofs.Json.Alike
import AllowList.Proofs.Json.Arranged
import AllowList.Proofs.Json.Canonical
import AllowList.Proofs.Json.Characters
import AllowList.Proofs.Json.Layout
import AllowList.Proofs.Json.Lexemes
import AllowList.Proofs.Json.Members
import AllowList.Proofs.Json.Reread
import AllowList.Proofs.Json.Rereadable
import AllowList.Proofs.Json.Spelling
import AllowList.Proofs.NameList.Language
import AllowList.Proofs.NameList.Loaded
import AllowList.Proofs.NameList.Regrouped
import AllowList.Proofs.NameList.Wrapped
import AllowList.Proofs.Order
import AllowList.Proofs.Policy.Accepted
import AllowList.Proofs.Policy.Arrays
import AllowList.Proofs.Policy.Entries
import AllowList.Proofs.Policy.Joined
import AllowList.Proofs.Policy.Meaning
import AllowList.Proofs.Policy.NormalForm
import AllowList.Proofs.Policy.OverBase
import AllowList.Proofs.Policy.Passes
import AllowList.Proofs.Policy.Removals
import AllowList.Proofs.Policy.Rewritten
import AllowList.Proofs.Policy.RoundTrip
import AllowList.Proofs.Policy.Shape
import AllowList.Proofs.Precedence
import AllowList.Proofs.Run.Atomic
import AllowList.Proofs.Run.Outcome
import AllowList.Proofs.Run.Reads
import AllowList.Proofs.Run.Reported
import AllowList.Proofs.Source.Grammar
import AllowList.Proofs.Source.Image
import AllowList.Proofs.Source.Issues
import AllowList.Proofs.Source.Joined
import AllowList.Proofs.Source.Labels
import AllowList.Proofs.Source.Language
import AllowList.Proofs.Source.Layout
import AllowList.Proofs.Source.Listable
import AllowList.Proofs.Source.Moved
import AllowList.Proofs.Source.Placement
import AllowList.Proofs.Source.Reading
import AllowList.Proofs.Source.Relaid
import AllowList.Proofs.Source.Run
import AllowList.Proofs.Source.Sections
import AllowList.Proofs.Source.Written
import AllowList.Proofs.Text.Filled
import AllowList.Proofs.Text.Greedy
import AllowList.Proofs.Text.Parts
import AllowList.Proofs.Text.Places
import AllowList.Proofs.Text.Wrapped
import AllowList.Proofs.Work
import AllowList.QName
import AllowList.Run.Artifact
import AllowList.Run.Basic
import AllowList.Run.Effects
import AllowList.Run.Surroundings
import AllowList.Session
import AllowList.Settings
import AllowList.Settings.Reader
import AllowList.Source.Draft
import AllowList.Source.Entry
import AllowList.Source.Line
import AllowList.Text.Blank
import AllowList.Text.Bytes
import AllowList.Text.Hex
import AllowList.Text.Quoted
import AllowList.Text.Rows
import AllowList.Text.Unprintable
import AllowList.Text.Wrap
import AllowList.Toml.Held
import AllowList.Toml.Moment
import AllowList.Toml.Number
import AllowList.Toml.Reader
import AllowList.Toml.Table
import AllowList.Toml.Text
import AllowList.Toml.Token
import AllowList.Toml.Value
