import Questline.Arbitration
import Questline.Binary64
import Questline.Binary64.Decimal
import Questline.CommandLine
import Questline.Config
import Questline.Definition
import Questline.Definition.File
import Questline.Dialogue
import Questline.Effect
import Questline.Event
import Questline.FileTree
import Questline.Hunt
import Questline.Hunt.Kill
import Questline.Hunt.Loading
import Questline.Id
import Questline.Instant
import Questline.Instant.Text
import Questline.Journal
import Questline.Json
import Questline.Json.Decode
import Questline.Json.Reader
import Questline.LoadError
import Questline.Main
import Questline.Proofs.Index
import Questline.Proofs.Schuttgart
import Questline.Rates
import Questline.Record
import Questline.Record.Text
import Questline.Registry
import Questline.Registry.Dispatch
import Questline.Registry.Index
import Questline.ScriptKind
import Questline.Session
import Questline.Sessions
import Questline.Table
import Questline.Text.Blank
import Questline.Text.Hex
import Questline.Text.Numeral
import Questline.Toml.DateTime
import Questline.Toml.Decode
import Questline.Toml.Document
import Questline.Toml.Number
import Questline.Toml.Quoted
import Questline.Toml.Reader
import Questline.Toml.Section
import Questline.Toml.Value
import Questline.World
import Questline.Proofs.Deed
import Questline.Proofs.Play
import Questline.Proofs.Reload
import Questline.Proofs.Lifecycle
import Questline.Proofs.Total
import Questline.Proofs.Ledger
import Questline.Proofs.Membership
import Questline.Proofs.Parties
import Questline.Proofs.Company
import Questline.Proofs.Items
import Questline.Proofs.Change
import Questline.Proofs.Shape
import Questline.Proofs.Checks
import Questline.Proofs.Limits
import Questline.Proofs.Json
import Questline.Proofs.Instant
import Questline.Proofs.Handover
import Questline.Proofs.Talk
import Questline.Proofs.Files
import Questline.Proofs.Loading
import Questline.Proofs.Acceptance
import Questline.Proofs.Grant
import Questline.Proofs.Applied
import Questline.Proofs.Shares
import Questline.Proofs.Winners
import Questline.Proofs.Retalk
import Questline.Proofs.Independence
import Questline.Proofs.Balance
import Questline.Proofs.Report
import Questline.Proofs.Pay
import Questline.Proofs.Refusal
import Questline.Proofs.Stock
import Questline.Proofs.Overflow
import Questline.Proofs.Drafts
import Questline.Proofs.Draw
import Questline.Proofs.Recount
import Questline.Proofs.Exchange
import Questline.Proofs.Accord
import Questline.Proofs.Conservation
import Questline.Proofs.Completion
import Questline.Proofs.Lockstep
import Questline.Proofs.Settlement
import Questline.Proofs.Tokens
import Questline.Proofs.Rounding
import Questline.Proofs.WholeRates
import Questline.Proofs.Defaults
