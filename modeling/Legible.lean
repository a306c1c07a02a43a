import Legible.Config.Loose
import Legible.Format.Failure
import Legible.Log.Template
import Legible.Main
import Legible.Toml.OfJson
import Legible.Proofs.Message.Balance
import Legible.Proofs.Message.Grammar
import Legible.Proofs.Service.Clock
import Legible.Proofs.Service.Course
import Legible.Proofs.Service.Effect
import Legible.Proofs.Service.Jobs
import Legible.Proofs.Service.Programs
import Legible.Proofs.Service.Batches
import Legible.Proofs.Service.Showing
import Legible.Proofs.Service.Coherence
import Legible.Proofs.Format.Cache
import Legible.Proofs.Service.Waiting
import Legible.Proofs.Service.Pending
import Legible.Proofs.Service.Awaited
import Legible.Proofs.Service.Timely
import Legible.Proofs.Service.Agreement
import Legible.Proofs.Service.Alone
import Legible.Proofs.Service.Provenance
import Legible.Proofs.Format.Wrapping
import Legible.Proofs.Format.Layout
import Legible.Proofs.Format.Locator
import Legible.Proofs.Machine.Programs
import Legible.Proofs.Render.Echo
import Legible.Proofs.Config.Effective
import Legible.Proofs.Config.Discovery
import Legible.Proofs.Message.Rebuilding
import Legible.Proofs.Message.Composition
import Legible.Proofs.Text.Pattern
import Legible.Proofs.Message.TypeLiteral
import Legible.Proofs.Files.Path
import Legible.Proofs.Config.Schema
import Legible.Proofs.Config.Conformity
import Legible.Proofs.Config.Loading
import Legible.Proofs.Toml.Absent
import Legible.Proofs.Toml.RoundTrip
import Legible.Proofs.Cli.Dump
import Legible.Proofs.Text.Numeral
import Legible.Proofs.Json.Reader
import Legible.Proofs.Render.Inline
import Legible.Proofs.Config.Finishing
import Legible.Proofs.Cli.Level
import Legible.Proofs.Cli.Abort
import Legible.Proofs.Format.Ellipsis
import Legible.Proofs.Service.Completion
import Legible.Proofs.Service.Erasure
import Legible.Proofs.Render.Fences
