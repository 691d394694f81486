import SenderPolicy.Address
import SenderPolicy.Address.Printer
import SenderPolicy.Address.Reader
import SenderPolicy.Check
import SenderPolicy.CommandLine
import SenderPolicy.CommandLine.Options
import SenderPolicy.Config
import SenderPolicy.Config.File
import SenderPolicy.Config.Setting
import SenderPolicy.Dns
import SenderPolicy.Dns.Nameserver
import SenderPolicy.Dns.Resolver
import SenderPolicy.Dns.Zone
import SenderPolicy.Domain
import SenderPolicy.Error
import SenderPolicy.Evaluation.Acquisition
import SenderPolicy.Evaluation.Direct
import SenderPolicy.Evaluation.Frame
import SenderPolicy.Evaluation.Machine
import SenderPolicy.Evaluation.Rank
import SenderPolicy.Evaluation.Rank.Answers
import SenderPolicy.Evaluation.Rank.Frames
import SenderPolicy.Evaluation.Run
import SenderPolicy.Evaluation.State
import SenderPolicy.Evaluation.Template
import SenderPolicy.Evaluation.Terms
import SenderPolicy.Executor
import SenderPolicy.Executor.Queue
import SenderPolicy.Executor.Tasks
import SenderPolicy.Identity
import SenderPolicy.Identity.Client
import SenderPolicy.Macro
import SenderPolicy.Macro.Expansion
import SenderPolicy.Macro.Transform
import SenderPolicy.Outcome
import SenderPolicy.Policy
import SenderPolicy.Policy.Table
import SenderPolicy.Record
import SenderPolicy.Record.Grammar
import SenderPolicy.Record.Parser
import SenderPolicy.Record.Printer
import SenderPolicy.Record.Term
import SenderPolicy.Result
import SenderPolicy.Text
import SenderPolicy.Text.Quoted
import SenderPolicy.Text.Utf8
import SenderPolicy.Toml.Document
import SenderPolicy.Toml.Draft
import SenderPolicy.Toml.Quoted
import SenderPolicy.Toml.Scalar
import SenderPolicy.Main
import SenderPolicy.Proofs.Simulation.Following
import SenderPolicy.Proofs.Simulation.Templates
import SenderPolicy.Proofs.Simulation.Records
import SenderPolicy.Proofs.Simulation.Mechanisms
import SenderPolicy.Proofs.Simulation.Terms
import SenderPolicy.Proofs.Simulation.Check
import SenderPolicy.Proofs.Course.Turn
import SenderPolicy.Proofs.Course.Stack
import SenderPolicy.Proofs.Course.Lookups
import SenderPolicy.Proofs.Course.Bounds
import SenderPolicy.Proofs.Course.Verdict
import SenderPolicy.Proofs.Course.Stages
import SenderPolicy.Proofs.Course.Inclusion
import SenderPolicy.Proofs.Executor.Ledger
import SenderPolicy.Proofs.Executor.Queue
import SenderPolicy.Proofs.Executor.Independence
import SenderPolicy.Proofs.Record.Grammar
import SenderPolicy.Proofs.Record.Terms
import SenderPolicy.Proofs.Record.Lengths
import SenderPolicy.Proofs.Record.Reading
import SenderPolicy.Proofs.Record.Acceptance
import SenderPolicy.Proofs.Course.Targets
import SenderPolicy.Proofs.Address.Literals
import SenderPolicy.Proofs.Record.Written
import SenderPolicy.Proofs.Course.Exchanges
import SenderPolicy.Proofs.Course.Failures
import SenderPolicy.Proofs.Course.Missing
import SenderPolicy.Proofs.Course.Expansions
import SenderPolicy.Proofs.Course.Explanations
import SenderPolicy.Proofs.Course.Attribution
import SenderPolicy.Proofs.Executor.Permits
import SenderPolicy.Proofs.Executor.Completion
import SenderPolicy.Proofs.Course.Decision
import SenderPolicy.Proofs.Course.Acquisition
import SenderPolicy.Proofs.Course.Unexplained
import SenderPolicy.Proofs.Course.Settings
import SenderPolicy.Proofs.Macro.Elements
import SenderPolicy.Proofs.Macro.Language
import SenderPolicy.Proofs.Record.Domains
import SenderPolicy.Proofs.Course.ClientName
import SenderPolicy.Proofs.Course.Strictness
import SenderPolicy.Proofs.Course.Clearing
import SenderPolicy.Proofs.Course.Redirection
import SenderPolicy.Proofs.Course.Forwarder
import SenderPolicy.Proofs.Simulation.Visits
import SenderPolicy.Proofs.Simulation.Steady
import SenderPolicy.Proofs.Simulation.Permission
import SenderPolicy.Proofs.Text.Case
import SenderPolicy.Proofs.Macro.Case
import SenderPolicy.Proofs.Course.Case
import SenderPolicy.Proofs.Course.LetterCase
import SenderPolicy.Proofs.Address.Networks
import SenderPolicy.Proofs.Policy.History
import SenderPolicy.Proofs.Course.Pointers
import SenderPolicy.Proofs.Text.Octets
import SenderPolicy.Proofs.Dns.Responses
import SenderPolicy.Proofs.Course.MailExchanges
import SenderPolicy.Proofs.Record.Ambiguity
import SenderPolicy.Proofs.Address.Reverse
import SenderPolicy.Proofs.Course.ReverseName
import SenderPolicy.Proofs.Text.Tails
import SenderPolicy.Proofs.Domain.Shortening
import SenderPolicy.Proofs.Macro.Parts
import SenderPolicy.Proofs.Macro.Capitals
