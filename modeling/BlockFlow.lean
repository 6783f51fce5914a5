import BlockFlow.Main
import BlockFlow.Scenario.Session
import BlockFlow.Scenario.Tables
import BlockFlow.Scenario.Workshop
import BlockFlow.Proofs.Terms
import BlockFlow.Proofs.Moments
import BlockFlow.Proofs.Conduct
import BlockFlow.Proofs.Refusal
import BlockFlow.Proofs.Reentrancy
import BlockFlow.Proofs.Alternation
import BlockFlow.Proofs.CalmHook
import BlockFlow.Proofs.Agreement
import BlockFlow.Proofs.Trail
import BlockFlow.Proofs.Made
import BlockFlow.Proofs.Visits
import BlockFlow.Proofs.Routing
import BlockFlow.Proofs.Blind
import BlockFlow.Proofs.Tokens
import BlockFlow.Proofs.Expiry
import BlockFlow.Proofs.LineForm
import BlockFlow.Proofs.Utf8Form
import BlockFlow.Proofs.JsonForm
import BlockFlow.Proofs.CommandForm
import BlockFlow.Proofs.Readiness
import BlockFlow.Proofs.Dispatch
import BlockFlow.Proofs.Enrolment
import BlockFlow.Proofs.History
import BlockFlow.Proofs.Handover
import BlockFlow.Proofs.Descent
import BlockFlow.Proofs.Dealing
import BlockFlow.Proofs.Custody
import BlockFlow.Proofs.WholeLines
import BlockFlow.Proofs.Untouched
import BlockFlow.Proofs.Pairing
import BlockFlow.Proofs.ClientStream
import BlockFlow.Proofs.Serving
import BlockFlow.Proofs.Framing
import BlockFlow.Proofs.ServerHooks
import BlockFlow.Proofs.Addresses
import BlockFlow.Proofs.Vacancy
import BlockFlow.Proofs.Parting
import BlockFlow.Proofs.Ledger
import BlockFlow.Proofs.Balance
import BlockFlow.Proofs.Bookkeeping
import BlockFlow.Proofs.DescriptorTable
import BlockFlow.Proofs.Population
import BlockFlow.Proofs.HopLimit
import BlockFlow.Proofs.HelloFlows
import BlockFlow.Proofs.Utf8Exact
import BlockFlow.Proofs.Concur
import BlockFlow.Proofs.LineEnds
import BlockFlow.Proofs.FileLoading
import BlockFlow.Proofs.Pruning
import BlockFlow.Proofs.TimerQueue
import BlockFlow.Proofs.Origin
import BlockFlow.Proofs.Alteration
import BlockFlow.Proofs.RecordedRoutes
import BlockFlow.Proofs.StrictBinding
import BlockFlow.Proofs.Confined
import BlockFlow.Proofs.Commuting
import BlockFlow.Proofs.WatchRoll
import BlockFlow.Proofs.LineWords
import BlockFlow.Proofs.LineGrammar
import BlockFlow.Proofs.LimitCuts
import BlockFlow.Proofs.Draining
import BlockFlow.Proofs.PollReport
import BlockFlow.Proofs.Abstaining
import BlockFlow.Proofs.Clearing
import BlockFlow.Proofs.ControlMessages
import BlockFlow.Proofs.Sparing
import BlockFlow.Proofs.SelfService
import BlockFlow.Proofs.ServedAddress
import BlockFlow.Proofs.DumpForm
import BlockFlow.Proofs.SettingsForm
