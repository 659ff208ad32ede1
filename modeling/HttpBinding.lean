import HttpBinding.Settings.Decode
import HttpBinding.Settings.Load
import HttpBinding.Script.Run
import HttpBinding.Proofs.Exchange.Handover
import HttpBinding.Proofs.Exchange.Attempts
import HttpBinding.Proofs.Session.Ledger
import HttpBinding.Proofs.Session.Tickets
import HttpBinding.Proofs.Session.Stage
import HttpBinding.Proofs.Session.Custody
import HttpBinding.Proofs.Session.Log
import HttpBinding.Proofs.Session.Serving
import HttpBinding.Proofs.Session.Coherent
import HttpBinding.Proofs.Session.Delivering
import HttpBinding.Proofs.Session.Admitting
import HttpBinding.Proofs.Session.Security
import HttpBinding.Proofs.Session.Omission
import HttpBinding.Proofs.Session.Ending
import HttpBinding.Proofs.Session.Polling
import HttpBinding.Proofs.Session.Refusal
import HttpBinding.Proofs.Patience
import HttpBinding.Proofs.Countdowns
import HttpBinding.Proofs.Hub.Course
import HttpBinding.Proofs.Hub.Recorders
import HttpBinding.Proofs.Hub.Telling
import HttpBinding.Proofs.Hub.InStep
import HttpBinding.Proofs.Hub.Steward
import HttpBinding.Proofs.Hub.Operations
import HttpBinding.Proofs.Hub.Closing
import HttpBinding.Proofs.Hub.Beginning
import HttpBinding.Proofs.Hub.Service
import HttpBinding.Proofs.Hub.Work
import HttpBinding.Proofs.Hub.Moves
import HttpBinding.Proofs.Hub.Eviction
import HttpBinding.Proofs.Hub.Registry
import HttpBinding.Proofs.Hub.Steps
import HttpBinding.Proofs.Hub.Orderly
import HttpBinding.Proofs.Hub.Happenings
import HttpBinding.Proofs.Hub.Responding
import HttpBinding.Proofs.Hub.Frame
import HttpBinding.Proofs.Hub.View
import HttpBinding.Proofs.Hub.Parting
import HttpBinding.Proofs.Hub.Shutdown
import HttpBinding.Proofs.Hub.Watch
import HttpBinding.Proofs.Hub.Abandonment
import HttpBinding.Proofs.Hub.Doings
import HttpBinding.Proofs.Text.Numeral
import HttpBinding.Proofs.Request
import HttpBinding.Proofs.Unsigned
import HttpBinding.Proofs.Body
import HttpBinding.Proofs.Settings.Overlay
import HttpBinding.Proofs.Settings.Layers
import HttpBinding.Proofs.Settings.Readers
import HttpBinding.Proofs.Settings.ReadBack
import HttpBinding.Proofs.Hub.Chronicle
import HttpBinding.Proofs.Hub.Deadlines
import HttpBinding.Proofs.Hub.Namesakes
import HttpBinding.Proofs.Hub.Lifetimes
import HttpBinding.Proofs.Hub.Security
import HttpBinding.Proofs.Hub.Echoes
import HttpBinding.Proofs.Hub.Refusal
import HttpBinding.Proofs.Hub.Creation
