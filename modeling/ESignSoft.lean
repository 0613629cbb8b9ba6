import ESignSoft.Lib.Interleaving
import ESignSoft.Lib.Table
import ESignSoft.Lib.JsText
import ESignSoft.Lib.JsDate
import ESignSoft.Billing.Period
import ESignSoft.Billing.Ledger
import ESignSoft.Billing.Serial
import ESignSoft.Billing.Grants
import ESignSoft.Billing.Clawback
import ESignSoft.Contracts.Fields
import ESignSoft.Contracts.SendRequest
import ESignSoft.Signing.FieldValues
import ESignSoft.Signing.SignaturePng
import ESignSoft.Signing.StampPdf
import ESignSoft.Signing.StampedBoxes
import ESignSoft.Envelope.Rows
import ESignSoft.Envelope.Writes
import ESignSoft.Envelope.Advance
import ESignSoft.Envelope.Send
import ESignSoft.Envelope.Service
import ESignSoft.Envelope.Steps
import ESignSoft.Envelope.Roles
import ESignSoft.Envelope.CompletedRow
import ESignSoft.Envelope.Signatures
import ESignSoft.Envelope.RoutingOrder
import ESignSoft.Envelope.SingleUse
import ESignSoft.Envelope.Stranded
import ESignSoft.Envelope.Groups
import ESignSoft.Envelope.Invites
import ESignSoft.Envelope.Progress
import ESignSoft.Sealing.Completion
import ESignSoft.Sealing.Verify
import ESignSoft.Sealing.OneSeal
import ESignSoft.Billing.Access
import ESignSoft.Billing.Callbacks
import ESignSoft.Billing.Payme
import ESignSoft.Billing.PaymeService
import ESignSoft.Billing.PaymeAnswers
import ESignSoft.Billing.PaymeSequence
import ESignSoft.Billing.Click
import ESignSoft.Billing.ClickService
import ESignSoft.Billing.ClickAnswers
import ESignSoft.Envelope.VoidFinal
import ESignSoft.Signing.Ceremony
import ESignSoft.Signing.PrintedText
import ESignSoft.Envelope.Door
import ESignSoft.Envelope.Evidence
import ESignSoft.Sealing.EveryMark
import ESignSoft.Envelope.VoidAnswers
import ESignSoft.Envelope.OneLink
import ESignSoft.Envelope.SendAttempt
import ESignSoft.Envelope.NewestLink
import ESignSoft.Billing.Renewals
import ESignSoft.Lib.HttpHeaders
import ESignSoft.Relay.ClientAddress
import ESignSoft.Signing.PageBoxes
import ESignSoft.Lib.Utf8
import ESignSoft.Sealing.SealBinding
import ESignSoft.Identity.UserSync
import ESignSoft.Lib.SlidingWindow
import ESignSoft.Operations.RateLimit
import ESignSoft.Lib.History
import ESignSoft.Envelope.Reminders
import ESignSoft.Envelope.ExpiryNotice
import ESignSoft.Sealing.SignedCopies
import ESignSoft.Lib.StreakAlarm
import ESignSoft.Operations.Alerts
import ESignSoft.Billing.Calendar
import ESignSoft.Operations.WindowLimiter
import ESignSoft.Signing.Options
import ESignSoft.Lib.CodePoints
import ESignSoft.Signing.TypingFilter
import ESignSoft.Lib.Rectangle
import ESignSoft.Signing.StampGeometry
import ESignSoft.Lib.WhileLoop
import ESignSoft.Signing.TextFit
import ESignSoft.Lib.EarliestFirst
import ESignSoft.Operations.Reconcile
import ESignSoft.Lib.Runs
import ESignSoft.Prepare.Recipients
import ESignSoft.Prepare.CopyFields
import ESignSoft.Prepare.Editor
import ESignSoft.Lib.Pagination
import ESignSoft.Sealing.Certificate
import ESignSoft.Sealing.CertificateLayout
import ESignSoft.Lib.Timeline
import ESignSoft.Prepare.UndoRedo
import ESignSoft.Agreements.ToSign
import ESignSoft.Lib.Isolation
import ESignSoft.Lib.RowSecurity
import ESignSoft.Tenancy.TenantDb
import ESignSoft.Identity.Workspaces
import ESignSoft.Tenancy.Storage
import ESignSoft.Lib.WordWrap
import ESignSoft.Templates.Catalogue
import ESignSoft.Templates.Sent
import ESignSoft.Lib.PercentEncoding
import ESignSoft.Perimeter.Budgets
import ESignSoft.Perimeter.Forwarding
import ESignSoft.Lib.Base64
import ESignSoft.Signing.FinishReachable
import ESignSoft.Signing.Ink
