import SlipScan.Documents.Numbering
import SlipScan.Ledger.Closing
import SlipScan.Ledger.Sources
import SlipScan.Ledger.TaxStability
import SlipScan.Schedules.Bounds
import SlipScan.Sync.Authenticity
import SlipScan.Sync.VersionVector
import SlipScan.Foundation.Framing
import SlipScan.Model.Dedupe
import SlipScan.Banking.Deduplication
import SlipScan.Foundation.Occurrences
import SlipScan.Model.StatementImport
import SlipScan.Banking.ImportSteps
import SlipScan.Banking.StatementImport
import SlipScan.Foundation.Faults
import SlipScan.Model.Devices
import SlipScan.Foundation.Histories
import SlipScan.Devices.Rotation
import SlipScan.Devices.IdentityRuns
import SlipScan.Model.Pairing
import SlipScan.Devices.Pairing
import SlipScan.Devices.Ceremony
import SlipScan.Model.Statements
import SlipScan.Ledger.Amounts
import SlipScan.Ledger.Statements
import SlipScan.Ledger.TaxRows
import SlipScan.Ledger.SupplyBoxes
import SlipScan.Model.NetWorth
import SlipScan.Banking.NetWorth
import SlipScan.Foundation.KeyedTable
import SlipScan.Foundation.Selection
import SlipScan.Model.Packs
import SlipScan.Model.Classification
import SlipScan.Packs.Writes
import SlipScan.Packs.Precedence
import SlipScan.Packs.Upgrade
import SlipScan.Packs.Uninstall
import SlipScan.Model.Stock
import SlipScan.Ledger.Receipts
import SlipScan.Model.Household
import SlipScan.Banking.Household
import SlipScan.Foundation.Rounding
import SlipScan.Model.Fx
import SlipScan.Arithmetic.Conversion
import SlipScan.Arithmetic.Vat
import SlipScan.Ledger.Acceptance
import SlipScan.Ledger.Generation
import SlipScan.Foundation.Accumulation
import SlipScan.Arithmetic.Words
import SlipScan.Ledger.SlipGroups
import SlipScan.Schedules.Anchoring
import SlipScan.Banking.Worth
import SlipScan.Model.Receivables
import SlipScan.Documents.Ageing
import SlipScan.Documents.Hindsight
import SlipScan.Model.Purchasing
import SlipScan.Documents.Purchasing
import SlipScan.Foundation.Timestamps
import SlipScan.Model.Payments
import SlipScan.Payments.Detection
import SlipScan.Payments.Webhooks
import SlipScan.Foundation.Utf8
import SlipScan.Model.PackValidation
import SlipScan.Packs.Selection
import SlipScan.Packs.CatchAll
import SlipScan.Payments.CodeMatching
import SlipScan.Model.Amounts
import SlipScan.Model.Alerts
import SlipScan.Ingest.AlertRouting
import SlipScan.Ingest.Numerals
import SlipScan.Ingest.Amounts
import SlipScan.Ingest.AlertAmounts
import SlipScan.Model.MailText
import SlipScan.Ingest.MailText
import SlipScan.Foundation.Escapes
import SlipScan.Model.CsvStatement
import SlipScan.Model.Ofx
import SlipScan.Ingest.StatementDates
import SlipScan.Ingest.OfxLayout
import SlipScan.Ingest.Ofx
import SlipScan.Foundation.Dependencies
import SlipScan.Model.PackCompat
import SlipScan.Packs.CategoryOrder
import SlipScan.Packs.MerchantKeys
import SlipScan.Model.CategoryTree
import SlipScan.Banking.CategoryTree
import SlipScan.Model.Csv
import SlipScan.Ledger.CsvExports
import SlipScan.Model.Base64
import SlipScan.Ingest.Base64
import SlipScan.Foundation.DotSegments
import SlipScan.Foundation.Urls
import SlipScan.Foundation.WorkLists
import SlipScan.Model.PackTransport
import SlipScan.Packs.PackPaths
import SlipScan.Packs.Discovery
import SlipScan.Foundation.JsonText
import SlipScan.Model.JsonRepair
import SlipScan.Extract.JsonRepair
import SlipScan.Foundation.Rounds
import SlipScan.Model.Mail
import SlipScan.Model.MailConnectors
import SlipScan.Ingest.MailRounds
import SlipScan.Ingest.ImapCursor
import SlipScan.Ingest.MailDelivery
import SlipScan.Banking.Reconciliation
import SlipScan.Foundation.Files
import SlipScan.Model.DataDir
import SlipScan.Model.PlainDataDir
import SlipScan.Storage.DataMove
import SlipScan.Storage.MoveResume
import SlipScan.Storage.MoveFrame
import SlipScan.Foundation.Correspondence
import SlipScan.Model.Vault
import SlipScan.Model.PlainVault
import SlipScan.Secrets.Vault
import SlipScan.Secrets.VaultRuns
import SlipScan.Secrets.VaultService
import SlipScan.Model.Migrations
import SlipScan.Storage.Migrations
import SlipScan.Ledger.Dates
import SlipScan.Packs.Places
import SlipScan.Ingest.MailFiles
import SlipScan.Ingest.AlertImport
