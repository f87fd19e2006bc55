import Exchange.Async.Proc
import Exchange.Async.Pool
import Exchange.Store.Table
import Exchange.Store.OrderBy
import Exchange.Store.Decimal
import Exchange.Store.Greedy
import Exchange.Store.Quota
import Exchange.Store.Update
import Exchange.Text.Numeral
import Exchange.Number.Double
import Exchange.Text.Fixed
import Exchange.Text.Value
import Exchange.OrderBook.Entities
import Exchange.OrderBook.Database
import Exchange.OrderBook.World
import Exchange.OrderBook.Service
import Exchange.OrderBook.Plan
import Exchange.OrderBook.Run
import Exchange.OrderBook.Serve
import Exchange.OrderBook.Walk
import Exchange.OrderBook.Startup
import Exchange.OrderBook.Leftover
import Exchange.OrderBook.Priority
import Exchange.OrderBook.Crossed
import Exchange.OrderBook.Failure
import Exchange.OrderBook.Sharing
import Exchange.OrderBook.Interleaving
import Exchange.OrderBook.Isolation
import Exchange.OrderBook.Oversell
import Exchange.OrderBook.Conservation
import Exchange.Wallets.Database
import Exchange.Wallets.Controller
import Exchange.Wallets.Withdrawing
import Exchange.Wallets.Overspend
import Exchange.OrderBook.Handle
import Exchange.OrderBook.Coherence
import Exchange.OrderBook.Ledger
import Exchange.OrderBook.Sizes
import Exchange.OrderBook.Volumes
import Exchange.OrderBook.Reference
import Exchange.OrderBook.Mirror
import Exchange.OrderBook.Slicing
import Exchange.OrderBook.Unbounded
import Exchange.OrderBook.Alike
import Exchange.OrderBook.Ownership
import Exchange.Wallets.Columns
import Exchange.Wallets.Settlement
import Exchange.Wallets.Debits
import Exchange.Wallets.Credits
import Exchange.Wallets.AddressLedger
import Exchange.Wallets.Approval
import Exchange.Wallets.Checks
import Exchange.Binance.Database
import Exchange.Binance.Controller
import Exchange.Binance.Placing
import Exchange.Binance.Recording
import Exchange.Binance.Reports
import Exchange.Wallets.Solvency
import Exchange.Async.Loop
import Exchange.Polling.Queue
import Exchange.Polling.Turns
import Exchange.Polling.Sources
import Exchange.Polling.Wakeup
import Exchange.Polling.Guard
import Exchange.Polling.Deposits
import Exchange.Polling.Once
import Exchange.Wallets.Transfers
import Exchange.Wallets.Broadcasts
import Exchange.Web3.Service
import Exchange.Web3.Confirmation
import Exchange.Web3.Search
import Exchange.Web3.Signer
import Exchange.Polling.Gate
import Exchange.Polling.Acceptance
import Exchange.Wallets.Address
import Exchange.Auth.Database
import Exchange.Auth.Service
import Exchange.Auth.Sessions
import Exchange.Auth.TwoFactor
import Exchange.Auth.Accounts
import Exchange.Store.Rowwise
import Exchange.Store.Query
import Exchange.Text.Sql
import Exchange.Web3.Receipts
import Exchange.Wallets.DailyTotal
import Exchange.Wallets.Polled
import Exchange.Wallets.Confirmations
import Exchange.Polling.Expiry
import Exchange.Binance.Statements
import Exchange.OrderBook.Emission
import Exchange.OrderBook.Gateway
import Exchange.OrderBook.Noninterference
import Exchange.Market.Auction
import Exchange.OrderBook.Auction
import Exchange.OrderBook.Discipline
import Exchange.OrderBook.Limits
import Exchange.Async.Bounded
import Exchange.OrderBook.Progress
import Exchange.Async.Given
import Exchange.Auth.Authority
import Exchange.Async.Session
import Exchange.Binance.Cancelling
import Exchange.Funds.System
import Exchange.Funds.Conduct
import Exchange.Funds.Records
import Exchange.Funds.Reconciliation
import Exchange.Funds.Withdrawals
import Exchange.Funds.Finality
import Exchange.Funds.Reports
import Exchange.Wallets.Custody
import Exchange.Auth.Documents
import Exchange.Text.Where
import Exchange.Binance.Deleting
import Exchange.Funds.Deletions
import Exchange.Text.Sums
import Exchange.Binance.Settling
