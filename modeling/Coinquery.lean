import Coinquery.Library.WhileLoop
import Coinquery.Library.Slots
import Coinquery.Library.SelectInto
import Coinquery.Txo.BlockTable
import Coinquery.Txo.BlockInsert
import Coinquery.Txo.Reachable
import Coinquery.Txo.LiveHeight
import Coinquery.Txo.Reorg
import Coinquery.Txo.WalkBounds
import Coinquery.Indexer.SyncToTip
import Coinquery.Indexer.BlockHeights
import Coinquery.Library.ShiftRegister
import Coinquery.Cashaddr.PolyMod
import Coinquery.Cashaddr.Codec
import Coinquery.EthMonitor.BlockQueue
import Coinquery.EthMonitor.BlockService
import Coinquery.Blockvalidator.Checkpoint
import Coinquery.Txo.Transaction
import Coinquery.Library.Jsonb
import Coinquery.Txo.TransactionRows
import Coinquery.Postgres.InsertTx
import Coinquery.Indexer.WriteTx
import Coinquery.Txo.Cleanup
import Coinquery.Indexer.InitialSync
import Coinquery.Library.Strconv
import Coinquery.Library.BitGroups
import Coinquery.Cashaddr.Address
import Coinquery.Insight.AddrFormat
import Coinquery.Api.Pagination
import Coinquery.Convert.ToSatoshi
import Coinquery.Library.Ledger
import Coinquery.Library.SqlList
import Coinquery.Postgres.Queries
import Coinquery.Postgres.UtxoSet
import Coinquery.Postgres.Cleanup
import Coinquery.Postgres.History
import Coinquery.Library.Binary64
import Coinquery.Convert.ToBTC
import Coinquery.Library.SortSlice
import Coinquery.Insight.Txs
import Coinquery.Insight.TxHistory
import Coinquery.Txvalidator.Validate
import Coinquery.Insight.Utxos
