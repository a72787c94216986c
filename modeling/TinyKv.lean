import TinyKv.Lib.Run
import TinyKv.Lib.Table
import TinyKv.Lib.LogMatch
import TinyKv.Lib.Quorum
import TinyKv.Lib.Bytes
import TinyKv.Lib.Codec
import TinyKv.Lib.Assoc
import TinyKv.Lib.Lock
import TinyKv.Lib.Register
import TinyKv.Lib.Blocks
import TinyKv.Lib.Store
import TinyKv.Lib.Protobuf
import TinyKv.Lib.Wire
import TinyKv.Lib.Message
import TinyKv.Lib.ProtoType
import TinyKv.Lib.Channel
import TinyKv.Lib.Agenda
import TinyKv.Lib.Spaced
import TinyKv.Lib.Refine
import TinyKv.Storage.Entry
import TinyKv.Storage.Proto
import TinyKv.Storage.FileObj
import TinyKv.Storage.LogVec
import TinyKv.Storage.LogVecRep
import TinyKv.Storage.Refinement
import TinyKv.Storage.Iterator
import TinyKv.Storage.Crash
import TinyKv.Raft.Node
import TinyKv.Raft.Append
import TinyKv.Raft.Cluster
import TinyKv.Raft.NodeSpec
import TinyKv.Raft.Election
import TinyKv.Raft.LogSpec
import TinyKv.Raft.Logs
import TinyKv.Raft.Leader
import TinyKv.Raft.Steps
import TinyKv.Raft.CommitRule
import TinyKv.Raft.Commit
import TinyKv.Raft.Restart
import TinyKv.Raft.Roles
import TinyKv.Raft.Ticker
import TinyKv.Raft.Pace
import TinyKv.Raft.VoteCount
import TinyKv.Raft.Acknowledge
import TinyKv.Raft.Merge
import TinyKv.Raft.Backtrack
import TinyKv.Raft.Indices
import TinyKv.Raft.Availability
import TinyKv.Raft.Terms
import TinyKv.Raft.Timed
import TinyKv.Raft.Timeouts
import TinyKv.Raft.Convergence
import TinyKv.Raft.CommitHistory
import TinyKv.Raft.OnFiles
import TinyKv.Curp.Witness
import TinyKv.Curp.History
import TinyKv.Curp.Isolation
import TinyKv.Curp.Service
import TinyKv.Curp.Master
import TinyKv.Curp.Execution
import TinyKv.Curp.Client
import TinyKv.Curp.Durability
import TinyKv.Curp.Recovery
import TinyKv.Curp.RecoverCall
import TinyKv.Curp.SlowPath
import TinyKv.Curp.Server
import TinyKv.Curp.Commute
import TinyKv.Curp.Quiet
import TinyKv.Curp.SyncWorker
import TinyKv.Curp.Foreign
import TinyKv.Curp.RpcIds
import TinyKv.Curp.Repeat
import TinyKv.Curp.ReplayOrder
import TinyKv.Curp.ConflictIndex
import TinyKv.Curp.Encoding
import TinyKv.Curp.FastPath
import TinyKv.Curp.Speculation
import TinyKv.Curp.Fleet
import TinyKv.Curp.Separation
import TinyKv.Curp.Status
import TinyKv.Rpc.RaftMessages
import TinyKv.Rpc.WitnessMessages
import TinyKv.Rpc.WitnessCalls
import TinyKv.Test.ConsistencyChecker
import TinyKv.Test.Soundness
import TinyKv.Test.NetworkSimulator
