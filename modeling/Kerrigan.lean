import Kerrigan.Escrow.Replay
import Kerrigan.Escrow.Verdict
import Kerrigan.Escrow.Burn
import Kerrigan.Drone.Fairness
import Kerrigan.Drone.Reindex
import Kerrigan.Drone.Store
import Kerrigan.HMP.Registry
import Kerrigan.HMP.Rooted
import Kerrigan.HMP.Arming
import Kerrigan.HMP.Independence
import Kerrigan.HMP.Equivocation
import Kerrigan.HMP.TemplateProofs
import Kerrigan.HMP.TemplateSeal
import Kerrigan.HMP.Rejection
import Kerrigan.HMP.CommitPool
import Kerrigan.HMP.ExtraSigner
import Kerrigan.HMP.Participation
import Kerrigan.HMP.SealVectors
import Kerrigan.HMP.Payload
import Kerrigan.Validation.SealWork
import Kerrigan.Validation.Agreement
import Kerrigan.Validation.BlockStore
import Kerrigan.Validation.Subsidy
import Kerrigan.Validation.DiskIndex
import Kerrigan.Pow.Isolation
import Kerrigan.Pow.GapReset
import Kerrigan.Masternode.MinerIdentity
import Kerrigan.Sapling.Sighash
import Kerrigan.Freeze.ChainState
import Kerrigan.Policy.PlanX
import Kerrigan.Mempool.Reorg
import Kerrigan.Recovery.Repair
