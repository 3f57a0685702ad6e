import TurboQuant.Lib.Outcome
import TurboQuant.Lib.Striping
import Mathlib.Algebra.Order.Floor.Div

/-!
The pull plan of the Mooncake connector.
-/

namespace TurboQuant.Ascend.Mooncake
open Striping List

inductive MooncakeError
  | assertion
  | noHeadGroups
  | keyError
  | indexError

def index {α : Type} (xs : List α) (i : Nat) : Except MooncakeError α :=
  match xs[i]? with
  | some x => .ok x
  | none => .error .indexError

theorem index_ok {α : Type} {xs : List α} {i : Nat} {x : α} (at_ : xs[i]? = some x) : index xs i = .ok x := by
  unfold index
  rw [at_]

structure ParallelSizes where
  tpSize : Nat
  pcpSize : Nat
  dcpSize : Nat

def ParallelSizes.cpSize (sizes : ParallelSizes) : Nat := sizes.pcpSize * sizes.dcpSize

structure KVTransferParams where
  remoteBlockIds : List Nat
  remotePort : Nat
  remotePcpSize : Nat
  remoteDcpSize : Nat
  remotePtpSize : Option Nat
  numPromptBlocks : Nat

def requestFinished (sizes : ParallelSizes) (sideChannelPort blockSize numPromptTokens : Nat)
    (blockIds : List Nat) : KVTransferParams :=
  let numPromptBlocks := numPromptTokens ⌈/⌉ blockSize
  ⟨blockIds.take numPromptBlocks, sideChannelPort, sizes.pcpSize, sizes.dcpSize, some sizes.tpSize,
    numPromptBlocks⟩

structure ReqMeta where
  localBlockIds : List Nat
  numExternalTokens : Nat
  remoteBlockIds : List Nat
  remotePort : Nat
  remotePcpSize : Nat
  remoteDcpSize : Nat
  remotePtpSize : Option Nat
  numPromptBlocks : Nat

/-- The blocks of the request, with a flag for those that have a hash. Only the others are
pulled. -/
def updateStateAfterAlloc (params : KVTransferParams) (blocks : List (Nat × Bool))
    (numExternalTokens : Nat) : ReqMeta where
  localBlockIds := if numExternalTokens > 0 then (blocks.filter (!·.2)).map Prod.fst else []
  numExternalTokens := numExternalTokens
  remoteBlockIds := params.remoteBlockIds
  remotePort := params.remotePort
  remotePcpSize := params.remotePcpSize
  remoteDcpSize := params.remoteDcpSize
  remotePtpSize := params.remotePtpSize
  numPromptBlocks := params.numPromptBlocks

structure MooncakeConnectorWorker where
  sizes : ParallelSizes
  tpRank : Nat
  pcpRank : Nat
  sideChannelPort : Nat
  blockSize : Nat
  numKeyValueHeads : Nat
  /-- `use_mla or use_sparse`, taken to agree with `is_deepseek_mla`. -/
  useMla : Bool
  prefillTpSize : Nat
  prefillPpSize : Nat

/-- Neighbouring tensor-parallel ranks form a decode context-parallel group. -/
def MooncakeConnectorWorker.dcpRank (w : MooncakeConnectorWorker) : Nat := w.tpRank % w.sizes.dcpSize

def MooncakeConnectorWorker.handshakePort (w : MooncakeConnectorWorker) : Nat :=
  w.sideChannelPort + (w.pcpRank * w.sizes.tpSize + w.tpRank)

def getKvHeadGroups (useMla : Bool) (numKeyValueHeads tpSize : Nat) : Option (List (List Nat)) :=
  if useMla then some [[0]]
  else if numKeyValueHeads / tpSize ≥ 1 then
    some ((range tpSize).map fun tpRank =>
      (range (numKeyValueHeads / tpSize)).map fun headIdx => headIdx + tpRank * (numKeyValueHeads / tpSize))
  else if tpSize / numKeyValueHeads > 1 then some ((range numKeyValueHeads).map fun headIdx => [headIdx])
  else none

/-- The ports of the ranks that share the blocks of one copy of some heads. -/
def cpGroup (sizes : ParallelSizes) (portBase dcpRepeatOffset kvHeadGroupOffset : Nat) : List Nat :=
  (range sizes.pcpSize).flatMap fun pcpRank =>
    (range sizes.dcpSize).map fun dcpRank =>
      dcpRank + portBase + sizes.tpSize * pcpRank + dcpRepeatOffset + kvHeadGroupOffset

/-- The heads of every head group, with the context-parallel groups that have them. -/
def getCpGroupMeta (sizes : ParallelSizes) (portBase : Nat) (kvHeadGroups : List (List Nat)) :
    List (List Nat × List (List Nat)) :=
  let ranksPerGroup := sizes.tpSize / kvHeadGroups.length
  kvHeadGroups.zipIdx.map fun (kvHeadGroup, kvHeadGroupIdx) =>
    (kvHeadGroup, (range (ranksPerGroup / sizes.dcpSize)).map fun dcpRepeatIdx =>
      cpGroup sizes portBase (sizes.dcpSize * dcpRepeatIdx) (ranksPerGroup * kvHeadGroupIdx))

/-- All pairs of a prefill head group and a decode group that has its heads, in the order of the
loops. -/
def portVisits (pMeta dMeta : List (List Nat × List (List Nat))) : List (Nat × List Nat) :=
  dMeta.flatMap fun (dHeads, dCpGroups) =>
    (pMeta.zipIdx.filter fun ((pHeads, _), _) => pHeads.all (· ∈ dHeads)).flatMap fun (_, pIdx) =>
      dCpGroups.map fun dCpGroup => (pIdx, dCpGroup)

/-- Every rank of a decode group gets the ports of its own stripe of the prefill group. -/
def portStripes (pCpGroup dCpGroup : List Nat) : List (Nat × List Nat) :=
  dCpGroup.zipIdx.map fun (dPort, dIdx) =>
    (dPort, (pCpGroup.zipIdx.filter fun (_, pIdx) => pIdx % dCpGroup.length = dIdx).map Prod.fst)

/-- A prefill head group serves its copies in turn. The state has the copy that is next for each of
them and the stripes that were appended to the lists of the decode ports so far. -/
def visitPorts (pMeta : List (List Nat × List (List Nat))) (state : (Nat → Nat) × List (Nat × List Nat))
    (visit : Nat × List Nat) : Except MooncakeError ((Nat → Nat) × List (Nat × List Nat)) :=
  let pCpGroups := (pMeta[visit.1]?.map Prod.snd).getD []
  let selectCpGroupsId := state.1 visit.1
  match pCpGroups[selectCpGroupsId]? with
  | none => .error .indexError
  | some pCpGroup =>
    .ok (Function.update state.1 visit.1
        (if selectCpGroupsId + 1 < pCpGroups.length then selectCpGroupsId + 1 else 0),
      state.2 ++ portStripes pCpGroup visit.2)

/-- The blocks that are still to be pulled from every prefill rank. No entry is negative since the
cached blocks are a prefix of the prompt's. -/
def remoteBlockNumsAll (numPromptBlocks numPrefixCachedBlocks remoteCpSize : Nat) : List Nat :=
  (range remoteCpSize).map fun i =>
    let num := numPromptBlocks / remoteCpSize + if i < numPromptBlocks % remoteCpSize then 1 else 0
    num - numPrefixCachedBlocks / remoteCpSize - if i < numPrefixCachedBlocks % remoteCpSize then 1 else 0

/-- The entry of the rank with the last block goes to the end, if that rank is among them. -/
def moveFinal {α : Type} : Option Nat → List α → List α
  | some finalBlockIdx, xs => moveToEnd finalBlockIdx xs
  | none, xs => xs

structure KvSplit where
  ports : List Nat
  localBlockIds : List Nat
  remoteBlockIds : List Nat

def splitBlocks (localBlockIds remoteBlockIds : List Nat) : Nat → List (List Nat × Nat) → List KvSplit
  | _, [] => []
  | localBlockOffset, (ports, numBlocksToPull) :: rest =>
    ⟨ports, (localBlockIds.drop localBlockOffset).take numBlocksToPull, remoteBlockIds.take numBlocksToPull⟩ ::
      splitBlocks localBlockIds remoteBlockIds (localBlockOffset + numBlocksToPull) rest

structure PullTask where
  localBlockIds : List Nat
  remoteBlockIds : List Nat
  remoteHandshakePort : Nat
  offset : Nat
  tpNumNeedPulls : Nat
  allTaskDone : Bool

namespace MooncakeConnectorWorker

section
variable (w : MooncakeConnectorWorker)

def prefillTpSizeOf (req : ReqMeta) : Nat :=
  match req.remotePtpSize with
  | some tpSize => if tpSize = 0 then w.prefillTpSize else tpSize
  | none => w.prefillTpSize

def remoteSizes (req : ReqMeta) : ParallelSizes :=
  ⟨w.prefillTpSizeOf req, req.remotePcpSize, req.remoteDcpSize⟩

def getTpNumNeedPulls (prefillTpSize : Nat) : Nat :=
  if w.useMla then 1
  else max 1 (w.numKeyValueHeads / w.sizes.tpSize) / max 1 (w.numKeyValueHeads / prefillTpSize)

def contextParallelParametersCheck (req : ReqMeta) : Bool :=
  (w.remoteSizes req).cpSize % w.sizes.cpSize = 0 ∧
    (w.useMla = false →
      (w.numKeyValueHeads ⌈/⌉ w.sizes.tpSize) % (w.numKeyValueHeads ⌈/⌉ w.prefillTpSizeOf req) = 0)

/-- The lists of prefill ports of this worker, one list for each share of its heads. -/
def localRemoteBlockPortMapping (req : ReqMeta) : Except MooncakeError (List (List Nat)) := do
  if !w.contextParallelParametersCheck req then throw .assertion
  let some pHeadGroups := getKvHeadGroups w.useMla w.numKeyValueHeads
    (w.prefillTpSizeOf req) | throw .noHeadGroups
  let some dHeadGroups := getKvHeadGroups w.useMla w.numKeyValueHeads w.sizes.tpSize | throw .noHeadGroups
  let pMeta := getCpGroupMeta (w.remoteSizes req) req.remotePort pHeadGroups
  let dMeta := getCpGroupMeta w.sizes w.sideChannelPort dHeadGroups
  let (_, stripes) ← (portVisits pMeta dMeta).foldlM (visitPorts pMeta) (fun _ => 0, [])
  let mapping := (stripes.filter (·.1 = w.handshakePort)).map Prod.snd
  if mapping.isEmpty then throw .keyError
  return mapping

/-- The blocks of this rank, by prefill rank, and which of them has the last block of the prompt.
That block may be partly filled and becomes the last block of this rank. -/
def ownBlockNums (numPromptBlocks numPrefixCachedBlocks remoteCpSize : Nat) : List Nat × Option Nat :=
  let lastBlockLocation := (numPromptBlocks % remoteCpSize + remoteCpSize - 1) % remoteCpSize
  let localCpRank := w.dcpRank + w.pcpRank * w.sizes.dcpSize
  let localCpSize := w.sizes.dcpSize * w.sizes.pcpSize
  let own := (remoteBlockNumsAll numPromptBlocks numPrefixCachedBlocks remoteCpSize).zipIdx.filter
    fun (_, cpRank) => cpRank % localCpSize = localCpRank
  (own.map Prod.fst, own.findIdx? fun (_, cpRank) => lastBlockLocation = cpRank)

def portsAndNums (req : ReqMeta) (mapping : List (List Nat)) (remoteBlockNums : List Nat) :
    Except MooncakeError (List (List Nat × Nat)) := do
  let ports ← (range (mapping.head?.getD []).length).mapM fun idx => mapping.mapM fun ports => index ports idx
  let splits ← ports.zipIdx.mapM fun entry => (index remoteBlockNums entry.2).map fun num => (entry.1, num)
  let first ← index ports 0
  if w.getTpNumNeedPulls (w.prefillTpSizeOf req) ≠ first.length then throw .assertion
  return splits

def getKvSplitMetadata (req : ReqMeta) : Except MooncakeError (List KvSplit) := do
  let mapping ← w.localRemoteBlockPortMapping req
  let numExternalBlocks := req.numExternalTokens ⌈/⌉ w.blockSize
  if numExternalBlocks ⌈/⌉ w.sizes.cpSize ≠ req.localBlockIds.length ∨
      req.numPromptBlocks < numExternalBlocks then
    throw .assertion
  let own := w.ownBlockNums req.numPromptBlocks (req.numPromptBlocks - numExternalBlocks)
    (req.remotePcpSize * req.remoteDcpSize)
  let splits ← w.portsAndNums req (mapping.map (moveFinal own.2)) (moveFinal own.2 own.1)
  return splitBlocks req.localBlockIds req.remoteBlockIds 0 splits

/-- The tasks of one request. Without context parallelism on the prefill side the ranks to pull from
were chosen at random among the copies of the heads. -/
def startLoadKv (chosenRankList : List Nat) (req : ReqMeta) : Except MooncakeError (List PullTask) := do
  let tpNumNeedPulls := w.getTpNumNeedPulls (w.prefillTpSizeOf req)
  if req.remotePcpSize * req.remoteDcpSize > 1 then
    let splits ← w.getKvSplitMetadata req
    let tasks ← splits.zipIdx.mapM fun entry => (range tpNumNeedPulls).mapM fun i =>
      (index entry.1.ports i).map fun port => (⟨entry.1.localBlockIds, entry.1.remoteBlockIds, port,
        i, tpNumNeedPulls, entry.2 = splits.length - 1 ∧ i = tpNumNeedPulls - 1⟩ : PullTask)
    return tasks.flatten
  else
    (range (tpNumNeedPulls * w.prefillPpSize)).mapM fun i =>
      (index chosenRankList i).map fun rank => (⟨req.localBlockIds, req.remoteBlockIds,
        rank + req.remotePort, i,
        tpNumNeedPulls, i = tpNumNeedPulls * w.prefillPpSize - 1⟩ : PullTask)

end

end MooncakeConnectorWorker

structure BlockPull where
  port : Nat
  remoteBlockId : Nat
  localBlockId : Nat
  deriving DecidableEq

def PullTask.transfer (task : PullTask) : Except MooncakeError (List BlockPull) :=
  let numLocalBlocks := task.localBlockIds.length
  let numRemoteBlocks := task.remoteBlockIds.length
  if numLocalBlocks = 0 then .ok []
  else if numLocalBlocks ≤ numRemoteBlocks then
    .ok ((task.remoteBlockIds.drop (numRemoteBlocks - numLocalBlocks)).zipWith
      (BlockPull.mk task.remoteHandshakePort) task.localBlockIds)
  else .error .assertion

end TurboQuant.Ascend.Mooncake
