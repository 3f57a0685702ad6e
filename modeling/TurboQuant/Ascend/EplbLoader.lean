import TurboQuant.Ascend.EplbWorker

/-!
The exchange of expert weights on the devices.
-/

namespace TurboQuant.Ascend.Eplb
open Channels Outcome

variable {layers ranks : Nat} {α : Type}

def getItem (xs : List α) (i : Nat) : Except EplbError α :=
  match xs[i]? with
  | some x => .ok x
  | none => .error .indexError

/-- Where an entry of an expert map points to. `-1` is the last entry. -/
def place (length : Nat) : Option Nat → Nat
  | some i => i
  | none => length - 1

def setItem (xs : List α) (i : Nat) (x : α) : Except EplbError (List α) :=
  if i < xs.length then .ok (xs.set i x) else .error .indexError

/-- `dst.copy_(src)` for vectors. A single entry fills the whole vector. -/
def copyInto {β : Type} (dst src : List β) : Except EplbError (List β) :=
  if src.length = dst.length then .ok src
  else if src.length = 1 then .ok (dst.flatMap fun _ => src)
  else .error .runtimeError

/-- The parameters, maps and buffers of a rank. `α` is the type of the parameters of an expert. -/
structure Adaptor (layers : Nat) (α : Type) where
  expertMapPerLayerCpu : Fin layers → List (Option Nat)
  expertParamPerLayer : Fin layers → List α
  bufferTensorList : List α
  log2phyMapPerLayer : Fin layers → Option (List Nat)

/-- The sends and receives of a layer. A buffer is copied into a slot after it has been received. -/
structure TransferTask (layers ranks : Nat) (α : Type) where
  layerId : Fin layers
  updatedExpertMap : List (Option Nat)
  sends : List (Fin ranks × α)
  receives : List (Fin ranks × Nat)
  recvExpertList : List (Option Nat × Nat)

inductive LoaderState (layers ranks : Nat) (α : Type) where
  | waiting
  | ready (task : TransferTask layers ranks α)
  | transferring (task : TransferTask layers ranks α)

section
variable (a : Adaptor layers α)

def sendOp (l : Fin layers) (send : Fin ranks × Nat) : Except EplbError (Fin ranks × α) := do
  let localExpert ← getItem (a.expertMapPerLayerCpu l) send.2
  let tensor ← getItem (a.expertParamPerLayer l) (place (a.expertParamPerLayer l).length localExpert)
  .ok (send.1, tensor)

/-- The slot a received expert will replace. Each receive has a buffer of its own. -/
def recvOp (updatedExpertMap : List (Option Nat)) (recv : (Fin ranks × Nat) × Nat) :
    Except EplbError (Option Nat × Nat) := do
  let _ ← getItem a.bufferTensorList recv.2
  let localExpert ← getItem updatedExpertMap recv.1.2
  .ok (localExpert, recv.2)

def transferTask (sendInfo recvInfo : List (Fin ranks × Nat)) (updatedExpertMap : List (Option Nat))
    (l : Fin layers) : Except EplbError (TransferTask layers ranks α) := do
  let sends ← sendInfo.mapM (sendOp a l)
  let replaced ← recvInfo.zipIdx.mapM (recvOp a updatedExpertMap)
  .ok { layerId := l
        updatedExpertMap := updatedExpertMap
        sends := sends
        receives := recvInfo.zipIdx.map fun recv => (recv.1.1, recv.2)
        recvExpertList := replaced }

end

def land (buffers : List α) (arrival : Nat × Option α) : Except EplbError (List α) :=
  match arrival.2 with
  | some tensor => setItem buffers arrival.1 tensor
  | none => .error .hang

def landAll (sends : Fin ranks → List (Fin ranks × α)) (me : Fin ranks) (buffers : List α)
    (receives : List (Fin ranks × Nat)) : Except EplbError (List α) :=
  ((receives.map Prod.snd).zip (arrivals sends me (receives.map Prod.fst))).foldlM land buffers

def updateExpertWeight (buffers : List α) (params : List α) (replaced : Option Nat × Nat) :
    Except EplbError (List α) := do
  let tensor ← getItem buffers replaced.2
  setItem params (place params.length replaced.1) tensor

def updateExpertWeights (buffers params : List α) (recvExpertList : List (Option Nat × Nat)) :
    Except EplbError (List α) :=
  recvExpertList.foldlM (updateExpertWeight buffers) params

structure EplbConfig where
  expertHeatCollectionInterval : Nat
  algorithmExecutionInterval : Nat
  /-- `expert_map_record_path` is set: the maps are recorded and not used. -/
  recording : Bool

structure RankState (layers ranks : Nat) (α : Type) where
  adaptor : Adaptor layers α
  loader : LoaderState layers ranks α
  updatedLog2phyMap : List Nat
  curIterations : Nat
  updateInfoAll : List (PackedUpdate layers ranks)
  /-- What the worker process has put for the updator. -/
  blockUpdateQ : Option (List (PackedUpdate layers ranks))

namespace RankState

section
variable (config : EplbConfig) (s : RankState layers ranks α)

def getUpdateInfoFlag : Bool :=
  decide (s.curIterations + 1 = config.expertHeatCollectionInterval + config.algorithmExecutionInterval)

def updateExpertWeightFlag : Bool :=
  decide (config.expertHeatCollectionInterval + config.algorithmExecutionInterval ≤ s.curIterations) &&
    decide (s.curIterations < config.expertHeatCollectionInterval + config.algorithmExecutionInterval + layers)

/-- `block_update_q.get` waits for the list of the worker. -/
def getUpdateInfo : Except EplbError (RankState layers ranks α) :=
  if s.getUpdateInfoFlag config then
    match s.blockUpdateQ with
    | some packed => .ok { s with updateInfoAll := packed, blockUpdateQ := none }
    | none => .error .hang
  else .ok s

end

section
variable (s : RankState layers ranks α)

/-- `generate_expert_d2d_transfer_task`. A loader that is not done does not take a new task. -/
def generateExpertD2dTransferTask (p : PackedUpdate layers ranks) :
    Except EplbError (RankState layers ranks α) :=
  match s.loader with
  | .waiting => do
    let task ← transferTask s.adaptor p.sendInfo p.recvInfo p.expertMap p.layerId
    .ok { s with loader := .ready task }
  | _ => .ok s

def asynExpertWeightTransfer : RankState layers ranks α :=
  match s.loader with
  | .ready task => { s with loader := .transferring task }
  | _ => s

def startUpdate : Except EplbError (RankState layers ranks α) :=
  match s.updateInfoAll with
  | [] => .error .indexError
  | p :: rest => do
    let s ← generateExpertD2dTransferTask { s with updateInfoAll := rest, updatedLog2phyMap := p.log2phy } p
    .ok s.asynExpertWeightTransfer

end

def forwardBefore (config : EplbConfig) (s : RankState layers ranks α) :
    Except EplbError (RankState layers ranks α) := do
  let s ← s.getUpdateInfo config
  if s.updateExpertWeightFlag config then s.startUpdate else .ok s

def posted (s : RankState layers ranks α) : List (Fin ranks × α) :=
  match s.loader with
  | .transferring task => task.sends
  | _ => []

def copyLog2phy (a : Adaptor layers α) (l : Fin layers) (updated : List Nat) :
    Except EplbError (Adaptor layers α) :=
  match a.log2phyMapPerLayer l with
  | none => .ok a
  | some current => do
    let copied ← copyInto current updated
    .ok { a with log2phyMapPerLayer := Function.update a.log2phyMapPerLayer l (some copied) }

/-- `update_expert_map_and_weight`: wait for the requests, then write the maps and the weights. -/
def updateExpertMapAndWeight (sends : Fin ranks → List (Fin ranks × α)) (me : Fin ranks)
    (s : RankState layers ranks α) : Except EplbError (RankState layers ranks α) :=
  match s.loader with
  | .transferring task => do
    let a := s.adaptor
    let l := task.layerId
    let buffers ← landAll sends me a.bufferTensorList task.receives
    let expertMap ← copyInto (a.expertMapPerLayerCpu l) task.updatedExpertMap
    let a ← copyLog2phy { a with
      bufferTensorList := buffers
      expertMapPerLayerCpu := Function.update a.expertMapPerLayerCpu l expertMap } l s.updatedLog2phyMap
    let params ← updateExpertWeights buffers (a.expertParamPerLayer l) task.recvExpertList
    .ok { s with
      adaptor := { a with expertParamPerLayer := Function.update a.expertParamPerLayer l params }
      loader := .waiting }
  | _ => .ok s

def updateIteration (config : EplbConfig) (s : RankState layers ranks α) : RankState layers ranks α :=
  let next := s.curIterations + 1
  let cycle := config.expertHeatCollectionInterval + config.algorithmExecutionInterval + layers
  { s with curIterations := if next = cycle then 0 else next }

section
variable (config : EplbConfig) (sends : Fin ranks → List (Fin ranks × α)) (me : Fin ranks)
  (s : RankState layers ranks α)

def finishUpdate : Except EplbError (RankState layers ranks α) :=
  if s.updateExpertWeightFlag config && !config.recording then s.updateExpertMapAndWeight sends me else .ok s

def forwardEnd : Except EplbError (RankState layers ranks α) := do
  let s ← s.finishUpdate config sends me
  .ok (s.updateIteration config)

end

end RankState

/-- All ranks run the same iteration. A rank writes its parameters after its own sends are done. -/
def iteration (config : EplbConfig) (world : Fin ranks → RankState layers ranks α) :
    Except EplbError (Fin ranks → RankState layers ranks α) := do
  let started ← gather fun r => (world r).forwardBefore config
  gather fun r => (started r).forwardEnd config (fun src => (started src).posted) r

def iterations (config : EplbConfig) : Nat → (Fin ranks → RankState layers ranks α) →
    Except EplbError (Fin ranks → RankState layers ranks α)
  | 0, world => .ok world
  | n + 1, world => do
    let next ← iteration config world
    iterations config n next

end TurboQuant.Ascend.Eplb
