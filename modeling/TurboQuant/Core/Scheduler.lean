import TurboQuant.Core.BlockHash

/-!
Requests in the scheduler: how a request is created, scheduled, extended by sampled tokens, stopped,
and, for a resumable streaming session, continued with the next input chunk. What `schedule` decides
(which requests, how many tokens, how many of them found in a cache) is part of the event.
-/

namespace TurboQuant.Core

inductive RequestStatus where
  | waiting
  | waitingForStructuredOutputGrammar
  | waitingForRemoteKvs
  | waitingForStreamingReq
  | running
  | preempted
  | finishedStopped
  | finishedLengthCapped
  | finishedAborted
  | finishedIgnored
  | finishedError
  | finishedRepetition
  deriving DecidableEq, Repr

def RequestStatus.isFinished : RequestStatus → Bool
  | .waiting | .waitingForStructuredOutputGrammar | .waitingForRemoteKvs | .waitingForStreamingReq | .running
  | .preempted => false
  | _ => true

structure RepetitionDetectionParams where
  maxPatternSize : Int
  minPatternSize : Int
  minCount : Int

structure SamplingParams where
  minTokens : Nat
  eosTokenId : Option Nat
  stopTokenIds : List Nat
  repetitionDetection : Option RepetitionDetectionParams

structure StreamingUpdate where
  mmFeatures : List MmFeature
  promptTokenIds : Option (List Nat)
  samplingParams : SamplingParams

structure EngineRequest extends Request where
  requestId : String
  promptTokenIds : Option (List Nat)
  numPromptTokens : Nat
  outputTokenIds : List Nat
  numComputedTokens : Int
  status : RequestStatus
  maxTokens : Nat
  samplingParams : SamplingParams
  resumable : Bool
  /-- A `none` entry means that the session is finished. -/
  streamingQueue : Option (List (Option StreamingUpdate))

inductive SchedulerError where
  | duplicateRequestId
  | promptTokenIdsMissing
  | noPrompt
  | promptLengthsDiffer (tokens embeds : Nat)
  | invalidRequestStatus (status : RequestStatus)
  | tooManyComputedTokens
  deriving DecidableEq, Repr

/-! ### Creating a request -/

/-- The arguments of `Request.__init__`. The embeddings are given by their number and digests. -/
structure RequestArgs where
  requestId : String
  promptTokenIds : Option (List Nat)
  promptEmbeds : Option (Nat × (Nat → Nat → List UInt8))
  mmFeatures : List MmFeature
  loraName : Option String
  cacheSalt : Option String
  maxTokens : Nat
  samplingParams : SamplingParams
  structuredOutput : Bool
  resumable : Bool

def lengthFromPromptTokenIdsOrEmbeds (promptTokenIds : Option (List Nat)) (promptEmbedsLen : Option Nat) :
    Except SchedulerError Nat :=
  match promptTokenIds, promptEmbedsLen with
  | none, none => .error .noPrompt
  | none, some embeds => .ok embeds
  | some tokens, none => .ok tokens.length
  | some tokens, some embeds =>
    if embeds ≠ tokens.length then .error (.promptLengthsDiffer tokens.length embeds) else .ok tokens.length

def RequestArgs.unhashed (args : RequestArgs) (numPromptTokens : Nat) : EngineRequest where
  allTokenIds := args.promptTokenIds.getD (List.replicate numPromptTokens 0)
  mmFeatures := args.mmFeatures
  loraName := args.loraName
  cacheSalt := args.cacheSalt
  promptEmbeds := args.promptEmbeds.map (·.2)
  blockHashes := []
  requestId := args.requestId
  promptTokenIds := args.promptTokenIds
  numPromptTokens := numPromptTokens
  outputTokenIds := []
  numComputedTokens := 0
  status := if args.structuredOutput then .waitingForStructuredOutputGrammar else .waiting
  maxTokens := args.maxTokens
  samplingParams := args.samplingParams
  resumable := args.resumable
  streamingQueue := none

def EngineRequest.updateBlockHashes (r : EngineRequest) (hasher : Hasher) : EngineRequest :=
  { r with toRequest := hasher.updateBlockHashes r.toRequest }

def EngineRequest.appendOutputTokenIds (r : EngineRequest) (hasher : Hasher) (tokenIds : List Nat) :
    EngineRequest :=
  { r with
    outputTokenIds := r.outputTokenIds ++ tokenIds
    toRequest := hasher.appendOutputTokenIds r.toRequest tokenIds }

def RequestArgs.create (args : RequestArgs) (hasher : Hasher) : Except SchedulerError EngineRequest := do
  let numPromptTokens ← lengthFromPromptTokenIdsOrEmbeds args.promptTokenIds (args.promptEmbeds.map (·.1))
  return (args.unhashed numPromptTokens).updateBlockHashes hasher

def StreamingUpdate.fromRequest (r : EngineRequest) : Option StreamingUpdate :=
  if r.resumable then some ⟨r.mmFeatures, r.promptTokenIds, r.samplingParams⟩ else none

/-! ### Stopping -/

/-- `_has_repeating_pattern`; the tokens are given from the last one backwards. -/
def hasRepeatingPattern (reversed : List Nat) (patternLen repetitionMinCount : Nat) : Bool :=
  (List.range' 1 patternLen).all fun n =>
    (List.range' 1 (repetitionMinCount - 1)).all fun m => reversed[patternLen * m + n - 1]? == reversed[n - 1]?

def repetitionLoop (tokenIds : List Nat) (minCount : Nat) : List Nat → Bool
  | [] => false
  | patternLen :: rest =>
    if patternLen * minCount > tokenIds.length then false
    else if hasRepeatingPattern tokenIds.reverse patternLen minCount then true
    else repetitionLoop tokenIds minCount rest

def checkSequenceRepetition (tokenIds : List Nat) (params : RepetitionDetectionParams) : Bool :=
  let minPatternSize := if params.minPatternSize ≤ 0 then 1 else params.minPatternSize
  if params.maxPatternSize ≤ 0 ∨ params.minCount < 2 ∨ minPatternSize > params.maxPatternSize then false
  else
    repetitionLoop tokenIds params.minCount.toNat
      (List.range' minPatternSize.toNat (params.maxPatternSize - minPatternSize + 1).toNat)

def checkStop (r : EngineRequest) (maxModelLen : Nat) : Option RequestStatus :=
  if r.outputTokenIds.length < r.samplingParams.minTokens then none
  else
    let lastTokenId := r.outputTokenIds.getLast?
    if lastTokenId.isSome ∧ lastTokenId = r.samplingParams.eosTokenId then some .finishedStopped
    else if lastTokenId.any (r.samplingParams.stopTokenIds.contains ·) then some .finishedStopped
    else if r.numTokens ≥ maxModelLen ∨ r.outputTokenIds.length ≥ r.maxTokens then some .finishedLengthCapped
    else if r.samplingParams.repetitionDetection.any (checkSequenceRepetition r.outputTokenIds) then
      some .finishedRepetition
    else none

/-- `_update_request_with_output`: tokens are appended one by one until one of them stops the
request. -/
def updateRequestWithOutput (hasher : Hasher) (maxModelLen : Nat) : EngineRequest → List Nat →
    EngineRequest × Bool
  | r, [] => (r, false)
  | r, outputTokenId :: rest =>
    let r := r.appendOutputTokenIds hasher [outputTokenId]
    match checkStop r maxModelLen with
    | some status => ({ r with status := status }, true)
    | none => updateRequestWithOutput hasher maxModelLen r rest

/-! ### The scheduler -/

structure Scheduler where
  hasher : Hasher
  maxModelLen : Nat
  requests : List EngineRequest
  numWaitingForStreamingInput : Int

def Scheduler.new (hasher : Hasher) (maxModelLen : Nat) : Scheduler := ⟨hasher, maxModelLen, [], 0⟩

namespace Scheduler

def get (s : Scheduler) (requestId : String) : Option EngineRequest :=
  s.requests.find? (·.requestId == requestId)

def set (s : Scheduler) (r : EngineRequest) : Scheduler :=
  { s with requests := s.requests.map fun old => if old.requestId = r.requestId then r else old }

def del (s : Scheduler) (requestId : String) : Scheduler :=
  { s with requests := s.requests.filter (·.requestId ≠ requestId) }

/-- Where a slice bound falls: a negative one counts from the end. -/
def sliceBound (length : Nat) (bound : Int) : Nat :=
  if bound < 0 then (length + bound).toNat else min bound.toNat length

def keptTokens (session : EngineRequest) : List Nat :=
  session.allTokenIds.take (sliceBound session.allTokenIds.length session.numComputedTokens)

def continueSession (session : EngineRequest) (promptTokenIds : List Nat)
    (update : StreamingUpdate) : EngineRequest :=
  let keptOutputTokens := (keptTokens session).drop session.numPromptTokens
  let base := (keptTokens session).length
  { session with
    mmFeatures := session.mmFeatures ++ update.mmFeatures.map fun f => { f with offset := f.offset + base }
    allTokenIds := keptTokens session ++ update.promptTokenIds.getD []
    outputTokenIds := []
    promptTokenIds := some (promptTokenIds ++ keptOutputTokens ++ update.promptTokenIds.getD []) }

def updateRequestAsSession (s : Scheduler) (session : EngineRequest) (update : StreamingUpdate) :
    Except SchedulerError Scheduler :=
  match session.promptTokenIds with
  | none => .error .promptTokenIdsMissing
  | some promptTokenIds =>
    let hashed := (continueSession session promptTokenIds update).updateBlockHashes s.hasher
    let updated := { hashed with
      numPromptTokens := (hashed.promptTokenIds.getD []).length
      samplingParams := update.samplingParams
      status := .waiting }
    let waiting := if session.status = .waitingForStreamingReq then 1 else 0
    .ok { s.set updated with numWaitingForStreamingInput := s.numWaitingForStreamingInput - waiting }

def handleStoppedRequest (s : Scheduler) (r : EngineRequest) : Except SchedulerError (Scheduler × Bool) :=
  if !r.resumable then .ok (s.set r, true)
  else
    match r.streamingQueue with
    | some (none :: queue) => .ok (s.set { r with streamingQueue := some queue }, true)
    | some (some update :: queue) => do
      let next ← s.updateRequestAsSession { r with streamingQueue := some queue } update
      return (next, false)
    | _ =>
      .ok ({ s.set { r with status := .waitingForStreamingReq } with
        numWaitingForStreamingInput := s.numWaitingForStreamingInput + 1 }, false)

structure ModelOutput where
  numDraftTokens : Nat
  generatedTokenIds : List Nat
  pooled : Bool
  grammarAccepts : Bool

def adjustComputed (r : EngineRequest) (output : ModelOutput) : EngineRequest :=
  if output.numDraftTokens ≠ 0 ∧ output.generatedTokenIds ≠ [] ∧ r.numComputedTokens > 0 then
    let numAccepted : Int := output.generatedTokenIds.length - 1
    { r with numComputedTokens := r.numComputedTokens - (output.numDraftTokens - numAccepted) }
  else r

section
variable (s : Scheduler)

def receiveOutput (r : EngineRequest) (output : ModelOutput) : EngineRequest × Bool :=
  let r := adjustComputed r output
  if output.generatedTokenIds ≠ [] then
    let (r, stopped) := updateRequestWithOutput s.hasher s.maxModelLen r output.generatedTokenIds
    if output.grammarAccepts then (r, stopped)
    else ({ r with status := .finishedError, resumable := false }, true)
  else if output.pooled then ({ r with status := .finishedStopped }, true)
  else (r, false)

/-- `_free_request`; a connector that still sends blocks keeps the request until it is done. -/
def freeRequest (requestId : String) (delayFreeBlocks : Bool) : Scheduler :=
  if delayFreeBlocks then s else s.del requestId

def updateFromOutput (requestId : String) (output : ModelOutput) (delayFreeBlocks : Bool) :
    Except SchedulerError Scheduler :=
  match s.get requestId with
  | none => .ok s
  | some r =>
    if r.status.isFinished then .ok s
    else
      let (r, stopped) := s.receiveOutput r output
      if stopped then do
        let (next, finished) ← s.handleStoppedRequest r
        return if finished then next.freeRequest requestId delayFreeBlocks else next
      else .ok (s.set r)

def finishRequests (requestId : String) (finishedStatus : RequestStatus) (delayFreeBlocks : Bool) :
    Scheduler :=
  match s.get requestId with
  | none => s
  | some r =>
    if r.status.isFinished then s
    else
      let waiting := if r.status = .waitingForStreamingReq then 1 else 0
      { (s.set { r with status := finishedStatus }).freeRequest requestId delayFreeBlocks with
        numWaitingForStreamingInput := s.numWaitingForStreamingInput - waiting }

def addRequest (request : EngineRequest) : Except SchedulerError Scheduler :=
  match s.get request.requestId with
  | some existing =>
    let update := StreamingUpdate.fromRequest request
    if existing.status ≠ .waitingForStreamingReq then
      match existing.streamingQueue with
      | none => .error .duplicateRequestId
      | some queue => .ok (s.set { existing with streamingQueue := some (queue ++ [update]) })
    else
      match update with
      | some update => s.updateRequestAsSession existing update
      | none => .ok (s.finishRequests request.requestId .finishedAborted false)
  | none =>
    let request := if request.resumable then { request with streamingQueue := some [] } else request
    .ok { s with requests := s.requests ++ [request] }

def scheduleWaiting (requestId : String) (numCachedTokens : Nat) (loadKvAsync : Bool) :
    Except SchedulerError Scheduler :=
  match s.get requestId with
  | none => .ok s
  | some r =>
    if r.numComputedTokens = 0 ∧ numCachedTokens > r.numTokens then .error .tooManyComputedTokens
    else
      let numComputedTokens := if r.numComputedTokens = 0 then (numCachedTokens : Int) else r.numComputedTokens
      if loadKvAsync then
        .ok (s.set { r with status := .waitingForRemoteKvs, numComputedTokens := numComputedTokens })
      else if r.status = .waiting ∨ r.status = .preempted then
        .ok (s.set { r with status := .running, numComputedTokens := numComputedTokens })
      else .error (.invalidRequestStatus r.status)

/-- Assignments to `status` and `num_computed_tokens` alone: `_update_after_schedule`,
`_preempt_request`, the end of a remote load, and truncation after a failed load. -/
def assign (requestId : String) (f : RequestStatus → Int → RequestStatus × Int) : Scheduler :=
  match s.get requestId with
  | none => s
  | some r =>
    let (status, numComputedTokens) := f r.status r.numComputedTokens
    s.set { r with status := status, numComputedTokens := numComputedTokens }

end

inductive Event where
  | addRequest (args : RequestArgs)
  | scheduleWaiting (requestId : String) (numCachedTokens : Nat) (loadKvAsync : Bool)
  | updateAfterSchedule (requestId : String) (numScheduledTokens : Nat)
  | preemptRequest (requestId : String)
  | promoteWaiting (requestId : String) (numComputedTokens : Int)
  | invalidBlocks (requestId : String) (numComputedTokens : Int)
  | updateFromOutput (requestId : String) (output : ModelOutput) (delayFreeBlocks : Bool)
  | finishRequests (requestId : String) (finishedStatus : RequestStatus) (delayFreeBlocks : Bool)
  | freeBlocks (requestId : String)

def step (s : Scheduler) : Event → Except SchedulerError Scheduler
  | .addRequest args => do
    let request ← args.create s.hasher
    s.addRequest request
  | .scheduleWaiting requestId numCachedTokens loadKvAsync =>
    s.scheduleWaiting requestId numCachedTokens loadKvAsync
  | .updateAfterSchedule requestId numScheduledTokens =>
    .ok (s.assign requestId fun status computed => (status, computed + numScheduledTokens))
  | .preemptRequest requestId => .ok (s.assign requestId fun _ _ => (.preempted, 0))
  | .promoteWaiting requestId numComputedTokens =>
    .ok (s.assign requestId fun _ _ => (.waiting, numComputedTokens))
  | .invalidBlocks requestId numComputedTokens =>
    .ok (s.assign requestId fun status _ => (status, numComputedTokens))
  | .updateFromOutput requestId output delayFreeBlocks => s.updateFromOutput requestId output delayFreeBlocks
  | .finishRequests requestId finishedStatus delayFreeBlocks =>
    .ok (s.finishRequests requestId finishedStatus delayFreeBlocks)
  | .freeBlocks requestId => .ok (s.del requestId)

def run (s : Scheduler) (events : List Event) : Except SchedulerError Scheduler := events.foldlM step s

end Scheduler

end TurboQuant.Core
