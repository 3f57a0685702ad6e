import TurboQuant.Lib.Outcome
import TurboQuant.Core.IncrementalHash
import TurboQuant.Core.Scheduler

/-!
Block hashes over whole runs of the scheduler: they are the chained hashes of the current tokens as
long as no continued session changes a token that is already hashed.
-/

namespace TurboQuant.Core
open Chain Segments Outcome List Nat

/-! ### What a call of the hasher keeps -/

theorem overlapKeys_sublist {fs more : List MmFeature} (part : fs.Sublist more) (s e : Nat) :
    (overlapKeys fs s e).Sublist (overlapKeys more s e) := (part.filter _).map _

theorem slice_of_take_eq {l l' : List Nat} {n start stop : Nat} (same : l.take n = l'.take n)
    (within : stop ≤ n) : slice l start stop = slice l' start stop := by
  have cut : ∀ xs : List Nat, xs.take stop = (xs.take n).take stop := fun xs => by
    rw [take_take, min_eq_left within]
  rw [slice, slice, cut l, cut l', same]

namespace Hasher
variable {h : Hasher}

/-- The hashes are the chained hashes of the first `n` blocks of the current tokens. Every block is
hashed with multimodal keys of inputs that overlap it. -/
def Hashed (hasher : Hasher) (n : Nat) (r : Request) : Prop :=
  n * hasher.blockSize ≤ r.numTokens ∧
  ∃ keys : Nat → List ExtraKey,
    (∀ s, (keys s).Sublist (overlapKeys r.mmFeatures s (s + hasher.blockSize))) ∧
    r.blockHashes = chain hasher.hashBlockTokens none (hasher.blocks r keys 0 n)

def Current (hasher : Hasher) (r : Request) : Prop := hasher.Hashed (r.numTokens / hasher.blockSize) r

variable {r : Request}

theorem Hashed.length {n : Nat} (hashed : h.Hashed n r) : r.blockHashes.length = n := by
  obtain ⟨-, keys, -, chained⟩ := hashed
  rw [chained, chain_length, blocks, length_map, length_range]

theorem callKeys_sublist (h : Hasher) (fs : List MmFeature) (hashed s : Nat) :
    (h.callKeys fs hashed s).Sublist (overlapKeys fs s (s + h.blockSize)) := by
  unfold callKeys
  split
  · unfold walkKeys
    split
    · exact nil_sublist _
    · exact overlapKeys_sublist (take_sublist _ _) _ _
  · refine overlapKeys_sublist ?_ _ _
    cases last : fs.getLast? with
    | none => exact nil_sublist _
    | some f => exact singleton_sublist.mpr (mem_of_getLast? last)

theorem Hashed.update {n : Nat} (hashed : h.Hashed n r) {tokens : List Nat}
    (same : tokens.take (n * h.blockSize) = r.allTokenIds.take (n * h.blockSize)) (more : List MmFeature) :
    h.Current (h.updateBlockHashes
      { r with allTokenIds := tokens, mmFeatures := r.mmFeatures ++ more }) := by
  obtain ⟨full, keys, allowed, chained⟩ := hashed
  generalize changed : { r with allTokenIds := tokens, mmFeatures := r.mmFeatures ++ more } = r'
  have tokensEq : r'.allTokenIds = tokens := by rw [← changed]
  have featuresEq : r'.mmFeatures = r.mmFeatures ++ more := by rw [← changed]
  have full' : n * h.blockSize ≤ r'.numTokens := by
    have lengths := congrArg List.length same
    rw [List.length_take, List.length_take] at lengths
    unfold Request.numTokens at full ⊢
    rw [tokensEq]
    omega
  -- old blocks keep their keys, new blocks have those of this call
  let keys' s := if s < n * h.blockSize then keys s else h.callKeys r'.mmFeatures n s
  have old : h.blocks r' keys' 0 n = h.blocks r keys 0 n := by
    refine h.blocks_congr fun k inside => ?_
    have before : 0 + k * h.blockSize + h.blockSize ≤ n * h.blockSize := by
      have := mul_le_mul_right h.blockSize inside
      rw [succ_mul] at this
      omega
    have start : 0 + k * h.blockSize < n * h.blockSize := by have := h.positive; omega
    have keysEq : keys' (0 + k * h.blockSize) = keys (0 + k * h.blockSize) := if_pos start
    simp only [block, keysEq, slice_of_take_eq (tokensEq ▸ same) before]
    rw [← changed]
    rfl
  refine ⟨div_mul_le_self _ _, keys', fun s => ?_, ?_⟩
  · by_cases before : s < n * h.blockSize
    · have keysEq : keys' s = keys s := if_pos before
      rw [keysEq]
      refine (allowed s).trans (overlapKeys_sublist ?_ _ _)
      exact (List.sublist_append_left r.mmFeatures more).trans (by rw [← featuresEq]; exact .refl _)
    · have keysEq : keys' s = h.callKeys r'.mmFeatures n s := if_neg before
      rw [keysEq]
      exact h.callKeys_sublist _ _ _
  · refine h.updateBlockHashes_chain r' keys' n ?_ full' fun k later _ => ?_
    · rw [old, ← chained, ← changed]
    · have past : ¬ k * h.blockSize < n * h.blockSize :=
        not_lt.mpr (mul_le_mul_right _ later)
      exact (if_neg past).symm

theorem current_of_unhashed (none : r.blockHashes = []) : h.Current (h.updateBlockHashes r) := by
  have hashed : h.Hashed 0 r := ⟨by simp, fun _ => [], fun _ => nil_sublist _, by rw [none]; rfl⟩
  have result := hashed.update (rfl : r.allTokenIds.take _ = _) []
  rwa [append_nil] at result

theorem Current.append (cur : h.Current r) (tokenIds : List Nat) :
    h.Current (h.appendOutputTokenIds r tokenIds) := by
  have same : (r.allTokenIds ++ tokenIds).take (r.numTokens / h.blockSize * h.blockSize) =
      r.allTokenIds.take (r.numTokens / h.blockSize * h.blockSize) :=
    take_append_of_le_length cur.1
  have result := Hashed.update cur same []
  rwa [append_nil] at result

end Hasher

/-! ### When a session may be continued -/

namespace Scheduler

/-- The continued session has the same tokens as before in the blocks that are hashed. -/
def KeepsHashed (blockSize : Nat) (session : EngineRequest) (update : StreamingUpdate) : Prop :=
  (keptTokens session ++ update.promptTokenIds.getD []).take (session.blockHashes.length * blockSize) =
    session.allTokenIds.take (session.blockHashes.length * blockSize)

instance (blockSize : Nat) (session : EngineRequest) (update : StreamingUpdate) :
    Decidable (KeepsHashed blockSize session update) :=
  inferInstanceAs (Decidable (_ = _))

def continued (s : Scheduler) : Event → Option (EngineRequest × StreamingUpdate)
  | .addRequest args =>
    match args.create s.hasher, s.get args.requestId with
    | .ok request, some existing =>
      if existing.status = .waitingForStreamingReq
      then (StreamingUpdate.fromRequest request).map (existing, ·) else none
    | _, _ => none
  | .updateFromOutput requestId output _ =>
    match s.get requestId with
    | some r =>
      if r.status.isFinished then none
      else
        match s.receiveOutput r output with
        | (r, true) =>
          match r.resumable, r.streamingQueue with
          | true, some (some update :: _) => some (r, update)
          | _, _ => none
        | (_, false) => none
    | none => none
  | _ => none

def EventKeeps (s : Scheduler) (event : Event) : Prop :=
  ∀ found ∈ s.continued event, KeepsHashed s.hasher.blockSize found.1 found.2

instance (s : Scheduler) (event : Event) : Decidable (s.EventKeeps event) :=
  match same : s.continued event with
  | none => isTrue fun found member => by rw [same] at member; cases member
  | some pair =>
    if keeps : KeepsHashed s.hasher.blockSize pair.1 pair.2 then
      isTrue fun found member => by rw [same] at member; cases member; exact keeps
    else isFalse fun all => keeps (all pair same)

def RunKeeps : Scheduler → List Event → Prop
  | _, [] => True
  | s, event :: rest => s.EventKeeps event ∧
    match s.step event with
    | .ok next => RunKeeps next rest
    | .error _ => True

instance RunKeeps.decidable : (s : Scheduler) → (events : List Event) → Decidable (RunKeeps s events)
  | _, [] => isTrue trivial
  | s, event :: rest =>
    match ran : s.step event with
    | .ok next =>
      have := RunKeeps.decidable next rest
      decidable_of_iff (s.EventKeeps event ∧ RunKeeps next rest) (by rw [RunKeeps, ran])
    | .error _ => decidable_of_iff (s.EventKeeps event ∧ True) (by rw [RunKeeps, ran])

/-! ### One step -/

def HashesCurrent (hasher : Hasher) (s : Scheduler) : Prop :=
  s.hasher = hasher ∧ ∀ r ∈ s.requests, hasher.Current r.toRequest

variable {h : Hasher} {s next : Scheduler} {r : EngineRequest} {id : String}

section
variable (inv : HashesCurrent h s)
include inv

theorem HashesCurrent.get (found : s.get id = some r) : h.Current r.toRequest :=
  inv.2 r (mem_of_find?_eq_some found)

theorem HashesCurrent.set (cur : h.Current r.toRequest) : HashesCurrent h (s.set r) := by
  refine ⟨inv.1, fun r' mem => ?_⟩
  obtain ⟨old, present, same⟩ := mem_map.mp mem
  split at same
  · exact same ▸ cur
  · exact same ▸ inv.2 old present

theorem HashesCurrent.setSame {r r' : EngineRequest}
    (found : s.get id = some r) (same : r'.toRequest = r.toRequest) : HashesCurrent h (s.set r') :=
  inv.set (same ▸ inv.get found)

theorem HashesCurrent.freeRequest (id : String) (delayFreeBlocks : Bool) :
    HashesCurrent h (s.freeRequest id delayFreeBlocks) := by
  unfold Scheduler.freeRequest
  split
  · exact inv
  · exact ⟨inv.1, fun r mem => inv.2 r (mem_of_mem_filter mem)⟩

theorem HashesCurrent.assign (id : String)
    (f : RequestStatus → Int → RequestStatus × Int) : HashesCurrent h (s.assign id f) := by
  unfold Scheduler.assign
  split
  · exact inv
  · rename_i r found
    exact inv.setSame found rfl

theorem HashesCurrent.finishRequests (id : String) (finishedStatus : RequestStatus) (delayFreeBlocks : Bool) :
    HashesCurrent h (s.finishRequests id finishedStatus delayFreeBlocks) := by
  unfold Scheduler.finishRequests
  split
  · exact inv
  · rename_i r found
    split
    · exact inv
    · have marked : HashesCurrent h (s.set { r with status := finishedStatus }) := inv.setSame found rfl
      exact marked.freeRequest id delayFreeBlocks

end

theorem updateRequestWithOutput_current (len : Nat) (tokenIds : List Nat)
    (cur : h.Current r.toRequest) :
    h.Current (updateRequestWithOutput h len r tokenIds).1.toRequest := by
  induction tokenIds generalizing r with
  | nil => exact cur
  | cons outputTokenId rest ih =>
    have appended : h.Current (r.appendOutputTokenIds h [outputTokenId]).toRequest := cur.append _
    unfold updateRequestWithOutput
    dsimp only
    split
    · exact appended
    · exact ih appended

section
variable (inv : HashesCurrent h s)
include inv

theorem receiveOutput_current (cur : h.Current r.toRequest)
    (out : ModelOutput) : h.Current (s.receiveOutput r out).1.toRequest := by
  have adjusted : h.Current (adjustComputed r out).toRequest := by
    unfold adjustComputed
    split <;> exact cur
  unfold receiveOutput
  split
  · have updated := updateRequestWithOutput_current s.maxModelLen out.generatedTokenIds adjusted
    rw [inv.1]
    split <;> exact updated
  · split <;> exact adjusted

theorem updateRequestAsSession_current {session : EngineRequest}
    (cur : h.Current session.toRequest) {update : StreamingUpdate}
    (keeps : KeepsHashed s.hasher.blockSize session update)
    (ran : s.updateRequestAsSession session update = .ok next) : HashesCurrent h next := by
  unfold updateRequestAsSession at ran
  split at ran
  · cases ran
  rename_i promptTokenIds _
  have same := keeps
  rw [inv.1, KeepsHashed, Hasher.Hashed.length cur] at same
  have updated : h.Current
      ((continueSession session promptTokenIds update).updateBlockHashes s.hasher).toRequest := by
    rw [inv.1]
    exact Hasher.Hashed.update cur same _
  rw [← Except.ok.inj ran]
  exact inv.set updated

theorem handleStoppedRequest_current (cur : h.Current r.toRequest)
    (keeps : ∀ update q, r.resumable = true → r.streamingQueue = some (some update :: q) →
      KeepsHashed s.hasher.blockSize r update)
    {finished : Bool} (ran : s.handleStoppedRequest r = .ok (next, finished)) : HashesCurrent h next := by
  unfold handleStoppedRequest at ran
  split at ran
  · cases ran
    exact inv.set cur
  rename_i resumable
  split at ran
  · cases ran
    exact inv.set cur
  · rename_i update q queued
    obtain ⟨updated, session, ran⟩ := bind_ok ran
    cases ran
    refine updateRequestAsSession_current inv ?_ ?_ session
    · exact cur
    · exact keeps update q (by simpa using resumable) queued
  · cases ran
    exact inv.set cur

theorem updateFromOutput_current {out : ModelOutput}
    {delayFreeBlocks : Bool} (keeps : s.EventKeeps (.updateFromOutput id out delayFreeBlocks))
    (ran : s.updateFromOutput id out delayFreeBlocks = .ok next) : HashesCurrent h next := by
  unfold updateFromOutput at ran
  split at ran
  · cases ran
    exact inv
  rename_i r found
  split at ran
  · cases ran
    exact inv
  rename_i live
  have received := receiveOutput_current inv (inv.get found) out
  cases outcome : s.receiveOutput r out with
  | mk r' stopped =>
    rw [outcome] at received ran
    cases stopped with
    | false =>
      cases ran
      exact inv.set received
    | true =>
      obtain ⟨⟨handled, finished⟩, stop, ran⟩ := bind_ok ran
      have handledInv := handleStoppedRequest_current inv received (fun update q resumable queued => by
        refine keeps (r', update) ?_
        dsimp only at resumable queued
        simp only [continued, found, if_neg live, outcome, resumable, queued, Option.mem_def]) stop
      cases ran
      split
      · exact handledInv.freeRequest _ _
      · exact handledInv

theorem addRequest_current {a : RequestArgs} {request : EngineRequest}
    (created : a.create s.hasher = .ok request) (keeps : s.EventKeeps (.addRequest a))
    (ran : s.addRequest request = .ok next) : HashesCurrent h next := by
  obtain ⟨n, -, build⟩ := bind_ok created
  have request_eq : (a.unhashed n).updateBlockHashes s.hasher = request := pure_ok build
  have cur : h.Current request.toRequest := by
    rw [← request_eq, inv.1]
    exact Hasher.current_of_unhashed rfl
  have id : request.requestId = a.requestId := by rw [← request_eq]; rfl
  unfold addRequest at ran
  split at ran
  · rename_i existing found
    dsimp only at ran
    split at ran
    · split at ran
      · cases ran
      · cases ran
        exact inv.setSame found rfl
    · rename_i streaming
      split at ran
      · rename_i update made
        refine updateRequestAsSession_current inv (inv.get found) (keeps (existing, update) ?_) ran
        rw [id] at found
        have status : existing.status = .waitingForStreamingReq := by simpa using streaming
        simp only [continued, created, found, if_pos status, made, Option.map_some, Option.mem_def]
      · cases ran
        exact inv.finishRequests _ _ _
  · cases ran
    refine ⟨inv.1, fun r mem => ?_⟩
    rcases mem_append.mp mem with old | new
    · exact inv.2 r old
    · rw [mem_singleton.mp new]
      split <;> exact cur

theorem scheduleWaiting_current {numCachedTokens : Nat} {loadKvAsync : Bool}
    (ran : s.scheduleWaiting id numCachedTokens loadKvAsync = .ok next) : HashesCurrent h next := by
  unfold scheduleWaiting at ran
  split at ran
  · cases ran
    exact inv
  rename_i r found
  split at ran
  · cases ran
  dsimp only at ran
  split at ran
  · cases ran
    exact inv.setSame found rfl
  · split at ran
    · cases ran
      exact inv.setSame found rfl
    · cases ran

theorem step_current {event : Event} (keeps : s.EventKeeps event)
    (ran : s.step event = .ok next) : HashesCurrent h next := by
  cases event with
  | addRequest a =>
    obtain ⟨request, created, ran⟩ := bind_ok ran
    exact addRequest_current inv created keeps ran
  | scheduleWaiting id numCachedTokens loadKvAsync => exact scheduleWaiting_current inv ran
  | updateAfterSchedule id numScheduledTokens => exact Except.ok.inj ran ▸ inv.assign _ _
  | preemptRequest id => exact Except.ok.inj ran ▸ inv.assign _ _
  | promoteWaiting id computed => exact Except.ok.inj ran ▸ inv.assign _ _
  | invalidBlocks id computed => exact Except.ok.inj ran ▸ inv.assign _ _
  | updateFromOutput id out delayFreeBlocks => exact updateFromOutput_current inv keeps ran
  | finishRequests id finishedStatus delayFreeBlocks => exact Except.ok.inj ran ▸ inv.finishRequests _ _ _
  | freeBlocks id => exact Except.ok.inj ran ▸ inv.freeRequest id false

end

/-! ### Whole runs -/

theorem HashesCurrent.run (inv : HashesCurrent h s) {events : List Event} (keeps : RunKeeps s events)
    (ran : s.run events = .ok next) : HashesCurrent h next := by
  induction events generalizing s with
  | nil => exact pure_ok ran ▸ inv
  | cons event rest ih =>
    obtain ⟨middle, first, ran⟩ := bind_ok ran
    rw [RunKeeps, first] at keeps
    exact ih (step_current inv keeps.1 first) keeps.2 ran

/-- In a run in which every continued session keeps its hashed tokens, the block hashes of every
request are the chained hashes of its current tokens. -/
theorem run_hashes_current (hasher : Hasher) (maxModelLen : Nat) (events : List Event) (s : Scheduler)
    (keeps : RunKeeps (Scheduler.new hasher maxModelLen) events)
    (ran : (Scheduler.new hasher maxModelLen).run events = .ok s) :
    ∀ r ∈ s.requests, hasher.Current r.toRequest :=
  (HashesCurrent.run ⟨rfl, fun _ member => by cases member⟩ keeps ran).2

def chunk (promptTokenIds : List Nat) : RequestArgs where
  requestId := "session"
  promptTokenIds := some promptTokenIds
  promptEmbeds := none
  mmFeatures := []
  loraName := none
  cacheSalt := none
  maxTokens := 1
  samplingParams := ⟨0, none, [], none⟩
  structuredOutput := false
  resumable := true

def twoChunks (first : List Nat) (sampled : Nat) (second : List Nat) : List Event :=
  [.addRequest (chunk first), .scheduleWaiting "session" 0 false, .updateAfterSchedule "session" first.length,
    .updateFromOutput "session" ⟨0, [sampled], false, true⟩ false, .addRequest (chunk second)]

def tokenHasher : Hasher := ⟨4, by decide, [], fun input => input.2.1.map UInt8.ofNat⟩

theorem run_hashes_current_second_block :
    ∃ s, (Scheduler.new tokenHasher 100).run (twoChunks [1, 2, 3, 4, 5] 6 [7, 8, 9]) = .ok s ∧
      (s.requests.map fun r => (r.allTokenIds, r.blockHashes)) =
        [([1, 2, 3, 4, 5, 7, 8, 9], [[1, 2, 3, 4], [5, 7, 8, 9]])] ∧ ∀ r ∈ s.requests,
          tokenHasher.Current r.toRequest :=
  ⟨_, rfl, rfl, run_hashes_current tokenHasher 100 (twoChunks [1, 2, 3, 4, 5] 6 [7, 8, 9]) _ (by decide) rfl⟩

/-- The sampled token that is dropped completes a block: its hash stays in the list, although the
block now holds another token. -/
theorem run_hashes_stale : ∃ s, (Scheduler.new tokenHasher 100).run (twoChunks [1, 2, 3] 4 [5, 6]) = .ok s ∧
      (s.requests.map fun r => (r.allTokenIds, r.blockHashes)) = [([1, 2, 3, 5, 6], [[1, 2, 3, 4]])] ∧
      ∃ r ∈ s.requests, ¬ tokenHasher.Current r.toRequest := by
  refine ⟨_, rfl, rfl, _, mem_cons_self, ?_⟩
  rintro ⟨-, keys, -, chained⟩
  have digest : [[1, 2, 3, 4]] = ([[1, 2, 3, 5]] : List BlockHash) := chained
  exact absurd digest (by decide)

end Scheduler

end TurboQuant.Core
