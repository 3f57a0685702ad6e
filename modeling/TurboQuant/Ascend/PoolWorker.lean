import TurboQuant.Ascend.PoolKeys

/-!
The workers of the KV pool and the texts under which they put blocks.
-/

namespace TurboQuant.Ascend
open TurboQuant.Core Marked Nat KeyMetadata List

structure PoolDeployment extends PoolGroups where
  modelName : KeyText
  useMla : Bool
  totalNumKvHeads : Nat
  tpSize : Nat
  useLayerwise : Bool
  kvRole : KvRole
  consumerIsToPut : Bool
  prefillPpSize : Nat

namespace PoolDeployment

section
variable (d : PoolDeployment)

def numKvHead : Nat := if d.useMla then 1 else d.totalNumKvHeads

def databaseFamily (groupId : Nat) : CacheFamily :=
  if groupId < d.groupedBlockSize.length then d.kvCacheGroupFamilies.getD groupId .default else .default

/-- A consumer that puts blocks cuts them into the stages of the prefill pipeline. -/
def splitsStages : Bool :=
  decide (d.kvRole = .kvConsumer) && d.consumerIsToPut && decide (d.prefillPpSize ≠ 1)

def putsBlocks : Bool := decide (d.kvRole ≠ .kvConsumer) || (!d.useLayerwise && d.consumerIsToPut)

end

end PoolDeployment

structure KVPoolWorker where
  deployment : PoolDeployment
  tpRank : Nat
  ppRank : Nat
  pcpRank : Nat
  dcpRank : Nat
  numLayers : Nat

namespace KVPoolWorker

def headOrTpRank (w : KVPoolWorker) : Nat :=
  if w.deployment.numKvHead < w.deployment.tpSize
  then w.tpRank / (w.deployment.tpSize / w.deployment.numKvHead) else w.tpRank

/-- `_make_key_by_hash` -/
def makeKeyByHash (w : KVPoolWorker) (groupId : Nat) (chunkHash : KeyText) : PoolKey where
  keyMetadata :=
    { modelName := w.deployment.modelName
      headOrTpRank := w.headOrTpRank
      pcpRank := w.pcpRank
      dcpRank := w.dcpRank
      ppRank := w.ppRank
      kvCacheGroupId := groupId
      cacheFamily := w.deployment.databaseFamily groupId }
  chunkHash := chunkHash

def ppPattern : KeyText := field "pp_rank:" "0".toList

/-- `decode_adaptor_prefill_pp` rewrites the pipeline rank. -/
def adaptStage (key : KeyText) (stage : Nat) : KeyText :=
  replaceFirst ppPattern (field "pp_rank:" (decimal stage)) key

end KVPoolWorker

/-- A block, or one layer of it, as a worker puts it into the pool. -/
inductive PutBlock where
  | whole (stage groupId : Nat) (hash : BlockHash)
  | layer (layerId : Nat) (hash : BlockHash)

namespace KVPoolWorker

def stages (w : KVPoolWorker) : List Nat :=
  if w.deployment.splitsStages then range w.deployment.prefillPpSize else [w.ppRank]

/-- `store_layer` stores the layers of a stage in its own numbering, `_handle_request` whole
blocks. -/
def Puts (w : KVPoolWorker) (block : PutBlock) : Prop :=
  w.deployment.putsBlocks = true ∧
    match block with
    | .whole stage _ _ => w.deployment.useLayerwise = false ∧ stage ∈ w.stages
    | .layer layerId _ => w.deployment.useLayerwise = true ∧ layerId < w.numLayers

def putText (w : KVPoolWorker) : PutBlock → KeyText
  | .whole stage groupId hash =>
    let key := (w.makeKeyByHash groupId (hex hash)).toText
    if w.deployment.splitsStages then adaptStage key stage else key
  | .layer layerId hash => LayerPoolKey.toText ⟨w.makeKeyByHash 0 (hex hash), layerId⟩

/-- What identifies the data of a block. -/
structure BlockOrigin where
  headShard : Nat
  stage : Nat
  pcpRank : Nat
  dcpRank : Nat
  groupId : Nat
  layerId : Option Nat
  hash : BlockHash

def origin (w : KVPoolWorker) : PutBlock → BlockOrigin
  | .whole stage groupId hash => ⟨w.headOrTpRank, stage, w.pcpRank, w.dcpRank, groupId, none, hash⟩
  | .layer layerId hash => ⟨w.headOrTpRank, w.ppRank, w.pcpRank, w.dcpRank, 0, some layerId, hash⟩

/-! ### Where the rewriting of the pipeline rank acts -/

section
variable (w : KVPoolWorker)

def stageName (stage : Nat) : KeyText :=
  if w.deployment.splitsStages then adaptStage w.deployment.modelName stage else w.deployment.modelName

def stageRank (stage : Nat) : Nat :=
  if w.deployment.splitsStages ∧ ¬ ppPattern <:+: w.deployment.modelName ∧ w.ppRank = 0 then stage
  else w.ppRank

def stageKey (stage groupId : Nat) (hash : BlockHash) : PoolKey :=
  let key := w.makeKeyByHash groupId (hex hash)
  { key with keyMetadata := { key.keyMetadata with modelName := w.stageName stage, ppRank := w.stageRank stage } }

def rankFields (text : KeyText) : KeyText :=
  field "pcp" (decimal w.pcpRank) ++ (field "dcp" (decimal w.dcpRank) ++
    (field "head_or_tp_rank:" (decimal w.headOrTpRank) ++ text))

def groupFields (groupId : Nat) (hash : BlockHash) : KeyText :=
  (w.makeKeyByHash groupId (hex hash)).keyMetadata.groupText ++ field "" (hex hash)

theorem stageKey_toText (stage gid : Nat) (h : BlockHash) : (w.stageKey stage gid h).toText =
    w.stageName stage ++ w.rankFields (field "pp_rank:" (decimal (w.stageRank stage)) ++ w.groupFields gid h) := by
  simp only [PoolKey.toText, rankText, rankFields, groupFields, append_assoc]
  rfl

theorem makeKeyByHash_toText (gid : Nat) (h : BlockHash) : (w.makeKeyByHash gid (hex h)).toText =
    w.deployment.modelName ++ w.rankFields (field "pp_rank:" (decimal w.ppRank) ++ w.groupFields gid h) := by
  simp only [PoolKey.toText, rankText, rankFields, groupFields, append_assoc]
  rfl

theorem adapt_rankFields (stage : Nat) (t : KeyText) :
    adaptStage (w.rankFields t) stage = w.rankFields (adaptStage t stage) := by
  unfold adaptStage ppPattern rankFields
  rw [replace_other_field _ _ (plain_decimal
    (by decide) _) rfl, replace_other_field _ _ (plain_decimal (by decide) _) rfl,
    replace_other_field _ _ (plain_decimal (by decide) _) rfl]

end

theorem adapt_zero (stage : Nat) (text : KeyText) :
    adaptStage (field "pp_rank:" (decimal 0) ++ text) stage = field "pp_rank:" (decimal stage) ++ text :=
  replaceFirst_here ppPattern _ text

theorem adapt_nonzero (stage : Nat) {r : Nat} (positive : 0 < r) (t : KeyText) :
    adaptStage (field "pp_rank:" (decimal r) ++ t) stage = field "pp_rank:" (decimal r) ++
      adaptStage t stage := by
  refine replace_other_field _ _ (plain_decimal (by decide) _) ?_
  obtain ⟨c, rest, start, nonzero⟩ := decimal_head positive
  have ne : ('0' == c) = false := beq_false_of_ne nonzero.symm
  rw [start]
  show (('0' == c) && ([] : KeyText).isPrefixOf (rest ++ t)) = false
  rw [ne, Bool.false_and]

theorem adapt_hash (bytes : BlockHash) (stage : Nat) :
    adaptStage (field "" (hex bytes)) stage = field "" (hex bytes) := by
  refine replaceFirst_absent ?_ _
  intro occurs
  have underscore : '_' ∈ field "" (hex bytes) := occurs.subset (by decide)
  rcases mem_cons.mp underscore with mark | inside
  · exact absurd mark (by decide)
  · exact absurd (mem_hex inside) (by decide)

theorem adapt_groupFields (w : KVPoolWorker) (gid : Nat) (hash : BlockHash) (stage : Nat) :
    adaptStage (w.groupFields gid hash) stage = w.groupFields gid hash := by
  have family : '@' ∉ "cache_family:".toList ++ (w.deployment.databaseFamily gid).text := by
    rw [mem_append, not_or]
    exact ⟨by decide, CacheFamily.text_plain _⟩
  have last := adapt_hash hash stage
  unfold groupFields
  rw [groupText, append_assoc, append_assoc]
  unfold adaptStage ppPattern at last ⊢
  dsimp only [makeKeyByHash]
  rw [replace_other_field _ _ (plain_decimal (by decide) _) rfl, replace_other_field _ _ (by decide) rfl,
    replace_other_field _ _ family rfl, last]

theorem putText_whole (w : KVPoolWorker) (stage gid : Nat) (h : BlockHash) :
    w.putText (.whole stage gid h) = (w.stageKey stage gid h).toText := by
  rw [stageKey_toText]
  by_cases n : w.deployment.splitsStages = true
  · have adapted : w.putText (.whole stage gid h) = adaptStage (w.makeKeyByHash gid (hex h)).toText
      stage := if_pos n
    have name : w.stageName stage = adaptStage w.deployment.modelName stage := if_pos n
    rw [adapted, makeKeyByHash_toText, name]
    by_cases occurs : ppPattern <:+: w.deployment.modelName
    · have r : w.stageRank stage = w.ppRank := if_neg fun both => both.2.1 occurs
      rw [r]
      exact replaceFirst_inside occurs _ _
    · have same : adaptStage w.deployment.modelName stage = w.deployment.modelName :=
        replaceFirst_absent occurs _
      have outside : ∀ t, adaptStage (w.deployment.modelName ++ w.rankFields t) stage =
          w.deployment.modelName ++ adaptStage (w.rankFields t) stage := fun t =>
        replaceFirst_outside (by decide) occurs _ _
      rw [outside, same, adapt_rankFields]
      by_cases zero : w.ppRank = 0
      · have r : w.stageRank stage = stage := if_pos ⟨n, occurs, zero⟩
        rw [zero, adapt_zero, r]
      · have r : w.stageRank stage = w.ppRank := if_neg fun both => zero both.2.2
        rw [adapt_nonzero stage (pos_of_ne_zero zero), adapt_groupFields, r]
  · have plain : w.putText (.whole stage gid h) = (w.makeKeyByHash gid (hex h)).toText := if_neg n
    have name : w.stageName stage = w.deployment.modelName := if_neg n
    have r : w.stageRank stage = w.ppRank := if_neg fun both => n both.1
    rw [plain, makeKeyByHash_toText, name, r]

/-! ### When keys tell the data of two workers apart -/

structure SameShard (w w' : KVPoolWorker) : Prop where
  headShard : w.headOrTpRank = w'.headOrTpRank
  pcpRank : w.pcpRank = w'.pcpRank
  dcpRank : w.dcpRank = w'.dcpRank

/-- The layers of different stages are kept apart only by the fields that a layer key has. The
stages of whole blocks are kept apart by the pipeline rank, unless its rewriting misses the
field. -/
structure Separated (w w' : KVPoolWorker) : Prop where
  layers : w.deployment.useLayerwise = true → w'.deployment.useLayerwise = true → 0 < w.numLayers →
    0 < w'.numLayers → SameShard w w' → w.deployment.modelName = w'.deployment.modelName →
    w.deployment.databaseFamily 0 = w'.deployment.databaseFamily 0 → w.ppRank = w'.ppRank
  stages : w.deployment.useLayerwise = false → w'.deployment.useLayerwise = false → SameShard w w' →
    ∀ stage ∈ w.stages, ∀ stage' ∈ w'.stages, w.stageName stage = w'.stageName stage' →
      w.stageRank stage = w'.stageRank stage' → stage = stage'

variable {w w' : KVPoolWorker}

section
variable (separated : Separated w w')
include separated

theorem origin_eq_of_whole {stage gid stage' groupId' : Nat} {h hash' : BlockHash}
    (puts : w.Puts (.whole stage gid h)) (puts' : w'.Puts (.whole stage' groupId' hash'))
    (same : w.putText (.whole stage gid h) = w'.putText (.whole stage' groupId' hash')) :
    w.origin (.whole stage gid h) = w'.origin (.whole stage' groupId' hash') := by
  rw [putText_whole, putText_whole] at same
  obtain ⟨rs, pp, group, c⟩ := PoolKey.toText_inj (hex_plain h) (hex_plain hash') same
  have shard : SameShard w w' := ⟨rs.headOrTpRank, rs.pcpRank, rs.dcpRank⟩
  have stages := separated.stages puts.2.1 puts'.2.1 shard stage puts.2.2 stage' puts'.2.2 rs.modelName pp
  have groups : gid = groupId' := group
  have hs : h = hash' := hex_inj c
  rw [origin, origin, shard.headShard, shard.pcpRank, shard.dcpRank, stages, groups, hs]

theorem origin_eq_of_layer {l layerId' : Nat} {h hash' : BlockHash} (puts : w.Puts (.layer l h))
    (puts' : w'.Puts (.layer layerId' hash'))
    (same : w.putText (.layer l h) = w'.putText (.layer layerId' hash')) :
    w.origin (.layer l h) = w'.origin (.layer layerId' hash') := by
  obtain ⟨rs, _, family, c, layer⟩ := LayerPoolKey.toText_inj (hex_plain h) (hex_plain hash') same
  have shard : SameShard w w' := ⟨rs.headOrTpRank, rs.pcpRank, rs.dcpRank⟩
  have stages := separated.layers puts.2.1 puts'.2.1 (zero_lt_of_lt puts.2.2) (zero_lt_of_lt puts'.2.2) shard
    rs.modelName family
  have layers : l = layerId' := layer
  have hs : h = hash' := hex_inj c
  rw [origin, origin, shard.headShard, shard.pcpRank, shard.dcpRank, stages, layers, hs]

theorem origin_eq_of_separated {b block' : PutBlock} (puts : w.Puts b) (puts' : w'.Puts block')
    (same : w.putText b = w'.putText block') : w.origin b = w'.origin block' := by
  cases b with
  | whole stage gid h =>
    cases block' with
    | whole stage' groupId' hash' => exact origin_eq_of_whole separated puts puts' same
    | layer layerId' hash' =>
      rw [putText_whole] at same
      exact absurd same (PoolKey.toText_ne_layer (hex_plain h) fun _ => mem_hex)
  | layer l h =>
    cases block' with
    | whole stage' groupId' hash' =>
      rw [putText_whole] at same
      exact absurd same.symm (PoolKey.toText_ne_layer (hex_plain hash') fun _ => mem_hex)
    | layer layerId' hash' => exact origin_eq_of_layer separated puts puts' same

end

theorem databaseFamily_common (d d' : PoolDeployment) : ∃ groupId,
    d.databaseFamily groupId = d'.databaseFamily groupId := by
  refine ⟨d.groupedBlockSize.length + d'.groupedBlockSize.length, ?_⟩
  rw [PoolDeployment.databaseFamily, PoolDeployment.databaseFamily, if_neg (by omega), if_neg (by omega)]

theorem separated_of_origins (active : w.deployment.putsBlocks = true) (active' : w'.deployment.putsBlocks = true)
    (apart : ∀ b block', w.Puts b → w'.Puts block' → w.putText b = w'.putText block' → w.origin b = w'.origin block') :
    Separated w w' := by
  constructor
  · intro layerwise layerwise' some some' shard name family
    have texts : w.putText (.layer 0 []) = w'.putText (.layer 0 []) := by
      simp only [putText, makeKeyByHash, shard.headShard, shard.pcpRank, shard.dcpRank, name,
        family, LayerPoolKey.toText, rankText, groupText]
    have same := apart (.layer 0 []) (.layer 0 []) ⟨active, layerwise, some⟩ ⟨active', layerwise', some'⟩ texts
    exact congrArg BlockOrigin.stage same
  · intro whole whole' shard stage member stage' member' name r
    obtain ⟨gid, family⟩ := databaseFamily_common w.deployment w'.deployment
    have texts : w.putText (.whole stage gid []) = w'.putText (.whole stage' gid []) := by
      rw [putText_whole, putText_whole]
      simp only [stageKey, makeKeyByHash, shard.headShard, shard.pcpRank, shard.dcpRank, name, r, family]
    have same := apart (.whole stage gid []) (.whole stage' gid []) ⟨active, whole, member⟩
      ⟨active', whole', member'⟩ texts
    exact congrArg BlockOrigin.stage same

/-- For any two workers, equal texts mean the same data exactly if the stages of their blocks are
kept apart. -/
theorem putText_identifies_iff (w w' : KVPoolWorker) :
    (∀ block block', w.Puts block → w'.Puts block' → w.putText block = w'.putText block' →
      w.origin block = w'.origin block') ↔
      (w.deployment.putsBlocks = true → w'.deployment.putsBlocks = true → Separated w w') := by
  constructor
  · intro apart active active'
    exact separated_of_origins active active' apart
  · intro separated block block' puts puts' same
    exact origin_eq_of_separated (separated puts.1 puts'.1) puts puts' same

def layerwiseStage (ppRank : Nat) : KVPoolWorker where
  deployment :=
    { modelName := "model".toList
      useMla := false
      totalNumKvHeads := 8
      tpSize := 1
      useLayerwise := true
      kvRole := .kvBoth
      consumerIsToPut := false
      prefillPpSize := 1
      originalBlockSize := [128]
      cpScale := 1
      kvCacheGroupFamilies := [.default] }
  tpRank := 0
  ppRank := ppRank
  pcpRank := 0
  dcpRank := 0
  numLayers := 4

theorem layerwise_stages_collide : (layerwiseStage 0).Puts (.layer 0 [7]) ∧
    (layerwiseStage 1).Puts (.layer 0 [7]) ∧
      (layerwiseStage 0).putText (.layer 0 [7]) = (layerwiseStage 1).putText (.layer 0 [7]) ∧
      (layerwiseStage 0).origin (.layer 0 [7]) ≠ (layerwiseStage 1).origin (.layer 0 [7]) := by
  refine ⟨⟨rfl, rfl, succ_pos _⟩, ⟨rfl, rfl, succ_pos _⟩, rfl, ?_⟩
  intro same
  exact absurd (congrArg BlockOrigin.stage same) (by decide)

end KVPoolWorker

end TurboQuant.Ascend
