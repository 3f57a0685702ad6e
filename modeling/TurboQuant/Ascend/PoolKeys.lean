import TurboQuant.Ascend.PoolScheduler
import TurboQuant.Lib.Marked

/-!
The keys of the KV pool.
-/

namespace TurboQuant.Ascend
open TurboQuant.Core Marked List Nat

abbrev KeyText := List Char

def decimal (n : Nat) : KeyText := Nat.toDigits 10 n

/-- `bytes.hex` -/
def hex (bytes : BlockHash) : KeyText :=
  bytes.flatMap fun b => [(b.toNat / 16).digitChar, (b.toNat % 16).digitChar]

def CacheFamily.text : CacheFamily → KeyText
  | .default => "default".toList
  | .compressed ratio => "c".toList ++ decimal ratio
  | .mixed => "mixed".toList

def field (name : String) (value : KeyText) : KeyText := '@' :: (name.toList ++ value)

/-- The cache role of all keys is `kv`. -/
structure KeyMetadata where
  modelName : KeyText
  headOrTpRank : Nat
  pcpRank : Nat
  dcpRank : Nat
  ppRank : Nat
  kvCacheGroupId : Nat
  cacheFamily : CacheFamily

namespace KeyMetadata

def rankText (m : KeyMetadata) : KeyText :=
  m.modelName ++ field "pcp" (decimal m.pcpRank) ++ field "dcp" (decimal m.dcpRank) ++
    field "head_or_tp_rank:" (decimal m.headOrTpRank)

def groupText (m : KeyMetadata) : KeyText :=
  field "group:" (decimal m.kvCacheGroupId) ++ field "cache_role:" "kv".toList ++
    field "cache_family:" m.cacheFamily.text

end KeyMetadata

structure PoolKey where
  keyMetadata : KeyMetadata
  chunkHash : KeyText

def PoolKey.toText (key : PoolKey) : KeyText :=
  key.keyMetadata.rankText ++ field "pp_rank:" (decimal key.keyMetadata.ppRank) ++
    key.keyMetadata.groupText ++ field "" key.chunkHash

structure LayerPoolKey extends PoolKey where
  layerId : Nat

def LayerPoolKey.toText (key : LayerPoolKey) : KeyText :=
  key.keyMetadata.rankText ++ key.keyMetadata.groupText ++ field "" key.chunkHash ++
    field "" (decimal key.layerId)

/-! ### Reading fields back -/

variable {c : Char}

theorem decimal_plain (n : Nat) : '@' ∉ decimal n :=
  fun mem => absurd (isDigit_of_mem_toDigits (by decide) (by decide) mem) (by decide)

variable {m n : Nat}

theorem decimal_inj (same : decimal m = decimal n) : m = n := by
  have read : ∀ n, ofDigitChars 10 (decimal n) 0 = n := fun n => ofDigitChars_toDigits (by decide) (by decide)
  rw [← read m, same, read n]

theorem CacheFamily.text_plain (family : CacheFamily) : '@' ∉ family.text := by
  cases family with
  | default => decide
  | compressed ratio =>
    rw [CacheFamily.text, mem_append, not_or]
    exact ⟨by decide, decimal_plain ratio⟩
  | mixed => decide

theorem CacheFamily.text_inj {family family' : CacheFamily} (same : family.text = family'.text) :
    family = family' := by
  have first := congrArg head? same
  cases family with
  | default =>
    cases family' with
    | default => rfl
    | compressed ratio => exact absurd first (show some 'd' ≠ some 'c' by decide)
    | mixed => exact absurd first (show some 'd' ≠ some 'm' by decide)
  | compressed ratio =>
    cases family' with
    | default => exact absurd first (show some 'c' ≠ some 'd' by decide)
    | compressed ratio' => rw [decimal_inj (append_cancel_left same)]
    | mixed => exact absurd first (show some 'c' ≠ some 'm' by decide)
  | mixed =>
    cases family' with
    | default => exact absurd first (show some 'm' ≠ some 'd' by decide)
    | compressed ratio => exact absurd first (show some 'm' ≠ some 'c' by decide)
    | mixed => rfl

def hexDigits : KeyText := (range 16).map Nat.digitChar

theorem mem_hex {bytes : BlockHash} (mem : c ∈ hex bytes) : c ∈ hexDigits := by
  obtain ⟨b, _, here⟩ := mem_flatMap.mp mem
  have small : b.toNat < 256 := b.toNat_lt
  rw [mem_cons, mem_singleton] at here
  rcases here with rfl | rfl
  · exact mem_map_of_mem (mem_range.mpr (by omega))
  · exact mem_map_of_mem (mem_range.mpr (by omega))

theorem hex_plain (bytes : BlockHash) : '@' ∉ hex bytes := fun mem => absurd (mem_hex mem) (by decide)

theorem digitChar_inj (smallM : m < 16) (smallN : n < 16) (same : m.digitChar = n.digitChar) : m = n := by
  have all : ∀ m < 16, ∀ n < 16, m.digitChar = n.digitChar → m = n := by decide
  exact all m smallM n smallN same

theorem hex_inj {bytes bytes' : BlockHash} (same : hex bytes = hex bytes') : bytes = bytes' := by
  induction bytes generalizing bytes' with
  | nil =>
    cases bytes' with
    | nil => rfl
    | cons b rest => cases same
  | cons b rest ih =>
    cases bytes' with
    | nil => cases same
    | cons b' rest' =>
      simp only [hex, flatMap_cons, cons_append, nil_append, cons.injEq] at same
      have high := digitChar_inj (by have := b.toNat_lt; omega) (by have := b'.toNat_lt; omega) same.1
      have low := digitChar_inj (mod_lt _ (by decide)) (mod_lt _ (by decide)) same.2.1
      have equal : b = b' := UInt8.toNat_inj.mp (by omega)
      rw [equal, ih same.2.2]

variable {name : String}

theorem field_inj {before before' value value' : KeyText} (plainName : '@' ∉ name.toList) (plain : '@' ∉ value)
    (plain' : '@' ∉ value') (same : before ++ field name value = before' ++ field name value') :
    before = before' ∧ value = value' := by
  have whole : ∀ {v : KeyText}, '@' ∉ v → '@' ∉ name.toList ++ v := by
    intro v absent
    rw [mem_append, not_or]
    exact ⟨plainName, absent⟩
  obtain ⟨sameBefore, sameField⟩ := split_last (whole plain) (whole plain') same
  exact ⟨sameBefore, append_cancel_left sameField⟩

variable {before before' : KeyText}

theorem decimal_field_inj (plainName : '@' ∉ name.toList)
    (same : before ++ field name (decimal m) = before' ++ field name (decimal n)) :
    before = before' ∧ m = n := by
  obtain ⟨sameBefore, sameValue⟩ := field_inj plainName (decimal_plain m) (decimal_plain n) same
  exact ⟨sameBefore, decimal_inj sameValue⟩

namespace KeyMetadata
variable {m m' : KeyMetadata}

structure SameRanks (m m' : KeyMetadata) : Prop where
  modelName : m.modelName = m'.modelName
  headOrTpRank : m.headOrTpRank = m'.headOrTpRank
  pcpRank : m.pcpRank = m'.pcpRank
  dcpRank : m.dcpRank = m'.dcpRank

theorem rankText_inj (same : m.rankText = m'.rankText) : SameRanks m m' := by
  obtain ⟨same, head⟩ := decimal_field_inj (by decide) same
  obtain ⟨same, dcp⟩ := decimal_field_inj (by decide) same
  obtain ⟨same, pcp⟩ := decimal_field_inj (by decide) same
  exact ⟨same, head, pcp, dcp⟩

theorem groupText_inj (same : before ++ m.groupText = before' ++ m'.groupText) :
    before = before' ∧ m.kvCacheGroupId = m'.kvCacheGroupId ∧ m.cacheFamily = m'.cacheFamily := by
  simp only [groupText, ← append_assoc] at same
  obtain ⟨same, family⟩ := field_inj (by decide) m.cacheFamily.text_plain m'.cacheFamily.text_plain same
  obtain ⟨same, _⟩ := field_inj (by decide) (by decide) (by decide) same
  obtain ⟨same, g⟩ := decimal_field_inj (by decide) same
  exact ⟨same, g, CacheFamily.text_inj family⟩

end KeyMetadata

theorem PoolKey.toText_inj {key key' : PoolKey} (plain : '@' ∉ key.chunkHash) (plain' : '@' ∉ key'.chunkHash)
    (same : key.toText = key'.toText) :
    key.keyMetadata.SameRanks key'.keyMetadata ∧ key.keyMetadata.ppRank = key'.keyMetadata.ppRank ∧
      key.keyMetadata.kvCacheGroupId = key'.keyMetadata.kvCacheGroupId ∧ key.chunkHash = key'.chunkHash := by
  obtain ⟨same, h⟩ := field_inj (by decide) plain plain' same
  obtain ⟨same, g, _⟩ := KeyMetadata.groupText_inj same
  obtain ⟨same, pp⟩ := decimal_field_inj (by decide) same
  exact ⟨KeyMetadata.rankText_inj same, pp, g, h⟩

theorem LayerPoolKey.toText_inj {key key' : LayerPoolKey} (plain : '@' ∉ key.chunkHash)
    (plain' : '@' ∉ key'.chunkHash) (same : key.toText = key'.toText) :
    key.keyMetadata.SameRanks key'.keyMetadata ∧
      key.keyMetadata.kvCacheGroupId = key'.keyMetadata.kvCacheGroupId ∧
      key.keyMetadata.cacheFamily = key'.keyMetadata.cacheFamily ∧ key.chunkHash = key'.chunkHash ∧
        key.layerId = key'.layerId := by
  obtain ⟨same, layer⟩ := decimal_field_inj (by decide) same
  obtain ⟨same, h⟩ := field_inj (by decide) plain plain' same
  obtain ⟨same, g, family⟩ := KeyMetadata.groupText_inj same
  exact ⟨KeyMetadata.rankText_inj same, g, family, h, layer⟩

theorem PoolKey.toText_ne_layer {key : PoolKey} {key' : LayerPoolKey} (plain : '@' ∉ key.chunkHash)
    (hexadecimal : ∀ c ∈ key'.chunkHash, c ∈ hexDigits) : key.toText ≠ key'.toText := by
  intro same
  obtain ⟨same, _⟩ := field_inj (by decide) plain (decimal_plain _) same
  have plain' : '@' ∉ key'.chunkHash := fun mem => absurd (hexadecimal _ mem) (by decide)
  have family : '@' ∉ "cache_family:".toList ++ key.keyMetadata.cacheFamily.text := by
    rw [mem_append, not_or]
    exact ⟨by decide, CacheFamily.text_plain _⟩
  simp only [KeyMetadata.groupText, ← append_assoc] at same
  obtain ⟨_, h⟩ := split_last family plain' same
  have underscore : '_' ∈ key'.chunkHash := by
    rw [show key'.chunkHash = _ from h.symm]
    exact mem_append_left _ (by decide)
  exact absurd (hexadecimal _ underscore) (by decide)

/-! ### Rewriting a rank -/

theorem decimal_head {n : Nat} (positive : 0 < n) : ∃ c rest, decimal n = c :: rest ∧ c ≠ '0' := by
  induction n using Nat.strong_induction_on with
  | h n ih =>
    by_cases small : n < 10
    · refine ⟨n.digitChar, [], toDigits_of_lt_base small, ?_⟩
      have all : ∀ n < 10, 0 < n → n.digitChar ≠ '0' := by decide
      exact all n small positive
    · obtain ⟨c, rest, start, nonzero⟩ := ih (n / 10) (by omega) (by omega)
      refine ⟨c, rest ++ [(n % 10).digitChar], ?_, nonzero⟩
      have unfolded : decimal n = decimal (n / 10) ++ [(n % 10).digitChar] :=
        toDigits_of_base_le (by decide) (by omega)
      rw [unfolded, start]
      rfl

section
variable {oldName : String} {value oldValue : KeyText} (new text : KeyText)

theorem replace_other_field (plain : '@' ∉ name.toList ++ value)
    (apart : (field oldName oldValue).isPrefixOf (field name value ++ text) = false) :
    replaceFirst (field oldName oldValue) new (field name value ++ text) =
      field name value ++ replaceFirst (field oldName oldValue) new text := replaceFirst_field plain text apart

theorem plain_decimal (plain : '@' ∉ name.toList) (n : Nat) : '@' ∉ name.toList ++ decimal n := by
  rw [mem_append, not_or]
  exact ⟨plain, decimal_plain n⟩

end

end TurboQuant.Ascend
