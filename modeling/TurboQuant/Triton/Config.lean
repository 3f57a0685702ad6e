import Mathlib.Algebra.Order.Floor.Div

/-!
The TurboQuant cache configuration: presets and the byte layout of one slot.
-/

namespace TurboQuant.Triton

def ceilBytes (bits : Nat) : Nat := (bits + 7) / 8

structure TurboQuantConfig where
  headDim : Nat := 128
  keyQuantBits : Nat := 3
  valueQuantBits : Nat := 4
  normCorrection : Bool := false
  deriving DecidableEq, Repr

namespace TurboQuantConfig

section
variable (c : TurboQuantConfig)

def keyFp8 : Bool := c.keyQuantBits == 8

def mseBits : Nat := if c.keyFp8 then c.valueQuantBits else c.keyQuantBits

def keyMseBits : Nat := if c.keyFp8 then 0 else c.keyQuantBits

def keyPackedSize : Nat :=
  if c.keyFp8 then c.headDim
  else ceilBytes (c.headDim * c.keyMseBits) + 2

def effectiveValueQuantBits : Nat := c.valueQuantBits

def valuePackedSize : Nat := ceilBytes (c.headDim * c.valueQuantBits) + 4

end

end TurboQuantConfig

inductive CacheDtype where
  | k8v4 | fourBitNc | k3v4Nc | threeBitNc
  deriving DecidableEq, Repr

def tqPresets : CacheDtype → TurboQuantConfig
  | .k8v4 => { keyQuantBits := 8, valueQuantBits := 4, normCorrection := false }
  | .fourBitNc => { keyQuantBits := 4, valueQuantBits := 4, normCorrection := true }
  | .k3v4Nc => { keyQuantBits := 3, valueQuantBits := 4, normCorrection := true }
  | .threeBitNc => { keyQuantBits := 3, valueQuantBits := 3, normCorrection := true }

def fromCacheDtype (dtype : CacheDtype) (headDim : Nat) : TurboQuantConfig :=
  { tqPresets dtype with headDim := headDim }

def supportsHeadSize (headSize : Nat) : Bool := headSize > 0

end TurboQuant.Triton
