import TurboQuant.Ascend.ContextParallel
import TurboQuant.Ascend.DequantAttention
import TurboQuant.Ascend.EplbExact
import TurboQuant.Ascend.EplbInit
import TurboQuant.Ascend.EplbTables
import TurboQuant.Ascend.HybridExact
import TurboQuant.Ascend.MooncakeExact
import TurboQuant.Ascend.MooncakeReport
import TurboQuant.Ascend.PoolLoads
import TurboQuant.Ascend.PoolTransfer
import TurboQuant.Ascend.PoolWorker
import TurboQuant.Ascend.PrefillChunks
import TurboQuant.Ascend.RecomputeAdmission
import TurboQuant.Ascend.TqCacheView
import TurboQuant.Attention.Continuation
import TurboQuant.Attention.Rotation
import TurboQuant.Bucketing
import TurboQuant.Core.Capacity
import TurboQuant.Core.EncoderDecoderCache
import TurboQuant.Core.HybridFixpoint
import TurboQuant.Core.ModelLength
import TurboQuant.Core.SessionHash
import TurboQuant.Core.StopLimits
import TurboQuant.Offload.Refusal
import TurboQuant.Quantization.LloydMax
import TurboQuant.Triton.RoundTrip
import TurboQuant.Triton.SplitKv
