import OmegaRed.MTVU.Fifo
import OmegaRed.MTGS.Delivery
import OmegaRed.CDVD.Cso
import OmegaRed.CDVD.DumpRoundTrip
import OmegaRed.Vif.WriteCycle
import OmegaRed.EE.CacheRun
import OmegaRed.Sio.Bounds
import OmegaRed.Memcard.Save
import OmegaRed.Patch.Pass
import OmegaRed.SaveState.GifPath
import OmegaRed.Sif.Sif0Run
import OmegaRed.Sif.Sif1Deliver
import OmegaRed.CDVD.IsoPath
import OmegaRed.Spu2.Freeze
import OmegaRed.GSdx.Stream
import OmegaRed.GSdx.Move
import OmegaRed.R3000A.Recompiler
import OmegaRed.Events.Runs
import OmegaRed.CDVD.ChunksCache
import OmegaRed.CDVD.ReadWindow
import OmegaRed.Memcard.Ecc
import OmegaRed.Sio.Sector
import OmegaRed.Memcard.Agreement
import OmegaRed.Memcard.HostFiles
import OmegaRed.Gif.Interrupts
import OmegaRed.DebugTools.Breakpoints
import OmegaRed.Vif.HashBucket
import OmegaRed.Vif.UnpackSize
import OmegaRed.EE.CacheHit
import OmegaRed.Gif.Kicked
import OmegaRed.Jit.Linked
import OmegaRed.DebugTools.Safe
import OmegaRed.IPU.Interrupted
import OmegaRed.DebugTools.SymbolRuns
import OmegaRed.EE.TlbProbe
import OmegaRed.CDVD.IsoSeek
import OmegaRed.Dmac.Starts
import OmegaRed.EE.VtlbAccess
import OmegaRed.IPU.DctBlockInside
import OmegaRed.Dmac.StallRuns
import OmegaRed.Pgif.InPlace
import OmegaRed.Mdec.Inside
import OmegaRed.Counters.Exact
import OmegaRed.GSdx.OffsetCaches
import OmegaRed.Spu2.Slides
import OmegaRed.Spu2.SndFifo
import OmegaRed.Cop0.Exact
import OmegaRed.Spu2.AutoPlay
import OmegaRed.GSdx.Pages
import OmegaRed.Spu2.RegMap
import OmegaRed.R5900.FlushConst
import OmegaRed.R5900.Overflow
import OmegaRed.R5900.LoadStore
import OmegaRed.GSdx.FastList
import OmegaRed.GSdx.Rasterizer
import OmegaRed.GSdx.AlphaTest
import OmegaRed.CDVD.MagicGate
import OmegaRed.CDVD.DataPort
import OmegaRed.X86.JumpsReach
