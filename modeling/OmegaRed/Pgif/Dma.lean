import OmegaRed.Pgif.Interface
import OmegaRed.Lib.Traces

/-! The DMA channel of the interface.  It has three engines, for lists and blocks to the GPU and for
blocks to the IOP, and every access to the queue of data pumps them. -/

namespace OmegaRed.Pgif

def dmaStartBusy : U32 := 0x01000000
def dmaTrigger : U32 := 0x10000000
def dmaDirFromRam : U32 := 0x1
def dmaLinkedList : U32 := 0x00000400
def dmaLlEndCode : U32 := 0x00FFFFFF

def pgpuDmaMadrAddr : U32 := 0x1F8010A0
def pgpuDmaBcrAddr : U32 := 0x1F8010A4
def pgpuDmaChcrAddr : U32 := 0x1F8010A8
def pgpuDmaTadrAddr : U32 := 0x1F8010AC

namespace Dma

variable (d : Dma)

def blockSize : Nat := (d.pgpuDmaBcr &&& 0xFFFF).toNat

def blockCount : Nat := ((d.pgpuDmaBcr >>> 16) &&& 0xFFFF).toNat

/-- A word more of a block transfer; at the end of a block the count of blocks goes down. -/
def countWord : Dma :=
  { d with
    crWordN := d.crWordN + 1
    pgpuDmaBcr :=
      if (d.crWordN + 1) % d.blockSize = 0 ∧ 0x10000 ≤ d.pgpuDmaBcr then d.pgpuDmaBcr - 0x10000
      else d.pgpuDmaBcr }

end Dma

namespace State

variable (mem : U32 → U32) (s : State)

def Full : Prop := s.dat.ring.size - pgifDatRbLeaveFree ≤ s.dat.ring.count

instance : Decidable s.Full := inferInstanceAs (Decidable (_ ≤ _))

/-- `CHCR` of a transfer that is over. -/
def endedChcr : U32 := s.pgpuDmaChcr &&& ~~~dmaTrigger &&& ~~~dmaStartBusy

/-- With room in the queue: the end of the list, the header of its next packet, or a word. -/
def pumpLl : State :=
  if s.dma.wordNr ≤ s.dma.wCnt then
    if s.dma.nextAddr = dmaLlEndCode then
      { s with
        dma := { s.dma with pgpuDmaLlAct := false, pgpuDmaMadr := 0x00FFFFFF }
        pgpuDmaChcr := s.endedChcr
        psxDmaInterrupt := s.psxDmaInterrupt + 1 }
    else
      let data := mem s.dma.nextAddr
      { s with
        dma := { s.dma with
          pgpuDmaMadr := data &&& 0x00FFFFFF
          pgpuDmaTrAddr := s.dma.nextAddr + 4
          wCnt := 0
          wordNr := ((data >>> 24) &&& 0xFF).toNat
          nextAddr := data &&& 0x00FFFFFF } }
  else
    { s with
      dat := s.dat.put ⟨mem s.dma.pgpuDmaTrAddr, true⟩
      dma := { s.dma with
        pgpuDmaTrAddr := s.dma.pgpuDmaTrAddr + 4
        wCnt := s.dma.wCnt + 1 } }

def drainPgpuDmaLl : State :=
  if s.dma.pgpuDmaLlAct = false then s
  else if s.Full then s
  else s.pumpLl mem

/-- A word of the block is put into the queue. -/
def sendWord : State :=
  { s with
    dat := s.dat.put ⟨mem s.dma.addrNdma, true⟩
    dma := { s.dma.countWord with
      addrNdma := s.dma.addrNdma + 4
      pgpuDmaMadr := 4 + s.dma.pgpuDmaMadr } }

/-- No interrupt ends a block transfer to the GPU. -/
def endToGpu : State :=
  if s.dma.nrWordsN ≤ s.dma.crWordN then
    { s with
      dma := { s.dma with pgpuDmaNrActToGpu := false }
      pgpuDmaChcr := s.endedChcr }
  else s

def drainPgpuDmaNrToGpu : State :=
  if s.dma.pgpuDmaNrActToGpu = false then s
  else if s.Full then s
  else if s.dma.crWordN < s.dma.nrWordsN then (s.sendWord mem).endToGpu
  else s.endToGpu

/-- A word of the queue is stored; `MADR` takes two steps, and `addrNdma` none. -/
def storeWord : State :=
  match s.dat.ring.get with
  | (some w, ring) =>
    { s with
      dat := { s.dat with ring }
      stored := s.stored ++ [(s.dma.addrNdma, w.data)]
      dma := { s.dma.countWord with pgpuDmaMadr := 4 + s.dma.pgpuDmaMadr + 4 } }
  | (none, _) => s

def endToIop : State :=
  if s.dma.nrWordsN ≤ s.dma.crWordN then
    { s with
      dma := { s.dma with pgpuDmaNrActToIop := false }
      pgpuDmaChcr := s.endedChcr
      psxDmaInterrupt := s.psxDmaInterrupt + 1 }
  else s

def pumpToIop : State :=
  if s.dma.crWordN < s.dma.nrWordsN then s.storeWord.endToIop else s.endToIop

def drainToIop : Nat → State → State
  | 0, s => s
  | n + 1, s =>
    if s.dma.pgpuDmaNrActToIop = false then s
    else if s.dat.ring.count = 0 then s
    else drainToIop n s.pumpToIop

/-- As many calls as there are words in the queue. -/
def drainPgpuDmaNrToIop : State := drainToIop s.dat.ring.count s

def active : Bool := s.dma.pgpuDmaNrActToGpu || s.dma.pgpuDmaLlAct

/-- The `while` of `fillFifoOnDrain`, with an answer if it ends within `n` rounds. -/
def fillFifo : Nat → State → Option State
  | 0, _ => none
  | n + 1, s =>
    if ¬s.Full ∧ s.active then fillFifo n ((s.drainPgpuDmaLl mem).drainPgpuDmaNrToGpu mem)
    else some s

def clearRequest : State :=
  if s.active ∧ s.dma.pgpuDmaNrActToIop = false then
    { s with pGifCtrlReg := s.pGifCtrlReg &&& ~~~8#32 }
  else s

/-- Nothing is done unless the driver has set the bit that requests it. -/
def fillFifoOnDrain (n : Nat) : Option State :=
  let s := s.getUpdPgifCtrlReg
  if s.pGifCtrlReg &&& 8 = 0 then some s
  else (fillFifo mem n ((s.drainPgpuDmaLl mem).drainPgpuDmaNrToGpu mem)).map clearRequest

def processPgpuDma (n : Nat) : Option State :=
  if s.pgpuDmaChcr &&& dmaStartBusy = 0 then some s
  else
    let s := { s with pgpuDmaChcr := s.pgpuDmaChcr ||| dmaTrigger }
    if s.pgpuDmaChcr &&& dmaLinkedList ≠ 0 then
      if s.pgpuDmaChcr &&& dmaDirFromRam ≠ 0 then
        fillFifoOnDrain mem { s with
          dma := { s.dma with
            pgpuDmaLlAct := true
            nextAddr := s.dma.pgpuDmaMadr &&& 0x1FFFFFFF
            wCnt := 0
            wordNr := 0 } } n
      else some s
    else
      let dma := { s.dma with
        crWordN := 0
        addrNdma := s.dma.pgpuDmaMadr &&& 0x1FFFFFFF
        nrWordsN := s.dma.blockSize * s.dma.blockCount }
      if s.pgpuDmaChcr &&& dmaDirFromRam ≠ 0 then
        fillFifoOnDrain mem { s with dma := { dma with pgpuDmaNrActToGpu := true } } n
      else
        some (drainPgpuDmaNrToIop { s with dma := { dma with pgpuDmaNrActToIop := true } })

def psxDma2GpuR (addr : U32) : U32 × State :=
  let addr := addr &&& 0x1FFFFFFF
  if addr = pgpuDmaMadrAddr then (s.dma.pgpuDmaMadr, s)
  else if addr = pgpuDmaBcrAddr then (s.dma.pgpuDmaBcr, s)
  else if addr = pgpuDmaChcrAddr then
    let chcr :=
      if s.active = false ∧ s.dma.pgpuDmaNrActToIop = false then s.pgpuDmaChcr &&& ~~~0x01000000#32
      else s.pgpuDmaChcr
    (chcr, { s with pgpuDmaChcr := chcr })
  else if addr = pgpuDmaTadrAddr then (s.pgpuDmaTadr, s)
  else (0, s)

def psxDma2GpuW (n : Nat) (addr data : U32) : Option State :=
  let addr := addr &&& 0x1FFFFFFF
  if addr = pgpuDmaMadrAddr then
    some { s with dma := { s.dma with pgpuDmaMadr := data &&& 0x00FFFFFF } }
  else if addr = pgpuDmaBcrAddr then some { s with dma := { s.dma with pgpuDmaBcr := data } }
  else if addr = pgpuDmaChcrAddr then
    let s := { s with pgpuDmaChcr := data }
    if s.pgpuDmaChcr &&& dmaStartBusy ≠ 0 then s.processPgpuDma mem n else some s
  else if addr = pgpuDmaTadrAddr then some { s with pgpuDmaTadr := data }
  else some s

/-- The number of a GP1 command; the higher ones mirror the lower ones. -/
def cmdNr (cmd : U32) : Nat := ((cmd >>> 24) &&& 0xFF &&& 0x3F).toNat

def ckhCmdSetPgif (cmd : U32) : State :=
  match cmdNr cmd with
  | 0 =>
    let s := { s with dat := s.dat.clear }
    let s := s.ackGpuIrq.pgifReset
    { s with dat := s.dat.put ⟨0, false⟩ }
  | 1 => { s with dat := s.dat.clear }
  | 2 => s.ackGpuIrq
  | 4 =>
    drainPgpuDmaLl mem { s with
      pGpuStatReg := s.pGpuStatReg &&& ~~~statDirByCmdBits ||| (cmd <<< 29) &&& statDirByCmdBits }
  | _ => s

/-- The command is carried out when the driver takes it. Without one, this is command 0. -/
def cmdRingBufGet : U32 × State :=
  let data := s.cmd.get.1.getD 0
  (data, ckhCmdSetPgif mem { s with cmd := s.cmd.get.2 } data)

def psxGPUw (addr data : U32) : State :=
  if addr = hwPs1GpuData then { s with dat := s.dat.put ⟨data, false⟩ }
  else if addr = hwPs1GpuStatus then
    if (data >>> 24) &&& 0xFF &&& 0x30 = 0x10 then
      { s with pGpuDataReg := s.immRespHndl data s.pGpuDataReg }
    else { s with hwIntcIrq := s.hwIntcIrq + 1, cmd := s.cmd.put data }
  else s

def psxGPUr (addr : U32) : U32 × State :=
  if addr = hwPs1GpuData then s.datRingBufGet
  else if addr = hwPs1GpuStatus then (s.getUpdPgpuStatReg.pGpuStatReg, s.getUpdPgpuStatReg)
  else (0, s)

def pgifW (n : Nat) (addr data : U32) : Option State :=
  if addr = pgpuDatFifo then
    some (drainPgpuDmaNrToIop { s with dat := s.dat.put ⟨data, false⟩ })
  else if addr = pgpuStat then some { s with pGpuStatReg := data }
  else if addr = pgifCtrl then fillFifoOnDrain mem { s with pGifCtrlReg := data } n
  else if addr = pgif1 then some { s with pgif1reg := data }
  else if addr = pgif2 then some { s with pgif2reg := data }
  else if addr = pgif3 then some { s with pgif3reg := data }
  else if addr = pgif4 then some { s with pgif4reg := data }
  else some s

def pgifR (n : Nat) (addr : U32) : Option (U32 × State) :=
  if addr = pgpuCmdFifo then some (s.cmdRingBufGet mem)
  else if addr = pgpuDatFifo then (s.fillFifoOnDrain mem n).map datRingBufGet
  else if addr = pgpuStat then some (s.pGpuStatReg, s)
  else if addr = pgifCtrl then some (s.getUpdPgifCtrlReg.pGifCtrlReg, s.getUpdPgifCtrlReg)
  else if addr = pgif1 then some (s.pgif1reg, s)
  else if addr = pgif2 then some (s.pgif2reg, s)
  else if addr = pgif3 then some (s.pgif3reg, s)
  else if addr = pgif4 then some (s.pgif4reg, s)
  else some (0, s)

/-- Four words of the queue, after one another. -/
def datRingBufGet4 : List U32 × State :=
  let r0 := s.datRingBufGet
  let r1 := r0.2.datRingBufGet
  let r2 := r1.2.datRingBufGet
  let r3 := r2.2.datRingBufGet
  ([r0.1, r1.1, r2.1, r3.1], r3.2)

def pgifRQword (n : Nat) (addr : U32) : Option (List U32 × State) :=
  if addr = pgpuDatFifo then
    (s.fillFifoOnDrain mem n).bind fun s =>
      (s.datRingBufGet4.2.fillFifoOnDrain mem n).map fun t => (s.datRingBufGet4.1, t)
  else some ([], s)

def pgifWQword (addr d0 d1 d2 d3 : U32) : State :=
  if addr = pgpuDatFifo then
    drainPgpuDmaNrToIop { s with
      dat := (((s.dat.put ⟨d0, false⟩).put ⟨d1, false⟩).put ⟨d2, false⟩).put ⟨d3, false⟩ }
  else s

end State

inductive Event
  | psxGPUw (addr data : U32)
  | psxGPUr (addr : U32)
  | pgifW (addr data : U32)
  | pgifR (addr : U32)
  | pgifWQword (addr d0 d1 d2 d3 : U32)
  | pgifRQword (addr : U32)
  | psxDma2GpuR (addr : U32)
  | psxDma2GpuW (addr data : U32)

/-- `mem` is the memory of the IOP, and no `while` may take more than `n` rounds. -/
def State.step (mem : U32 → U32) (n : Nat) (s : State) : Event → Option State
  | .psxGPUw addr data => some (s.psxGPUw addr data)
  | .psxGPUr addr => some (s.psxGPUr addr).2
  | .pgifW addr data => s.pgifW mem n addr data
  | .pgifR addr => (s.pgifR mem n addr).map Prod.snd
  | .pgifWQword addr d0 d1 d2 d3 => some (s.pgifWQword addr d0 d1 d2 d3)
  | .pgifRQword addr => (s.pgifRQword mem n addr).map Prod.snd
  | .psxDma2GpuR addr => some (s.psxDma2GpuR addr).2
  | .psxDma2GpuW addr data => s.psxDma2GpuW mem n addr data

end OmegaRed.Pgif
