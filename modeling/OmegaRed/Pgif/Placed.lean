import OmegaRed.Pgif.Pumped
import Mathlib.Algebra.Order.Group.Nat
import Mathlib.Tactic.Common

/-! What the transfers move: the words of a list and of a block to the GPU reach the queue in order,
and a block to the IOP is stored at one address. -/

namespace OmegaRed.Pgif

open Lib.Traces

variable {mem : U32 → U32} {s t : State}

def wordAt (a : U32) (i : Nat) : U32 := a + .ofNat 32 (4 * i)

@[simp] theorem wordAt_zero (a : U32) : wordAt a 0 = a := by
  rw [wordAt, Nat.mul_zero]
  exact BitVec.add_zero a

theorem wordAt_succ (a : U32) (i : Nat) : wordAt a (i + 1) = wordAt a i + 4 := by
  rw [wordAt, wordAt, Nat.mul_succ, BitVec.ofNat_add, ← BitVec.add_assoc]
  rfl

theorem wordAt_add (a : U32) (i : Nat) : wordAt (a + 4) i = wordAt a (i + 1) := by
  rw [wordAt_succ, wordAt, wordAt, BitVec.add_assoc, BitVec.add_comm 4, ← BitVec.add_assoc]

/-- The words of the memory from `a` on. -/
def wordsAt (mem : U32 → U32) (a : U32) (n : Nat) : List U32 :=
  (List.range n).map fun i => mem (wordAt a i)

theorem wordsAt_succ (mem : U32 → U32) (a : U32) (n : Nat) :
    wordsAt mem a (n + 1) = mem a :: wordsAt mem (a + 4) n := by
  rw [wordsAt, List.range_succ_eq_map, List.map_cons, List.map_map, wordAt_zero]
  congr 1
  exact List.map_congr_left fun i _ => congrArg mem (wordAt_add a i).symm

theorem wordsAt_concat (mem : U32 → U32) (a : U32) (n : Nat) :
    wordsAt mem a (n + 1) = wordsAt mem a n ++ [mem (wordAt a n)] := by
  rw [wordsAt, List.range_succ, List.map_append, List.map_singleton, wordsAt]

theorem wordsAt_prefix (mem : U32 → U32) (a : U32) {m n : Nat} (h : m ≤ n) :
    wordsAt mem a m <+: wordsAt mem a n := by
  obtain ⟨k, rfl⟩ := Nat.exists_eq_add_of_le h
  rw [wordsAt, wordsAt, List.range_add, List.map_append]
  exact List.prefix_append _ _

/-- The header of a packet has the number of its words, and the address of the next header. -/
def packetSize (mem : U32 → U32) (a : U32) : Nat := ((mem a >>> 24) &&& 0xFF).toNat

def packetWords (mem : U32 → U32) (a : U32) : List U32 := wordsAt mem (a + 4) (packetSize mem a)

/-- The headers of a list, from the first one to the one that is linked to the end code. -/
inductive Linked (mem : U32 → U32) : U32 → List U32 → Prop
  | done : Linked mem dmaLlEndCode []
  | packet {a : U32} {ps : List U32} : a ≠ dmaLlEndCode → Linked mem (mem a &&& 0x00FFFFFF) ps →
      Linked mem a (a :: ps)

def listWords (mem : U32 → U32) (ps : List U32) : List U32 := ps.flatMap (packetWords mem)

namespace State

theorem lt_of_not_full (hroom : ¬s.Full) : s.dat.ring.count < s.dat.ring.size := by
  rw [Full, pgifDatRbLeaveFree] at hroom
  omega

/-- What is left to do of a list: the words of the packet at hand, and the packets behind. -/
structure ListLeft (mem : U32 → U32) (s : State) (cur : List U32) (ps : List U32) : Prop where
  cur : cur = wordsAt mem s.dma.pgpuDmaTrAddr (s.dma.wordNr - s.dma.wCnt)
  linked : Linked mem s.dma.nextAddr ps

/-- Only the engine for lists is at work, and at most `k` rounds of it are left. -/
structure ListAt (mem : U32 → U32) (ws : List U32) (k : Nat) (s : State) : Prop where
  intact : s.dat.Intact
  toGpu : s.dma.pgpuDmaNrActToGpu = false
  toIop : s.dma.pgpuDmaNrActToIop = false
  rest : ∃ cur ps, s.ListLeft mem cur ps ∧ s.dat.sent ++ cur ++ listWords mem ps = ws ∧
    (s.dma.pgpuDmaLlAct = true → cur.length + (listWords mem ps).length + ps.length < k) ∧
    (s.dma.pgpuDmaLlAct = false → cur = [] ∧ ps = [])

namespace ListAt

variable {ws : List U32} {k : Nat}

theorem beside (h : ListAt mem ws k s) (hb : Beside s t) : ListAt mem ws k t where
  intact := hb.intact
  toGpu := by rw [hb.dma, h.toGpu]
  toIop := by rw [hb.dma, h.toIop]
  rest := by
    obtain ⟨cur, ps, ⟨hcur, hlinked⟩, hrest⟩ := h.rest
    exact ⟨cur, ps, ⟨by rw [hb.dma, hcur], by rwa [hb.dma]⟩, by rwa [hb.dma, hb.sent]⟩

theorem pumpLl (h : ListAt mem ws k s) (hact : s.dma.pgpuDmaLlAct = true) (hroom : ¬s.Full) :
    ∃ j < k, ListAt mem ws j (s.pumpLl mem) := by
  obtain ⟨cur, ps, ⟨hcur, hlinked⟩, hwords, hleft, -⟩ := h.rest
  have hk := hleft hact
  rw [State.pumpLl]
  split
  · rename_i hend
    rw [Nat.sub_eq_zero_of_le hend] at hcur
    cases hcur
    generalize hnext : s.dma.nextAddr = a at hlinked
    cases hlinked with
    | done =>
      rw [if_pos rfl]
      have hcur : [] = wordsAt mem s.dma.pgpuDmaTrAddr (s.dma.wordNr - s.dma.wCnt) := by
        rw [Nat.sub_eq_zero_of_le hend]
        rfl
      exact ⟨0, Nat.lt_of_le_of_lt (Nat.zero_le _) hk, h.intact, h.toGpu, h.toIop, [], [],
        ⟨hcur, hnext ▸ .done⟩, hwords, fun hon => absurd hon Bool.false_ne_true,
        fun _ => ⟨rfl, rfl⟩⟩
    | packet hne hrest =>
      rename_i ps
      rw [if_neg hne]
      rw [listWords, List.flatMap_cons, ← listWords] at hwords hk
      rw [List.length_append, List.length_cons] at hk
      refine ⟨(packetWords mem a).length + (listWords mem ps).length + ps.length + 1, ?_, h.intact,
        h.toGpu, h.toIop, packetWords mem a, ps, ⟨rfl, hrest⟩, ?_, fun _ => Nat.lt_succ_self _,
        fun hoff => absurd (hact.symm.trans hoff) Bool.false_ne_true.symm⟩
      · have hnil : (wordsAt mem s.dma.pgpuDmaTrAddr 0).length = 0 := rfl
        omega
      · rw [← hwords, List.append_assoc, List.append_assoc]
        rfl
  · rename_i hmore
    obtain ⟨m, hm⟩ : ∃ m, s.dma.wordNr - s.dma.wCnt = m + 1 := ⟨_, (Nat.succ_pred (by omega)).symm⟩
    rw [hm, wordsAt_succ] at hcur
    rw [hcur, List.length_cons] at hk
    have hcount := lt_of_not_full hroom
    have hm' : s.dma.wordNr - (s.dma.wCnt + 1) = m := by omega
    refine ⟨k - 1, by omega, h.intact.put fun _ => hcount, h.toGpu, h.toIop,
      wordsAt mem (s.dma.pgpuDmaTrAddr + 4) m, ps, ⟨by rw [hm'], hlinked⟩, ?_, fun _ => by omega,
      fun hoff => absurd (hact.symm.trans hoff) Bool.false_ne_true.symm⟩
    rw [DataFifo.sent_put_dma h.intact hcount, ← hwords, hcur]
    simp only [List.append_assoc, List.cons_append, List.nil_append]

theorem pumped (mem : U32 → U32) (ws : List U32) : Pumped mem (ListAt mem ws) where
  intact h := h.intact
  beside h hb := h.beside hb
  list {k s} h := by
    rw [drainPgpuDmaLl]
    split_ifs with hoff hfull
    · exact ⟨k, Nat.le_refl k, h⟩
    · exact ⟨k, Nat.le_refl k, h⟩
    · obtain ⟨j, hj, hpump⟩ := h.pumpLl (Bool.not_eq_false _ ▸ hoff) hfull
      exact ⟨j, Nat.le_of_lt hj, hpump⟩
  round {k s} h hroom hact := by
    rw [active, h.toGpu, Bool.false_or] at hact
    obtain ⟨j, hj, hpump⟩ := h.pumpLl hact hroom
    refine ⟨j, hj, ?_⟩
    rw [State.round, drainPgpuDmaLl, if_neg (by rw [hact]; decide), if_neg hroom,
      drainPgpuDmaNrToGpu_of_idle hpump.toGpu]
    exact hpump

end ListAt

/-- The registers of a block transfer of `count` blocks of `size` words, with `n` of them moved. -/
structure BlockAt (size count n : Nat) (d : Dma) : Prop where
  nrWordsN : d.nrWordsN = size * count
  crWordN : d.crWordN = n
  le : n ≤ size * count
  bcr : d.pgpuDmaBcr.toNat = size + (count - n / size) * 0x10000
  size_lt : size < 0x10000

end State

theorem Dma.blockSize_eq (d : Dma) : d.blockSize = d.pgpuDmaBcr.toNat % 0x10000 := by
  rw [Dma.blockSize, BitVec.toNat_and]
  exact Nat.and_two_pow_sub_one_eq_mod _ 16

theorem Dma.blockCount_eq (d : Dma) : d.blockCount = d.pgpuDmaBcr.toNat / 0x10000 := by
  have hlt := d.pgpuDmaBcr.isLt
  rw [Dma.blockCount, BitVec.toNat_and, BitVec.toNat_ushiftRight, Nat.shiftRight_eq_div_pow]
  refine (Nat.and_two_pow_sub_one_eq_mod _ 16).trans (Nat.mod_eq_of_lt ?_)
  omega

namespace State.BlockAt

variable {size count n : Nat} {d : Dma}

theorem blockSize (h : BlockAt size count n d) : d.blockSize = size := by
  have hlt := h.size_lt
  rw [Dma.blockSize_eq, h.bcr, Nat.add_mul_mod_self_right, Nat.mod_eq_of_lt hlt]

theorem countWord (h : BlockAt size count n d) (hn : n < size * count) :
    BlockAt size count (n + 1) d.countWord := by
  have hpos : 0 < size := Nat.pos_of_mul_pos_right (Nat.lt_of_le_of_lt (Nat.zero_le n) hn)
  have hblock : n / size < count := Nat.div_lt_of_lt_mul hn
  refine ⟨h.nrWordsN, by rw [← h.crWordN]; rfl, hn, ?_, h.size_lt⟩
  have hbcr := h.bcr
  rw [Dma.countWord]
  dsimp only
  rw [h.blockSize, h.crWordN, Lib.Cyclic.succ_mod hpos, Lib.Cyclic.succ_div hpos]
  by_cases hlast : n % size + 1 = size
  · have hle : 0x10000 ≤ d.pgpuDmaBcr.toNat := by
      have hmul := Nat.le_mul_of_pos_left 0x10000 (Nat.sub_pos_of_lt hblock)
      omega
    obtain ⟨r, hr⟩ := Nat.exists_eq_add_of_lt hblock
    have hcount : count - n / size = r + 1 := by omega
    have hcount' : count - (n / size + 1) = r := by omega
    rw [if_pos hlast, if_pos ⟨rfl, hle⟩, if_pos hlast, BitVec.toNat_sub_of_le hle, hbcr, hcount,
      hcount', Nat.succ_mul]
    have hstep : BitVec.toNat (0x10000 : U32) = 0x10000 := rfl
    omega
  · rw [if_neg hlast, if_neg fun hzero => Nat.succ_ne_zero _ hzero.1, if_neg hlast, hbcr]

end State.BlockAt

namespace State

/-- Only the engine for blocks to the GPU is at work, and the words in the queue are of the block at
`base`. -/
structure GpuMoved (mem : U32 → U32) (base madr : U32) (size count : Nat) (s : State) : Prop where
  intact : s.dat.Intact
  llAct : s.dma.pgpuDmaLlAct = false
  toIop : s.dma.pgpuDmaNrActToIop = false
  block : BlockAt size count s.dat.sent.length s.dma
  sent : s.dat.sent = wordsAt mem base s.dat.sent.length
  addrNdma : s.dma.addrNdma = wordAt base s.dat.sent.length
  madr : s.dma.pgpuDmaMadr = wordAt madr s.dat.sent.length

structure GpuAt (mem : U32 → U32) (base madr : U32) (size count k : Nat) (s : State) : Prop
    extends GpuMoved mem base madr size count s where
  left : s.dma.pgpuDmaNrActToGpu = true → size * count - s.dat.sent.length < k
  ends : s.dma.pgpuDmaNrActToGpu = false → s.dat.sent.length = size * count
  stops : 0 < s.dat.sent.length → s.dat.sent.length = size * count →
    s.dma.pgpuDmaNrActToGpu = false

variable {base madr : U32} {size count k : Nat}

theorem GpuMoved.beside (h : GpuMoved mem base madr size count s) (hb : Beside s t) :
    GpuMoved mem base madr size count t where
  intact := hb.intact
  llAct := by rw [hb.dma, h.llAct]
  toIop := by rw [hb.dma, h.toIop]
  block := by rw [hb.dma, hb.sent]; exact h.block
  sent := by rw [hb.sent]; exact h.sent
  addrNdma := by rw [hb.dma, hb.sent, h.addrNdma]
  madr := by rw [hb.dma, hb.sent, h.madr]

theorem GpuMoved.sendWord (h : GpuMoved mem base madr size count s) (hroom : ¬s.Full)
    (hmore : s.dat.sent.length < size * count) :
    GpuMoved mem base madr size count (s.sendWord mem) := by
  have hcount := lt_of_not_full hroom
  have hsent : (s.sendWord mem).dat.sent = s.dat.sent ++ [mem s.dma.addrNdma] :=
    DataFifo.sent_put_dma h.intact hcount _
  have hlength : (s.sendWord mem).dat.sent.length = s.dat.sent.length + 1 := by
    rw [hsent, List.length_append, List.length_singleton]
  refine ⟨h.intact.put fun _ => hcount, h.llAct, h.toIop, ?_, ?_, ?_, ?_⟩
  · have hblock := h.block.countWord hmore
    rw [hlength]
    exact ⟨hblock.nrWordsN, hblock.crWordN, hblock.le, hblock.bcr, hblock.size_lt⟩
  · rw [hlength, wordsAt_concat, ← h.sent, hsent, h.addrNdma]
  · rw [hlength, wordAt_succ, ← h.addrNdma]
    rfl
  · rw [hlength, wordAt_succ, ← h.madr]
    exact BitVec.add_comm _ _

theorem GpuMoved.endToGpu (h : GpuMoved mem base madr size count s)
    (hact : s.dma.pgpuDmaNrActToGpu = true)
    (hk : s.dat.sent.length < size * count → size * count - s.dat.sent.length < k) :
    GpuAt mem base madr size count k s.endToGpu := by
  rw [State.endToGpu, h.block.nrWordsN, h.block.crWordN]
  have hle := h.block.le
  split
  · rename_i hend
    exact ⟨⟨h.intact, h.llAct, h.toIop, ⟨h.block.nrWordsN, h.block.crWordN, h.block.le, h.block.bcr,
      h.block.size_lt⟩, h.sent, h.addrNdma, h.madr⟩, fun hon => absurd hon Bool.false_ne_true,
      fun _ => Nat.le_antisymm hle hend, fun _ _ => rfl⟩
  · rename_i hmore
    exact ⟨h, fun _ => hk (by omega), fun hoff => absurd (hact.symm.trans hoff) (by decide),
      fun _ heq => absurd heq.ge hmore⟩

theorem GpuAt.pumped (mem : U32 → U32) (base madr : U32) (size count : Nat) :
    Pumped mem (GpuAt mem base madr size count) where
  intact h := h.intact
  beside {k s t} h hb := by
    refine ⟨h.toGpuMoved.beside hb, ?_, ?_, ?_⟩
    · rw [hb.dma, hb.sent]
      exact h.left
    · rw [hb.dma, hb.sent]
      exact h.ends
    · rw [hb.dma, hb.sent]
      exact h.stops
  list {k s} h := by
    rw [drainPgpuDmaLl_of_idle h.llAct]
    exact ⟨k, Nat.le_refl k, h⟩
  round {k s} h hroom hact := by
    rw [active, h.llAct, Bool.or_false] at hact
    have hleft := h.left hact
    rw [State.round, drainPgpuDmaLl_of_idle h.llAct, drainPgpuDmaNrToGpu,
      if_neg (by rw [hact]; decide), if_neg hroom, h.block.nrWordsN, h.block.crWordN]
    split
    · rename_i hmore
      refine ⟨k - 1, by omega, (h.toGpuMoved.sendWord hroom hmore).endToGpu hact fun _ => ?_⟩
      have hsent : (s.sendWord mem).dat.sent = s.dat.sent ++ [mem s.dma.addrNdma] :=
        DataFifo.sent_put_dma h.intact (lt_of_not_full hroom) _
      rw [hsent, List.length_append, List.length_singleton]
      omega
    · rename_i hmore
      exact ⟨0, by omega, h.toGpuMoved.endToGpu hact fun hlt => absurd hlt hmore⟩

/-- Only the engine for blocks to the IOP is at work. -/
structure IopMoved (base madr : U32) (size count : Nat) (s : State) : Prop where
  intact : s.dat.Intact
  sent : s.dat.sent = []
  llAct : s.dma.pgpuDmaLlAct = false
  toGpu : s.dma.pgpuDmaNrActToGpu = false
  block : BlockAt size count s.stored.length s.dma
  addrNdma : s.dma.addrNdma = base
  stored : s.stored.map Prod.fst = List.replicate s.stored.length base
  madr : s.dma.pgpuDmaMadr = wordAt madr (2 * s.stored.length)

/-- At least `n` words have been stored. -/
structure IopAt (base madr : U32) (size count n : Nat) (s : State) : Prop
    extends IopMoved base madr size count s where
  le : n ≤ s.stored.length
  ends : s.dma.pgpuDmaNrActToIop = false → s.stored.length = size * count
  stops : 0 < s.stored.length → s.stored.length = size * count → s.dma.pgpuDmaNrActToIop = false

variable {n : Nat}

theorem IopMoved.storeWord (h : IopMoved base madr size count s) (hpos : 0 < s.dat.ring.count)
    (hmore : s.stored.length < size * count) :
    IopMoved base madr size count s.storeWord ∧
      s.storeWord.stored.length = s.stored.length + 1 ∧
      s.storeWord.dma.pgpuDmaNrActToIop = s.dma.pgpuDmaNrActToIop := by
  obtain ⟨w, hw, hwords⟩ := RingBuf.words_get h.intact.ok hpos
  have hok := h.intact.ok.get
  have hsize := RingBuf.size_get s.dat.ring
  have hblock := h.block.countWord hmore
  rw [State.storeWord]
  rcases hget : s.dat.ring.get with ⟨a, ring⟩
  rw [hget] at hw hwords hok hsize
  cases hw
  have hlength : (s.stored ++ [(s.dma.addrNdma, w.data)]).length = s.stored.length + 1 := by
    rw [List.length_append, List.length_singleton]
  refine ⟨⟨⟨hok, hsize.trans h.intact.size_eq, h.intact.kept⟩, ?_, h.llAct, h.toGpu, ?_, h.addrNdma,
    ?_, ?_⟩, hlength, rfl⟩
  · have hsent := h.sent
    simp only [DataFifo.sent, hwords, List.map_eq_nil_iff, List.filter_eq_nil_iff, List.mem_append,
      List.mem_cons] at hsent ⊢
    rintro x (hx | hx)
    · exact hsent x (.inl hx)
    · exact hsent x (.inr (.inr hx))
  · rw [hlength]
    exact ⟨hblock.nrWordsN, hblock.crWordN, hblock.le, hblock.bcr, hblock.size_lt⟩
  · rw [hlength, List.map_append, h.stored, h.addrNdma]
    exact List.replicate_succ'.symm
  · rw [hlength, Nat.mul_succ, wordAt_succ, wordAt_succ, ← h.madr]
    dsimp only
    rw [BitVec.add_comm 4]

theorem IopMoved.endToIop (h : IopMoved base madr size count s)
    (hact : s.dma.pgpuDmaNrActToIop = true) (hle : n ≤ s.stored.length) :
    IopAt base madr size count n s.endToIop := by
  rw [State.endToIop, h.block.nrWordsN, h.block.crWordN]
  have htotal := h.block.le
  split
  · rename_i hend
    exact ⟨⟨h.intact, h.sent, h.llAct, h.toGpu, ⟨h.block.nrWordsN, h.block.crWordN, h.block.le,
      h.block.bcr, h.block.size_lt⟩, h.addrNdma, h.stored, h.madr⟩, hle,
      fun _ => Nat.le_antisymm htotal hend, fun _ _ => rfl⟩
  · rename_i hmore
    exact ⟨h, hle, fun hoff => absurd (hact.symm.trans hoff) (by decide),
      fun _ heq => absurd heq.ge hmore⟩

theorem IopAt.pumpToIop (h : IopAt base madr size count n s) (hpos : 0 < s.dat.ring.count)
    (hact : s.dma.pgpuDmaNrActToIop = true) :
    IopAt base madr size count n s.pumpToIop ∧
      (0 < size * count → IopAt base madr size count 1 s.pumpToIop) := by
  rw [State.pumpToIop, h.block.nrWordsN, h.block.crWordN]
  split
  · rename_i hmore
    obtain ⟨hmoved, hlength, hon⟩ := h.toIopMoved.storeWord hpos hmore
    have hle := h.le
    exact ⟨hmoved.endToIop (hon.trans hact) (by omega),
      fun _ => hmoved.endToIop (hon.trans hact) (by omega)⟩
  · rename_i hmore
    have htotal := h.block.le
    refine ⟨h.toIopMoved.endToIop hact h.le, fun htotal => ?_⟩
    have hoff := h.stops (by omega) (by omega)
    exact absurd (hact.symm.trans hoff) (by decide)

theorem IopAt.drainToIop (h : IopAt base madr size count n s) (m : Nat) :
    IopAt base madr size count n (drainToIop m s) := by
  induction m generalizing s with
  | zero => exact h
  | succ m ih =>
    rw [State.drainToIop]
    split_ifs with hoff hempty
    · exact h
    · exact h
    · exact ih (h.pumpToIop (Nat.pos_of_ne_zero hempty) (Bool.not_eq_false _ ▸ hoff)).1

theorem IopAt.drain_pos (h : IopAt base madr size count n s) (hpos : 0 < s.dat.ring.count)
    (htotal : 0 < size * count) : IopAt base madr size count 1 s.drainPgpuDmaNrToIop := by
  rw [drainPgpuDmaNrToIop]
  obtain ⟨m, hm⟩ := Nat.exists_eq_succ_of_ne_zero (Nat.ne_of_gt hpos)
  rw [hm, State.drainToIop]
  split_ifs with hoff hempty
  · have hends := h.ends hoff
    exact ⟨h.toIopMoved, by omega, h.ends, h.stops⟩
  · omega
  · exact ((h.pumpToIop hpos (Bool.not_eq_false _ ▸ hoff)).2 htotal).drainToIop m

theorem IopAt.pumped (mem : U32 → U32) (base madr : U32) (size count n : Nat) :
    Pumped mem (fun _ => IopAt base madr size count n) where
  intact h := h.intact
  beside {k s t} h hb := by
    refine ⟨⟨hb.intact, hb.sent.trans h.sent, by rw [hb.dma, h.llAct], by rw [hb.dma, h.toGpu], ?_,
      by rw [hb.dma, h.addrNdma], by rw [hb.stored, h.stored], by rw [hb.dma, hb.stored, h.madr]⟩,
      by rw [hb.stored]; exact h.le, ?_, ?_⟩
    · rw [hb.dma, hb.stored]
      exact h.block
    · rw [hb.dma, hb.stored]
      exact h.ends
    · rw [hb.dma, hb.stored]
      exact h.stops
  list {k s} h := by
    rw [drainPgpuDmaLl_of_idle h.llAct]
    exact ⟨k, Nat.le_refl k, h⟩
  round {k s} h _ hact := by
    rw [active, h.llAct, h.toGpu] at hact
    exact absurd hact (by decide)

end State

end OmegaRed.Pgif
