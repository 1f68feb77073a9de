import OmegaRed.Lib.RingFifo
import OmegaRed.Vif.Dynarec
import Mathlib.Data.List.Basic
import Mathlib.Tactic.Ring

/-! The vectors that an unpack writes, in closed form, and where the generated code stores them. -/

namespace OmegaRed.Vif

open Lib.Cyclic

namespace Block

variable (b : Block)

/-- Where vector `k` goes. -/
def offset (k : Nat) : Nat :=
  if b.isFill then 16 * k else 16 * (k / b.wlCount * b.cl.toNat + k % b.wlCount)

theorem wl_le (h : b.isFill = false) : b.wlCount ≤ b.cl.toNat :=
  Nat.le_of_not_lt (of_decide_eq_false h)

theorem shiftDisplacementWindow_add (disp : Int) :
    (shiftDisplacementWindow disp).1 + (shiftDisplacementWindow disp).2 = disp := by
  rw [shiftDisplacementWindow]
  split
  · have ih := shiftDisplacementWindow_add (disp - 0xf0)
    dsimp only
    omega
  · exact Int.zero_add disp
termination_by disp.toNat

/-- The loop is about to write vector `k`, perhaps after a skip, and `total` is where it stands. -/
def AtVector (k vCL : Nat) (total : Int) : Prop :=
  (vCL = k % b.wlCount ∧ total = b.offset k) ∨
    (b.isFill = false ∧ vCL = b.wlCount ∧ k % b.wlCount = 0 ∧
      total + 16 * b.skipSize = b.offset k)

variable {b} {k vCL : Nat} {total : Int}

theorem AtVector.zero : b.AtVector 0 0 0 := by
  refine .inl ⟨(Nat.zero_mod _).symm, ?_⟩
  rw [offset]
  split <;> simp

theorem offset_succ_fill (h : b.isFill = true) (k : Nat) : b.offset (k + 1) = b.offset k + 16 := by
  rw [offset, offset, if_pos h, if_pos h, Nat.mul_succ]

theorem offset_succ (h : b.isFill = false) (k : Nat) :
    (b.offset (k + 1) : Int) = b.offset k + 16 +
      if k % b.wlCount + 1 = b.wlCount then 16 * b.skipSize else 0 := by
  have hwl := b.wl_le h
  rw [offset, offset, skipSize, blockSize, cycleSize, h, succ_mod b.wlCount_pos,
    succ_div b.wlCount_pos]
  simp only [Bool.false_eq_true, if_false]
  split
  · rename_i hlast
    have hnext := Nat.add_one_mul (k / b.wlCount) b.cl.toNat
    omega
  · omega

theorem AtVector.write (h : b.AtVector k vCL total) (hcycle : b.Writes vCL) :
    vCL = k % b.wlCount ∧ total = b.offset k := by
  rcases h with h | ⟨hfill, rfl, -, -⟩
  · exact h
  · rw [Block.Writes, cycleSize, hfill] at hcycle
    simp at hcycle

theorem AtVector.next (h : b.AtVector k vCL total) (hcycle : b.Writes vCL) :
    b.AtVector (k + 1) (b.nextCL vCL) (total + 16) := by
  obtain ⟨rfl, rfl⟩ := h.write hcycle
  have hlt := Nat.mod_lt k b.wlCount_pos
  rw [nextCL, blockSize]
  cases hfill : b.isFill with
  | true =>
    refine .inl ⟨(succ_mod b.wlCount_pos k).symm, ?_⟩
    rw [offset_succ_fill hfill]
    rfl
  | false =>
    have hwl := b.wl_le hfill
    have hoffset := offset_succ hfill k
    have hmod := succ_mod b.wlCount_pos k
    simp only [Bool.false_eq_true, if_false]
    by_cases hlast : k % b.wlCount + 1 = b.wlCount
    · rw [if_pos hlast] at hoffset hmod
      by_cases hskip : b.wlCount = b.cl.toNat
      · refine .inl ⟨?_, ?_⟩
        · rw [if_pos (by omega), hmod]
        · have hzero : b.skipSize = 0 := by
            rw [skipSize, blockSize, cycleSize, hfill]
            simp only [Bool.false_eq_true, if_false]
            omega
          rw [hoffset, hzero]
          omega
      · refine .inr ⟨hfill, ?_, hmod, ?_⟩
        · rw [if_neg (by omega), hlast]
        · rw [hoffset]
    · rw [if_neg hlast] at hoffset hmod
      refine .inl ⟨?_, ?_⟩
      · rw [if_neg (by omega), hmod]
      · rw [hoffset]
        omega

theorem AtVector.skip (h : b.AtVector k vCL total) (hcycle : ¬ b.Writes vCL) :
    b.AtVector k 0 (total + 16 * b.skipSize) := by
  obtain ⟨hend, hfill⟩ := not_or.mp hcycle
  rcases h with ⟨rfl, -⟩ | ⟨-, -, hmod, htotal⟩
  · rw [cycleSize, Bool.eq_false_iff.mpr hfill] at hend
    exact absurd (Nat.mod_lt k b.wlCount_pos) (by simpa using hend)
  · exact .inl ⟨hmod.symm, htotal⟩

end Block

/-- Code that neither stores to VU memory nor moves the destination. -/
def Quiet (code : List Ins) : Prop :=
  ∀ ecx rest, Machine.stores ecx (code ++ rest) = Machine.stores ecx rest

namespace Quiet

variable {c c' : List Ins}

theorem nil : Quiet [] := fun _ _ => rfl

theorem append (h : Quiet c) (h' : Quiet c') : Quiet (c ++ c') := by
  intro ecx rest
  rw [List.append_assoc, h, h']

theorem ite {p : Prop} [Decidable p] (h : Quiet c) (h' : Quiet c') :
    Quiet (if p then c else c') := by
  split
  · exact h
  · exact h'

end Quiet

theorem quiet_xUnpack (sse4 usn : Bool) (disp : Int) (isAligned iteration : Nat) (upk : Upk) :
    Quiet (xUnpack sse4 usn disp isAligned iteration upk) := by
  intro ecx rest
  cases upk <;> cases sse4 <;> cases usn <;>
    simp only [xUnpack, xUPK_S_32, xUPK_S_16, xUPK_S_8, xUPK_V2_32, xUPK_V2_16, xUPK_V2_8,
      xUPK_V3_32, xUPK_V3_16, xUPK_V3_8, xUPK_V4_32, xUPK_V4_16, xUPK_V4_8, xUPK_V4_5, xUPK_8] <;>
    repeat' split
  all_goals rfl

theorem quiet_mergeVectors (sse4 : Bool) (d s t : Xmm) (xyzw : BitVec 32) :
    Quiet (mergeVectors sse4 d s t xyzw) := by
  intro ecx rest
  rw [mergeVectors]
  repeat' split
  all_goals rfl

namespace Block

variable (sse4 : Bool) (b : Block)

theorem quiet_mergeCode (cc : Fin 4) (dst : Int) : Quiet (b.mergeCode sse4 cc dst) := by
  have hmerge := quiet_mergeVectors sse4
  refine ((Quiet.ite (hmerge _ _ _ _) .nil).append (Quiet.ite (hmerge _ _ _ _) .nil)).append
    (Quiet.ite (fun ecx rest => ?_) .nil)
  exact hmerge _ _ _ _ ecx rest

theorem quiet_modeCode (cc : Fin 4) : Quiet (b.modeCode sse4 cc) := by
  have hmerge := quiet_mergeVectors sse4
  have hupdate : Quiet (mergeVectors sse4 .temp .row .temp (b.modeMask cc) ++
      [.paddd .dest .temp] ++
      if b.doMode = 2 then mergeVectors sse4 .row .dest .temp (b.modeMask cc) else []) :=
    ((hmerge _ _ _ _).append fun _ _ => rfl).append (.ite (hmerge _ _ _ _) .nil)
  refine .ite .nil (.ite (fun ecx rest => ?_) (.ite (fun _ _ => rfl) fun ecx rest => ?_))
  · exact Quiet.ite (hmerge _ _ _ _) hupdate ecx rest
  · exact Quiet.ite (fun _ _ => rfl) .nil ecx rest

theorem stores_xMovDest (vCL : Nat) (dst ecx : Int) (rest : List Ins) :
    Machine.stores ecx (b.xMovDest sse4 vCL dst ++ rest) =
      (ecx + dst) :: Machine.stores ecx rest := by
  rw [xMovDest]
  split
  · rfl
  · rw [doMaskWrite, List.append_assoc, List.append_assoc, quiet_mergeCode, quiet_modeCode]
    rfl

theorem stores_shift (dst src ecx : Int) (rest : List Ins) :
    Machine.stores ecx (shiftDst dst ++ shiftSrc src ++ rest) =
      Machine.stores (ecx + (shiftDisplacementWindow dst).1) rest := by
  have hsrc : Quiet (shiftSrc src) := .ite (fun _ _ => rfl) .nil
  rw [List.append_assoc, shiftDst]
  split
  · change Machine.stores _ (shiftSrc src ++ rest) = _
    exact hsrc _ _
  · rename_i hzero
    rw [not_not] at hzero
    rw [hzero, Int.add_zero]
    exact hsrc _ _

theorem stores_vector (vCL iteration : Nat) (dst src src' ecx : Int) (rest : List Ins) :
    Machine.stores ecx (shiftDst dst ++ shiftSrc src ++
        xUnpack sse4 b.usn src' b.aligned.toNat iteration b.upk ++
        b.xMovDest sse4 vCL (shiftDisplacementWindow dst).2 ++ rest) =
      (ecx + dst) :: Machine.stores (ecx + (shiftDisplacementWindow dst).1) rest := by
  have hshift := shiftDisplacementWindow_add dst
  rw [List.append_assoc, List.append_assoc, stores_shift, quiet_xUnpack, stores_xMovDest,
    Int.add_assoc, hshift]

variable {b}

theorem map_range_succ (f : Nat → Int) (n k : Nat) :
    (List.range (n + 1)).map (fun j => f (k + j)) =
      f k :: (List.range n).map fun j => f (k + 1 + j) := by
  rw [List.range_succ_eq_map, List.map_cons, List.map_map]
  congr 1
  apply List.map_congr_left
  intro j _
  exact congrArg f (by simp only [Nat.succ_eq_add_one]; omega)

theorem stores_compileLoop {rest : List Ins} (hrest : ∀ ecx, Machine.stores ecx rest = [])
    {vNum k vCL iteration : Nat} {dst src ecx total base : Int} (h : b.AtVector k vCL total)
    (hbase : ecx + dst = base + total) :
    Machine.stores ecx (b.compileLoop sse4 vNum vCL iteration dst src ++ rest) =
      (List.range vNum).map fun j => base + b.offset (k + j) := by
  induction vNum generalizing k vCL iteration dst src ecx total with
  | zero =>
    rw [compileLoop_zero]
    exact hrest ecx
  | succ n ih =>
    have hwrite {vCL iteration : Nat} {dst src ecx total : Int} (h : b.AtVector k vCL total)
        (hbase : ecx + dst = base + total) (hcycle : b.Writes vCL) :
        Machine.stores ecx (b.compileLoop sse4 (n + 1) vCL iteration dst src ++ rest) =
          (List.range (n + 1)).map fun j => base + b.offset (k + j) := by
      have hshift := shiftDisplacementWindow_add dst
      have hnext : ecx + (shiftDisplacementWindow dst).1 +
          ((shiftDisplacementWindow dst).2 + 16) = base + (total + 16) := by omega
      rw [compileLoop_write sse4 hcycle, List.append_assoc, stores_vector, hbase,
        (h.write hcycle).2, ih (h.next hcycle) hnext]
      exact (map_range_succ (fun i => base + b.offset i) n k).symm
    by_cases hcycle : b.Writes vCL
    · exact hwrite h hbase hcycle
    · have hshift := shiftDisplacementWindow_add dst
      have hfill := Bool.eq_false_iff.mpr (not_or.mp hcycle).2
      rw [compileLoop_skip sse4 hcycle, List.append_assoc, stores_shift]
      exact hwrite (h.skip hcycle) (by omega) (.inl (b.cycleSize_pos hfill))

theorem quiet_setMasks (b : Block) (cS : Nat) : Quiet (b.setMasks cS) := by
  refine (Quiet.ite (fun _ _ => rfl) .nil).append (Quiet.ite ?_ .nil)
  have hload (i : Fin 4) (imm : Nat) : Quiet [.pshufd (.col i) (.col 0) imm] := fun _ _ => rfl
  exact (((Quiet.append (fun _ _ => rfl) (.ite (hload _ _) .nil)).append
    (.ite (hload _ _) .nil)).append (.ite (hload _ _) .nil)).append (.ite (hload _ _) .nil)

theorem stores_compileRoutine (b : Block) (start : Int) :
    Machine.stores start (b.compileRoutine sse4) =
      (List.range b.vNum).map fun k => start + b.offset k := by
  have hback : ∀ ecx, Machine.stores ecx
      (if 2 ≤ b.doMode then [Ins.storeRow .row] else []) = [] := by
    intro ecx
    split <;> rfl
  rw [compileRoutine, List.append_assoc, quiet_setMasks,
    stores_compileLoop sse4 hback AtVector.zero rfl]
  simp only [Nat.zero_add]

end Block

end OmegaRed.Vif

/-! When the length that is computed for a block covers what its code stores. -/

namespace OmegaRed.Vif

namespace Block

variable {b : Block} {k : Nat}

/-- A skipping write of 256 vectors that does skip: its number of cycles is computed from the
`NUM` of 0. -/
def ShortLength (b : Block) : Prop := b.num = 0 ∧ b.wl ≠ 0 ∧ b.wl < b.cl

theorem isFill_of_wl (h : b.wl = 0) : b.isFill = true := by
  have hcl := b.cl.toNat_lt
  rw [isFill, wlCount, if_pos h]
  exact decide_eq_true hcl

theorem wlCount_of_ne (h : b.wl ≠ 0) : b.wlCount = b.wl.toNat := if_neg h

theorem offset_skip (h : b.isFill = false) (k : Nat) :
    b.offset k + 16 = 16 * (k + 1) + k / b.wlCount * ((b.cl.toNat - b.wlCount) * 16) := by
  have hwl := b.wl_le h
  have hk := Nat.div_add_mod' k b.wlCount
  obtain ⟨d, hd⟩ := Nat.exists_eq_add_of_le hwl
  rw [offset, h, hd, Nat.add_sub_cancel_left]
  simp only [Bool.false_eq_true, if_false]
  rw [Nat.mul_add (k / b.wlCount)]
  generalize k / b.wlCount = q at hk ⊢
  have hskip : q * (d * 16) = 16 * (q * d) := by ring
  omega

theorem length_fill (h : b.isFill = true) : b.length = 16 * b.vNum := by
  have hnum := b.num.toNat_lt
  rw [length, dVifComputeLength, h, vNum]
  by_cases hzero : b.num = 0
  · simp [hzero]
  · have hpos : 0 < b.num.toNat :=
      Nat.pos_of_ne_zero fun h => hzero (UInt8.toNat.inj h)
    simp only [hzero, hpos, if_true, if_false, Bool.not_true, Bool.false_eq_true]
    omega

theorem length_skip (h : b.isFill = false) : b.length =
    min ((16 * b.vNum + ((b.num.toNat + (b.wlCount - 1)) / b.wlCount + (2 ^ 32 - 1)) % 2 ^ 32 *
      ((b.cl.toNat - b.wlCount) * 16)) % 2 ^ 32) 0xffff := by
  have hwl : b.wl ≠ 0 := fun hzero => by rw [isFill_of_wl hzero] at h; cases h
  rw [length, dVifComputeLength, h, vNum, wlCount_of_ne hwl]
  by_cases hzero : b.num = 0
  · simp [hzero]
  · have hpos : 0 < b.num.toNat :=
      Nat.pos_of_ne_zero fun h => hzero (UInt8.toNat.inj h)
    simp only [hzero, hpos, if_true, if_false, Bool.not_false]
    rw [Nat.mul_comm b.num.toNat 16]

theorem length_of_num (h : b.isFill = false) (hnum : b.num ≠ 0) (hcap : b.length < 0xffff) :
    b.length = 16 * b.vNum + (b.vNum - 1) / b.wlCount * ((b.cl.toNat - b.wlCount) * 16) := by
  have hpos : 0 < b.num.toNat := Nat.pos_of_ne_zero fun h => hnum (UInt8.toNat.inj h)
  have hlt := b.num.toNat_lt
  have hcl := b.cl.toNat_lt
  have hvNum : b.vNum = b.num.toNat := if_neg hnum
  have hblocks : (b.num.toNat + (b.wlCount - 1)) / b.wlCount =
      (b.vNum - 1) / b.wlCount + 1 := by
    have hwl := b.wlCount_pos
    rw [← Nat.add_div_right _ hwl, hvNum]
    congr 1
    omega
  have hsmall : (b.vNum - 1) / b.wlCount ≤ 255 := by
    have := Nat.div_le_self (b.vNum - 1) b.wlCount
    omega
  have hmod : ((b.vNum - 1) / b.wlCount + 1 + (2 ^ 32 - 1)) % 2 ^ 32 =
      (b.vNum - 1) / b.wlCount := by
    generalize (b.vNum - 1) / b.wlCount = q at hsmall ⊢
    omega
  have hbound : (b.vNum - 1) / b.wlCount * ((b.cl.toNat - b.wlCount) * 16) ≤ 255 * (255 * 16) :=
    Nat.mul_le_mul hsmall (Nat.mul_le_mul_right 16 (by omega))
  rw [length_skip h, hblocks, hmod] at hcap ⊢
  rw [Nat.mod_eq_of_lt (by omega)] at hcap ⊢
  omega

/-- The computed length covers the vectors, unless it is past the end of VU memory anyway. -/
theorem offset_le_length (h : ¬ b.ShortLength) (hk : k < b.vNum) (hcap : b.length < 0xffff) :
    b.offset k + 16 ≤ b.length := by
  cases hfill : b.isFill with
  | true =>
    rw [length_fill hfill, offset, if_pos hfill]
    omega
  | false =>
    rw [offset_skip hfill]
    by_cases hnum : b.num = 0
    · -- nothing is skipped
      have hwl : b.wl ≠ 0 := fun hzero => by rw [isFill_of_wl hzero] at hfill; cases hfill
      have hle : ¬ b.wl < b.cl := fun hlt => h ⟨hnum, hwl, hlt⟩
      rw [UInt8.lt_iff_toNat_lt, ← wlCount_of_ne hwl] at hle
      have hskip : b.cl.toNat - b.wlCount = 0 := by omega
      have hvNum : b.vNum = 256 := if_pos hnum
      rw [length_skip hfill, hskip, hvNum]
      omega
    · rw [length_of_num hfill hnum hcap]
      have hdiv : k / b.wlCount ≤ (b.vNum - 1) / b.wlCount := Nat.div_le_div_right (by omega)
      have := Nat.mul_le_mul_right ((b.cl.toNat - b.wlCount) * 16) hdiv
      omega

theorem ShortLength.length (h : b.ShortLength) :
    b.length = 4096 - (b.cl.toNat - b.wlCount) * 16 ∧ b.wlCount < b.cl.toNat ∧
      b.isFill = false ∧ b.vNum = 256 := by
  obtain ⟨hnum, hwl, hlt⟩ := h
  have hcl := b.cl.toNat_lt
  have hpos := b.wlCount_pos
  rw [UInt8.lt_iff_toNat_lt, ← wlCount_of_ne hwl] at hlt
  have hfill : b.isFill = false := decide_eq_false (by omega)
  have hvNum : b.vNum = 256 := if_pos hnum
  have hblocks : (b.num.toNat + (b.wlCount - 1)) / b.wlCount = 0 := by
    rw [hnum]
    exact Nat.div_eq_of_lt (by simp; omega)
  have hskip : b.cl.toNat - b.wlCount < 256 := by omega
  refine ⟨?_, hlt, hfill, hvNum⟩
  have hwrap : (0 + (2 ^ 32 - 1)) % 2 ^ 32 = 4294967295 := by decide
  rw [length_skip hfill, hblocks, hvNum, hwrap]
  generalize b.cl.toNat - b.wlCount = x at *
  have hsum : 16 * 256 + 4294967295 * (x * 16) = 2 ^ 32 * (x * 16) + (4096 - x * 16) := by omega
  rw [hsum, Nat.mul_add_mod, Nat.mod_eq_of_lt (by omega)]
  omega

end Block

/-- Any multiple of 16 below the end of VU memory is where some `tag.addr` starts. -/
theorem startmem_mul (idx : Bool) {y : Nat} (h : 16 * y < vuMemLimit idx) :
    startmem idx (.ofNat (16 * y)) = 16 * y := by
  have hlimit : vuMemLimit idx - 0x10 = (2 ^ (if idx then 10 else 8) - 1) <<< 4 := by
    cases idx <;> decide
  have hy : y < 2 ^ (if idx then 10 else 8) := by
    cases idx <;> simp [vuMemLimit] at h ⊢ <;> omega
  have hlt : 16 * y < 2 ^ 32 := by
    cases idx <;> simp [vuMemLimit] at h <;> omega
  have hshift : 16 * y = y <<< 4 := by
    rw [Nat.shiftLeft_eq, Nat.mul_comm]
  rw [startmem, UInt32.toNat_ofNat', Nat.mod_eq_of_lt hlt, hlimit, hshift,
    ← Nat.shiftLeft_and_distrib, Nat.and_two_pow_sub_one_eq_mod, Nat.mod_eq_of_lt hy]

/-- Whenever the block is run, its stores are below the end of VU memory exactly for the blocks
whose length is not short. -/
theorem stores_below_iff (sse4 : Bool) (b : Block) (idx : Bool) :
    (∀ tagAddr, b.fast idx tagAddr →
      ∀ a, a ∈ Machine.stores (startmem idx tagAddr) (b.compileRoutine sse4) →
        a + 16 ≤ vuMemLimit idx) ↔ ¬ b.ShortLength := by
  simp only [Block.stores_compileRoutine, List.mem_map, List.mem_range]
  constructor
  · intro hall hshort
    obtain ⟨hlength, hlt, hfill, hvNum⟩ := hshort.length
    have hcl := b.cl.toNat_lt
    have hpos := b.wlCount_pos
    have hlimit : vuMemLimit idx = 16 * (vuMemLimit idx / 16) ∧ 4096 ≤ vuMemLimit idx := by
      cases idx <;> decide
    -- the block ends, by its length, at the end of memory
    have hstart := startmem_mul idx
      (y := vuMemLimit idx / 16 - 256 + (b.cl.toNat - b.wlCount)) (by omega)
    have hlast := Block.offset_skip hfill 255
    have hbelow := hall (.ofNat (16 * (vuMemLimit idx / 16 - 256 + (b.cl.toNat - b.wlCount))))
      (by rw [Block.fast, hstart]; omega) _ ⟨255, by omega, rfl⟩
    rw [hstart] at hbelow
    omega
  · rintro hshort tagAddr hfast a ⟨k, hk, rfl⟩
    have hcap : b.length < 0xffff := by
      have : vuMemLimit idx ≤ 0x4000 := by cases idx <;> decide
      rw [Block.fast] at hfast
      omega
    have := Block.offset_le_length hshort hk hcap
    rw [Block.fast] at hfast
    omega

/-- With `CL` 2, `WL` 1 and `NUM` 0 a block at the end of VU memory stores behind it. -/
theorem not_stores_below :
    ¬ ∀ tagAddr, (Block.mk 0 .v4_32 false true 0 0 0 2 1).fast true tagAddr →
      ∀ a, a ∈ Machine.stores (startmem true tagAddr)
          ((Block.mk 0 .v4_32 false true 0 0 0 2 1).compileRoutine true) →
        a + 16 ≤ vuMemLimit true := by
  intro hall
  have hfast : (Block.mk 0 .v4_32 false true 0 0 0 2 1).fast true 0x3010 := by
    rw [Block.fast]
    decide
  have hbelow := hall 0x3010 hfast
  rw [Block.stores_compileRoutine] at hbelow
  have hstore := hbelow _ (List.mem_map.mpr ⟨255, by decide, rfl⟩)
  revert hstore
  decide

end OmegaRed.Vif
