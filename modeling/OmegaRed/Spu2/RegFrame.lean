import OmegaRed.Spu2.RegNames

/-! What a register write reaches. -/

namespace OmegaRed.Spu2.Registers

/-- The register whose handlers the second core has in its write table. -/
def wired (core : Fin 2) (r : RevbAddr) : RevbAddr :=
  if core = 0 then r
  else match r with
    | .DIFF_L_SRC => .DIFF_R_SRC
    | .DIFF_R_SRC => .DIFF_L_SRC
    | r => r

namespace Name

/-- The handler of a register. -/
def handler : Name → Handler
  | VoiceParam core voice param => .VoiceParams core voice param
  | VoiceAddr core voice address => .VoiceAddr core voice address
  | Core core (.R r) false => .Reverb core (wired core r)
  | Core core (.R r) true => .Core core (.R (wired core r)) true
  | Core _ .REG_A_EEA true => .Null
  | Core core reg second => .Core core reg second
  | Ext core reg => .CoreExt core reg
  | Spdif .Out => .SPDIF .SPDIF_OUT
  | Spdif .Info => .SPDIF .SPDIF_IRQINFO
  | Spdif .Mode => .SPDIF .SPDIF_MODE
  | Spdif .Media => .SPDIF .SPDIF_MEDIA
  | Spdif .Protection => .SPDIF .SPDIF_PROTECT
  | Spdif f => .Raw f.mem
  | Unknown i => .Raw i

/-- The variable that a register is read from, if it has one. -/
def ptr : Name → Option U16P
  | VoiceParam core voice param => PCORE core (.Voices voice
      (match param with
        | 0 => .Volume .Left .Reg_VOL
        | 1 => .Volume .Right .Reg_VOL
        | 2 => .Pitch
        | 3 => .regADSR1
        | 4 => .regADSR2
        | 5 => .ADSRValue
        | 6 => .Volume .Left .Value
        | 7 => .Volume .Right .Value)) (if param < 5 then .lo else .hi)
  | VoiceAddr core voice address => PCORE core (.Voices voice
      (match address with
        | 0 | 1 => .StartA
        | 2 | 3 => .LoopStartA
        | 4 | 5 => .NextA)) (if address.val % 2 = 0 then .hi else .lo)
  | Core core reg second =>
    let half : Half := if second then .hi else .lo
    let swapped : Half := if second then .lo else .hi
    match reg with
    | .REG_S_PMON => PCORE core (.Regs .PMON) half
    | .REG_S_NON => PCORE core (.Regs .NON) half
    | .REG_S_VMIXL => PCORE core (.Regs .VMIXL) half
    | .REG_S_VMIXEL => PCORE core (.Regs .VMIXEL) half
    | .REG_S_VMIXR => PCORE core (.Regs .VMIXR) half
    | .REG_S_VMIXER => PCORE core (.Regs .VMIXER) half
    | .REG_P_MMIX => PCORE core (.Regs .MMIX)
    | .REG_C_ATTR => PCORE core (.Regs .ATTR)
    | .REG_A_IRQA => PCORE core .IRQA swapped
    | .REG_S_KON | .REG_S_KOFF | .REG__1AC => none
    | .REG_A_TSA => PCORE core .TSA swapped
    | .REG_S_ADMAS => PCORE core .AutoDMACtrl
    | .REG_A_ESA => PCORE core .ExtEffectsStartA swapped
    | .R r => PCORE core (.Revb r) swapped
    | .REG_A_EEA => PCORE core .ExtEffectsEndA swapped
    | .REG_S_ENDX => PCORE core (.Regs .ENDX) half
    | .REG_P_STATX => PCORE core (.Regs .STATX)
  | Ext core reg =>
    match reg with
    | .REG_P_MVOL side => PCORE core (.MasterVol side .Reg_VOL)
    | .REG_P_EVOL side => PCORE core (.FxVol side) .hi
    | .REG_P_AVOL side => PCORE core (.ExtVol side) .hi
    | .REG_P_BVOL side => PCORE core (.InpVol side) .hi
    | .REG_P_MVOLX side => PCORE core (.MasterVol side .Value) .hi
    | .R r => PCORE core (.RevbVols r)
  | Spdif f => some ⟨.Spdif f, .lo⟩
  | Unknown _ => none

end Name

theorem tbl_reg_writes_eq :
    tbl_reg_writes = (List.range 0x400).map fun i => (regName (2 * i)).handler := by
  decide +kernel

theorem regtable_original_eq :
    regtable_original = (List.range 0x400).map fun i => (regName (2 * i)).ptr := by
  decide +kernel

theorem regName_addr_all :
    (List.range 0x400).all (fun i => (regName (2 * i)).addr == 2 * i) = true := by
  decide +kernel

theorem regName_addr {i : Nat} (h : i < 0x400) : (regName (2 * i)).addr = 2 * i := by
  have hall := List.all_eq_true.1 regName_addr_all i (List.mem_range.2 h)
  exact eq_of_beq hall

theorem regName_inj {i j : Nat} (hi : i < 0x400) (hj : j < 0x400)
    (h : regName (2 * i) = regName (2 * j)) : i = j := by
  have haddr := regName_addr hi
  rw [h, regName_addr hj] at haddr
  omega

theorem regtable_eq {i : Nat} (h : i < 0x400) :
    regtable i = (regName (2 * i)).ptr.getD ⟨.spu2regs i, .lo⟩ := by
  rw [regtable, regtable_original_eq, List.getElem?_map, List.getElem?_range h]
  rfl

theorem fastWrite_eq (s : State) {rmem : Nat} (h : rmem < 0x800) (value : BitVec 16) :
    SPU2_FastWrite s rmem value = (regName (2 * (rmem / 2))).handler.write s value := by
  have hi : rmem % 0x800 / 2 = rmem / 2 := by rw [Nat.mod_eq_of_lt h]
  rw [SPU2_FastWrite, hi, tbl_reg_writes_eq, List.getElem?_map,
    List.getElem?_range (Nat.div_lt_of_lt_mul h)]
  rfl

theorem getLsbD_append (x y : BitVec 16) (i : Nat) :
    (x ++ y : BitVec 32).getLsbD i = if i < 16 then y.getLsbD i else x.getLsbD (i - 16) :=
  BitVec.getLsbD_append

theorem Half.get_put (h h' : Half) (src : BitVec 32) (value : BitVec 16) :
    h.get (h'.put src value) = if h = h' then value else h.get src := by
  apply BitVec.eq_of_getLsbD_eq
  intro i hi
  cases h <;> cases h' <;> simp only [get, put, reduceCtorEq, if_true, if_false,
    BitVec.getLsbD_extractLsb', getLsbD_append, hi, decide_true, Bool.true_and, Nat.zero_add,
    Nat.add_sub_cancel_left, Nat.not_lt.2 (Nat.le_add_right 16 i)]

variable {s : State} {c : Cell} {h : Half} {value : BitVec 16}

theorem State.set_of_ne {c' : Cell} (v : BitVec 32) (hne : c ≠ c') : s.set c' v c = s c :=
  by
  rw [set, Function.update_of_ne hne]

theorem State.assign_of_none {f : Cell → Option (BitVec 32)} (hf : f c = none) :
    s.assign f c = s c := by
  rw [assign, hf]
  rfl

theorem U16P.get_write (p : U16P) (hne : ¬ (c = p.cell ∧ h = p.half)) :
    h.get (p.write s value c) = h.get (s c) := by
  rw [write]
  by_cases hc : c = p.cell
  · subst hc
    rw [State.set, Function.update_self, Half.get_put, if_neg fun hh => hne ⟨rfl, hh⟩]
  · rw [State.set_of_ne _ hc]

theorem voiceParams_frame {core : Fin 2} {voice : Fin 24} {param : Fin 8}
    (hown : ¬ (Name.VoiceParam core voice param).owns c h) :
    RegWrite_VoiceParams core voice param s value c = s c := by
  unfold RegWrite_VoiceParams
  simp only [Name.owns, not_exists, not_and] at hown
  split
  · apply State.assign_of_none
    split
    · rename_i d v f
      refine if_neg fun heq => ?_
      obtain ⟨rfl, rfl⟩ := heq
      exact hown _ rfl ⟨f, rfl⟩
    · rfl
  · apply State.assign_of_none
    split
    · rename_i d v f
      refine if_neg fun heq => ?_
      obtain ⟨rfl, rfl⟩ := heq
      exact hown _ rfl ⟨f, rfl⟩
    · rfl
  all_goals first
    | rfl
    | exact State.set_of_ne _ fun heq => hown _ heq rfl

theorem Half.get_and (h : Half) (x y : BitVec 32) : h.get (x &&& y) = h.get x &&& h.get y := by
  cases h <;> exact BitVec.extractLsb'_and

theorem Half.get_or (h : Half) (x y : BitVec 32) : h.get (x ||| y) = h.get x ||| h.get y := by
  cases h <;> exact BitVec.extractLsb'_or

theorem Half.get_ext {x y : BitVec 32} (hget : ∀ h : Half, h.get x = h.get y) : x = y := by
  have hsplit (x : BitVec 32) : x = Half.hi.get x ++ Half.lo.get x := by
    apply BitVec.eq_of_getLsbD_eq
    intro i hi
    rw [getLsbD_append]
    simp only [get, BitVec.getLsbD_extractLsb', Nat.zero_add]
    split
    · rename_i hlt
      simp [hlt]
    · rename_i hge
      rw [show 16 + (i - 16) = i by omega, decide_eq_true (by omega : i - 16 < 16), Bool.true_and]
  rw [hsplit x, hsplit y, hget .hi, hget .lo]

theorem Name.Keeps.of_halves {n : Name} {t : State}
    (hframe : ∀ c h, ¬ n.owns c h → h.get (t c) = h.get (s c)) : n.Keeps s t where
  other c hown := Half.get_ext fun h => hframe c h (hown h)
  half c h hown := by rw [Half.get_and, Half.get_and, hframe c h hown]

end OmegaRed.Spu2.Registers

/-! What the write of a register changes belongs to it. -/

namespace OmegaRed.Spu2.Registers

variable {s : State} {c : Cell} {h : Half} {value : BitVec 16} {core : Fin 2}

theorem voiceBits_frame {reg : CoreRegs} {f : VoiceCell} {first : Nat} {half : Half}
    (hown : ∀ g, c = .Cores core g → ¬ bitsOwn reg (fun v g => g = .Voices v f) half h g) :
    h.get (voiceBits core reg f first half s value c) = h.get (s c) := by
  have hvoice (v : Fin 24) (hv : half.has v) : c ≠ .Cores core (.Voices v f) := fun heq =>
    hown _ heq (.inr ⟨v, hv, rfl⟩)
  unfold voiceBits
  by_cases hreg : c = .Cores core (.Regs reg)
  · have hhalf : ¬ h = half := fun heq => hown _ hreg (.inl ⟨rfl, heq⟩)
    rw [hreg, State.set, Function.update_self, Half.get_put, if_neg hhalf]
  · rw [State.set_of_ne _ hreg, State.assign_of_none]
    split
    · rename_i d v g
      refine if_neg fun heq => ?_
      obtain ⟨rfl, rfl, hv, -⟩ := heq
      exact hvoice v hv rfl
    · rfl

theorem vx_SetSomeBits_frame {reg : CoreRegs} {g : VoiceGate} {half : Half}
    (hown : ∀ f, c = .Cores core f → ¬ bitsOwn reg (fun v f => f = .VoiceGates v g) half h f) :
    h.get (vx_SetSomeBits core reg g half s value c) = h.get (s c) := by
  have hset : h.get (s.set (.Cores core (.Regs reg))
      (half.put (s (.Cores core (.Regs reg))) value) c) = h.get (s c) := by
    apply U16P.get_write ⟨.Cores core (.Regs reg), half⟩
    rintro ⟨rfl, rfl⟩
    exact hown _ rfl (.inl ⟨rfl, rfl⟩)
  unfold vx_SetSomeBits
  split
  · exact hset
  · rw [State.assign_of_none, hset]
    split
    · rename_i d v f
      refine if_neg fun heq => ?_
      obtain ⟨rfl, rfl, hv⟩ := heq
      exact hown _ rfl (.inr ⟨v, hv, rfl⟩)
    · rfl

theorem writeMMIX_frame (hown : ¬ (Name.Core core .REG_P_MMIX false).owns c h) :
    writeMMIX core s value c = s c := by
  unfold writeMMIX
  apply State.assign_of_none
  simp only [Name.owns, CoreReg.owns, CoreReg.ownsOutside, or_false, not_exists, not_and,
    not_or] at hown
  split
  · rename_i d f
    split
    · rename_i heq
      subst heq
      obtain ⟨hreg, hgates⟩ := hown f rfl
      split <;> first
        | rfl
        | exact absurd rfl hreg
        | exact absurd rfl (hgates _).1
        | exact absurd rfl (hgates _).2
    · rfl
  · rfl

theorem writeATTR_frame (hown : ¬ (Name.Core core .REG_C_ATTR false).owns c h) :
    writeATTR core s value c = s c := by
  unfold writeATTR
  apply State.assign_of_none
  simp only [Name.owns, CoreReg.owns, areaOwns, CoreReg.ownsOutside, not_exists, not_and,
    not_or] at hown
  obtain ⟨hcore, hinfo⟩ := hown
  split
  · rename_i d f
    split
    · rename_i heq
      subst heq
      have hf := hcore f rfl
      split <;> first | rfl | (exfalso; simp at hf)
    · rfl
  · exact absurd rfl hinfo
  · rfl

/-- A word at the bits of its half. -/
def Half.wide (half : Half) (value : BitVec 16) : BitVec 32 :=
  match half with
  | lo => value.setWidth 32
  | hi => value.setWidth 32 <<< 16

theorem Half.getLsbD_wide (half : Half) (value : BitVec 16) (i : Nat) :
    (half.wide value).getLsbD i = (decide (half.start ≤ i) && value.getLsbD (i - half.start)) := by
  cases half with
  | lo =>
    simp only [wide, start, BitVec.getLsbD_setWidth, Nat.zero_le, decide_true, Nat.sub_zero,
      Bool.true_and]
    by_cases hi : i < 32
    · rw [decide_eq_true hi, Bool.true_and]
    · rw [BitVec.getLsbD_of_ge _ _ (by omega), Bool.and_false]
  | hi =>
    simp only [wide, start, BitVec.getLsbD_shiftLeft, BitVec.getLsbD_setWidth]
    by_cases hi : 16 ≤ i
    · by_cases hlt : i < 32
      · simp [hi, hlt, Nat.not_lt.2 hi]
        omega
      · rw [BitVec.getLsbD_of_ge value _ (by omega)]
        simp
    · simp [hi, Nat.lt_of_not_le hi]

theorem bit_ne_zero {x : BitVec 32} {v : Nat} : bit x v ≠ 0 ↔ x.getLsbD v = true := by
  rw [bit, show (1 : BitVec 32) = 1#32 from rfl, BitVec.and_one_eq_setWidth_ofBool_getLsbD,
    BitVec.getLsbD_ushiftRight, Nat.add_zero]
  cases x.getLsbD v <;> decide

theorem Half.has_of_bit {half : Half} {v : Fin 24} (hbit : bit (half.wide value) v ≠ 0) :
    half.has v := by
  rw [bit_ne_zero, getLsbD_wide, Bool.and_eq_true, decide_eq_true_eq] at hbit
  refine ⟨hbit.1, ?_⟩
  cases half with
  | lo =>
    refine Nat.lt_of_not_le fun hle => ?_
    have hout : value.getLsbD (v - 0) = false := BitVec.getLsbD_of_ge _ _ hle
    exact absurd (hbit.2.symm.trans hout) (by decide)
  | hi => exact v.isLt

theorem Half.get_of_wide {half : Half} (hne : h ≠ half) (x : BitVec 32) :
    h.get (x &&& ~~~half.wide value) = h.get x ∧ h.get (x ||| half.wide value) = h.get x := by
  have hzero (i : Nat) (hi : i < 16) : (half.wide value).getLsbD (h.start + i) = false := by
    rw [getLsbD_wide]
    cases h <;> cases half <;> simp_all [start]
  have hget (x : BitVec 32) (i : Nat) (hi : i < 16) :
      (h.get x).getLsbD i = x.getLsbD (h.start + i) := by
    cases h <;> simp [get, start, hi]
  constructor
  all_goals
    apply BitVec.eq_of_getLsbD_eq
    intro i hi
    have hlt : h.start + i < 32 := by cases h <;> simp [start] <;> omega
    rw [hget _ _ hi, hget _ _ hi]
    simp only [BitVec.getLsbD_and, BitVec.getLsbD_or, BitVec.getLsbD_not, hzero i hi, hlt,
      decide_true, Bool.not_false, Bool.and_true, Bool.or_false]

theorem startVoices_frame {half : Half}
    (hown : ∀ f, c = .Cores core f → ¬ (((f = .Regs .ENDX ∨ f = .KeyOn) ∧ h = half) ∨
      ∃ v, half.has v ∧ f = .Voices v .PlayCycle)) :
    h.get (StartVoices core s (half.wide value) c) = h.get (s c) := by
  unfold StartVoices
  split
  · rfl
  · rw [State.assign_of_none]
    · by_cases hkey : c = .Cores core .KeyOn
      · have hne : h ≠ half := fun heq => hown _ hkey (.inl ⟨.inr rfl, heq⟩)
        rw [hkey, State.set, Function.update_self]
        exact (Half.get_of_wide hne _).2
      · rw [State.set_of_ne _ hkey]
        by_cases hend : c = .Cores core (.Regs .ENDX)
        · have hne : h ≠ half := fun heq => hown _ hend (.inl ⟨.inl rfl, heq⟩)
          rw [hend, State.set, Function.update_self]
          exact (Half.get_of_wide hne _).1
        · rw [State.set_of_ne _ hend]
    · split
      · rename_i d v
        refine if_neg fun heq => ?_
        obtain ⟨rfl, hbit, -⟩ := heq
        exact hown _ rfl (.inr ⟨v, Half.has_of_bit hbit, rfl⟩)
      · rfl

theorem stopVoices_frame {half : Half}
    (hown : ∀ f, c = .Cores core f → ¬ ∃ v, half.has v ∧ f = .Voices v .Releasing) :
    StopVoices core s (half.wide value) c = s c := by
  apply State.assign_of_none
  split
  · rename_i d v
    refine if_neg fun heq => ?_
    obtain ⟨rfl, hbit⟩ := heq
    exact hown _ rfl ⟨v, Half.has_of_bit hbit, rfl⟩
  · rfl

theorem updateArea_frame {inner ext : CoreCell} (hinner : c ≠ .Cores core inner)
    (hX : c ≠ .Cores core .ReverbX) (hupdate : c ≠ .Cores core .NeedsUpdated) :
    updateArea core inner ext s c = s c := by
  unfold updateArea
  split
  · rw [State.set_of_ne _ hupdate, State.set_of_ne _ hX, State.set_of_ne _ hinner]
  · rfl

theorem setIrqCall_frame (hinfo : c ≠ .Spdif .Info) (hcall : c ≠ .has_to_call_irq) :
    SetIrqCall s core c = s c := by
  unfold SetIrqCall
  split
  · rfl
  · rw [State.set_of_ne _ hcall, State.set_of_ne _ hinfo]

theorem dmaWrite_frame (hTSA : c ≠ .Cores core .TSA) (hmem : ∀ a, c ≠ .spu2mem a)
    (hvalid : ∀ b, c ≠ .Validated b) : DmaWrite core s value c = s c := by
  unfold DmaWrite spu2M_Write
  rw [State.set_of_ne _ hTSA]
  rw [State.set_of_ne _ (hmem _)]
  split
  · rw [State.set_of_ne _ (hvalid _)]
  · rfl

theorem writeADMAS_frame (hswitch : value ≠ 32767) (hctrl : c ≠ .Cores core .AutoDMACtrl)
    (hadma : c ≠ .Cores core .AdmaInProgress) : writeADMAS core s value c = s c := by
  unfold writeADMAS
  rw [if_neg hswitch]
  split
  · rw [State.set_of_ne _ hadma, State.set_of_ne _ hctrl]
  · rw [State.set_of_ne _ hctrl]

end OmegaRed.Spu2.Registers
