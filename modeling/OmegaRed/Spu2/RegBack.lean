import Mathlib.Data.Fintype.Basic
import Mathlib.Tactic.FinCases
import OmegaRed.Spu2.RegKeeps

/-! Registers are read as they were written. -/

namespace OmegaRed.Spu2.Registers

/-- `SPU2read`, below `0x800` -/
def SPU2read (s : State) (rmem : Nat) : BitVec 16 := (regtable (rmem / 2)).read s

/-- The registers of plain parameters: those that keep all bits of a word and that nothing but a
write changes. -/
def Name.plain : Name → Bool
  | VoiceParam _ _ param => param.val ≠ 2 && param.val < 5
  | VoiceAddr .. => false
  | Core _ reg second =>
    match reg with
    | .REG_C_ATTR | .REG_A_TSA | .REG_S_ENDX | .REG_P_STATX => false
    | .REG__1AC => second
    | .REG_A_EEA => !second
    | _ => true
  | Ext _ (.REG_P_MVOLX _) => false
  | Ext _ _ => true
  | Spdif f => f ≠ .Info
  | Unknown _ => true

/-- The variable that a register is read from. -/
def Name.place (n : Name) : U16P := n.ptr.getD ⟨.spu2regs (n.addr / 2), .lo⟩

/-- The plain register that half a variable belongs to. -/
def home : Cell → Half → Option Name
  | .Cores k f, h =>
    match f with
    | .Voices v (.Volume .Left .Reg_VOL) => some (.VoiceParam k v 0)
    | .Voices v (.Volume .Right .Reg_VOL) => some (.VoiceParam k v 1)
    | .Voices v .regADSR1 => some (.VoiceParam k v 3)
    | .Voices v .regADSR2 => some (.VoiceParam k v 4)
    | .Regs .PMON => some (.Core k .REG_S_PMON (h = .hi))
    | .Regs .NON => some (.Core k .REG_S_NON (h = .hi))
    | .Regs .VMIXL => some (.Core k .REG_S_VMIXL (h = .hi))
    | .Regs .VMIXEL => some (.Core k .REG_S_VMIXEL (h = .hi))
    | .Regs .VMIXR => some (.Core k .REG_S_VMIXR (h = .hi))
    | .Regs .VMIXER => some (.Core k .REG_S_VMIXER (h = .hi))
    | .Regs .MMIX => some (.Core k .REG_P_MMIX false)
    | .IRQA => some (.Core k .REG_A_IRQA (h = .lo))
    | .AutoDMACtrl => some (.Core k .REG_S_ADMAS false)
    | .ExtEffectsStartA => some (.Core k .REG_A_ESA (h = .lo))
    | .Revb r => some (.Core k (.R r) (h = .lo))
    | .ExtEffectsEndA => if h = .hi then some (.Core k .REG_A_EEA false) else none
    | .MasterVol side .Reg_VOL => some (.Ext k (.REG_P_MVOL side))
    | .FxVol side => some (.Ext k (.REG_P_EVOL side))
    | .ExtVol side => some (.Ext k (.REG_P_AVOL side))
    | .InpVol side => some (.Ext k (.REG_P_BVOL side))
    | .RevbVols r => some (.Ext k (.R r))
    | _ => none
  | .Spdif .Info, _ => none
  | .Spdif f, _ => some (.Spdif f)
  | .spu2regs i, _ => some (regName (2 * i))
  | _, _ => none

variable {s : State} {c : Cell} {h : Half} {value : BitVec 16} {core : Fin 2} {i : Nat} {n m : Name}

theorem home_place (hi : i < 0x400) (hname : regName (2 * i) = n) (hplain : n.plain = true) :
    home n.place.cell n.place.half = some n := by
  have haddr : n.addr / 2 = i := by
    rw [← hname, regName_addr hi]
    exact Nat.mul_div_cancel_left i (by decide)
  have hraw : home (.spu2regs (n.addr / 2)) .lo = some n := by
    rw [haddr, ← hname]
    rfl
  cases n with
  | VoiceParam core voice param =>
    fin_cases param <;> first | rfl | exact absurd hplain Bool.false_ne_true
  | VoiceAddr core voice address => exact absurd hplain Bool.false_ne_true
  | Core core reg second =>
    have hsingle := fun h2 : second = true => regName_single hi (h2 ▸ hname)
    cases reg <;> cases second <;> first
      | rfl
      | exact hraw
      | exact absurd hplain Bool.false_ne_true
      | exact absurd (hsingle rfl) (by decide)
  | Ext core reg => cases reg <;> first | rfl | exact absurd hplain Bool.false_ne_true
  | Spdif f => cases f <;> first | rfl | exact absurd hplain Bool.false_ne_true
  | Unknown a => exact hraw

theorem paramOwns_home {voice : Fin 24} {param : Fin 8} {f : VoiceCell}
    (hown : paramOwns param f) (hhome : home (.Cores core (.Voices voice f)) h = some m) :
    Name.VoiceParam core voice param = m := by
  fin_cases param
  · obtain ⟨g, rfl⟩ := hown
    cases g <;> first | exact Option.some.inj hhome | cases hhome
  · obtain ⟨g, rfl⟩ := hown
    cases g <;> first | exact Option.some.inj hhome | cases hhome
  all_goals
    obtain rfl : f = _ := hown
    first | exact Option.some.inj hhome | cases hhome

theorem addressOwns_home {voice : Fin 24} {address : Fin 6} {f : VoiceCell}
    (hown : addressOwns address f h) : home (.Cores core (.Voices voice f)) h = none := by
  fin_cases address
  · obtain ⟨rfl, -⟩ := hown
    rfl
  · obtain ⟨rfl, -⟩ := hown
    rfl
  · rcases hown with ⟨rfl, -⟩ | rfl <;> rfl
  · rcases hown with ⟨rfl, -⟩ | rfl <;> rfl
  · obtain ⟨rfl, -⟩ := hown
    rfl
  · obtain ⟨rfl, -⟩ := hown
    rfl

theorem bitsOwn_home (reg : CoreRegs) (g : Fin 24 → CoreCell) (second : Bool) {f : CoreCell}
    (hreg : home (.Cores core (.Regs reg)) (if second then .hi else .lo) = some n)
    (hvoice : ∀ v, home (.Cores core (g v)) h = none)
    (hown : bitsOwn reg (fun v f => f = g v) (if second then .hi else .lo) h f)
    (hhome : home (.Cores core f) h = some m) : n = m := by
  rcases hown with ⟨rfl, rfl⟩ | ⟨v, -, rfl⟩
  · exact Option.some.inj (hreg.symm.trans hhome)
  · exact absurd ((hvoice v).symm.trans hhome) (by simp)

theorem core_home {reg : CoreReg} {second : Bool} {f : CoreCell}
    (hsingle : second = true → reg.single = false) (hown : reg.owns second f h)
    (hhome : home (.Cores core f) h = some m) : Name.Core core reg second = m := by
  cases reg with
  | REG_S_PMON =>
    refine bitsOwn_home .PMON (.Voices · .Modulated) second ?_ (fun v => rfl) hown hhome
    cases second <;> rfl
  | REG_S_NON =>
    refine bitsOwn_home .NON (.Voices · .Noise) second ?_ (fun v => rfl) hown hhome
    cases second <;> rfl
  | REG_S_VMIXL =>
    refine bitsOwn_home .VMIXL (.VoiceGates · .DryL) second ?_ (fun v => rfl) hown hhome
    cases second <;> rfl
  | REG_S_VMIXEL =>
    refine bitsOwn_home .VMIXEL (.VoiceGates · .WetL) second ?_ (fun v => rfl) hown hhome
    cases second <;> rfl
  | REG_S_VMIXR =>
    refine bitsOwn_home .VMIXR (.VoiceGates · .DryR) second ?_ (fun v => rfl) hown hhome
    cases second <;> rfl
  | REG_S_VMIXER =>
    refine bitsOwn_home .VMIXER (.VoiceGates · .WetR) second ?_ (fun v => rfl) hown hhome
    cases second <;> rfl
  | REG_P_MMIX =>
    cases second with
    | false =>
      rcases hown with rfl | ⟨g, rfl | rfl⟩
      · exact Option.some.inj hhome
      · cases hhome
      · cases hhome
    | true => exact absurd (hsingle rfl) (by decide)
  | REG_C_ATTR =>
    rcases hown with rfl | rfl | rfl | rfl | rfl | rfl | rfl | rfl | rfl | harea | harea
    all_goals first | cases hhome | rcases harea with rfl | rfl | rfl <;> cases hhome
  | REG_A_IRQA =>
    obtain ⟨rfl, rfl⟩ := hown
    cases second <;> exact Option.some.inj hhome
  | REG_S_KON =>
    rcases hown with ⟨rfl | rfl, -⟩ | ⟨v, -, rfl⟩
    all_goals cases hhome
  | REG_S_KOFF =>
    obtain ⟨v, -, rfl⟩ := hown
    cases hhome
  | REG_A_TSA =>
    obtain ⟨rfl, -⟩ := hown
    cases hhome
  | REG__1AC =>
    obtain ⟨-, rfl⟩ := hown
    cases hhome
  | REG_S_ADMAS =>
    cases second with
    | false =>
      rcases hown with rfl | rfl
      · exact Option.some.inj hhome
      · cases hhome
    | true => exact absurd (hsingle rfl) (by decide)
  | REG_A_ESA =>
    rcases hown with ⟨rfl, rfl⟩ | rfl | rfl | rfl
    · cases second <;> exact Option.some.inj hhome
    all_goals cases hhome
  | R r =>
    obtain ⟨rfl, rfl⟩ := hown
    cases second <;> exact Option.some.inj hhome
  | REG_A_EEA =>
    rcases hown with ⟨rfl, hlow⟩ | rfl | rfl | rfl
    · cases h with
      | lo => cases hhome
      | hi =>
        cases second with
        | false => exact Option.some.inj hhome
        | true => exact absurd (hlow rfl) (by decide)
    all_goals cases hhome
  | REG_S_ENDX =>
    obtain ⟨rfl, -⟩ := hown
    cases hhome
  | REG_P_STATX =>
    obtain rfl : f = _ := hown
    cases hhome

theorem owner_unique (hi : i < 0x400) (hname : regName (2 * i) = n) (hown : n.owns c h)
    (hhome : home c h = some m) : n = m := by
  have hraw {a : Nat} (ha : a = n.addr) (hc : c = .spu2regs (a / 2)) : n = m := by
    have haddr : a / 2 = i := by
      rw [ha, ← hname, regName_addr hi]
      exact Nat.mul_div_cancel_left i (by decide)
    rw [hc, haddr] at hhome
    exact hname.symm.trans (Option.some.inj hhome)
  cases n with
  | VoiceParam core voice param =>
    obtain ⟨f, rfl, hf⟩ := hown
    exact paramOwns_home hf hhome
  | VoiceAddr core voice address =>
    obtain ⟨f, rfl, hf⟩ := hown
    exact absurd ((addressOwns_home hf).symm.trans hhome) (by simp)
  | Core core reg second =>
    rcases hown with ⟨f, rfl, hf⟩ | hout
    · exact core_home (fun h2 => regName_single hi (h2 ▸ hname)) hf hhome
    · cases reg with
      | REG_S_KON => exact hraw rfl hout
      | REG_S_KOFF => exact hraw rfl hout
      | REG__1AC =>
        cases second with
        | false =>
          rcases hout with rfl | rfl | ⟨a, rfl⟩ | ⟨b, rfl⟩
          all_goals cases hhome
        | true => exact hraw rfl hout
      | REG_C_ATTR =>
        obtain rfl : c = _ := hout
        cases hhome
      | _ => exact hout.elim
  | Ext core reg =>
    obtain ⟨f, rfl, hf⟩ := hown
    cases reg with
    | REG_P_MVOL side =>
      obtain ⟨g, rfl⟩ := hf
      cases g <;> first | exact Option.some.inj hhome | cases hhome
    | _ =>
      obtain rfl : f = _ := hf
      first | exact Option.some.inj hhome | cases hhome
  | Spdif f =>
    rcases hown with rfl | rfl
    · cases f <;> first | exact Option.some.inj hhome | cases hhome
    · cases hhome
  | Unknown a => exact hraw rfl hown

theorem Half.lo_get_setWidth (value : BitVec 16) : lo.get (value.setWidth 32) = value := by
  apply BitVec.eq_of_getLsbD_eq
  intro i hi
  simp [get, hi, Nat.lt_trans hi (by decide : 16 < 32)]

theorem Half.hi_get_append (x y : BitVec 16) : hi.get (x ++ y : BitVec 32) = x := by
  apply BitVec.eq_of_getLsbD_eq
  intro i hi
  simp only [get, BitVec.getLsbD_extractLsb', getLsbD_append, hi, decide_true, Bool.true_and,
    Nat.not_lt.2 (Nat.le_add_right 16 i), if_false, Nat.add_sub_cancel_left]

theorem U16P.read_write (p : U16P) : p.read (p.write s value) = value := by
  rw [read, write, State.set, Function.update_self, Half.get_put, if_pos rfl]

theorem U16P.read_set (p : U16P) (v : BitVec 32) : p.read (s.set p.cell v) = p.half.get v := by
  rw [read, State.set, Function.update_self]

theorem State.assign_of_some {f : Cell → Option (BitVec 32)} {v : BitVec 32} (hf : f c = some v) :
    s.assign f c = v := by
  rw [assign, hf]
  rfl

theorem vx_SetSomeBits_read (reg : CoreRegs) (g : VoiceGate) (half : Half) :
    U16P.read ⟨.Cores core (.Regs reg), half⟩ (vx_SetSomeBits core reg g half s value) = value := by
  dsimp only [vx_SetSomeBits]
  split
  · exact U16P.read_write ⟨_, half⟩
  · rw [U16P.read, State.assign_of_none rfl]
    exact U16P.read_write ⟨_, half⟩

theorem voiceBits_read (reg : CoreRegs) (f : VoiceCell) (first : Nat) (half : Half) :
    U16P.read ⟨.Cores core (.Regs reg), half⟩ (voiceBits core reg f first half s value) = value := by
  rw [voiceBits]
  exact (U16P.read_set ⟨_, half⟩ _).trans ((Half.get_put half half _ value).trans (if_pos rfl))

theorem default_read {reg : CoreReg} {second : Bool} (hi : i < 0x400)
    (hname : regName (2 * i) = .Core core reg second) :
    (Name.Core core reg second).place.read
      ((regtable ((reg.omem second ||| if core = 1 then 0x400 else 0) >>> 1)).write s value) =
      value := by
  rw [omem_or, regtable_addr hi hname]
  exact U16P.read_write _

theorem mirror_read (t : State) (reg : CoreReg) (second : Bool)
    (hptr : (Name.Core core reg second).ptr = none) :
    (Name.Core core reg second).place.read
      (t.set (.spu2regs (reg.omem second >>> 1 ||| core.val * 0x200)) (value.setWidth 32)) =
      value := by
  rw [Name.place, hptr, mirror_eq]
  exact (U16P.read_set ⟨_, .lo⟩ _).trans (Half.lo_get_setWidth value)

theorem updateArea_read {inner ext : CoreCell} {f : CoreCell} (hf : ¬ areaOwns inner f) :
    U16P.read ⟨.Cores core f, h⟩ (updateArea core inner ext s) = U16P.read ⟨.Cores core f, h⟩ s := by
  have hne (g : CoreCell) (hg : areaOwns inner g) : Cell.Cores core f ≠ .Cores core g := by
    rintro heq
    cases heq
    exact hf hg
  rw [U16P.read, updateArea_frame (hne _ (.inl rfl)) (hne _ (.inr (.inl rfl)))
    (hne _ (.inr (.inr rfl)))]
  rfl

theorem core_read {reg : CoreReg} {second : Bool} (hi : i < 0x400)
    (hname : regName (2 * i) = .Core core reg second)
    (hplain : (Name.Core core reg second).plain = true)
    (hstrays : (Name.Core core reg second).strays = false)
    (hswitch : (Name.Core core reg second).switches value = false) :
    (Name.Core core reg second).place.read
      ((Name.Core core reg second).handler.write s value) = value := by
  have hsingle := fun h2 : second = true => regName_single hi (h2 ▸ hname)
  cases reg with
  | REG_S_PMON => exact voiceBits_read .PMON .Modulated 1 _
  | REG_S_NON => exact voiceBits_read .NON .Noise 0 _
  | REG_S_VMIXL => exact vx_SetSomeBits_read .VMIXL .DryL _
  | REG_S_VMIXEL => exact vx_SetSomeBits_read .VMIXEL .WetL _
  | REG_S_VMIXR => exact vx_SetSomeBits_read .VMIXR .DryR _
  | REG_S_VMIXER => exact vx_SetSomeBits_read .VMIXER .WetR _
  | REG_P_MMIX =>
    cases second with
    | false =>
      have hset : writeMMIX core s value (.Cores core (.Regs .MMIX)) = value.setWidth 32 := by
        unfold writeMMIX
        apply State.assign_of_some
        exact if_pos rfl
      exact (congrArg Half.lo.get hset).trans (Half.lo_get_setWidth value)
    | true => exact absurd (hsingle rfl) (by decide)
  | REG_A_IRQA => exact default_read hi hname
  | REG_S_KON => cases second <;> exact mirror_read _ _ _ rfl
  | REG_S_KOFF => cases second <;> exact mirror_read _ _ _ rfl
  | REG__1AC =>
    cases second with
    | false => exact absurd hplain Bool.false_ne_true
    | true => exact default_read hi hname
  | REG_S_ADMAS =>
    cases second with
    | false =>
      have hne : value ≠ 32767 := of_decide_eq_false hswitch
      have hset : writeADMAS core s value (.Cores core .AutoDMACtrl) = value.setWidth 32 := by
        unfold writeADMAS
        rw [if_neg hne]
        split
        · rw [State.set_of_ne _ (by simp), State.set, Function.update_self]
        · rw [State.set, Function.update_self]
      exact (congrArg Half.lo.get hset).trans (Half.lo_get_setWidth value)
    | true => exact absurd (hsingle rfl) (by decide)
  | REG_A_ESA =>
    have harea : ¬ areaOwns .EffectsStartA .ExtEffectsStartA := by simp [areaOwns]
    cases second with
    | false => exact (updateArea_read harea).trans (U16P.read_write ⟨_, .hi⟩)
    | true => exact (updateArea_read harea).trans (U16P.read_write ⟨_, .lo⟩)
  | R r =>
    have hwired := wired_of_strays hstrays
    cases second with
    | false =>
      have hcore : core = 0 := by
        by_contra hne
        have h1 : core = 1 := by omega
        simp [Name.strays, h1] at hstrays
      subst hcore
      have hwrite : U16P.read ⟨.Cores 0 (.Revb r), .hi⟩ (RegWrite_Reverb 0 r s value) = value := by
        rw [reverb_eq]
        exact U16P.read_write _
      exact hwrite
    | true =>
      have heq : (Name.Core core (.R r) true).handler = .Core core (.R r) true :=
        congrArg (fun r => Handler.Core core (.R r) true) hwired
      rw [heq]
      exact default_read hi hname
  | REG_A_EEA =>
    have harea : ¬ areaOwns .EffectsEndA .ExtEffectsEndA := by simp [areaOwns]
    cases second with
    | false =>
      refine (updateArea_read harea).trans ((U16P.read_set ⟨_, .hi⟩ _).trans ?_)
      exact Half.hi_get_append value _
    | true => exact absurd hplain Bool.false_ne_true
  | _ => exact absurd hplain Bool.false_ne_true

theorem ext_read {reg : ExtReg} (hi : i < 0x400) (hname : regName (2 * i) = .Ext core reg)
    (hplain : (Name.Ext core reg).plain = true) :
    (Name.Ext core reg).place.read (RegWrite_CoreExt core reg s value) = value := by
  have hvol (c : Cell) : U16P.read ⟨c, .hi⟩ (s.set c (GetVol32 value)) = value :=
    (U16P.read_set ⟨c, .hi⟩ _).trans (Half.hi_get_append value _)
  cases reg with
  | REG_P_MVOL side =>
    have hset : RegWrite_CoreExt core (.REG_P_MVOL side) s value
        (.Cores core (.MasterVol side .Reg_VOL)) = value.setWidth 32 := by
      dsimp only [RegWrite_CoreExt]
      apply State.assign_of_some
      exact if_pos ⟨rfl, rfl⟩
    exact (congrArg Half.lo.get hset).trans (Half.lo_get_setWidth value)
  | REG_P_EVOL side => exact hvol _
  | REG_P_AVOL side => exact hvol _
  | REG_P_BVOL side => exact hvol _
  | REG_P_MVOLX side => exact absurd hplain Bool.false_ne_true
  | R r =>
    have haddr : r.mem + (if core = 1 then 0x28 else 0) = (Name.Ext core (.R r)).addr := by
      rcases Fin.exists_fin_two.mp ⟨core, rfl⟩ with rfl | rfl
      · exact (Nat.zero_add _).symm
      · exact Nat.add_comm _ _
    have heq := regtable_addr hi hname
    rw [← haddr] at heq
    change (Name.Ext core (.R r)).place.read
      ((regtable ((r.mem + if core = 1 then 0x28 else 0) >>> 1)).write s value) = value
    rw [heq]
    exact U16P.read_write ⟨_, .lo⟩

theorem voiceParams_read {voice : Fin 24} {param : Fin 8}
    (hplain : (Name.VoiceParam core voice param).plain = true) :
    (Name.VoiceParam core voice param).place.read
      (RegWrite_VoiceParams core voice param s value) = value := by
  have hvol (side : Side) (t : State)
      (ht : t (.Cores core (.Voices voice (.Volume side .Reg_VOL))) = value.setWidth 32) :
      U16P.read ⟨.Cores core (.Voices voice (.Volume side .Reg_VOL)), .lo⟩ t = value :=
    (congrArg Half.lo.get ht).trans (Half.lo_get_setWidth value)
  fin_cases param
  · refine hvol .Left _ ?_
    change (if core = core ∧ voice = voice then slideWrite value .Reg_VOL else none).getD _ = _
    rw [if_pos ⟨rfl, rfl⟩]
    rfl
  · refine hvol .Right _ ?_
    change (if core = core ∧ voice = voice then slideWrite value .Reg_VOL else none).getD _ = _
    rw [if_pos ⟨rfl, rfl⟩]
    rfl
  · exact absurd hplain Bool.false_ne_true
  · exact (U16P.read_set ⟨_, .lo⟩ _).trans (Half.lo_get_setWidth value)
  · exact (U16P.read_set ⟨_, .lo⟩ _).trans (Half.lo_get_setWidth value)
  all_goals exact absurd hplain Bool.false_ne_true

theorem handler_read (hi : i < 0x400) (hname : regName (2 * i) = n) (hplain : n.plain = true)
    (hstrays : n.strays = false) (hswitch : n.switches value = false) :
    n.place.read (n.handler.write s value) = value := by
  have hraw : n.place.read (RegWrite_Raw n.addr s value) = value := by
    rw [RegWrite_Raw, regtable_addr hi hname]
    exact U16P.read_write _
  cases n with
  | VoiceParam core voice param => exact voiceParams_read hplain
  | VoiceAddr core voice address => exact absurd hplain Bool.false_ne_true
  | Core core reg second => exact core_read hi hname hplain hstrays hswitch
  | Ext core reg => exact ext_read hi hname hplain
  | Spdif f =>
    have hmode (t : State) : (Name.Spdif f).place.read (UpdateSpdifMode t) =
        (Name.Spdif f).place.read t := by
      rw [U16P.read, UpdateSpdifMode, State.set_of_ne _ (by intro heq; cases heq)]
      rfl
    cases f with
    | Unknown1 => exact hraw
    | Unknown2 => exact hraw
    | _ => exact (hmode _).trans hraw
  | Unknown a => exact hraw

end OmegaRed.Spu2.Registers
