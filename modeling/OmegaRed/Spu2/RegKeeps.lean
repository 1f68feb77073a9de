import OmegaRed.Spu2.RegFrame

/-! A register write keeps what does not belong to the register. -/

namespace OmegaRed.Spu2.Registers

variable {s : State} {c : Cell} {h : Half} {value : BitVec 16} {core : Fin 2}

theorem Half.lo_get_address (x v : BitVec 32) :
    lo.get ((v <<< 16 ||| x &&& 0xfff8) &&& 0xffff8) = lo.get (x &&& 0xffff8) := by
  have hshift : lo.get (v <<< 16) = 0#16 := by
    apply BitVec.eq_of_getLsbD_eq
    intro i hi
    simp [get, hi, Nat.lt_trans hi]
  have hlow : lo.get 0xffff8 = lo.get 0xfff8 := by decide
  rw [get_and, get_or, get_and, get_and, hshift, hlow, BitVec.zero_or, BitVec.and_assoc,
    BitVec.and_self]

theorem Half.hi_get_address (x : BitVec 32) (value : BitVec 16) :
    hi.get ((x &&& 0x0f0000 ||| value.setWidth 32 &&& 0xfff8) &&& 0xffff8) =
      hi.get (x &&& 0xffff8) := by
  have hzero : hi.get (0xfff8 : BitVec 32) = 0#16 := by decide
  have hhigh : hi.get 0xffff8 = hi.get 0x0f0000 := by decide
  rw [get_and, get_or, get_and, get_and, get_and, hzero, hhigh, BitVec.and_zero, BitVec.or_zero,
    BitVec.and_assoc, BitVec.and_self]

namespace Name.Keeps

variable {n : Name} {X : Cell}

theorem trans {t u : State} (hst : n.Keeps s t) (htu : n.Keeps t u) : n.Keeps s u where
  other c hown := (htu.other c hown).trans (hst.other c hown)
  half c h hown := (htu.half c h hown).trans (hst.half c h hown)

theorem of_set (v : BitVec 32) (hown : ∀ h, n.owns X h) : n.Keeps s (s.set X v) := by
  apply of_halves
  intro c h hc
  have hne : c ≠ X := by
    rintro rfl
    exact hc (hown h)
  rw [State.set_of_ne v hne]

theorem of_set_half {half : Half} {v : BitVec 32} (hown : n.owns X half)
    (hv : ∀ h, h ≠ half → h.get (v &&& X.bits) = h.get (s X &&& X.bits)) :
    n.Keeps s (s.set X v) where
  other c hc := State.set_of_ne v fun heq => hc half (heq ▸ hown)
  half c h hc := by
    by_cases heq : c = X
    · subst heq
      rw [State.set, Function.update_self, hv h fun hh => hc (hh ▸ hown)]
    · rw [State.set_of_ne v heq]

end Name.Keeps

theorem voiceAddr_keeps {voice : Fin 24} {address : Fin 6} :
    (Name.VoiceAddr core voice address).Keeps s
      (RegWrite_VoiceAddr core voice address s value) := by
  have hlow {x v : BitVec 32} {h : Half} (hne : h ≠ .hi) :
      h.get ((v <<< 16 ||| x &&& 0xfff8) &&& 0xffff8) = h.get (x &&& 0xffff8) := by
    cases h with
    | lo => exact Half.lo_get_address x v
    | hi => exact absurd rfl hne
  have hhigh {x : BitVec 32} {h : Half} (hne : h ≠ .lo) :
      h.get ((x &&& 0x0f0000 ||| value.setWidth 32 &&& 0xfff8) &&& 0xffff8) =
        h.get (x &&& 0xffff8) := by
    cases h with
    | hi => exact Half.hi_get_address x value
    | lo => exact absurd rfl hne
  unfold RegWrite_VoiceAddr
  split
  · exact .of_set_half ⟨_, rfl, rfl, rfl⟩ fun _ hne => hlow hne
  · exact .of_set_half ⟨_, rfl, rfl, rfl⟩ fun _ hne => hhigh hne
  · exact .trans (.of_set_half ⟨_, rfl, .inl ⟨rfl, rfl⟩⟩ fun _ hne => hlow hne)
      (.of_set _ fun _ => ⟨_, rfl, .inr rfl⟩)
  · exact .trans (.of_set_half ⟨_, rfl, .inl ⟨rfl, rfl⟩⟩ fun _ hne => hhigh hne)
      (.of_set _ fun _ => ⟨_, rfl, .inr rfl⟩)
  · exact .of_halves fun _ _ _ => rfl

theorem write_keeps {n : Name} {p : U16P} (hown : n.owns p.cell p.half) :
    n.Keeps s (p.write s value) := by
  refine .of_set_half hown fun h hne => ?_
  rw [Half.get_and, Half.get_and, Half.get_put, if_neg hne]

/-- The registers that do not reach what they name: those of the second core's reverb with the
high half of an address, and two that have each other's place in the write table. -/
def Name.strays : Name → Bool
  | Core core (.R r) second => core = 1 && (!second || wired core r ≠ r)
  | _ => false

/-- The value that switches to PS1 mode. -/
def Name.switches (n : Name) (value : BitVec 16) : Bool :=
  match n with
  | Core _ .REG_S_ADMAS _ => value = 32767
  | _ => false

theorem regtable_addr {i : Nat} {n : Name} (hi : i < 0x400) (hname : regName (2 * i) = n) :
    regtable (n.addr >>> 1) = n.ptr.getD ⟨.spu2regs (n.addr / 2), .lo⟩ := by
  have haddr := regName_addr hi
  rw [hname] at haddr
  rw [Nat.shiftRight_eq_div_pow, haddr, Nat.mul_div_cancel_left i (by decide), regtable_eq hi, hname]

theorem omem_lt (reg : CoreReg) (second : Bool) : reg.omem second < 0x400 := by
  have hle : reg.mem ≤ 0x344 := by
    cases reg <;> try decide
    rename_i r
    cases r <;> decide
  rw [CoreReg.omem]
  split <;> omega

theorem omem_or (core : Fin 2) (reg : CoreReg) (second : Bool) :
    (reg.omem second ||| if core = 1 then 0x400 else 0) = (Name.Core core reg second).addr := by
  rcases Fin.exists_fin_two.mp ⟨core, rfl⟩ with rfl | rfl
  · rw [if_neg (by decide), Nat.or_zero]
    exact (Nat.zero_add _).symm
  · have hadd := Nat.two_pow_add_eq_or_of_lt (i := 10) (omem_lt reg second) 1
    rw [if_pos rfl, Nat.or_comm]
    exact hadd.symm

theorem mirror_eq (core : Fin 2) (reg : CoreReg) (second : Bool) :
    reg.omem second >>> 1 ||| core.val * 0x200 = (Name.Core core reg second).addr / 2 := by
  have hlt : reg.omem second / 2 < 2 ^ 9 := Nat.div_lt_of_lt_mul (omem_lt reg second)
  have hadd := Nat.two_pow_add_eq_or_of_lt hlt core.val
  rw [Nat.shiftRight_eq_div_pow, Nat.pow_one, Nat.or_comm, Nat.mul_comm core.val,
    show 0x200 = 2 ^ 9 from rfl, ← hadd, Name.addr]
  omega

/-- A second word is one of a register of two. -/
def Name.paired : Name → Bool
  | .Core _ reg true => !reg.single
  | _ => true

theorem regName_single {i : Nat} {reg : CoreReg} (hi : i < 0x400)
    (hname : regName (2 * i) = .Core core reg true) : reg.single = false := by
  have hall : (List.range 0x400).all (fun i => (regName (2 * i)).paired) = true := by
    decide +kernel
  have hreg := List.all_eq_true.1 hall i (List.mem_range.2 hi)
  rw [hname] at hreg
  simpa [Name.paired] using hreg

theorem default_keeps {i : Nat} {reg : CoreReg} {second : Bool} {p : U16P} (hi : i < 0x400)
    (hname : regName (2 * i) = .Core core reg second)
    (hptr : (Name.Core core reg second).ptr.getD
      ⟨.spu2regs ((Name.Core core reg second).addr / 2), .lo⟩ = p)
    (hown : (Name.Core core reg second).owns p.cell p.half) :
    (Name.Core core reg second).Keeps s
      ((regtable ((reg.omem second ||| if core = 1 then 0x400 else 0) >>> 1)).write s value) := by
  rw [omem_or, regtable_addr hi hname, hptr]
  exact write_keeps hown

theorem startVoices_keeps (second : Bool) (half : Half)
    (hhalf : half = if second then .hi else .lo) :
    (Name.Core core .REG_S_KON second).Keeps s
      ((StartVoices core s (half.wide value)).set
        (.spu2regs (CoreReg.REG_S_KON.omem second >>> 1 ||| core.val * 0x200))
        (value.setWidth 32)) := by
  refine .trans (.of_halves fun c h hown => ?_) (.of_set _ fun h => ?_)
  · subst hhalf
    exact startVoices_frame fun f hc hf => hown (.inl ⟨f, hc, hf⟩)
  · rw [mirror_eq]
    exact .inr rfl

theorem stopVoices_keeps (second : Bool) (half : Half)
    (hhalf : half = if second then .hi else .lo) :
    (Name.Core core .REG_S_KOFF second).Keeps s
      ((StopVoices core s (half.wide value)).set
        (.spu2regs (CoreReg.REG_S_KOFF.omem second >>> 1 ||| core.val * 0x200))
        (value.setWidth 32)) := by
  refine .trans (.of_halves fun c h hown => ?_) (.of_set _ fun h => ?_)
  · subst hhalf
    rw [stopVoices_frame fun f hc hf => hown (.inl ⟨f, hc, hf⟩)]
  · rw [mirror_eq]
    exact .inr rfl

theorem updateArea_keeps {n : Name} {inner ext : CoreCell}
    (hown : ∀ f h, areaOwns inner f → n.owns (.Cores core f) h) :
    n.Keeps s (updateArea core inner ext s) := by
  refine .of_halves fun c h hc => ?_
  have hne (f : CoreCell) (hf : areaOwns inner f) : c ≠ .Cores core f := by
    rintro rfl
    exact hc (hown f h hf)
  rw [updateArea_frame (hne _ (.inl rfl)) (hne _ (.inr (.inl rfl))) (hne _ (.inr (.inr rfl)))]

theorem setIrqCall_keeps (i : Fin 2) :
    (Name.Core core .REG__1AC false).Keeps s (SetIrqCall s i) := by
  refine .of_halves fun c h hc => ?_
  rw [setIrqCall_frame (fun heq => hc (.inr (.inl heq))) fun heq => hc (.inr (.inr (.inl heq)))]

theorem dmaWrite_keeps :
    (Name.Core core .REG__1AC false).Keeps s (DmaWrite core s value) := by
  refine .of_halves fun c h hc => ?_
  have hTSA : c ≠ .Cores core .TSA := fun heq => hc (.inl ⟨_, heq, rfl, rfl⟩)
  have hmem (a : Nat) : c ≠ .spu2mem a := fun heq => hc (.inr (.inr (.inr (.inl ⟨a, heq⟩))))
  have hvalid (b : Nat) : c ≠ .Validated b := fun heq => hc (.inr (.inr (.inr (.inr ⟨b, heq⟩))))
  rw [dmaWrite_frame hTSA hmem hvalid]

theorem endx_keeps (second : Bool) (mask : BitVec 32)
    (hmask : ∀ h : Half, h ≠ (if second then .hi else .lo) →
      h.get (mask &&& 0xffffff) = h.get 0xffffff) :
    (Name.Core core .REG_S_ENDX second).Keeps s
      (s.set (.Cores core (.Regs .ENDX)) (s (.Cores core (.Regs .ENDX)) &&& mask)) := by
  have hown : (Name.Core core .REG_S_ENDX second).owns (.Cores core (.Regs .ENDX))
      (if second then .hi else .lo) := .inl ⟨_, rfl, rfl, rfl⟩
  refine .of_set_half hown fun h hne => ?_
  rw [BitVec.and_assoc, Half.get_and]
  exact (congrArg _ (hmask h hne)).trans (Half.get_and h _ _).symm

theorem wired_of_strays {r : RevbAddr} {second : Bool}
    (hstrays : (Name.Core core (.R r) second).strays = false) : wired core r = r := by
  rcases Fin.exists_fin_two.mp ⟨core, rfl⟩ with rfl | rfl
  · rfl
  · by_contra hne
    simp [Name.strays, hne] at hstrays

theorem regName_R (r : RevbAddr) (second : Bool) :
    regName (Name.Core core (.R r) second).addr = .Core core (.R r) second := by
  rcases Fin.exists_fin_two.mp ⟨core, rfl⟩ with rfl | rfl
  all_goals cases r <;> cases second <;> decide +kernel

theorem reverb_eq (core : Fin 2) (r : RevbAddr) :
    RegWrite_Reverb core r s value = U16P.write ⟨.Cores 0 (.Revb r), .hi⟩ s value := by
  have heq : r.mem = (Name.Core 0 (.R r) false).addr := (Nat.zero_add _).symm
  have hhalf : 2 * (r.mem / 2) = r.mem := by cases r <;> rfl
  have hlt : r.mem / 2 < 0x400 := by cases r <;> decide
  have hname : regName (2 * (r.mem / 2)) = .Core 0 (.R r) false := by
    rw [hhalf, heq, regName_R]
  rw [RegWrite_Reverb, heq, regtable_addr hlt hname]
  rfl

theorem core_keeps {i : Nat} {reg : CoreReg} {second : Bool} (hi : i < 0x400)
    (hname : regName (2 * i) = .Core core reg second)
    (hstrays : (Name.Core core reg second).strays = false)
    (hswitch : (Name.Core core reg second).switches value = false) :
    (Name.Core core reg second).Keeps s ((Name.Core core reg second).handler.write s value) := by
  have hsingle := fun h2 : second = true => regName_single hi (h2 ▸ hname)
  cases reg with
  | REG_S_PMON =>
    refine .of_halves fun c h hown => ?_
    exact voiceBits_frame fun f hc hf => hown (.inl ⟨f, hc, hf⟩)
  | REG_S_NON =>
    refine .of_halves fun c h hown => ?_
    exact voiceBits_frame fun f hc hf => hown (.inl ⟨f, hc, hf⟩)
  | REG_S_VMIXL =>
    refine .of_halves fun c h hown => ?_
    exact vx_SetSomeBits_frame fun f hc hf => hown (.inl ⟨f, hc, hf⟩)
  | REG_S_VMIXEL =>
    refine .of_halves fun c h hown => ?_
    exact vx_SetSomeBits_frame fun f hc hf => hown (.inl ⟨f, hc, hf⟩)
  | REG_S_VMIXR =>
    refine .of_halves fun c h hown => ?_
    exact vx_SetSomeBits_frame fun f hc hf => hown (.inl ⟨f, hc, hf⟩)
  | REG_S_VMIXER =>
    refine .of_halves fun c h hown => ?_
    exact vx_SetSomeBits_frame fun f hc hf => hown (.inl ⟨f, hc, hf⟩)
  | REG_P_MMIX =>
    cases second with
    | false =>
      refine .of_halves fun c h hown => ?_
      exact congrArg h.get (writeMMIX_frame hown)
    | true => exact absurd (hsingle rfl) (by decide)
  | REG_C_ATTR =>
    cases second with
    | false =>
      refine .of_halves fun c h hown => ?_
      exact congrArg h.get (writeATTR_frame hown)
    | true => exact absurd (hsingle rfl) (by decide)
  | REG_A_IRQA =>
    refine default_keeps hi hname rfl (.inl ⟨_, rfl, rfl, ?_⟩)
    rfl
  | REG_S_KON =>
    cases second with
    | false => exact startVoices_keeps false .lo rfl
    | true => exact startVoices_keeps true .hi rfl
  | REG_S_KOFF =>
    cases second with
    | false => exact stopVoices_keeps false .lo rfl
    | true => exact stopVoices_keeps true .hi rfl
  | REG_A_TSA => exact default_keeps hi hname rfl (.inl ⟨_, rfl, rfl, rfl⟩)
  | REG__1AC =>
    cases second with
    | false =>
      -- the interrupts are checked for both cores before the word is written
      have hcheck (s t : State) (i : Fin 2) (hst : (Name.Core core .REG__1AC false).Keeps s t)
          (p : Prop) [Decidable p] :
          (Name.Core core .REG__1AC false).Keeps s (if p then SetIrqCall t i else t) := by
        split
        · exact hst.trans (setIrqCall_keeps i)
        · exact hst
      exact (hcheck _ _ 1 (hcheck _ _ 0 (.of_halves fun _ _ _ => rfl) _) _).trans dmaWrite_keeps
    | true => exact default_keeps hi hname rfl (.inr rfl)
  | REG_S_ADMAS =>
    cases second with
    | false =>
      refine .of_halves fun c h hown => ?_
      have hne : value ≠ 32767 := of_decide_eq_false hswitch
      exact congrArg h.get (writeADMAS_frame hne (fun hc => hown (.inl ⟨_, hc, .inl rfl⟩))
        fun hc => hown (.inl ⟨_, hc, .inr rfl⟩))
    | true => exact absurd (hsingle rfl) (by decide)
  | REG_A_ESA =>
    have hown (h : Half) (hh : h = if second then .lo else .hi) :
        (Name.Core core .REG_A_ESA second).owns (.Cores core .ExtEffectsStartA) h :=
      .inl ⟨_, rfl, .inl ⟨rfl, hh⟩⟩
    have harea (s : State) : (Name.Core core .REG_A_ESA second).Keeps s
        (updateArea core .EffectsStartA .ExtEffectsStartA s) :=
      updateArea_keeps fun f h hf => .inl ⟨f, rfl, .inr hf⟩
    cases second with
    | false => exact (write_keeps (p := ⟨_, .hi⟩) (hown .hi rfl)).trans (harea _)
    | true => exact (write_keeps (p := ⟨_, .lo⟩) (hown .lo rfl)).trans (harea _)
  | R r =>
    have hwired := wired_of_strays hstrays
    cases second with
    | false =>
      have hcore : core = 0 := by
        by_contra hne
        have h1 : core = 1 := by omega
        simp [Name.strays, h1] at hstrays
      subst hcore
      have hwrite : (Name.Core 0 (.R r) false).Keeps s
          (U16P.write ⟨.Cores 0 (.Revb r), .hi⟩ s value) := write_keeps (.inl ⟨_, rfl, rfl, rfl⟩)
      rw [← reverb_eq 0 r] at hwrite
      exact hwrite
    | true =>
      have heq : (Name.Core core (.R r) true).handler = .Core core (.R r) true :=
        congrArg (fun r => Handler.Core core (.R r) true) hwired
      rw [heq]
      exact default_keeps hi hname rfl (.inl ⟨_, rfl, rfl, rfl⟩)
  | REG_A_EEA =>
    cases second with
    | false =>
      refine .trans (.of_set _ fun h => ?_) (updateArea_keeps fun f h hf => .inl ⟨f, rfl, .inr hf⟩)
      exact .inl ⟨_, rfl, .inl ⟨rfl, fun heq => absurd heq (by decide)⟩⟩
    | true => exact .of_halves fun _ _ _ => rfl
  | REG_S_ENDX =>
    cases second with
    | false =>
      refine endx_keeps false 0xff0000 fun h hne => ?_
      cases h with
      | lo => exact absurd rfl hne
      | hi => rfl
    | true =>
      refine endx_keeps true 0xffff fun h hne => ?_
      cases h with
      | lo => rfl
      | hi => exact absurd rfl hne
  | REG_P_STATX =>
    cases second with
    | false => exact default_keeps hi hname rfl (.inl ⟨_, rfl, rfl⟩)
    | true => exact absurd (hsingle rfl) (by decide)

theorem ext_keeps {i : Nat} {reg : ExtReg} (hi : i < 0x400)
    (hname : regName (2 * i) = .Ext core reg) :
    (Name.Ext core reg).Keeps s (RegWrite_CoreExt core reg s value) := by
  cases reg with
  | REG_P_MVOL side =>
    refine .of_halves fun c h hown => ?_
    dsimp only [RegWrite_CoreExt]
    rw [State.assign_of_none]
    split
    · rename_i d e f
      refine if_neg fun heq => ?_
      obtain ⟨rfl, rfl⟩ := heq
      exact hown ⟨_, rfl, f, rfl⟩
    · rfl
  | REG_P_EVOL side => exact .of_set _ fun _ => ⟨_, rfl, rfl⟩
  | REG_P_AVOL side => exact .of_set _ fun _ => ⟨_, rfl, rfl⟩
  | REG_P_BVOL side => exact .of_set _ fun _ => ⟨_, rfl, rfl⟩
  | REG_P_MVOLX side => exact .of_halves fun _ _ _ => rfl
  | R r =>
    have haddr : r.mem + (if core = 1 then 0x28 else 0) = (Name.Ext core (.R r)).addr := by
      rcases Fin.exists_fin_two.mp ⟨core, rfl⟩ with rfl | rfl
      · exact (Nat.zero_add _).symm
      · exact Nat.add_comm _ _
    have heq := regtable_addr hi hname
    rw [← haddr] at heq
    change (Name.Ext core (.R r)).Keeps s
      ((regtable ((r.mem + if core = 1 then 0x28 else 0) >>> 1)).write s value)
    rw [heq]
    exact write_keeps ⟨_, rfl, rfl⟩

theorem raw_keeps {i : Nat} {n : Name} {p : U16P} (hi : i < 0x400) (hname : regName (2 * i) = n)
    (hptr : n.ptr.getD ⟨.spu2regs (n.addr / 2), .lo⟩ = p) (hown : n.owns p.cell p.half) :
    n.Keeps s (RegWrite_Raw n.addr s value) := by
  rw [RegWrite_Raw, regtable_addr hi hname, hptr]
  exact write_keeps hown

theorem spdif_keeps {i : Nat} {f : SpdifCell} (hi : i < 0x400)
    (hname : regName (2 * i) = .Spdif f) :
    (Name.Spdif f).Keeps s ((Name.Spdif f).handler.write s value) := by
  have hraw : (Name.Spdif f).Keeps s (RegWrite_Raw f.mem s value) :=
    raw_keeps hi hname rfl (.inl rfl)
  have hmode (t : State) : (Name.Spdif f).Keeps t (UpdateSpdifMode t) := .of_set _ fun _ => .inr rfl
  cases f with
  | Unknown1 => exact hraw
  | Unknown2 => exact hraw
  | _ => exact hraw.trans (hmode _)

theorem handler_keeps {i : Nat} {n : Name} (hi : i < 0x400) (hname : regName (2 * i) = n)
    (hstrays : n.strays = false) (hswitch : n.switches value = false) :
    n.Keeps s (n.handler.write s value) := by
  cases n with
  | VoiceParam core voice param =>
    exact .of_halves fun c h hown => congrArg h.get (voiceParams_frame hown)
  | VoiceAddr core voice address => exact voiceAddr_keeps
  | Core core reg second => exact core_keeps hi hname hstrays hswitch
  | Ext core reg => exact ext_keeps hi hname
  | Spdif f => exact spdif_keeps hi hname
  | Unknown a => exact raw_keeps hi hname rfl rfl

end OmegaRed.Spu2.Registers
