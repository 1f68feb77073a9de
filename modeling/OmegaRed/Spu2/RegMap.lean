import OmegaRed.Spu2.RegBack

/-! Register writes reach the registers that they name. -/

namespace OmegaRed.Spu2.Registers

/-- The register at an address of it. -/
def register (addr : Nat) : Name := regName (2 * (addr / 2))

/-- A write to the address reaches its register and nothing else; of a plain parameter, the word
is read back. -/
structure Reaches (addr : Nat) : Prop where
  keeps : ∀ s value, (register addr).switches value = false →
    (register addr).Keeps s (SPU2_FastWrite s addr value)
  cores : ∀ s value, (register addr).switches value = false →
    ∀ core, (register addr).core? = some core → ∀ k, k ≠ core →
      ∀ f, SPU2_FastWrite s addr value (.Cores k f) = s (.Cores k f)
  read : (register addr).plain = true → ∀ s value, (register addr).switches value = false →
    SPU2read (SPU2_FastWrite s addr value) addr = value

/-- The addresses in the second core's reverb with the high half of a register, and those of
`DIFF_L_SRC` and `DIFF_R_SRC`. -/
def Misdirected (addr : Nat) : Prop :=
  0x6e4 ≤ addr ∧ addr < 0x73c ∧ (addr % 4 < 2 ∨ 0x724 ≤ addr ∧ addr < 0x72c)

instance (addr : Nat) : Decidable (Misdirected addr) := inferInstanceAs (Decidable (_ ∧ _))

/-- The registers of an address, which have two words. -/
inductive Address
  | IRQA
  | TSA
  | ESA
  | EEA
  | R (r : RevbAddr)
  | SSA (voice : Fin 24)
  | LSAX (voice : Fin 24)

namespace Address

/-- The two words: the first has the high half. -/
def word (core : Fin 2) (second : Bool) : Address → Name
  | IRQA => .Core core .REG_A_IRQA second
  | TSA => .Core core .REG_A_TSA second
  | ESA => .Core core .REG_A_ESA second
  | EEA => .Core core .REG_A_EEA second
  | R r => .Core core (.R r) second
  | SSA voice => .VoiceAddr core voice (if second then 1 else 0)
  | LSAX voice => .VoiceAddr core voice (if second then 3 else 2)

def cell (core : Fin 2) : Address → Cell
  | IRQA => .Cores core .IRQA
  | TSA => .Cores core .TSA
  | ESA => .Cores core .ExtEffectsStartA
  | EEA => .Cores core .ExtEffectsEndA
  | R r => .Cores core (.Revb r)
  | SSA voice => .Cores core (.Voices voice .StartA)
  | LSAX voice => .Cores core (.Voices voice .LoopStartA)

/-- The combined value: the addresses of voices are those of eight words, and the low half of the
end of the effects area is always set. -/
def value (high low : BitVec 16) : Address → BitVec 32
  | EEA => high ++ 0xffff#16
  | SSA _ | LSAX _ => (high ++ low) &&& 0xffff8
  | _ => high ++ low

end Address

/-- The two halves give the combined value on the core in either order. -/
structure Combines (core : Fin 2) (a : Address) : Prop where
  highFirst : ∀ s high low, SPU2_FastWrite (SPU2_FastWrite s (a.word core false).addr high)
    (a.word core true).addr low (a.cell core) = a.value high low
  lowFirst : ∀ s high low, SPU2_FastWrite (SPU2_FastWrite s (a.word core true).addr low)
    (a.word core false).addr high (a.cell core) = a.value high low

/-- Writes one after another. -/
def writes (s : State) (ws : List (Nat × BitVec 16)) : State :=
  ws.foldl (fun s w => SPU2_FastWrite s w.1 w.2) s

/-- A write of a register that reaches it and does not switch to PS1 mode. -/
def Direct (w : Nat × BitVec 16) : Prop :=
  w.1 < 0x800 ∧ ¬ Misdirected w.1 ∧ (register w.1).switches w.2 = false

variable {s : State} {c : Cell} {h : Half} {value : BitVec 16} {core : Fin 2} {n m : Name}
  {addr : Nat}

theorem strays_iff (haddr : addr < 0x800) : (register addr).strays = true ↔ Misdirected addr := by
  have hall : (List.range 0x400).all (fun i =>
      (regName (2 * i)).strays == decide (Misdirected (2 * i))) = true := by decide +kernel
  have hi : addr / 2 < 0x400 := Nat.div_lt_of_lt_mul haddr
  have heq := eq_of_beq (List.all_eq_true.1 hall _ (List.mem_range.2 hi))
  rw [register, heq, decide_eq_true_eq]
  unfold Misdirected
  omega

theorem strays_eq_false (haddr : addr < 0x800) (hdir : ¬ Misdirected addr) :
    (register addr).strays = false := by
  rw [← strays_iff haddr] at hdir
  exact Bool.eq_false_of_not_eq_true hdir

theorem owns_core {k : Fin 2} {f : CoreCell} (hcore : n.core? = some core)
    (hown : n.owns (.Cores k f) h) : k = core := by
  cases n with
  | VoiceParam core' voice param =>
    obtain ⟨g, heq, -⟩ := hown
    cases heq
    exact Option.some.inj hcore
  | VoiceAddr core' voice address =>
    obtain ⟨g, heq, -⟩ := hown
    cases heq
    exact Option.some.inj hcore
  | Core core' reg second =>
    rcases hown with ⟨g, heq, -⟩ | hout
    · cases heq
      exact Option.some.inj hcore
    · cases reg with
      | REG__1AC =>
        cases second with
        | false => rcases hout with heq | heq | ⟨a, heq⟩ | ⟨b, heq⟩ <;> cases heq
        | true => cases hout
      | _ => cases hout
  | Ext core' reg =>
    obtain ⟨g, heq, -⟩ := hown
    cases heq
    exact Option.some.inj hcore
  | Spdif f => cases hcore
  | Unknown a => cases hcore

theorem bits_of_home (hhome : home c h = some m) : c.bits = 0xffffffff := by
  unfold Cell.bits
  split
  · cases hhome
  · cases hhome
  · cases hhome
  · rfl

theorem and_bits (x : BitVec 32) : x &&& 0xffffffff = x := BitVec.and_allOnes

theorem SPU2read_eq (haddr : addr < 0x800) : SPU2read s addr = (register addr).place.read s := by
  have hi : addr / 2 < 0x400 := Nat.div_lt_of_lt_mul haddr
  have heq := regtable_addr hi rfl
  rw [regName_addr hi, Nat.shiftRight_eq_div_pow, Nat.pow_one,
    Nat.mul_div_cancel_left _ (by decide : 0 < 2)] at heq
  rw [SPU2read, heq, Name.place, register, regName_addr hi,
    Nat.mul_div_cancel_left _ (by decide : 0 < 2)]

theorem reaches_of_direct (haddr : addr < 0x800) (hdir : ¬ Misdirected addr) : Reaches addr := by
  have hi : addr / 2 < 0x400 := Nat.div_lt_of_lt_mul haddr
  have hstrays := strays_eq_false haddr hdir
  have hkeeps (s : State) (value : BitVec 16) (hsw : (register addr).switches value = false) :
      (register addr).Keeps s (SPU2_FastWrite s addr value) := by
    rw [fastWrite_eq s haddr]
    exact handler_keeps hi rfl hstrays hsw
  refine ⟨hkeeps, ?_, ?_⟩
  · intro s value hsw core hcore k hk f
    exact (hkeeps s value hsw).other _ fun h hown => hk (owns_core hcore hown)
  · intro hplain s value hsw
    rw [SPU2read_eq haddr, fastWrite_eq s haddr]
    exact handler_read hi rfl hplain hstrays hsw

theorem strays_cases (hstrays : n.strays = true) : ∃ r second, n = .Core 1 (.R r) second ∧
    (second = false ∨ wired 1 r ≠ r) := by
  cases n with
  | Core core reg second =>
    cases reg with
    | R r =>
      simp only [Name.strays, Bool.and_eq_true, decide_eq_true_eq, Bool.or_eq_true,
        Bool.not_eq_true'] at hstrays
      obtain ⟨rfl, hsecond⟩ := hstrays
      exact ⟨r, second, rfl, hsecond⟩
    | _ => exact absurd hstrays Bool.false_ne_true
  | _ => exact absurd hstrays Bool.false_ne_true

theorem handler_high (r : RevbAddr) (value : BitVec 16) :
    Half.hi.get ((Name.Core 1 (.R r) false).handler.write s value
      (.Cores 0 (.Revb (wired 1 r)))) = value := by
  have hwrite : U16P.read ⟨.Cores 0 (.Revb (wired 1 r)), .hi⟩
      (RegWrite_Reverb 1 (wired 1 r) s value) = value := by
    rw [reverb_eq]
    exact U16P.read_write _
  exact hwrite

theorem handler_low (r : RevbAddr) (value : BitVec 16) :
    Half.lo.get ((Name.Core 1 (.R r) true).handler.write s value
      (.Cores 1 (.Revb (wired 1 r)))) = value := by
  have haddr : 2 * ((Name.Core 1 (.R (wired 1 r)) true).addr / 2) =
      (Name.Core 1 (.R (wired 1 r)) true).addr := by cases r <;> rfl
  have hlt : (Name.Core 1 (.R (wired 1 r)) true).addr / 2 < 0x400 := by cases r <;> decide
  have hname : regName (2 * ((Name.Core 1 (.R (wired 1 r)) true).addr / 2)) =
      .Core 1 (.R (wired 1 r)) true := by rw [haddr, regName_R]
  exact default_read hlt hname

theorem not_reaches_of_misdirected (hdir : Misdirected addr) : ¬ Reaches addr := by
  have haddr : addr < 0x800 := Nat.lt_trans hdir.2.1 (by decide)
  intro hreach
  obtain ⟨r, second, hname, hcase⟩ := strays_cases ((strays_iff haddr).2 hdir)
  have hsw : (register addr).switches 1 = false := by rw [hname]; rfl
  have hwrite : SPU2_FastWrite (fun _ => 0) addr 1 =
      (Name.Core 1 (.R r) second).handler.write (fun _ => 0) 1 := by
    rw [fastWrite_eq _ haddr]
    exact congrArg (fun n : Name => n.handler.write (fun _ => 0) 1) hname
  cases second with
  | false =>
    have hcore := hreach.cores (fun _ => 0) 1 hsw 1 (by rw [hname]; rfl) 0 (by decide)
      (.Revb (wired 1 r))
    have hhigh := handler_high (s := fun _ => 0) r 1
    rw [← hwrite, hcore] at hhigh
    exact absurd hhigh (by decide)
  | true =>
    have hne : wired 1 r ≠ r := hcase.resolve_left (by decide)
    have hkeeps := hreach.keeps (fun _ => 0) 1 hsw
    have hown : ¬ (register addr).owns (.Cores 1 (.Revb (wired 1 r))) .lo := by
      rw [hname]
      rintro (⟨f, heq, hf, -⟩ | hout)
      · cases heq
        exact hne (CoreCell.Revb.inj hf)
      · exact hout
    have hhalf := hkeeps.half _ _ hown
    have hlow := handler_low (s := fun _ => 0) r 1
    rw [hwrite, Half.get_and, hlow] at hhalf
    have hbits : (Cell.Cores 1 (.Revb (wired 1 r))).bits = 0xffffffff := rfl
    rw [hbits] at hhalf
    exact absurd hhalf (by decide)

theorem reaches_addr_iff (haddr : addr < 0x800) : Reaches addr ↔ ¬ Misdirected addr :=
  ⟨fun hreach hdir => not_reaches_of_misdirected hdir hreach, reaches_of_direct haddr⟩

theorem read_of_ne {w : Nat × BitVec 16} (haddr : addr < 0x800)
    (hplain : (register addr).plain = true) (hw : Direct w) (hne : w.1 / 2 ≠ addr / 2) :
    SPU2read (SPU2_FastWrite s w.1 w.2) addr = SPU2read s addr := by
  have hi : addr / 2 < 0x400 := Nat.div_lt_of_lt_mul haddr
  have hj : w.1 / 2 < 0x400 := Nat.div_lt_of_lt_mul hw.1
  have hhome : home (register addr).place.cell (register addr).place.half = some (register addr) :=
    home_place hi rfl hplain
  have hown : ¬ (register w.1).owns (register addr).place.cell (register addr).place.half :=
    fun hown => hne (regName_inj hj hi (owner_unique hj rfl hown hhome))
  have hhalf := ((reaches_of_direct hw.1 hw.2.1).keeps s w.2 hw.2.2).half _ _ hown
  rw [bits_of_home hhome, and_bits, and_bits] at hhalf
  rw [SPU2read_eq haddr, SPU2read_eq haddr]
  exact hhalf

theorem read_writes {ws : List (Nat × BitVec 16)} (haddr : addr < 0x800)
    (hplain : (register addr).plain = true)
    (hws : ∀ w ∈ ws, Direct w ∧ w.1 / 2 ≠ addr / 2) :
    SPU2read (writes s ws) addr = SPU2read s addr := by
  induction ws generalizing s with
  | nil => rfl
  | cons w ws ih =>
    have hw := hws w List.mem_cons_self
    exact (ih fun x hx => hws x (List.mem_cons_of_mem w hx)).trans
      (read_of_ne haddr hplain hw.1 hw.2)

theorem read_last {before after : List (Nat × BitVec 16)} (hplain : (register addr).plain = true)
    (hw : Direct (addr, value)) (hafter : ∀ w ∈ after, Direct w ∧ w.1 / 2 ≠ addr / 2) :
    SPU2read (writes s (before ++ (addr, value) :: after)) addr = value := by
  rw [writes, List.foldl_append, List.foldl_cons]
  exact (read_writes hw.1 hplain hafter).trans
    ((reaches_of_direct hw.1 hw.2.1).read hplain _ value hw.2.2)

theorem Half.lo_get_append (x y : BitVec 16) : lo.get (x ++ y : BitVec 32) = y := by
  apply BitVec.eq_of_getLsbD_eq
  intro i hi
  simp only [get, BitVec.getLsbD_extractLsb', getLsbD_append, hi, decide_true, Bool.true_and,
    Nat.zero_add, if_true]

theorem Address.word_spec (core : Fin 2) (second : Bool) (a : Address) :
    (a.word core second).addr < 0x800 ∧ (a.word core second).addr % 2 = 0 ∧
      regName (a.word core second).addr = a.word core second := by
  have hvoice : ∀ (core : Fin 2) (voice : Fin 24) (address : Fin 6),
      (Name.VoiceAddr core voice address).addr < 0x800 ∧
        (Name.VoiceAddr core voice address).addr % 2 = 0 ∧
        regName (Name.VoiceAddr core voice address).addr = .VoiceAddr core voice address := by
    decide +kernel
  rcases Fin.exists_fin_two.mp ⟨core, rfl⟩ with rfl | rfl
  all_goals cases a with
    | SSA voice => exact hvoice _ voice _
    | LSAX voice => exact hvoice _ voice _
    | R r => cases r <;> cases second <;> decide +kernel
    | _ => cases second <;> decide +kernel

theorem Address.write_word (core : Fin 2) (second : Bool) (a : Address) :
    SPU2_FastWrite s (a.word core second).addr value =
      (a.word core second).handler.write s value := by
  obtain ⟨hlt, heven, hname⟩ := a.word_spec core second
  have hdiv : 2 * ((a.word core second).addr / 2) = (a.word core second).addr := by omega
  rw [fastWrite_eq s hlt, hdiv, hname]

theorem Combines.of_halves {a : Address}
    (hhigh : ∀ s value (h : Half), h.get ((a.word core false).handler.write s value (a.cell core)) =
      if h = .hi then value else h.get (s (a.cell core)))
    (hlow : ∀ s value (h : Half), h.get ((a.word core true).handler.write s value (a.cell core)) =
      if h = .lo then value else h.get (s (a.cell core)))
    (hvalue : ∀ high low, a.value high low = high ++ low) : Combines core a := by
  constructor
  · intro s high low
    rw [Address.write_word, Address.write_word, hvalue]
    apply Half.get_ext
    intro h
    rw [hlow, hhigh]
    cases h with
    | lo => exact (Half.lo_get_append high low).symm
    | hi => exact (Half.hi_get_append high low).symm
  · intro s high low
    rw [Address.write_word, Address.write_word, hvalue]
    apply Half.get_ext
    intro h
    rw [hhigh, hlow]
    cases h with
    | lo => exact (Half.lo_get_append high low).symm
    | hi => exact (Half.hi_get_append high low).symm

theorem get_set_put (p : U16P) (h : Half) :
    h.get (p.write s value p.cell) = if h = p.half then value else h.get (s p.cell) := by
  rw [U16P.write, State.set, Function.update_self, Half.get_put]

theorem default_write {reg : CoreReg} {second : Bool} {a : Address}
    (hword : a.word core second = .Core core reg second) :
    (regtable ((reg.omem second ||| if core = 1 then 0x400 else 0) >>> 1)).write s value =
      (Name.Core core reg second).place.write s value := by
  obtain ⟨hlt, heven, hname⟩ := a.word_spec core second
  rw [hword] at hlt heven hname
  have hdiv : 2 * ((Name.Core core reg second).addr / 2) = (Name.Core core reg second).addr := by
    omega
  rw [omem_or, regtable_addr (Nat.div_lt_of_lt_mul hlt) (hdiv.symm ▸ hname)]
  rfl

theorem combines_stored {a : Address}
    (hhigh : ∀ (s : State) value, (a.word core false).handler.write s value =
      U16P.write ⟨a.cell core, .hi⟩ s value)
    (hlow : ∀ (s : State) value, (a.word core true).handler.write s value =
      U16P.write ⟨a.cell core, .lo⟩ s value)
    (hvalue : ∀ high low, a.value high low = high ++ low) : Combines core a := by
  refine .of_halves (fun s value h => ?_) (fun s value h => ?_) hvalue
  · rw [hhigh]
    exact get_set_put ⟨a.cell core, .hi⟩ h
  · rw [hlow]
    exact get_set_put ⟨a.cell core, .lo⟩ h

theorem combines_IRQA : Combines core .IRQA :=
  combines_stored (fun _ _ => default_write (a := .IRQA) rfl)
    (fun _ _ => default_write (a := .IRQA) rfl) fun _ _ => rfl

theorem combines_TSA : Combines core .TSA :=
  combines_stored (fun _ _ => default_write (a := .TSA) rfl)
    (fun _ _ => default_write (a := .TSA) rfl) fun _ _ => rfl

theorem combines_R (r : RevbAddr) : Combines 0 (.R r) :=
  combines_stored (fun _ _ => reverb_eq 0 r) (fun _ _ => default_write (a := .R r) rfl)
    fun _ _ => rfl

theorem updateArea_apply {inner ext f : CoreCell} (hf : ¬ areaOwns inner f) :
    updateArea core inner ext s (.Cores core f) = s (.Cores core f) := by
  have hne (g : CoreCell) (hg : areaOwns inner g) : Cell.Cores core f ≠ .Cores core g := by
    rintro heq
    cases heq
    exact hf hg
  exact updateArea_frame (hne _ (.inl rfl)) (hne _ (.inr (.inl rfl))) (hne _ (.inr (.inr rfl)))

theorem combines_ESA : Combines core .ESA := by
  have harea : ¬ areaOwns .EffectsStartA .ExtEffectsStartA := by simp [areaOwns]
  refine .of_halves (fun s value h => ?_) (fun s value h => ?_) fun _ _ => rfl
  · exact (congrArg h.get (updateArea_apply harea)).trans
      (get_set_put ⟨.Cores core .ExtEffectsStartA, .hi⟩ h)
  · exact (congrArg h.get (updateArea_apply harea)).trans
      (get_set_put ⟨.Cores core .ExtEffectsStartA, .lo⟩ h)

theorem combines_EEA : Combines core .EEA := by
  have harea : ¬ areaOwns .EffectsEndA .ExtEffectsEndA := by simp [areaOwns]
  have hset (s : State) (value : BitVec 16) :
      RegWrite_Core core .REG_A_EEA false s value (.Cores core .ExtEffectsEndA) =
        value ++ 0xffff#16 := by
    refine (updateArea_apply harea).trans ?_
    rw [State.set, Function.update_self]
  constructor
  · intro s high low
    rw [Address.write_word, Address.write_word]
    exact hset s high
  · intro s high low
    rw [Address.write_word, Address.write_word]
    exact hset _ high

theorem Half.hi_get_shiftLeft (x : BitVec 32) : hi.get (x <<< 16) = lo.get x := by
  apply BitVec.eq_of_getLsbD_eq
  intro i hi
  have hlt : 16 + i < 32 := by omega
  have hge : ¬ 16 + i < 16 := by omega
  simp only [get, BitVec.getLsbD_extractLsb', BitVec.getLsbD_shiftLeft, hi, hlt, hge, decide_true,
    decide_false, Bool.true_and, Bool.not_false, Nat.add_sub_cancel_left, Nat.zero_add]

theorem Half.lo_get_shiftLeft (x : BitVec 32) : lo.get (x <<< 16) = 0#16 := by
  apply BitVec.eq_of_getLsbD_eq
  intro i hi
  simp [get, hi, Nat.lt_trans hi]

theorem Half.hi_get_setWidth (value : BitVec 16) : hi.get (value.setWidth 32) = 0#16 := by
  apply BitVec.eq_of_getLsbD_eq
  intro i hi
  simp [get, hi]

theorem Half.get_append_and (h : Half) (high low : BitVec 16) (x : BitVec 32) :
    h.get ((high ++ low : BitVec 32) &&& x) = (if h = .hi then high else low) &&& h.get x := by
  refine (get_and h _ x).trans ?_
  cases h with
  | lo => exact congrArg (· &&& _) (lo_get_append high low)
  | hi => exact congrArg (· &&& _) (hi_get_append high low)

theorem address_highFirst (x : BitVec 32) (high low : BitVec 16) :
    ((high.setWidth 32 &&& 0x0f) <<< 16 ||| x &&& 0xfff8) &&& 0x0f0000 |||
      low.setWidth 32 &&& 0xfff8 = (high ++ low : BitVec 32) &&& 0xffff8 := by
  have hhigh : Half.hi.get (0x0f0000 : BitVec 32) = 0x0f ∧ Half.lo.get (0x0f : BitVec 32) = 0x0f ∧
      Half.hi.get (0xffff8 : BitVec 32) = 0x0f ∧ Half.hi.get (0xfff8 : BitVec 32) = 0#16 := by decide
  have hlow : Half.lo.get (0x0f0000 : BitVec 32) = 0#16 ∧
      Half.lo.get (0xffff8 : BitVec 32) = 0xfff8 ∧ Half.lo.get (0xfff8 : BitVec 32) = 0xfff8 := by
    decide
  apply Half.get_ext
  intro h
  cases h with
  | lo =>
    rw [Half.get_append_and, if_neg (by decide)]
    simp only [Half.get_and, Half.get_or, Half.lo_get_shiftLeft, Half.lo_get_setWidth, hlow,
      BitVec.and_zero, BitVec.zero_or]
  | hi =>
    rw [Half.get_append_and, if_pos rfl]
    simp only [Half.get_and, Half.get_or, Half.hi_get_shiftLeft, Half.lo_get_setWidth,
      Half.hi_get_setWidth, hhigh, BitVec.and_zero, BitVec.or_zero, BitVec.and_assoc,
      BitVec.and_self]

theorem address_lowFirst (x : BitVec 32) (high low : BitVec 16) :
    (high.setWidth 32 &&& 0x0f) <<< 16 ||| (x &&& 0x0f0000 ||| low.setWidth 32 &&& 0xfff8) &&& 0xfff8
      = (high ++ low : BitVec 32) &&& 0xffff8 := by
  have hhigh : Half.lo.get (0x0f : BitVec 32) = 0x0f ∧
      Half.hi.get (0xffff8 : BitVec 32) = 0x0f ∧ Half.hi.get (0xfff8 : BitVec 32) = 0#16 := by decide
  have hlow : Half.lo.get (0x0f0000 : BitVec 32) = 0#16 ∧
      Half.lo.get (0xffff8 : BitVec 32) = 0xfff8 ∧ Half.lo.get (0xfff8 : BitVec 32) = 0xfff8 := by
    decide
  apply Half.get_ext
  intro h
  cases h with
  | lo =>
    rw [Half.get_append_and, if_neg (by decide)]
    simp only [Half.get_and, Half.get_or, Half.lo_get_shiftLeft, Half.lo_get_setWidth, hlow,
      BitVec.and_zero, BitVec.zero_or, BitVec.and_assoc, BitVec.and_self]
  | hi =>
    rw [Half.get_append_and, if_pos rfl]
    simp only [Half.get_and, Half.get_or, Half.hi_get_shiftLeft, Half.lo_get_setWidth, hhigh,
      BitVec.and_zero, BitVec.or_zero]

theorem combines_SSA (voice : Fin 24) : Combines core (.SSA voice) := by
  constructor
  · intro s high low
    rw [Address.write_word, Address.write_word]
    refine Eq.trans ?_ (address_highFirst (s (.Cores core (.Voices voice .StartA))) high low)
    dsimp only [Address.word, Name.handler, Handler.write, RegWrite_VoiceAddr, Address.cell]
    simp only [if_true, State.set, Function.update_self, Bool.false_eq_true, if_false]
  · intro s high low
    rw [Address.write_word, Address.write_word]
    refine Eq.trans ?_ (address_lowFirst (s (.Cores core (.Voices voice .StartA))) high low)
    dsimp only [Address.word, Name.handler, Handler.write, RegWrite_VoiceAddr, Address.cell]
    simp only [if_true, State.set, Function.update_self, Bool.false_eq_true, if_false]

theorem combines_LSAX (voice : Fin 24) : Combines core (.LSAX voice) := by
  have hne : Cell.Cores core (.Voices voice .LoopStartA) ≠ .Cores core (.Voices voice .LoopMode) :=
    fun heq => by cases heq
  constructor
  · intro s high low
    rw [Address.write_word, Address.write_word]
    refine Eq.trans ?_ (address_highFirst (s (.Cores core (.Voices voice .LoopStartA))) high low)
    dsimp only [Address.word, Name.handler, Handler.write, RegWrite_VoiceAddr, Address.cell]
    simp only [if_true, State.set, Function.update_self, Function.update_of_ne hne,
      Bool.false_eq_true, if_false]
  · intro s high low
    rw [Address.write_word, Address.write_word]
    refine Eq.trans ?_ (address_lowFirst (s (.Cores core (.Voices voice .LoopStartA))) high low)
    dsimp only [Address.word, Name.handler, Handler.write, RegWrite_VoiceAddr, Address.cell]
    simp only [if_true, State.set, Function.update_self, Function.update_of_ne hne,
      Bool.false_eq_true, if_false]

theorem not_combines (r : RevbAddr) : ¬ Combines 1 (.R r) := by
  intro hcomb
  have hhigh := congrArg Half.hi.get (hcomb.lowFirst (fun _ => 0) 1 0)
  rw [Address.write_word, Address.write_word] at hhigh
  -- neither word reaches the high half
  have hfirst (s : State) : (Name.Core 1 (.R r) false).handler.write s 1 (.Cores 1 (.Revb r)) =
      s (.Cores 1 (.Revb r)) := by
    have hwrite : RegWrite_Reverb 1 (wired 1 r) s 1 (.Cores 1 (.Revb r)) =
        s (.Cores 1 (.Revb r)) := by
      rw [reverb_eq, U16P.write]
      exact State.set_of_ne _ fun heq => by cases heq
    exact hwrite
  have hsecond (s : State) : Half.hi.get
      ((Name.Core 1 (.R r) true).handler.write s 0 (.Cores 1 (.Revb r))) =
      Half.hi.get (s (.Cores 1 (.Revb r))) := by
    have hwrite : (Name.Core 1 (.R r) true).handler.write s 0 =
        U16P.write ⟨.Cores 1 (.Revb (wired 1 r)), .lo⟩ s 0 := default_write (a := .R (wired 1 r)) rfl
    rw [hwrite]
    exact U16P.get_write _ fun heq => Half.noConfusion heq.2
  have hzero := (congrArg Half.hi.get (hfirst _)).trans (hsecond fun _ => 0)
  have hvalue : Half.hi.get (1#16 ++ 0#16) = Half.hi.get 0 := hhigh.symm.trans hzero
  exact absurd hvalue (by decide)

theorem combines_iff (a : Address) : Combines core a ↔ ¬ (core = 1 ∧ ∃ r, a = .R r) := by
  constructor
  · rintro hcomb ⟨rfl, r, rfl⟩
    exact not_combines r hcomb
  · intro hcore
    cases a with
    | IRQA => exact combines_IRQA
    | TSA => exact combines_TSA
    | ESA => exact combines_ESA
    | EEA => exact combines_EEA
    | R r =>
      rcases Fin.exists_fin_two.mp ⟨core, rfl⟩ with rfl | rfl
      · exact combines_R r
      · exact absurd ⟨rfl, r, rfl⟩ hcore
    | SSA voice => exact combines_SSA voice
    | LSAX voice => exact combines_LSAX voice

/-- Writes reach their registers, and the words of an address combine, but for the second core's
reverb; after direct writes, plain parameters are read back. -/
theorem writesReach_iff (s : State) (before : List (Nat × BitVec 16)) :
    (∀ addr < 0x800, Reaches addr ↔ ¬ Misdirected addr) ∧
    (∀ core a, Combines core a ↔ ¬ (core = 1 ∧ ∃ r, a = .R r)) ∧
    ∀ addr value after, (register addr).plain = true → Direct (addr, value) →
      (∀ w ∈ after, Direct w ∧ w.1 / 2 ≠ addr / 2) →
      SPU2read (writes s (before ++ (addr, value) :: after)) addr = value :=
  ⟨fun _ haddr => reaches_addr_iff haddr, fun _ a => combines_iff a,
    fun _ _ _ hplain hw hafter => read_last hplain hw hafter⟩

/-- A word for `APF1_SIZE` of the second core. -/
theorem not_reaches : ¬ ∀ addr < 0x800, Reaches addr := fun hall =>
  not_reaches_of_misdirected (by decide : Misdirected 0x6e4) (hall 0x6e4 (by decide))

end OmegaRed.Spu2.Registers
