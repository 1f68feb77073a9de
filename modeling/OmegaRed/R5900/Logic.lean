import OmegaRed.R5900.Arit

/-! Generators of the bitwise and compare instructions. -/

namespace OmegaRed.R5900

open Lib.Halves Lib.X86

/-- `for (int i = 0; i < 2; i++)` over the dwords of a register -/
def forUL (p : Fin 2 → X86Code) : X86Code := p 0 ++ p 1

def recAND_const : Gen := folds Code.Rd fun c r => r.constRegs c.Rs &&& r.constRegs c.Rt

def recAND_word (rd : Fin 32) (cval : BitVec 64) (vreg : Fin 32) (i : Fin 2) : X86Code :=
  if UL cval i = 0#32 then [.mov (.mem (gprUL rd i)) (.imm 0)]
  else if rd = vreg then
    if UL cval i = 0xffffffff#32 then [] else [.alu .and (.mem (gprUL rd i)) (.imm (UL cval i))]
  else
    .mov .eax (.mem (gprUL vreg i)) ::
      (if UL cval i = 0xffffffff#32 then [] else [.alu .and .eax (.imm (UL cval i))]) ++
      [.mov (.mem (gprUL rd i)) .eax]

def recAND_constv (rd : Fin 32) (cval : BitVec 64) (vreg : Fin 32) : X86Code :=
  forUL (recAND_word rd cval vreg)

def recAND_consts : Gen := emits fun c r => recAND_constv c.Rd (r.constRegs c.Rs) c.Rt
def recAND_constt : Gen := emits fun c r => recAND_constv c.Rd (r.constRegs c.Rt) c.Rs

/-- The sources, `rd` first when it is one of them. -/
def swapped (c : Code) : Fin 32 × Fin 32 := if c.Rd = c.Rt then (c.Rt, c.Rs) else (c.Rs, c.Rt)

def recAND_gen (rd rs rt : Fin 32) (i : Fin 2) : X86Code :=
  if rd = rs then
    if rs = rt then []
    else [.mov .eax (.mem (gprUL rt i)), .alu .and (.mem (gprUL rd i)) .eax]
  else
    .mov .eax (.mem (gprUL rs i)) ::
      (if rs = rt then [] else [.alu .and .eax (.mem (gprUL rt i))]) ++
      [.mov (.mem (gprUL rd i)) .eax]

def recAND_ : Gen := emits fun c _ => forUL (recAND_gen c.Rd (swapped c).1 (swapped c).2)

def recAND : Gen := eeRecompileCode0 recAND_const recAND_consts recAND_constt recAND_ true

def recOR_const : Gen := folds Code.Rd fun c r => r.constRegs c.Rs ||| r.constRegs c.Rt

def recOR_word (rd : Fin 32) (cval : BitVec 64) (vreg : Fin 32) (i : Fin 2) : X86Code :=
  if UL cval i = 0xffffffff#32 then [.mov (.mem (gprUL rd i)) (.imm 0xffffffff#32)]
  else if rd = vreg then
    if UL cval i = 0#32 then [] else [.alu .or (.mem (gprUL rd i)) (.imm (UL cval i))]
  else
    .mov .eax (.mem (gprUL vreg i)) ::
      (if UL cval i = 0#32 then [] else [.alu .or .eax (.imm (UL cval i))]) ++
      [.mov (.mem (gprUL rd i)) .eax]

def recOR_constv (rd : Fin 32) (cval : BitVec 64) (vreg : Fin 32) : X86Code :=
  forUL (recOR_word rd cval vreg)

def recOR_consts : Gen := emits fun c r => recOR_constv c.Rd (r.constRegs c.Rs) c.Rt
def recOR_constt : Gen := emits fun c r => recOR_constv c.Rd (r.constRegs c.Rt) c.Rs

def recOR_gen (rd rs rt : Fin 32) (i : Fin 2) : X86Code :=
  if rd = rs then
    if rs = rt then []
    else [.mov .eax (.mem (gprUL rt i)), .alu .or (.mem (gprUL rd i)) .eax]
  else
    .mov .eax (.mem (gprUL rs i)) ::
      (if rs = rt then [] else [.alu .or .eax (.mem (gprUL rt i))]) ++
      [.mov (.mem (gprUL rd i)) .eax]

def recOR_ : Gen := emits fun c _ => forUL (recOR_gen c.Rd (swapped c).1 (swapped c).2)

def recOR : Gen := eeRecompileCode0 recOR_const recOR_consts recOR_constt recOR_ true

def recXOR_const : Gen := folds Code.Rd fun c r => r.constRegs c.Rs ^^^ r.constRegs c.Rt

def recXOR_word (rd : Fin 32) (cval : BitVec 64) (vreg : Fin 32) (i : Fin 2) : X86Code :=
  if rd = vreg then
    if UL cval i = 0#32 then [] else [.alu .xor (.mem (gprUL rd i)) (.imm (UL cval i))]
  else
    .mov .eax (.mem (gprUL vreg i)) ::
      (if UL cval i = 0#32 then [] else [.alu .xor .eax (.imm (UL cval i))]) ++
      [.mov (.mem (gprUL rd i)) .eax]

def recXOR_constv (rd : Fin 32) (cval : BitVec 64) (vreg : Fin 32) : X86Code :=
  forUL (recXOR_word rd cval vreg)

def recXOR_consts : Gen := emits fun c r => recXOR_constv c.Rd (r.constRegs c.Rs) c.Rt
def recXOR_constt : Gen := emits fun c r => recXOR_constv c.Rd (r.constRegs c.Rt) c.Rs

def recXOR_gen (rd rs rt : Fin 32) (i : Fin 2) : X86Code :=
  if rs = rt then [.mov (.mem (gprUL rd i)) (.imm 0)]
  else if rd = rs then
    [.mov .eax (.mem (gprUL rt i)), .alu .xor (.mem (gprUL rd i)) .eax]
  else
    [.mov .eax (.mem (gprUL rs i)), .alu .xor .eax (.mem (gprUL rt i)),
      .mov (.mem (gprUL rd i)) .eax]

def recXOR_ : Gen := emits fun c _ => forUL (recXOR_gen c.Rd (swapped c).1 (swapped c).2)

def recXOR : Gen := eeRecompileCode0 recXOR_const recXOR_consts recXOR_constt recXOR_ true

def recNOR_const : Gen := folds Code.Rd fun c r => ~~~(r.constRegs c.Rs ||| r.constRegs c.Rt)

def recNOR_word (rd : Fin 32) (cval : BitVec 64) (vreg : Fin 32) (i : Fin 2) : X86Code :=
  if rd = vreg then
    (if UL cval i = 0#32 then [] else [.alu .or (.mem (gprUL rd i)) (.imm (UL cval i))]) ++
      [.not (.mem (gprUL rd i))]
  else
    .mov .eax (.mem (gprUL vreg i)) ::
      (if UL cval i = 0#32 then [] else [.alu .or .eax (.imm (UL cval i))]) ++
      [.not .eax, .mov (.mem (gprUL rd i)) .eax]

def recNOR_constv (rd : Fin 32) (cval : BitVec 64) (vreg : Fin 32) : X86Code :=
  forUL (recNOR_word rd cval vreg)

def recNOR_consts : Gen := emits fun c r => recNOR_constv c.Rd (r.constRegs c.Rs) c.Rt
def recNOR_constt : Gen := emits fun c r => recNOR_constv c.Rd (r.constRegs c.Rt) c.Rs

def recNOR_gen (rd rs rt : Fin 32) (i : Fin 2) : X86Code :=
  if rd = rs then
    if rs = rt then [.not (.mem (gprUL rd i))]
    else [.mov .eax (.mem (gprUL rt i)), .alu .or (.mem (gprUL rd i)) .eax,
      .not (.mem (gprUL rd i))]
  else
    .mov .eax (.mem (gprUL rs i)) ::
      (if rs = rt then [] else [.alu .or .eax (.mem (gprUL rt i))]) ++
      [.not .eax, .mov (.mem (gprUL rd i)) .eax]

def recNOR_ : Gen := emits fun c _ => forUL (recNOR_gen c.Rd (swapped c).1 (swapped c).2)

def recNOR : Gen := eeRecompileCode0 recNOR_const recNOR_consts recNOR_constt recNOR_ true

section

variable {c : Code} {r : Rec} {s : Machine} {rd : Fin 32}

/-- Code that computes one dword of `rd` from the same dwords of `x` and `y`. -/
def WordPuts (rd x y : Fin 32) (p : Fin 2 → X86Code)
    (f : Fin 2 → BitVec 32 → BitVec 32 → BitVec 32) : Prop :=
  ∀ (i : Fin 2) (s : Machine), (exec (p i) s).map State.mem =
    some (Function.update s.mem (gprUL rd i) (f i (s.mem (gprUL x i)) (s.mem (gprUL y i))))

theorem forUL_emits {x y : Fin 32} {p : Fin 2 → X86Code}
    {f : Fin 2 → BitVec 32 → BitVec 32 → BitVec 32} (h : WordPuts rd x y p f) :
    Emits rd r (r.emit (forUL p)) s
      (join (f 1 (hi (Home.UD s.mem x)) (hi (Home.UD s.mem y)))
        (f 0 (lo (Home.UD s.mem x)) (lo (Home.UD s.mem y)))) := by
  apply emits_of_mem
  obtain ⟨s₁, h₁, hm₁⟩ := Option.map_eq_some_iff.mp (h 0 s)
  rw [forUL, exec_append s h₁, h 1 s₁, hm₁]
  simp [gprUL, Home.put, Home.UD]

theorem UL_zero (v : BitVec 64) : UL v 0 = lo v := rfl
theorem UL_one (v : BitVec 64) : UL v 1 = hi v := rfl

theorem ones_and (v : BitVec 32) : 0xffffffff#32 &&& v = v := BitVec.allOnes_and
theorem ones_or (v : BitVec 32) : 0xffffffff#32 ||| v = 0xffffffff#32 := BitVec.allOnes_or

theorem recAND_word_puts (rd : Fin 32) (cval : BitVec 64) (vreg : Fin 32) :
    WordPuts rd vreg vreg (recAND_word rd cval vreg) fun i v _ => UL cval i &&& v := by
  intro i s
  by_cases h₀ : UL cval i = 0#32
  · simp [recAND_word, h₀]
  · by_cases h₁ : UL cval i = 0xffffffff#32 <;> by_cases hd : rd = vreg <;>
      simp [recAND_word, h₀, h₁, hd, ones_and, BitVec.and_comm]

theorem recAND_gen_puts (rd : Fin 32) (rs rt : Fin 32) :
    WordPuts rd rs rt (recAND_gen rd rs rt) fun _ v w => v &&& w := by
  intro i s
  by_cases hs : rs = rt
  · subst hs
    by_cases hd : rd = rs <;> simp [recAND_gen, hd]
  · by_cases hd : rd = rs <;> simp [recAND_gen, hd, hs]

theorem recOR_word_puts (rd : Fin 32) (cval : BitVec 64) (vreg : Fin 32) :
    WordPuts rd vreg vreg (recOR_word rd cval vreg) fun i v _ => UL cval i ||| v := by
  intro i s
  by_cases h₁ : UL cval i = 0xffffffff#32
  · simp [recOR_word, h₁, ones_or]
  · by_cases h₀ : UL cval i = 0#32 <;> by_cases hd : rd = vreg <;>
      simp [recOR_word, h₀, h₁, hd, BitVec.or_comm]

theorem recOR_gen_puts (rd : Fin 32) (rs rt : Fin 32) :
    WordPuts rd rs rt (recOR_gen rd rs rt) fun _ v w => v ||| w := by
  intro i s
  by_cases hs : rs = rt
  · subst hs
    by_cases hd : rd = rs <;> simp [recOR_gen, hd]
  · by_cases hd : rd = rs <;> simp [recOR_gen, hd, hs]

theorem recXOR_word_puts (rd : Fin 32) (cval : BitVec 64) (vreg : Fin 32) :
    WordPuts rd vreg vreg (recXOR_word rd cval vreg) fun i v _ => UL cval i ^^^ v := by
  intro i s
  by_cases h₀ : UL cval i = 0#32 <;> by_cases hd : rd = vreg <;>
    simp [recXOR_word, h₀, hd, BitVec.xor_comm]

theorem recXOR_gen_puts (rd : Fin 32) (rs rt : Fin 32) :
    WordPuts rd rs rt (recXOR_gen rd rs rt) fun _ v w => v ^^^ w := by
  intro i s
  by_cases hs : rs = rt <;> by_cases hd : rd = rs <;> simp [recXOR_gen, hd, hs]

theorem recNOR_word_puts (rd : Fin 32) (cval : BitVec 64) (vreg : Fin 32) :
    WordPuts rd vreg vreg (recNOR_word rd cval vreg) fun i v _ => ~~~(UL cval i ||| v) := by
  intro i s
  by_cases h₀ : UL cval i = 0#32 <;> by_cases hd : rd = vreg <;>
    simp [recNOR_word, h₀, hd, BitVec.or_comm]

theorem recNOR_gen_puts (rd : Fin 32) (rs rt : Fin 32) :
    WordPuts rd rs rt (recNOR_gen rd rs rt) fun _ v w => ~~~(v ||| w) := by
  intro i s
  by_cases hs : rs = rt
  · subst hs
    by_cases hd : rd = rs <;> simp [recNOR_gen, hd]
  · by_cases hd : rd = rs <;> simp [recNOR_gen, hd, hs]

theorem swapped_eq (c : Code) : swapped c = (c.Rs, c.Rt) ∨ swapped c = (c.Rt, c.Rs) := by
  rw [swapped]
  split
  · exact .inr rfl
  · exact .inl rfl

theorem recAND_constv_emits (cval : BitVec 64) (vreg : Fin 32) :
    Emits rd r (r.emit (recAND_constv rd cval vreg)) s (cval &&& Home.UD s.mem vreg) := by
  have h := forUL_emits (r := r) (s := s) (recAND_word_puts rd cval vreg)
  rwa [UL_zero, UL_one, ← join_and, join_hi_lo, join_hi_lo] at h

theorem recAND_emits : Emits c.Rd r (recAND_ c r) s
    (Home.UD s.mem c.Rs &&& Home.UD s.mem c.Rt) := by
  have h := forUL_emits (r := r) (s := s) (recAND_gen_puts c.Rd (swapped c).1 (swapped c).2)
  rw [← join_and, join_hi_lo, join_hi_lo] at h
  obtain hc | hc := swapped_eq c
  · rw [hc] at h
    rwa [recAND_, emits, hc]
  · rw [hc, BitVec.and_comm] at h
    rwa [recAND_, emits, hc]

theorem recAND_represents {s₀ : Machine} {regs : CpuRegs} (h : Represents r s₀ regs) :
    Represents (recAND c r) s₀ (regs.put c.Rd (regs.UD c.Rs &&& regs.UD c.Rt)) := by
  apply code0_of_emits (fun v w => v &&& w) h
  · exact fun _ => rfl
  · exact fun s => recAND_constv_emits (r.constRegs c.Rs) c.Rt
  · intro s
    rw [BitVec.and_comm]
    exact recAND_constv_emits (r.constRegs c.Rt) c.Rs
  · exact fun s => recAND_emits

theorem recOR_constv_emits (cval : BitVec 64) (vreg : Fin 32) :
    Emits rd r (r.emit (recOR_constv rd cval vreg)) s (cval ||| Home.UD s.mem vreg) := by
  have h := forUL_emits (r := r) (s := s) (recOR_word_puts rd cval vreg)
  rwa [UL_zero, UL_one, ← join_or, join_hi_lo, join_hi_lo] at h

theorem recOR_emits : Emits c.Rd r (recOR_ c r) s
    (Home.UD s.mem c.Rs ||| Home.UD s.mem c.Rt) := by
  have h := forUL_emits (r := r) (s := s) (recOR_gen_puts c.Rd (swapped c).1 (swapped c).2)
  rw [← join_or, join_hi_lo, join_hi_lo] at h
  obtain hc | hc := swapped_eq c
  · rw [hc] at h
    rwa [recOR_, emits, hc]
  · rw [hc, BitVec.or_comm] at h
    rwa [recOR_, emits, hc]

theorem recOR_represents {s₀ : Machine} {regs : CpuRegs} (h : Represents r s₀ regs) :
    Represents (recOR c r) s₀ (regs.put c.Rd (regs.UD c.Rs ||| regs.UD c.Rt)) := by
  apply code0_of_emits (fun v w => v ||| w) h
  · exact fun _ => rfl
  · exact fun s => recOR_constv_emits (r.constRegs c.Rs) c.Rt
  · intro s
    rw [BitVec.or_comm]
    exact recOR_constv_emits (r.constRegs c.Rt) c.Rs
  · exact fun s => recOR_emits

theorem recXOR_constv_emits (cval : BitVec 64) (vreg : Fin 32) :
    Emits rd r (r.emit (recXOR_constv rd cval vreg)) s (cval ^^^ Home.UD s.mem vreg) := by
  have h := forUL_emits (r := r) (s := s) (recXOR_word_puts rd cval vreg)
  rwa [UL_zero, UL_one, ← join_xor, join_hi_lo, join_hi_lo] at h

theorem recXOR_emits : Emits c.Rd r (recXOR_ c r) s
    (Home.UD s.mem c.Rs ^^^ Home.UD s.mem c.Rt) := by
  have h := forUL_emits (r := r) (s := s) (recXOR_gen_puts c.Rd (swapped c).1 (swapped c).2)
  rw [← join_xor, join_hi_lo, join_hi_lo] at h
  obtain hc | hc := swapped_eq c
  · rw [hc] at h
    rwa [recXOR_, emits, hc]
  · rw [hc, BitVec.xor_comm] at h
    rwa [recXOR_, emits, hc]

theorem recXOR_represents {s₀ : Machine} {regs : CpuRegs} (h : Represents r s₀ regs) :
    Represents (recXOR c r) s₀ (regs.put c.Rd (regs.UD c.Rs ^^^ regs.UD c.Rt)) := by
  apply code0_of_emits (fun v w => v ^^^ w) h
  · exact fun _ => rfl
  · exact fun s => recXOR_constv_emits (r.constRegs c.Rs) c.Rt
  · intro s
    rw [BitVec.xor_comm]
    exact recXOR_constv_emits (r.constRegs c.Rt) c.Rs
  · exact fun s => recXOR_emits

theorem recNOR_constv_emits (cval : BitVec 64) (vreg : Fin 32) :
    Emits rd r (r.emit (recNOR_constv rd cval vreg)) s (~~~(cval ||| Home.UD s.mem vreg)) := by
  have h := forUL_emits (r := r) (s := s) (recNOR_word_puts rd cval vreg)
  rwa [UL_zero, UL_one, ← not_join, ← join_or, join_hi_lo, join_hi_lo] at h

theorem recNOR_emits : Emits c.Rd r (recNOR_ c r) s
    (~~~(Home.UD s.mem c.Rs ||| Home.UD s.mem c.Rt)) := by
  have h := forUL_emits (r := r) (s := s) (recNOR_gen_puts c.Rd (swapped c).1 (swapped c).2)
  rw [← not_join, ← join_or, join_hi_lo, join_hi_lo] at h
  obtain hc | hc := swapped_eq c
  · rw [hc] at h
    rwa [recNOR_, emits, hc]
  · rw [hc, BitVec.or_comm] at h
    rwa [recNOR_, emits, hc]

theorem recNOR_represents {s₀ : Machine} {regs : CpuRegs} (h : Represents r s₀ regs) :
    Represents (recNOR c r) s₀ (regs.put c.Rd (~~~(regs.UD c.Rs ||| regs.UD c.Rt))) := by
  apply code0_of_emits (fun v w => ~~~(v ||| w)) h
  · exact fun _ => rfl
  · exact fun s => recNOR_constv_emits (r.constRegs c.Rs) c.Rt
  · intro s
    rw [BitVec.or_comm]
    exact recNOR_constv_emits (r.constRegs c.Rt) c.Rs
  · exact fun s => recNOR_emits

end

end OmegaRed.R5900
