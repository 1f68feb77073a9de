import OmegaRed.CDVD.CdRom
import Mathlib.Data.List.Forall2

/-! The data port gives the bytes of the last sector, in order. -/

namespace OmegaRed.CDVD.CdRom

open cdrStruct

/-- What the data port is for: the sector that came last (zeros before the first one, and in the
place of one that could not be read), and the next byte of it once it was asked for. -/
structure Port where
  sector : Nat → u8
  pos : Option Nat

namespace Port

def empty : Port := ⟨fun _ => 0, none⟩

/-- `RErr`, and the sector that the disc gives. -/
def arrives (s : cdrStruct) (env : Env) : Int × (Nat → u8) :=
  if s.RErr = 0 then env.getBuffer else (s.RErr, s.Transfer)

/-- A sector comes, or an error. -/
def deliver (p : Port) (s : cdrStruct) (env : Env) : Port :=
  if s.Reading = 0 ∨ s.Stat ≠ 0 then p
  else if (arrives s env).1 = -1 then { p with sector := fun _ => 0 }
  else ⟨(arrives s env).2, none⟩

def write3 (p : Port) (s : cdrStruct) (rt : u8) : Port :=
  if s.Requests rt then { p with pos := some s.start } else p

/-- The next `n` bytes. -/
def take (p : Port) (n : Nat) : List u8 :=
  match p.pos with
  | none => []
  | some pos => (List.range n).map fun k => p.sector (pos + k)

def advance (p : Port) (n : Nat) : Port := { p with pos := p.pos.map (· + n) }

end Port

/-- The port of this process, and those in the savestates. -/
structure Ports where
  port : Port
  files : List Port

namespace Ports

def next (g : Ports) (w : World) : Event → Ports
  | .read 2 => { g with port := g.port.advance 1 }
  | .write 3 rt => { g with port := g.port.write3 w.cdr rt }
  | .readInterrupt env => { g with port := g.port.deliver w.cdr env }
  | .dma3 _ bcr chcr => if Moves chcr then { g with port := g.port.advance (cdsize bcr) } else g
  | .reset => { g with port := .empty }
  | .save => { g with files := g.files ++ [g.port] }
  | .load i => { g with port := g.files[i]?.getD g.port }
  | .restart _ => { g with port := .empty }
  | _ => g

/-- What the data port or the DMA should give; the port gives zero when no data was asked for. -/
def gives (g : Ports) : Event → List u8
  | .read 2 => if g.port.pos = none then [0] else g.port.take 1
  | .dma3 _ bcr chcr => if Moves chcr then g.port.take (cdsize bcr) else []
  | _ => []

end Ports

/-- The data pointer is inside of the buffer or at its end, or was never set. -/
def World.Inside (w : World) : Prop :=
  w.cdr.pTransfer = 0 ∨ (w.base ≤ w.cdr.pTransfer ∧ w.cdr.pTransfer ≤ w.base + 2352)

/-- No access outside, the pointer inside, and the bytes that the port should give, at every
step. -/
def Keeps : World → Ports → List Event → Prop
  | w, _, [] => w.Inside
  | w, g, e :: es => w.Inside ∧ ∃ w', step w e = some (w', g.gives e) ∧ Keeps w' (g.next w e) es

/-- What an event needs. -/
def Event.Fits (w : World) (g : Ports) : Event → Prop
  | .read 2 => w.cdr.Readed ≠ 0 → ∃ pos, g.port.pos = some pos ∧ pos < 2352
  | .dma3 madr bcr chcr => Moves chcr → w.cdr.Readed ≠ 0 → cdsize bcr ≠ 0 →
      (∃ pos, g.port.pos = some pos ∧ pos + cdsize bcr ≤ 2352) ∧
        (madr &&& 0x1fffff#32).toNat + cdsize bcr ≤ 0x200000
  | .load i => ∀ file, w.files[i]? = some file → file.1.pTransfer = 0 ∨ file.2 = w.base
  | _ => True

/-- Every event of a run finds what it needs. -/
def Meets : World → Ports → List Event → Prop
  | _, _, [] => True
  | w, g, e :: es => e.Fits w g ∧ ∀ w' out, step w e = some (w', out) → Meets w' (g.next w e) es

/-- The drive agrees with its port. -/
structure Agrees (s : cdrStruct) (base : ℕ+) (p : Port) : Prop where
  sector : s.Transfer = p.sector
  idle : s.Readed = 0 → p.pos = none
  pos : ∀ pos, p.pos = some pos → pos ≤ 2352 ∧ s.pTransfer = base + pos
  inside : s.pTransfer = 0 ∨ (base ≤ s.pTransfer ∧ s.pTransfer ≤ base + 2352)

/-- The data of the port is left as it is. -/
structure SameData (s t : cdrStruct) : Prop where
  Transfer : t.Transfer = s.Transfer
  pTransfer : t.pTransfer = s.pTransfer
  Readed : t.Readed = s.Readed

variable {s t u : cdrStruct} {base : ℕ+} {p : Port} {env : Env}

theorem SameData.trans (h : SameData s t) (h' : SameData t u) : SameData s u :=
  ⟨h'.1.trans h.1, h'.2.trans h.2, h'.3.trans h.3⟩

theorem SameData.agrees (h : SameData s t) (ha : Agrees s base p) : Agrees t base p := by
  obtain ⟨hT, hp, hR⟩ := h
  refine ⟨hT.trans ha.sector, fun hidle => ha.idle (hR ▸ hidle), fun pos hpos => ?_, ?_⟩
  · rw [hp]
    exact ha.pos pos hpos
  · rw [hp]
    exact ha.inside

theorem getTN_same : SameData s (s.getTN env) := by
  unfold getTN
  dsimp only
  split
  · exact ⟨rfl, rfl, rfl⟩
  · exact ⟨rfl, rfl, rfl⟩

theorem getTD_same : SameData s (s.getTD env) := by
  unfold getTD
  dsimp only
  split
  · exact ⟨rfl, rfl, rfl⟩
  · exact ⟨rfl, rfl, rfl⟩

theorem test_same : SameData s s.test := by
  unfold test
  dsimp only
  split
  all_goals exact ⟨rfl, rfl, rfl⟩

theorem readAck_same : SameData s (s.readAck env) := by
  unfold readAck
  split
  · exact ⟨rfl, rfl, rfl⟩
  · exact ⟨rfl, rfl, rfl⟩

theorem serve_same (irq : Nat) : SameData s (s.serve env irq) := by
  unfold serve
  split
  case h_20 => exact getTN_same
  case h_21 => exact getTD_same
  case h_26 => exact test_same
  case h_33 => exact readAck_same
  all_goals exact ⟨rfl, rfl, rfl⟩

theorem cdrInterrupt_same : SameData s (s.cdrInterrupt env) := by
  unfold cdrInterrupt
  split
  · exact ⟨rfl, rfl, rfl⟩
  · refine SameData.trans ?_ (serve_same _)
    exact ⟨rfl, rfl, rfl⟩

theorem cdrRead0_same : SameData s s.cdrRead0.1 := ⟨rfl, rfl, rfl⟩

theorem cdrRead1_same : SameData s s.cdrRead1.1 := by
  unfold cdrRead1
  split
  · exact ⟨rfl, rfl, rfl⟩
  · exact ⟨rfl, rfl, rfl⟩

theorem cdrWrite0_same (rt : u8) : SameData s (s.cdrWrite0 rt) := by
  unfold cdrWrite0
  dsimp only
  split
  · exact ⟨rfl, rfl, rfl⟩
  · exact ⟨rfl, rfl, rfl⟩

theorem cdrWrite2_same (rt : u8) : SameData s (s.cdrWrite2 rt) := by
  unfold cdrWrite2
  split
  · split
    · exact ⟨rfl, rfl, rfl⟩
    · exact ⟨rfl, rfl, rfl⟩
  · split
    · exact ⟨rfl, rfl, rfl⟩
    · exact ⟨rfl, rfl, rfl⟩

theorem setloc_same : SameData s s.setloc := by
  unfold setloc
  dsimp only
  split
  · exact ⟨rfl, rfl, rfl⟩
  · exact ⟨rfl, rfl, rfl⟩

theorem StopCdda_same : SameData s s.StopCdda := by
  unfold StopCdda
  split
  · exact ⟨rfl, rfl, rfl⟩
  · exact ⟨rfl, rfl, rfl⟩

theorem queue_same : SameData s s.queue := ⟨rfl, rfl, rfl⟩

theorem startReading_agrees (ha : Agrees s base p) (type : Nat) :
    Agrees (s.startReading type) base p :=
  ⟨ha.sector, fun hidle => absurd hidle (by change ¬ (0xff#8 = 0); decide), ha.pos, ha.inside⟩

theorem cdrWrite1_agrees (ha : Agrees s base p) (rt : u8) : Agrees (s.cdrWrite1 rt) base p := by
  unfold cdrWrite1
  have hcmd : Agrees { s with Cmd := rt, OCUP := 0 } base p :=
    ⟨ha.sector, ha.idle, ha.pos, ha.inside⟩
  generalize ({ s with Cmd := rt, OCUP := 0 } : cdrStruct) = t at hcmd
  dsimp only
  split
  · exact hcmd
  split
  case h_3 => exact (setloc_same.trans queue_same).agrees hcmd
  case h_7 | h_26 => exact startReading_agrees hcmd _
  case h_8 | h_9 | h_10 | h_11 | h_12 =>
    refine SameData.agrees (StopCdda_same.trans ?_) hcmd
    exact ⟨rfl, rfl, rfl⟩
  case h_28 => exact hcmd
  all_goals
    refine SameData.agrees ?_ hcmd
    exact ⟨rfl, rfl, rfl⟩

theorem AddIrqQueue_same (irq : u8) : SameData s (s.AddIrqQueue irq) := ⟨rfl, rfl, rfl⟩

theorem ReadTrack_same : SameData s (s.ReadTrack env) := ⟨rfl, rfl, rfl⟩

theorem nextSector_same : SameData s s.nextSector := by
  unfold nextSector
  dsimp only
  split
  · split
    · exact ⟨rfl, rfl, rfl⟩
    · exact ⟨rfl, rfl, rfl⟩
  · exact ⟨rfl, rfl, rfl⟩

theorem getBuffer_eq : (s.getBuffer env).RErr = (Port.arrives s env).1 ∧
    (s.getBuffer env).Transfer = (Port.arrives s env).2 ∧
      (s.getBuffer env).pTransfer = s.pTransfer ∧ (s.getBuffer env).Readed = s.Readed := by
  unfold getBuffer Port.arrives
  split
  · exact ⟨rfl, rfl, rfl, rfl⟩
  · exact ⟨rfl, rfl, rfl, rfl⟩

theorem cdrReadInterrupt_agrees (ha : Agrees s base p) :
    Agrees (s.cdrReadInterrupt env) base (p.deliver s env) := by
  unfold cdrReadInterrupt Port.deliver
  by_cases hreading : s.Reading = 0
  · rw [if_pos hreading, if_pos (.inl hreading)]
    exact ha
  by_cases hstat : s.Stat ≠ 0
  · rw [if_neg hreading, if_pos hstat, if_pos (.inr hstat)]
    exact ha
  have hcomes : ¬(s.Reading = 0 ∨ s.Stat ≠ 0) := by tauto
  rw [if_neg hreading, if_neg hstat, if_neg hcomes]
  dsimp only
  generalize hb : (((({ s with OCUP := 1, StatP := s.StatP ||| 0x22#8 } : cdrStruct).SetResultSize
    1).setResult 0 _).getBuffer env) = b
  obtain ⟨herr, hsector, hpointer, hreaded⟩ : b.RErr = (Port.arrives s env).1 ∧
      b.Transfer = (Port.arrives s env).2 ∧ b.pTransfer = s.pTransfer ∧ b.Readed = s.Readed := by
    rw [← hb]
    exact getBuffer_eq
  rw [← herr, ← hsector]
  by_cases hfail : b.RErr = -1
  · rw [if_pos hfail, if_pos hfail]
    refine ⟨rfl, fun hidle => ha.idle (hreaded ▸ hidle), fun pos hpos => ?_, ?_⟩
    · change pos ≤ 2352 ∧ b.pTransfer = _
      rw [hpointer]
      exact ha.pos pos hpos
    · change b.pTransfer = 0 ∨ _ ≤ b.pTransfer ∧ b.pTransfer ≤ _
      rw [hpointer]
      exact ha.inside
  · rw [if_neg hfail, if_neg hfail]
    have hcome : Agrees ({ b with Stat := DataReady, Readed := 0 } : cdrStruct).nextSector base
        ⟨b.Transfer, none⟩ := by
      refine nextSector_same.agrees ⟨rfl, fun _ => rfl, fun pos hpos => ?_, ?_⟩
      · cases hpos
      · change b.pTransfer = 0 ∨ _ ≤ b.pTransfer ∧ b.pTransfer ≤ _
        rw [hpointer]
        exact ha.inside
    split
    · exact (AddIrqQueue_same _).agrees hcome
    · exact ReadTrack_same.agrees hcome

theorem start_le : s.start ≤ 12 := by
  unfold start
  split
  · exact Nat.le_refl _
  · exact Nat.zero_le _

theorem cdrWrite3_agrees (ha : Agrees s base p) (rt : u8) :
    Agrees (s.cdrWrite3 base rt) base (p.write3 s rt) := by
  unfold cdrWrite3 Port.write3
  by_cases hack : rt = 0x07 ∧ s.Ctrl &&& 0x1 ≠ 0
  · have hno : ¬s.Requests rt := fun hr => hack.2 hr.2.1
    rw [if_pos hack, if_neg hno]
    exact ⟨ha.sector, ha.idle, ha.pos, ha.inside⟩
  rw [if_neg hack]
  split
  · have hle := start_le (s := s)
    refine ⟨ha.sector, fun hidle => absurd hidle (by change ¬ (1#8 = 0); decide), ?_, .inr ?_⟩
    · intro pos hpos
      cases hpos
      exact ⟨by omega, rfl⟩
    · change (base : Nat) ≤ base + s.start ∧ (base : Nat) + s.start ≤ base + 2352
      omega
  · exact ha

theorem cdrRead2_agrees (ha : Agrees s base p)
    (hfit : s.Readed ≠ 0 → ∃ pos, p.pos = some pos ∧ pos < 2352) :
    ∃ t v, s.cdrRead2 base = some (t, v) ∧ Agrees t base (p.advance 1) ∧
      [v] = if p.pos = none then [0] else p.take 1 := by
  unfold cdrRead2
  by_cases hidle : s.Readed = 0
  · have hnone := ha.idle hidle
    rw [if_pos hidle, if_pos hnone]
    refine ⟨s, 0, rfl, ⟨ha.sector, fun _ => ?_, fun pos hpos => ?_, ha.inside⟩, rfl⟩
    · rw [Port.advance, hnone]
      rfl
    · rw [Port.advance, hnone] at hpos
      cases hpos
  · obtain ⟨pos, hpos, hlt⟩ := hfit hidle
    obtain ⟨-, hpointer⟩ := ha.pos pos hpos
    rw [if_neg hidle, if_pos (by omega), hpos, if_neg (Option.some_ne_none pos)]
    refine ⟨_, _, rfl, ⟨ha.sector, fun h => absurd h hidle, fun pos' hpos' => ?_, .inr ?_⟩, ?_⟩
    · rw [Port.advance, hpos] at hpos'
      cases hpos'
      change pos + 1 ≤ 2352 ∧ s.pTransfer + 1 = base + (pos + 1)
      omega
    · change (base : Nat) ≤ s.pTransfer + 1 ∧ s.pTransfer + 1 ≤ base + 2352
      omega
    · rw [Port.take, hpos, hpointer, Nat.add_sub_cancel_left, ha.sector]
      rfl

theorem psxDma3_agrees (ha : Agrees s base p) (madr bcr chcr : u32)
    (hfit : Moves chcr → s.Readed ≠ 0 → cdsize bcr ≠ 0 →
      (∃ pos, p.pos = some pos ∧ pos + cdsize bcr ≤ 2352) ∧
        (madr &&& 0x1fffff#32).toNat + cdsize bcr ≤ 0x200000) :
    ∃ t, s.psxDma3 base madr bcr chcr = some (t, if Moves chcr then p.take (cdsize bcr) else []) ∧
      Agrees t base (if Moves chcr then p.advance (cdsize bcr) else p) := by
  unfold psxDma3
  by_cases hmoves : Moves chcr
  · rw [if_pos hmoves, if_pos hmoves, if_pos hmoves]
    by_cases hidle : s.Readed = 0
    · have hnone := ha.idle hidle
      rw [if_pos (.inl hidle), Port.take, hnone]
      refine ⟨s, rfl, ha.sector, fun _ => ?_, fun pos hpos => ?_, ha.inside⟩
      · rw [Port.advance, hnone]
        rfl
      · rw [Port.advance, hnone] at hpos
        cases hpos
    by_cases hsize : cdsize bcr = 0
    · rw [if_pos (.inr hsize), hsize]
      have htake : p.take 0 = [] := by
        rw [Port.take]
        split
        · rfl
        · rfl
      have hadvance : p.advance 0 = p := by
        obtain ⟨sector, pos⟩ := p
        cases pos with
        | none => rfl
        | some pos => rfl
      rw [htake, hadvance]
      exact ⟨s, rfl, ha⟩
    · obtain ⟨⟨pos, hpos, hle⟩, hmemory⟩ := hfit hmoves hidle hsize
      obtain ⟨-, hpointer⟩ := ha.pos pos hpos
      rw [if_neg (by tauto), if_pos (by omega)]
      refine ⟨{ s with pTransfer := s.pTransfer + cdsize bcr }, ?_, ha.sector,
        fun h => absurd h hidle, fun pos' hpos' => ?_, .inr ?_⟩
      · rw [Port.take, hpos, hpointer, Nat.add_sub_cancel_left, ha.sector]
      · rw [Port.advance, hpos] at hpos'
        cases hpos'
        change pos + cdsize bcr ≤ 2352 ∧ s.pTransfer + cdsize bcr = base + (pos + cdsize bcr)
        omega
      · change (base : Nat) ≤ s.pTransfer + cdsize bcr ∧ s.pTransfer + cdsize bcr ≤ base + 2352
        omega
  · rw [if_neg hmoves, if_neg hmoves, if_neg hmoves]
    exact ⟨s, rfl, ha⟩

theorem reset_agrees : Agrees cdrReset base .empty :=
  ⟨rfl, fun _ => rfl, fun _ hpos => absurd hpos.symm (Option.some_ne_none _), .inl rfl⟩

/-- A savestate of another process is no place for the pointer, unless it was never set. -/
theorem load_agrees {base' : ℕ+} (ha : Agrees s base' p)
    (hfit : s.pTransfer = 0 ∨ base' = base) : Agrees s base p := by
  obtain hnull | rfl := hfit
  · refine ⟨ha.sector, ha.idle, fun pos hpos => ?_, .inl hnull⟩
    have hpointer := (ha.pos pos hpos).2
    have hpositive := base'.pos
    omega
  · exact ha

/-- The process and its savestates agree with their ports. -/
structure Inv (w : World) (g : Ports) : Prop where
  cdr : Agrees w.cdr w.base g.port
  files : List.Forall₂ (fun file p => Agrees file.1 file.2 p) w.files g.files

theorem forall₂_getElem {α β : Type} {R : α → β → Prop} {l : List α} {l' : List β}
    (h : List.Forall₂ R l l') (i : Nat) :
    (l[i]? = none ∧ l'[i]? = none) ∨ ∃ a b, l[i]? = some a ∧ l'[i]? = some b ∧ R a b := by
  induction h generalizing i with
  | nil => exact .inl ⟨rfl, rfl⟩
  | @cons a b _ _ hab _ ih =>
    cases i with
    | zero => exact .inr ⟨a, b, rfl, rfl, hab⟩
    | succ i => simpa using ih i

theorem Inv.step {w : World} {g : Ports} {e : Event} (h : Inv w g) (hfit : e.Fits w g) :
    ∃ w', step w e = some (w', g.gives e) ∧ Inv w' (g.next w e) := by
  have hframe {t : cdrStruct} (ht : Agrees t w.base g.port) : Inv { w with cdr := t } g :=
    ⟨ht, h.files⟩
  unfold CdRom.step
  split
  case h_1 => exact ⟨_, rfl, hframe (cdrRead0_same.agrees h.cdr)⟩
  case h_2 => exact ⟨_, rfl, hframe (cdrRead1_same.agrees h.cdr)⟩
  case h_3 =>
    obtain ⟨t, v, ht, hagrees, hv⟩ := cdrRead2_agrees h.cdr hfit
    rw [ht, Ports.gives, ← hv]
    exact ⟨_, rfl, hagrees, h.files⟩
  case h_4 => exact ⟨w, rfl, h⟩
  case h_5 rt => exact ⟨_, rfl, hframe ((cdrWrite0_same rt).agrees h.cdr)⟩
  case h_6 rt => exact ⟨_, rfl, hframe (cdrWrite1_agrees h.cdr rt)⟩
  case h_7 rt => exact ⟨_, rfl, hframe ((cdrWrite2_same rt).agrees h.cdr)⟩
  case h_8 rt => exact ⟨_, rfl, cdrWrite3_agrees h.cdr rt, h.files⟩
  case h_9 env => exact ⟨_, rfl, hframe (cdrInterrupt_same.agrees h.cdr)⟩
  case h_10 env => exact ⟨_, rfl, cdrReadInterrupt_agrees h.cdr, h.files⟩
  case h_11 madr bcr chcr =>
    obtain ⟨t, ht, hagrees⟩ := psxDma3_agrees h.cdr madr bcr chcr hfit
    rw [ht, Ports.gives, Ports.next]
    refine ⟨_, rfl, ?_⟩
    split
    · rename_i hmoves
      rw [if_pos hmoves] at hagrees
      exact ⟨hagrees, h.files⟩
    · rename_i hmoves
      rw [if_neg hmoves] at hagrees
      exact hframe hagrees
  case h_12 => exact ⟨_, rfl, reset_agrees, h.files⟩
  case h_13 => exact ⟨_, rfl, h.cdr, List.rel_append h.files (.cons h.cdr .nil)⟩
  case h_14 i =>
    refine ⟨_, rfl, ?_, h.files⟩
    rw [Ports.next]
    rcases forall₂_getElem h.files i with ⟨hnone, hnone'⟩ | ⟨file, p, hfile, hp, hagrees⟩
    · rw [hnone, hnone']
      exact h.cdr
    · rw [hfile, hp]
      exact load_agrees hagrees (hfit file hfile)
  case h_15 base => exact ⟨_, rfl, reset_agrees, h.files⟩

theorem Inv.keeps {w : World} {g : Ports} {es : List Event} (h : Inv w g) (hmeets : Meets w g es) :
    Keeps w g es := by
  induction es generalizing w g with
  | nil => exact h.cdr.inside
  | cons e es ih =>
    obtain ⟨w', hstep, hinv⟩ := h.step hmeets.1
    exact ⟨h.cdr.inside, w', hstep, ih hinv (hmeets.2 w' _ hstep)⟩

theorem Meets.cons {w w' : World} {g : Ports} {e : Event} {es : List Event} {out : List u8}
    (hfit : e.Fits w g) (hstep : step w e = some (w', out)) (h : Meets w' (g.next w e) es) :
    Meets w g (e :: es) := by
  refine ⟨hfit, fun w'' out' hstep' => ?_⟩
  obtain ⟨rfl, rfl⟩ := Prod.mk.inj (Option.some.inj (hstep.symm.trans hstep'))
  exact h

/-- A disc whose sectors hold `v`. -/
def disc (v : u8) : Env := ⟨none, fun _ => none, 0, (0, fun _ => v), false⟩

/-- `CdlReadN`, its acknowledgement, a sector, and a byte of it. -/
def readSector (v : u8) : List Event :=
  [.write 1 6, .interrupt (disc v), .write 0 1, .write 3 7, .write 0 0, .readInterrupt (disc v),
    .write 3 0x80, .read 2]

end OmegaRed.CDVD.CdRom
