import OmegaRed.IPU.DctBlock
import OmegaRed.Lib.Traces
import Mathlib.Algebra.Order.Group.Nat
import Mathlib.Tactic.Common

/-! The block functions end, and stay inside of the tables and of the block. -/

namespace OmegaRed.IPU

open Lib Traces

theorem State.ubits_lt (s : State) {n : Nat} (hn : n ≤ 32) : (s.ubits n).toNat < 2 ^ n := by
  rw [State.ubits, BitVec.toNat_ushiftRight, Nat.shiftRight_eq_div_pow]
  refine Nat.div_lt_of_lt_mul ?_
  rw [← Nat.pow_add, show 32 - n + n = 32 by omega]
  exact BitVec.isLt _

/-- An offset is one of the table's. -/
def DCT.Inside (t : List DCTtab × Int) : Prop := 0 ≤ t.2 ∧ t.2 < t.1.length

theorem DCT.entry_of_inside {t : List DCTtab × Int} (h : DCT.Inside t) :
    ∃ tab, DCT.entry t.1 t.2 = some tab := by
  obtain ⟨hpos, hlt⟩ := h
  have hnat : t.2.toNat < t.1.length := by omega
  exact ⟨t.1[t.2.toNat], by rw [DCT.entry, if_neg (by omega), List.getElem?_eq_getElem hnat]⟩

theorem lowerTab_inside {code : Nat} (hcode : code < 512) {t : List DCTtab × Int}
    (h : lowerTab code = some t) : DCT.Inside t := by
  rw [lowerTab] at h
  simp only [Nat.shiftRight_eq_div_pow] at h
  split_ifs at h <;> cases h <;> refine ⟨?_, ?_⟩ <;>
    simp only [DCT.length_tab2, DCT.length_tab3, DCT.length_tab4, DCT.length_tab5,
      DCT.length_tab6] <;>
    omega

theorem intraTab_inside {d : Decoder} {code : Nat} (hcode : code < 65536) {t : List DCTtab × Int}
    (h : intraTab d code = some t) : DCT.Inside t := by
  have hvlc : (!d.intraVlcFormat || d.mpeg1) = !(d.intraVlcFormat && !d.mpeg1) := by
    cases d.intraVlcFormat <;> cases d.mpeg1 <;> rfl
  rw [intraTab, hvlc] at h
  simp only [Nat.shiftRight_eq_div_pow] at h
  generalize (d.intraVlcFormat && !d.mpeg1) = vlc at h
  by_cases hlow : code < 512
  · rw [if_neg (by omega), if_neg (by omega), if_neg (by omega)] at h
    exact lowerTab_inside hlow h
  · cases vlc with
    | true =>
      simp only [Bool.not_true, Bool.false_eq_true, and_false, if_false, if_true] at h
      split_ifs at h with h1 h2
      · cases h
        refine ⟨?_, ?_⟩ <;> simp only [DCT.length_tab0a] <;> omega
      · cases h
        refine ⟨?_, ?_⟩ <;> simp only [DCT.length_tab1a] <;> omega
      · omega
    | false =>
      simp only [Bool.not_false, Bool.false_eq_true, and_true, if_false] at h
      split_ifs at h with h1 h2 h3
      · cases h
        refine ⟨?_, ?_⟩ <;> simp only [DCT.length_next] <;> omega
      · cases h
        refine ⟨?_, ?_⟩ <;> simp only [DCT.length_tab0] <;> omega
      · cases h
        refine ⟨?_, ?_⟩ <;> simp only [DCT.length_tab1] <;> omega
      · omega

theorem nonIntraTab_inside {i : Int} {code : Nat} (hcode : code < 65536) {t : List DCTtab × Int}
    (h : nonIntraTab i code = some t) : DCT.Inside t := by
  rw [nonIntraTab] at h
  simp only [Nat.shiftRight_eq_div_pow] at h
  split_ifs at h with h1 h2 h3 h4
  · cases h
    refine ⟨?_, ?_⟩ <;> simp only [DCT.length_first] <;> omega
  · cases h
    refine ⟨?_, ?_⟩ <;> simp only [DCT.length_next] <;> omega
  · cases h
    refine ⟨?_, ?_⟩ <;> simp only [DCT.length_tab0] <;> omega
  · cases h
    refine ⟨?_, ?_⟩ <;> simp only [DCT.length_tab1] <;> omega
  · exact lowerTab_inside (by omega) h

theorem tabFor_inside {k : BlockKind} {d : Decoder} {i : Int} {code : Nat} (hcode : code < 65536)
    {t : List DCTtab × Int} (h : k.tabFor d i code = some t) : DCT.Inside t := by
  cases k with
  | intra => exact intraTab_inside hcode h
  | nonIntra => exact nonIntraTab_inside hcode h

theorem mpeg2Scan_lt : ∀ alt (i : Fin 64), mpeg2Scan alt i < 64 := by
  decide +kernel

theorem at64_of_lt {α : Type} (f : Fin 64 → α) {i : Int} (h0 : 0 ≤ i) (h : i < 64) :
    at64 f i = some (f ⟨i.toNat, by omega⟩) :=
  dif_pos ⟨h0, h⟩

theorem BlockKind.first_resumeAt (k : BlockKind) (i : Int) : k.first (k.resumeAt i) = i := by
  cases k with
  | intra => exact (by omega : 1 + (i - 1) = i)
  | nonIntra => rfl

namespace Block

variable {k : BlockKind} {d : Decoder} {s t : Block} {i : Int}

/-- What a call may be made on: no coefficient is pending, or one of the block with its code. -/
structure Resumable (k : BlockKind) (s : Block) : Prop where
  first : 0 ≤ k.first s.pos4
  pending : s.pos5 = true → k.first s.pos4 < 64 ∧ s.tab.isSome = true

/-- Where nothing is left of a block. -/
structure Done (s : Block) : Prop where
  pos4 : s.pos4 = 0
  pos5 : s.pos5 = false

theorem Done.resumable (h : s.Done) (k : BlockKind) : Resumable k s where
  first := by
    rw [h.pos4]
    cases k <;> decide
  pending hpos5 := by
    rw [h.pos5] at hpos5
    cases hpos5

/-- What a call leaves when it returns `b`. -/
def Left (k : BlockKind) (s : Block) (b : Bool) : Prop := if b then s.Done else Resumable k s

/-- How a part of the body may end at coefficient `i`. -/
def Ends (k : BlockKind) (i : Int) (s : Block) : Outcome → Prop
  | .ret b => s.Left k b
  | .go j => i ≤ j

theorem done_finish (hpos5 : s.pos5 = false) (k : BlockKind) (i : Int) : (s.finish k i).Done := by
  cases k with
  | intra => exact ⟨rfl, hpos5⟩
  | nonIntra => exact ⟨rfl, hpos5⟩

theorem readCode_ends (hpos5 : s.pos5 = false) (hi : 0 ≤ i) :
    ∃ t r, s.readCode k d i = some (t, r) ∧ t.Ends k i r ∧ t.pos5 = false ∧
      ∀ j, r = .go j → j < 64 ∧ t.tab.isSome = true := by
  rw [readCode]
  rcases hfill : s.bits.fillBuffer 16 with ⟨bits, full⟩
  cases full with
  | false =>
    refine ⟨_, _, rfl, ⟨?_, fun hpending => ?_⟩, hpos5, fun j hj => by cases hj⟩
    · rw [BlockKind.first_resumeAt]
      exact hi
    · cases hpos5.symm.trans hpending
  | true =>
    have hcode := bits.ubits_lt (n := 16) (by decide)
    dsimp only
    cases htab : k.tabFor d i (bits.ubits 16).toNat with
    | none => exact ⟨_, _, rfl, ⟨rfl, hpos5⟩, hpos5, fun j hj => by cases hj⟩
    | some table =>
      obtain ⟨tab, hentry⟩ := DCT.entry_of_inside (tabFor_inside hcode htab)
      dsimp only
      rw [hentry, Option.bind_eq_bind, Option.bind_some]
      by_cases h64 : tab.run = 64
      · rw [if_pos h64]
        have hdone := done_finish (s := { s with bits := bits.advance tab.len, tab := some tab })
          hpos5 k i
        exact ⟨_, _, rfl, hdone, hdone.pos5, fun j hj => by cases hj⟩
      · rw [if_neg h64]
        generalize (if tab.run = 65 then _ else _ : Nat × State) = skipped
        obtain ⟨run, bits'⟩ := skipped
        dsimp only
        by_cases hlast : i + run ≥ 64
        · rw [if_pos hlast]
          have hdone := done_finish (s := { s with bits := bits', tab := some tab }) hpos5 k (i + run)
          exact ⟨_, _, rfl, hdone, hdone.pos5, fun j hj => by cases hj⟩
        · rw [if_neg hlast]
          refine ⟨_, _, rfl, ?_, hpos5, fun j hj => ?_⟩
          · exact (by omega : i ≤ i + run)
          · cases hj
            exact ⟨by omega, rfl⟩

theorem enter_ends (hi : 0 ≤ i) (hpending : s.pos5 = true → i < 64 ∧ s.tab.isSome = true) :
    ∃ t r, s.enter k d i = some (t, r) ∧ t.Ends k i r ∧
      ∀ j, r = .go j → j < 64 ∧ t.tab.isSome = true := by
  rw [enter]
  by_cases hpos5 : s.pos5 = true
  · refine ⟨s, .go i, if_pos hpos5, le_rfl, fun j hj => ?_⟩
    cases hj
    exact hpending hpos5
  · obtain ⟨t, r, heq, hends, -, hgo⟩ := readCode_ends (k := k) (d := d)
      (Bool.eq_false_iff.mpr hpos5) hi
    exact ⟨t, r, (if_neg hpos5).trans heq, hends, hgo⟩

theorem storeCoef_ends (h0 : 0 ≤ i) (hi : i < 64) (htab : s.tab.isSome = true) :
    ∃ t r, s.storeCoef k d i = some (t, r) ∧ t.Ends k (i + 1) r ∧
      ∀ j, r = .go j → j = i + 1 ∧ t.pos5 = false := by
  rw [storeCoef]
  rcases s.bits.fillBuffer 16 with ⟨bits, full⟩
  cases full with
  | false =>
    refine ⟨_, _, rfl, ⟨?_, fun _ => ⟨?_, htab⟩⟩, fun j hj => by cases hj⟩
    · rw [BlockKind.first_resumeAt]
      exact h0
    · rw [BlockKind.first_resumeAt]
      exact hi
  | true =>
    obtain ⟨tab, htab⟩ := Option.isSome_iff_exists.mp htab
    dsimp only
    rw [at64_of_lt _ h0 hi, htab, at64_of_lt _ h0 hi]
    simp only [Option.bind_eq_bind, Option.bind_some]
    rw [dif_pos (mpeg2Scan_lt _ _)]
    refine ⟨_, _, rfl, le_rfl, fun j hj => ?_⟩
    cases hj
    exact ⟨rfl, rfl⟩

theorem loop_left {fuel : Nat} (hfuel : 65 ≤ i + fuel) (hpos : 0 < fuel) (hi : 0 ≤ i)
    (hpending : s.pos5 = true → i < 64 ∧ s.tab.isSome = true) :
    ∃ t b, s.loop k d fuel i = some (t, b) ∧ t.Left k b := by
  induction fuel generalizing s i with
  | zero => exact absurd hpos (lt_irrefl 0)
  | succ fuel ih =>
    obtain ⟨t, r, heq, hends, hgo⟩ := enter_ends (k := k) (d := d) hi hpending
    rw [loop, heq, Option.bind_eq_bind, Option.bind_some]
    cases r with
    | ret b => exact ⟨t, b, rfl, hends⟩
    | go j =>
      have hij : i ≤ j := hends
      obtain ⟨hj, htab⟩ := hgo j rfl
      obtain ⟨u, r, heq, hends, hgo⟩ := storeCoef_ends (k := k) (d := d) (s := t) (by omega) hj htab
      dsimp only
      rw [heq, Option.bind_some]
      cases r with
      | ret b => exact ⟨u, b, rfl, hends⟩
      | go m =>
        obtain ⟨rfl, hpos5⟩ := hgo m rfl
        refine ih (by omega) (by omega) (by omega) fun hpending => ?_
        cases hpos5.symm.trans hpending

theorem getBlock_left (h : s.Resumable k) : ∃ t b, s.getBlock k d = some (t, b) ∧ t.Left k b :=
  loop_left (by have := h.first; omega) (by decide) h.first h.pending

/-! ## Calls in a row -/

/-- A call of a block function. More of the stream may have come since the last call, `decoder` may
have been set and the block been written by others. -/
structure Call where
  kind : BlockKind
  decoder : Decoder
  bits : State
  dctBlock : Fin 64 → BitVec 16

/-- The state with the function that is to be called again. -/
abbrev Calls := Block × Option BlockKind

/-- A block that is not done is gone on with by the function that began it. -/
def Again (s : Calls) (c : Call) : Prop := ∀ k ∈ s.2, k = c.kind

instance (s : Calls) (c : Call) : Decidable (Again s c) := Option.decidableForallMem _

def step (s : Calls) (c : Call) : Option Calls := do
  let (t, b) ← getBlock c.kind c.decoder { s.1 with bits := c.bits, dctBlock := c.dctBlock }
  some (t, if b then none else some c.kind)

/-- A command begins with `ipu_cmd.clear`. -/
def init (bits : State) (dctBlock : Fin 64 → BitVec 16) : Calls :=
  (⟨bits, 0, false, none, dctBlock, none⟩, none)

/-- What holds between the calls. -/
def Between (s : Calls) : Prop :=
  match s.2 with
  | none => s.1.Done
  | some k => Resumable k s.1

theorem step_between {s : Calls} {c : Call} (h : Between s) (hagain : Again s c) :
    ∃ t, step s c = some t ∧ Between t := by
  have hresumable : Resumable c.kind { s.1 with bits := c.bits, dctBlock := c.dctBlock } := by
    obtain ⟨s, waiting⟩ := s
    cases waiting with
    | none =>
      have hdone : s.Done := h
      exact Done.resumable (s := { s with bits := c.bits, dctBlock := c.dctBlock })
        ⟨hdone.pos4, hdone.pos5⟩ c.kind
    | some k =>
      have hk : k = c.kind := hagain k rfl
      have hleft : Resumable k s := h
      rw [hk] at hleft
      exact ⟨hleft.first, hleft.pending⟩
  obtain ⟨t, b, heq, hleft⟩ := getBlock_left (d := c.decoder) hresumable
  refine ⟨(t, if b then none else some c.kind), by rw [step, heq]; rfl, ?_⟩
  cases b with
  | true => exact hleft
  | false => exact hleft

theorem run_between {s : Calls} {calls : List Call} (h : Between s)
    (hmeets : Meets step Again s calls) : ∃ t, run step s calls = some t := by
  induction calls generalizing s with
  | nil => exact ⟨s, rfl⟩
  | cons c calls ih =>
    obtain ⟨t, heq, hbetween⟩ := step_between h hmeets.1
    obtain ⟨u, hrun⟩ := ih hbetween (hmeets.2 t heq)
    exact ⟨u, by rw [run, heq, Option.bind_some, hrun]⟩

theorem loop_of_no_code {bits : State} {fuel : Nat} (hpos5 : s.pos5 = false)
    (hfill : s.bits.fillBuffer 16 = (bits, true)) (hcode : (bits.ubits 16).toNat < 16) :
    s.loop k d (fuel + 1) i = some ({ s with bits := bits, pos4 := 0 }, true) := by
  have hnone : k.tabFor d i (bits.ubits 16).toNat = none := by
    have hlower : lowerTab (bits.ubits 16).toNat = none := by
      rw [lowerTab, if_neg (by omega), if_neg (by omega), if_neg (by omega), if_neg (by omega),
        if_neg (by omega)]
    cases k with
    | intra =>
      change intraTab _ _ = none
      rw [intraTab, if_neg (by omega), if_neg (by omega), if_neg (by omega), hlower]
    | nonIntra =>
      change nonIntraTab _ _ = none
      rw [nonIntraTab, if_neg (by omega), if_neg (by omega), if_neg (by omega), hlower]
  have hread : s.enter k d i = some ({ s with bits := bits, pos4 := 0 }, .ret true) := by
    rw [enter, if_neg (by rw [hpos5]; decide), readCode, hfill]
    dsimp only
    rw [hnone]
  rw [loop, hread]
  rfl

/-- Every call of a run has a result: it has come to an end and looked at nothing outside of the
tables and of the block. A window that is no code ends the block without a store. -/
theorem blocks_inside {bits : State} {dctBlock : Fin 64 → BitVec 16} {calls : List Call}
    (hmeets : Meets step Again (init bits dctBlock) calls) :
    (∃ t, run step (init bits dctBlock) calls = some t) ∧
      (∀ (k : BlockKind) (d : Decoder) (i : Int) (code : Nat) t, code < 65536 →
        k.tabFor d i code = some t → DCT.Inside t) ∧
      ∀ (k : BlockKind) (d : Decoder) (s : Block) bits', s.pos5 = false → s.bits.fillBuffer 16 = (bits', true) →
        (bits'.ubits 16).toNat < 16 →
          s.getBlock k d = some ({ s with bits := bits', pos4 := 0 }, true) :=
  ⟨run_between (s := init bits dctBlock) (⟨rfl, rfl⟩ : Done _) hmeets,
    fun _ _ _ _ _ hcode htab => tabFor_inside hcode htab,
    fun _ _ _ _ hpos5 hfill hcode => loop_of_no_code hpos5 hfill hcode⟩

theorem blocks_inside_resumed : ∃ t, run step (init (.bclr 0) fun _ => 0)
    [⟨.intra, ⟨false, fun _ => 16, fun _ => 16, 2, false, false⟩, .bclr 0, fun _ => 0⟩,
      ⟨.intra, ⟨true, fun _ => 16, fun _ => 16, 2, true, false⟩,
        { State.bclr 0 with internalQwc := fun _ => 0x0a, FP := 2 }, fun _ => 0⟩] = some t :=
  (blocks_inside (by decide +kernel)).1

/-- A window that is no code is told by nothing from the end of a block. -/
theorem no_error_status :
    let d : Decoder := ⟨false, fun _ => 16, fun _ => 16, 2, false, false⟩
    let block := fun q : U128 => (⟨{ State.bclr 0 with internalQwc := fun _ => q, FP := 2 }, 0, false,
      none, fun _ => 0, none⟩ : Block)
    intraTab d ((block 0).bits.ubits 16).toNat = none ∧
      intraTab d ((block 0x80).bits.ubits 16).toNat = some (DCT.next, 4) ∧
      DCT.entry DCT.next 4 = some ⟨64, 0, 2⟩ ∧
      ((block 0).getBlock .intra d).map (fun r => (r.2, r.1.pos4, r.1.pos5, r.1.last)) =
        ((block 0x80).getBlock .intra d).map (fun r => (r.2, r.1.pos4, r.1.pos5, r.1.last)) := by
  decide +kernel

end Block

end OmegaRed.IPU
