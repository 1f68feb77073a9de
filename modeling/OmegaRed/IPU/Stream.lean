import OmegaRed.IPU.Bitstream
import Mathlib.Tactic.Common

/-! Bits of the window, MSB first in each byte. -/

namespace OmegaRed.IPU

/-- Bit `p` of a little-endian value, read MSB first in each byte. -/
def streamBit (x : BitVec n) (p : Nat) : Bool := x.getLsbD (8 * (p / 8) + (7 - p % 8))

/-- A value's bits, the highest first. -/
def bitsOf (x : BitVec n) : List Bool := (List.range n).map x.getMsbD

namespace State

theorem streamBit_window (s : State) {p : Nat} (hp : p < 256) :
    streamBit s.window p = streamBit (s.internalQwc (p / 128)) (p % 128) := by
  rw [streamBit, streamBit, window, BitVec.getLsbD_append]
  by_cases h : p < 128
  · rw [if_pos (by omega), Nat.div_eq_of_lt h, Nat.mod_eq_of_lt h]
  · have hq : p / 128 = 1 := by omega
    have hr : 8 * (p / 8) + (7 - p % 8) - 128 = 8 * (p % 128 / 8) + (7 - p % 128 % 8) := by omega
    rw [if_neg (by omega), hq, hr]

theorem getLsbD_load (w : Nat) (s : State) (readpos i : Nat) :
    (s.load w readpos).getLsbD i = (decide (i < w) && s.window.getLsbD (8 * readpos + i)) := by
  rw [load, BitVec.getLsbD_setWidth, BitVec.getLsbD_ushiftRight]

theorem getLsbD_byteMask {w shift k i : Nat} (hk : 8 * k ≤ w) (hi : i < w) :
    (byteMask w shift k).getLsbD i = decide (i < 8 * k ∧ i % 8 + shift < 8) := by
  induction k with
  | zero => simp [byteMask]
  | succ k ih =>
    have hff (j : Nat) : (0xff : BitVec w).getLsbD j = decide (j < w ∧ j < 8) := by
      change (BitVec.ofNat w (2 ^ 8 - 1)).getLsbD j = _
      rw [BitVec.getLsbD_ofNat, Nat.testBit_two_pow_sub_one, Bool.decide_and]
    rw [byteMask, BitVec.getLsbD_or, BitVec.getLsbD_shiftLeft, BitVec.getLsbD_ushiftRight, hff,
      ih (by omega)]
    by_cases hlow : i < 8 * k
    · simp [hlow, show i < 8 * (k + 1) by omega]
    · simp only [hlow, hi, false_and, decide_false, Bool.false_or, decide_true, Bool.true_and,
        Bool.not_false]
      congr 1
      apply propext
      omega

/-- Bit `t` of byte `j` of what is stored is the bit of the window at its place in the stream. -/
theorem getLsbD_bitsAt (s : State) {k j t : Nat} (hj : j < k) (ht : t < 8) :
    (s.bitsAt k).getLsbD (8 * j + t) = streamBit s.window (s.BP + 8 * j + (7 - t)) := by
  have hlt : 8 * j + t < 8 * k := by omega
  rw [bitsAt, streamBit]
  by_cases hshift : s.BP % 8 ≠ 0
  · rw [if_pos hshift]
    simp only [BitVec.getLsbD_or, BitVec.getLsbD_ushiftRight, BitVec.getLsbD_shiftLeft,
      BitVec.getLsbD_and, BitVec.getLsbD_not, getLsbD_load]
    by_cases hlow : t < s.BP % 8
    -- the low bits come from the next byte, the others from this one
    · have hnext : 8 - s.BP % 8 + (8 * j + t) < 8 * k := by omega
      have hplace : 8 * (s.BP / 8 + 1) + (8 - s.BP % 8 + (8 * j + t)) =
          8 * ((s.BP + 8 * j + (7 - t)) / 8) + (7 - (s.BP + 8 * j + (7 - t)) % 8) := by omega
      rw [getLsbD_byteMask (Nat.le_refl _) hnext, hplace, decide_eq_true hnext]
      have hmask : ¬ (8 - s.BP % 8 + (8 * j + t) < 8 * k ∧
          (8 - s.BP % 8 + (8 * j + t)) % 8 + s.BP % 8 < 8) := by omega
      have hthis : (byteMask (8 * k) (s.BP % 8) k).getLsbD (8 * j + t - s.BP % 8) = true →
          8 * j + t < s.BP % 8 := by
        rw [getLsbD_byteMask (Nat.le_refl _) (by omega), decide_eq_true_eq]
        omega
      rw [decide_eq_false hmask]
      by_cases hfirst : 8 * j + t < s.BP % 8
      · simp [hfirst]
      · simp [hfirst, Bool.eq_false_iff.mpr (mt hthis hfirst)]
    · have hthis : 8 * j + t - s.BP % 8 < 8 * k := by omega
      have hplace : 8 * (s.BP / 8) + (8 * j + t - s.BP % 8) =
          8 * ((s.BP + 8 * j + (7 - t)) / 8) + (7 - (s.BP + 8 * j + (7 - t)) % 8) := by omega
      have hmask : 8 * j + t - s.BP % 8 < 8 * k ∧ (8 * j + t - s.BP % 8) % 8 + s.BP % 8 < 8 := by
        omega
      rw [getLsbD_byteMask (Nat.le_refl _) hthis, hplace, decide_eq_true hmask,
        decide_eq_true hthis]
      by_cases hnext : 8 - s.BP % 8 + (8 * j + t) < 8 * k
      · have hmask' : 8 - s.BP % 8 + (8 * j + t) < 8 * k ∧
            (8 - s.BP % 8 + (8 * j + t)) % 8 + s.BP % 8 < 8 := by omega
        rw [getLsbD_byteMask (Nat.le_refl _) hnext, decide_eq_true hmask']
        simp [hlt, show ¬ 8 * j + t < s.BP % 8 by omega]
      · simp [hlt, hnext, show ¬ 8 * j + t < s.BP % 8 by omega]
  · rw [if_neg hshift, getLsbD_load]
    have hplace : 8 * (s.BP / 8) + (8 * j + t) = 8 * ((s.BP + 8 * j + (7 - t)) / 8) +
        (7 - (s.BP + 8 * j + (7 - t)) % 8) := by omega
    rw [hplace, decide_eq_true hlt, Bool.true_and]

theorem getLsbD_bigEndian (x : BitVec 32) {v : Nat} (hv : v < 32) :
    (bigEndian x).getLsbD (31 - v) = streamBit x v := by
  simp only [bigEndian, streamBit, BitVec.getLsbD_append, BitVec.getLsbD_extractLsb']
  split
  · rw [decide_eq_true (by omega), Bool.true_and]
    congr 1
    omega
  · split
    · rw [decide_eq_true (by omega), Bool.true_and]
      congr 1
      omega
    · split
      · rw [decide_eq_true (by omega), Bool.true_and]
        congr 1
        omega
      · rw [decide_eq_true (by omega), Bool.true_and]
        congr 1
        omega

theorem getLsbD_shifted (s : State) {u : Nat} (hu : u < 25) :
    (bigEndian (s.load 32 (s.BP / 8)) <<< (s.BP % 8)).getLsbD (31 - u) =
      streamBit s.window (s.BP + u) := by
  have hshift : 31 - u - s.BP % 8 = 31 - (u + s.BP % 8) := by omega
  have hplace : 8 * (s.BP / 8) + (8 * ((u + s.BP % 8) / 8) + (7 - (u + s.BP % 8) % 8)) =
      8 * ((s.BP + u) / 8) + (7 - (s.BP + u) % 8) := by omega
  rw [BitVec.getLsbD_shiftLeft, hshift, getLsbD_bigEndian _ (by omega), streamBit, getLsbD_load,
    hplace, decide_eq_true (by omega), decide_eq_false (by omega),
    decide_eq_true (by omega : 8 * ((u + s.BP % 8) / 8) + (7 - (u + s.BP % 8) % 8) < 32)]
  rfl

/-- The next `n` bits of the window. -/
def slice (s : State) (n : Nat) : List Bool :=
  (List.range n).map fun u => streamBit s.window (s.BP + u)

theorem bitsOf_ubits (s : State) {n : Nat} (hn : n ≤ 25) :
    bitsOf (s.ubits n) = List.replicate (32 - n) false ++ s.slice n := by
  apply List.ext_getElem?
  intro i
  rw [bitsOf, slice, List.getElem?_map, ubits]
  by_cases hi : i < 32
  · rw [List.getElem?_range hi, Option.map_some, BitVec.getMsbD, decide_eq_true hi, Bool.true_and,
      BitVec.getLsbD_ushiftRight]
    by_cases hhigh : i < 32 - n
    · rw [List.getElem?_append_left (by simpa using hhigh), List.getElem?_replicate, if_pos hhigh,
        BitVec.getLsbD_of_ge _ _ (by omega)]
    · have hindex : 32 - n + (32 - 1 - i) = 31 - (i - (32 - n)) := by omega
      rw [List.getElem?_append_right (by simpa using hhigh), List.length_replicate,
        List.getElem?_map, List.getElem?_range (by omega), Option.map_some, hindex,
        getLsbD_shifted s (by omega)]
  · rw [List.getElem?_eq_none (by simpa using hi), List.getElem?_eq_none (by simp; omega)]
    rfl

theorem bitsOf_sbits (s : State) {n : Nat} (hpos : 1 ≤ n) (hn : n ≤ 25) :
    bitsOf (s.sbits n) =
      List.replicate (32 - n) (streamBit s.window s.BP) ++ s.slice n := by
  have hmsb : (bigEndian (s.load 32 (s.BP / 8)) <<< (s.BP % 8)).msb =
      streamBit s.window s.BP := by
    rw [BitVec.msb_eq_getLsbD_last]
    exact getLsbD_shifted s (u := 0) (by omega)
  apply List.ext_getElem?
  intro i
  rw [bitsOf, slice, List.getElem?_map, sbits]
  by_cases hi : i < 32
  · rw [List.getElem?_range hi, Option.map_some, BitVec.getMsbD, decide_eq_true hi, Bool.true_and,
      BitVec.getLsbD_sshiftRight, hmsb]
    by_cases hhigh : i < 32 - n
    · rw [List.getElem?_append_left (by simpa using hhigh), List.getElem?_replicate, if_pos hhigh,
        if_neg (by omega), decide_eq_false (by omega)]
      rfl
    · have hindex : 32 - n + (32 - 1 - i) = 31 - (i - (32 - n)) := by omega
      rw [List.getElem?_append_right (by simpa using hhigh), List.length_replicate,
        List.getElem?_map, List.getElem?_range (by omega), Option.map_some, if_pos (by omega),
        hindex, getLsbD_shifted s (by omega), decide_eq_false (by omega)]
      rfl
  · rw [List.getElem?_eq_none (by simpa using hi), List.getElem?_eq_none (by simp; omega)]
    rfl

theorem bitsOf_bitsAt (s : State) (k : Nat) :
    (bytesOf (s.bitsAt k)).flatMap bitsOf = s.slice (8 * k) := by
  have hbyte (j : Nat) (hj : j < k) : bitsOf ((s.bitsAt k).extractLsb' (8 * j) 8) =
      (List.range 8).map fun u => streamBit s.window (s.BP + (8 * j + u)) := by
    apply List.map_congr_left
    intro u hu
    have hu := List.mem_range.mp hu
    have hindex : s.BP + 8 * j + (7 - (8 - 1 - u)) = s.BP + (8 * j + u) := by omega
    rw [BitVec.getMsbD, decide_eq_true hu, Bool.true_and, BitVec.getLsbD_extractLsb',
      decide_eq_true (by omega), Bool.true_and, getLsbD_bitsAt s hj (by omega), hindex]
  have hprefix (m : Nat) (hm : m ≤ k) : ((List.range m).map fun j =>
      (s.bitsAt k).extractLsb' (8 * j) 8).flatMap bitsOf = s.slice (8 * m) := by
    induction m with
    | zero => rfl
    | succ m ih =>
      rw [List.range_succ, List.map_append, List.flatMap_append, ih (by omega), List.map_singleton,
        List.flatMap_singleton, hbyte m (by omega), slice, slice, Nat.mul_succ, List.range_add,
        List.map_append, List.map_map]
      rfl
  exact hprefix k (Nat.le_refl k)

end State

end OmegaRed.IPU

/-! The bit reader hands out the bits of the quadwords that were written, in order. -/

namespace OmegaRed.IPU

/-- The quadwords written so far, and how far they have been read. -/
structure Stream where
  received : List U128
  pos : Nat

namespace Stream

def bit (st : Stream) (p : Nat) : Bool := streamBit (st.received.getD (p / 128) 0) (p % 128)

def slice (st : Stream) (n : Nat) : List Bool := (List.range n).map fun u => st.bit (st.pos + u)

/-- The next `n` bits have been written. -/
def Has (st : Stream) (n : Nat) : Prop := st.pos + n ≤ 128 * st.received.length

instance (st : Stream) (n : Nat) : Decidable (st.Has n) := inferInstanceAs (Decidable (_ ≤ _))

/-- The results an operation may have. -/
def Allows (st : Stream) : Op → Result → Prop
  | .write pMem, .accepted n => n ≤ pMem.length
  | .fill bits, .flag b => b = decide (st.Has (bits + 1))
  | .getBits size _, .failed => ¬ st.Has (8 * size.bytes)
  | .getBits size _, .bytes l => st.Has (8 * size.bytes) ∧ l.flatMap bitsOf = st.slice (8 * size.bytes)
  | .ubits bits, .word x => st.Has (bits + 1) ∧
      bitsOf x = List.replicate (32 - (bits + 1)) false ++ st.slice (bits + 1)
  | .sbits bits, .word x => st.Has (bits + 1) ∧
      bitsOf x = List.replicate (32 - (bits + 1)) (st.bit st.pos) ++ st.slice (bits + 1)
  | .advance _, .done => True
  | .align, .done => True
  | _, _ => False

def step (st : Stream) : Op → Result → Stream
  | .write pMem, .accepted n => { st with received := st.received ++ pMem.take n }
  | .getBits size true, .bytes _ => { st with pos := st.pos + 8 * size.bytes }
  | .advance bits, _ => { st with pos := st.pos + bits }
  | .align, _ => { st with pos := (st.pos + 7) / 8 * 8 }
  | _, _ => st

end Stream

/-- Every result of the run is what the stream has there, with `BP` and `FP` in their ranges. -/
def InOrder (st : Stream) (s : State) : List Op → Prop
  | [] => s.BP ≤ 255 ∧ s.FP ≤ 2
  | op :: ops => s.BP ≤ 255 ∧ s.FP ≤ 2 ∧ st.Allows op (s.step op).2 ∧
      InOrder (st.step op (s.step op).2) (s.step op).1 ops

/-- `BP` passes the end of a quadword that is still to come. -/
def Passes (s : State) (bits : Nat) : Prop := s.FP = 0 ∧ s.IFC = 0 ∧ 128 ≤ s.BP + bits

/-- What a command has to see to. -/
def Careful (s : State) : Op → Prop
  | .advance bits => ¬ Passes s bits
  | .align => ¬ Passes s 7
  | .ubits bits => s.BP + (bits + 1) ≤ 128 * s.FP
  | .sbits bits => s.BP + (bits + 1) ≤ 128 * s.FP
  | _ => True

def CarefulRun (s : State) : List Op → Prop
  | [] => True
  | op :: ops => Careful s op ∧ CarefulRun (s.step op).1 ops

/-- What is in the FIFO. -/
structure Queued (s : State) (l : List U128) : Prop where
  length : l.length = s.IFC
  ifc : s.IFC ≤ 8
  readpos : s.fifo.readpos < 32
  aligned : 4 ∣ s.fifo.readpos
  writepos : s.fifo.writepos = (s.fifo.readpos + 4 * s.IFC) % 32
  data : ∀ i x, l[i]? = some x → s.fifo.data ((s.fifo.readpos + 4 * i) % 32) = x

/-- The state is at this place of the stream: `q` quadwords have been done with. -/
structure At (st : Stream) (s : State) (q : Nat) : Prop where
  pos : st.pos = 128 * q + s.BP
  bp : s.BP < 128
  fp : s.FP ≤ 2
  received : q + s.FP ≤ st.received.length
  window : ∀ i, i < s.FP → st.received[q + i]? = some (s.internalQwc i)
  fifo : Queued s (st.received.drop (q + s.FP))

section Steps

variable {st : Stream} {s : State} {q : Nat} {l : List U128} {x : U128}

theorem and_31 (n : Nat) : n &&& 31 = n % 32 := Nat.and_two_pow_sub_one_eq_mod n 5

theorem Queued.push (h : Queued s l) (hifc : s.IFC < 8) (x : U128) :
    Queued { s.push x with IFC := s.IFC + 1 } (l ++ [x]) := by
  obtain ⟨hlen, -, hread, haligned, hwrite, hdata⟩ := h
  refine ⟨?_, hifc, hread, haligned, ?_, fun i y hy => ?_⟩
  · rw [List.length_append, hlen]
    rfl
  · simp only [State.push, and_31]
    omega
  · simp only [State.push]
    by_cases hlast : i = s.IFC
    · rw [hlast, ← hlen, List.getElem?_concat_length] at hy
      rw [hlast, ← hwrite, Function.update_self]
      exact Option.some.inj hy
    · have hi : i < l.length := by
        have := (List.getElem?_eq_some_iff.mp hy).1
        rw [List.length_append, List.length_singleton] at this
        omega
      rw [List.getElem?_append_left hi] at hy
      rw [Function.update_of_ne (by omega)]
      exact hdata i y hy

theorem Queued.congr {t : State} (h : Queued s l) (hifc : t.IFC = s.IFC) (hfifo : t.fifo = s.fifo) :
    Queued t l := by
  obtain ⟨hlen, hle, hread, haligned, hwrite, hdata⟩ := h
  rw [← hifc] at hlen hle hwrite
  rw [← hfifo] at hread haligned hwrite hdata
  exact ⟨hlen, hle, hread, haligned, hwrite, hdata⟩

theorem Queued.read_nil (h : Queued s []) : s.read = none := if_pos h.length.symm

theorem Queued.read_cons (h : Queued s (x :: l)) : s.read = some (x, s.pop) ∧ Queued s.pop l := by
  obtain ⟨hlen, hifc, hread, haligned, hwrite, hdata⟩ := h
  rw [List.length_cons] at hlen
  have hx := hdata 0 x rfl
  rw [Nat.mul_zero, Nat.add_zero, Nat.mod_eq_of_lt hread] at hx
  refine ⟨(if_neg (by omega)).trans (by rw [hx]), ?_, ?_, ?_, ?_, ?_, fun i y hy => ?_⟩
  · exact Nat.eq_sub_of_add_eq hlen
  · exact Nat.le_trans (Nat.sub_le ..) hifc
  · rw [State.pop, and_31]
    exact Nat.mod_lt _ (by decide)
  · rw [State.pop, and_31]
    dsimp only
    omega
  · rw [State.pop, and_31]
    dsimp only
    omega
  · have hnext := hdata (i + 1) y hy
    rw [State.pop, and_31]
    rwa [Nat.mod_add_mod, Nat.add_assoc, Nat.add_comm 4, ← Nat.mul_succ]

theorem Queued.foldl_push (h : Queued s l) (xs : List U128) (hifc : s.IFC + xs.length ≤ 8) :
    Queued (xs.foldl State.push { s with IFC := s.IFC + xs.length }) (l ++ xs) := by
  induction xs generalizing s l with
  | nil => rwa [List.append_nil]
  | cons x xs ih =>
    rw [List.length_cons] at hifc
    have hnext := ih (h.push (by omega) x) (by dsimp only; omega)
    rw [List.append_assoc, List.singleton_append] at hnext
    have hcount : s.IFC + 1 + xs.length = s.IFC + (x :: xs).length := by
      rw [List.length_cons]
      omega
    dsimp only at hnext
    rw [hcount] at hnext
    exact hnext

theorem foldl_push_eq (xs : List U128) (s : State) :
    (xs.foldl State.push s).internalQwc = s.internalQwc ∧ (xs.foldl State.push s).BP = s.BP ∧
      (xs.foldl State.push s).FP = s.FP := by
  induction xs generalizing s with
  | nil => exact ⟨rfl, rfl, rfl⟩
  | cons x xs ih => exact ih (s.push x)

theorem At.write (h : At st s q) (pMem : List U128) :
    At { st with received := st.received ++ pMem.take (s.write pMem).2 } (s.write pMem).1 q := by
  obtain ⟨hpos, hbp, hfp, hreceived, hwindow, hfifo⟩ := h
  have hifc := hfifo.ifc
  have hlen : (pMem.take (min pMem.length (8 - s.IFC))).length = min pMem.length (8 - s.IFC) := by
    rw [List.length_take]
    omega
  obtain ⟨hqwc, hbp', hfp'⟩ := foldl_push_eq (pMem.take (min pMem.length (8 - s.IFC)))
    { s with IFC := s.IFC + min pMem.length (8 - s.IFC) }
  have hpushed := hfifo.foldl_push (pMem.take (min pMem.length (8 - s.IFC))) (by omega)
  rw [hlen] at hpushed
  rw [State.write]
  refine ⟨?_, ?_, ?_, ?_, fun i hi => ?_, ?_⟩
  · rw [hbp']
    exact hpos
  · rw [hbp']
    exact hbp
  · rw [hfp']
    exact hfp
  · rw [hfp', List.length_append]
    dsimp only
    omega
  · rw [hfp'] at hi
    dsimp only at hi
    rw [hqwc, List.getElem?_append_left (by omega)]
    exact hwindow i hi
  · rw [hfp', List.drop_append_of_le_length hreceived]
    exact hpushed

/-- `FillBuffer` moves quadwords into the window and says whether the next bits are there. -/
theorem At.fillLoop (bits left : Nat) (h : At st s q) (hleft : s.FP + left = 2)
    (hbits : 1 ≤ bits ∧ bits ≤ 128) :
    At st (State.fillLoop bits left s).1 q ∧ (State.fillLoop bits left s).1.BP = s.BP ∧
      (State.fillLoop bits left s).2 = decide (st.Has bits) ∧
      ((State.fillLoop bits left s).2 = true →
        s.BP + bits ≤ 128 * (State.fillLoop bits left s).1.FP) := by
  induction left generalizing s with
  | zero =>
    obtain ⟨hpos, hbp, -, hreceived, -, -⟩ := id h
    have hhas : st.Has bits := by
      rw [Stream.Has]
      omega
    refine ⟨h, rfl, (decide_eq_true hhas).symm, fun _ => ?_⟩
    change s.BP + bits ≤ 128 * s.FP
    omega
  | succ left ih =>
    obtain ⟨hpos, hbp, hfp, hreceived, hwindow, hfifo⟩ := id h
    rw [State.fillLoop]
    cases hrest : st.received.drop (q + s.FP) with
    | nil =>
      rw [hrest] at hfifo
      rw [hfifo.read_nil]
      have hlen : st.received.length = q + s.FP :=
        Nat.le_antisymm (List.drop_eq_nil_iff.mp hrest) hreceived
      refine ⟨h, rfl, ?_, fun hflag => ?_⟩
      · rw [Bool.eq_iff_iff, Bool.and_eq_true, decide_eq_true_eq, decide_eq_true_eq,
          decide_eq_true_eq]
        change _ ↔ st.pos + bits ≤ 128 * st.received.length
        omega
      · dsimp only at hflag ⊢
        rw [Bool.and_eq_true, decide_eq_true_eq, decide_eq_true_eq] at hflag
        omega
    | cons x rest =>
      rw [hrest] at hfifo
      obtain ⟨hread, hpopped⟩ := hfifo.read_cons
      have hx : st.received[q + s.FP]? = some x := by
        rw [← Nat.add_zero (q + s.FP), ← List.getElem?_drop, hrest]
        rfl
      have hnext : st.received.drop (q + (s.FP + 1)) = rest := by
        rw [← Nat.add_assoc, ← List.drop_drop, hrest]
        rfl
      rw [hread]
      refine ih (s := { s.pop with
        internalQwc := Function.update s.pop.internalQwc s.pop.FP x, FP := s.pop.FP + 1 })
        ⟨hpos, hbp, ?_, ?_, fun i hi => ?_, ?_⟩ ?_
      · simp only [State.pop]
        omega
      · have := (List.getElem?_eq_some_iff.mp hx).1
        simp only [State.pop]
        omega
      · simp only [State.pop] at hi ⊢
        by_cases hlast : i = s.FP
        · rw [hlast, Function.update_self]
          exact hx
        · rw [Function.update_of_ne hlast]
          exact hwindow i (by omega)
      · refine Queued.congr ?_ rfl rfl (s := s.pop)
        rw [← hnext] at hpopped
        exact hpopped
      · simp only [State.pop]
        omega

theorem At.fillBuffer (h : At st s q) (bits : Nat) (hbits : 1 ≤ bits ∧ bits ≤ 128) :
    At st (s.fillBuffer bits).1 q ∧ (s.fillBuffer bits).1.BP = s.BP ∧
      (s.fillBuffer bits).2 = decide (st.Has bits) ∧
      ((s.fillBuffer bits).2 = true → s.BP + bits ≤ 128 * (s.fillBuffer bits).1.FP) := by
  have hfp := h.fp
  exact h.fillLoop bits _ (by omega) hbits

theorem At.slice_eq {n : Nat} (h : At st s q) (hn : s.BP + n ≤ 128 * s.FP) :
    st.Has n ∧ s.slice n = st.slice n := by
  obtain ⟨hpos, hbp, hfp, hreceived, hwindow, -⟩ := h
  refine ⟨?_, List.map_congr_left fun u hu => ?_⟩
  · rw [Stream.Has]
    omega
  · have hu := List.mem_range.mp hu
    have hq : (st.pos + u) / 128 = q + (s.BP + u) / 128 := by omega
    have hr : (st.pos + u) % 128 = (s.BP + u) % 128 := by omega
    rw [State.streamBit_window s (by omega), Stream.bit, hq, hr, List.getD_eq_getElem?_getD,
      hwindow _ (by omega)]
    rfl

theorem At.read_next (h : At st s q) (hifc : s.IFC ≠ 0) :
    ∃ x, s.read = some (x, s.pop) ∧ q + s.FP < st.received.length ∧
      Queued s.pop (st.received.drop (q + s.FP + 1)) := by
  have hfifo := h.fifo
  cases hrest : st.received.drop (q + s.FP) with
  | nil =>
    rw [hrest] at hfifo
    exact absurd hfifo.length.symm hifc
  | cons x rest =>
    rw [hrest] at hfifo
    obtain ⟨hread, hpopped⟩ := hfifo.read_cons
    refine ⟨x, hread, ?_, ?_⟩
    · by_contra hge
      rw [List.drop_eq_nil_of_le (not_lt.mp hge)] at hrest
      exact List.cons_ne_nil _ _ hrest.symm
    · rw [← List.drop_drop, hrest]
      exact hpopped

theorem At.advance {n : Nat} (h : At st s q) (hn : n ≤ 128) (hcare : ¬ Passes s n) :
    ∃ q', At { st with pos := st.pos + n } (s.advance n) q' := by
  obtain ⟨hpos, hbp, hfp, hreceived, hwindow, hfifo⟩ := id h
  rw [State.advance]
  dsimp only
  by_cases hcross : s.BP + n ≥ 128
  · rw [if_pos hcross]
    refine ⟨q + 1, ?_⟩
    by_cases htwo : s.FP = 2
    · rw [if_pos htwo]
      rw [htwo] at hreceived hfifo
      refine ⟨?_, ?_, ?_, hreceived, fun i hi => ?_, hfifo.congr rfl rfl⟩
      · dsimp only
        omega
      · dsimp only
        omega
      · exact Nat.le_succ 1
      · obtain rfl := Nat.lt_one_iff.mp hi
        exact hwindow 1 (by omega)
    · rw [if_neg htwo]
      by_cases hempty : s.FP = 0
      · have hifc : s.IFC ≠ 0 := fun hzero => hcare ⟨hempty, hzero, hcross⟩
        obtain ⟨x, hread, hlt, hpopped⟩ := h.read_next hifc
        rw [if_pos hempty]
        have hread' : State.read { s with BP := s.BP + n - 128 } =
            some (x, { s.pop with BP := s.BP + n - 128 }) := by
          rw [State.read] at hread ⊢
          rw [if_neg hifc] at hread
          obtain ⟨rfl, -⟩ := Prod.mk.inj (Option.some.inj hread)
          exact if_neg hifc
        rw [hread']
        rw [hempty] at hlt hpopped
        refine ⟨?_, ?_, Nat.zero_le 2, hlt, fun i hi => absurd hi (Nat.not_lt_zero i),
          hpopped.congr rfl rfl⟩
        · dsimp only
          omega
        · dsimp only
          omega
      · rw [if_neg hempty]
        have hone : s.FP = 1 := by omega
        rw [hone] at hreceived hfifo
        refine ⟨?_, ?_, Nat.zero_le 2, hreceived, fun i hi => absurd hi (Nat.not_lt_zero i),
          hfifo.congr rfl rfl⟩
        · dsimp only
          omega
        · dsimp only
          omega
  · rw [if_neg hcross]
    refine ⟨q, ?_, ?_, hfp, hreceived, hwindow, hfifo.congr rfl rfl⟩
    · dsimp only
      omega
    · dsimp only
      omega

theorem align_eq (s : State) : s.align = s.advance ((s.BP + 7) / 8 * 8 - s.BP) := by
  have hround : s.BP + ((s.BP + 7) / 8 * 8 - s.BP) = (s.BP + 7) / 8 * 8 + 0 := by omega
  rw [State.align, State.advance, State.advance, hround]

theorem At.align (h : At st s q) (hcare : ¬ Passes s 7) :
    ∃ q', At { st with pos := (st.pos + 7) / 8 * 8 } s.align q' := by
  have hpos := h.pos
  have hround : (st.pos + 7) / 8 * 8 = st.pos + ((s.BP + 7) / 8 * 8 - s.BP) := by omega
  rw [align_eq, hround]
  refine h.advance (by omega) fun hpasses => hcare ⟨hpasses.1, hpasses.2.1, ?_⟩
  have hcross := hpasses.2.2
  omega

theorem Size.bytes_pos (size : Size) : 1 ≤ 8 * size.bytes ∧ 8 * size.bytes ≤ 64 := by
  cases size <;> decide

/-- One operation: its result is right, and the state is at the next place of the stream. -/
theorem At.step (h : At st s q) {op : Op} (hcare : Careful s op) :
    st.Allows op (s.step op).2 ∧ ∃ q', At (st.step op (s.step op).2) (s.step op).1 q' := by
  cases op with
  | write pMem => exact ⟨Nat.min_le_left .., q, h.write pMem⟩
  | fill bits =>
    obtain ⟨hat, -, hflag, -⟩ := h.fillBuffer (bits + 1) (by omega)
    exact ⟨hflag, q, hat⟩
  | getBits size adv =>
    have hbytes := size.bytes_pos
    obtain ⟨hat, hbp, hflag, hwindow⟩ := h.fillBuffer (8 * size.bytes) (by omega)
    rw [State.step, State.getBits]
    generalize s.fillBuffer (8 * size.bytes) = filled at hat hbp hflag hwindow
    obtain ⟨t, flag⟩ := filled
    dsimp only at hat hbp hflag hwindow
    cases flag with
    | false =>
      refine ⟨of_decide_eq_false hflag.symm, q, ?_⟩
      cases adv with
      | false => exact hat
      | true => exact hat
    | true =>
      have hin : t.BP + 8 * size.bytes ≤ 128 * t.FP := by
        rw [hbp]
        exact hwindow rfl
      obtain ⟨hhas, hslice⟩ := hat.slice_eq hin
      refine ⟨⟨hhas, ?_⟩, ?_⟩
      · rw [State.bitsOf_bitsAt, hslice]
      · cases adv with
        | false => exact ⟨q, hat⟩
        | true =>
          refine hat.advance (by omega) fun hpasses => ?_
          rw [hpasses.1] at hin
          omega
  | ubits bits =>
    obtain ⟨hhas, hslice⟩ := h.slice_eq hcare
    refine ⟨⟨hhas, ?_⟩, q, h⟩
    rw [State.bitsOf_ubits s (by omega), hslice]
  | sbits bits =>
    obtain ⟨hhas, hslice⟩ := h.slice_eq hcare
    have hfirst : streamBit s.window s.BP = st.bit st.pos := by
      have hone := (h.slice_eq (n := 1) (Nat.le_trans (by omega) hcare)).2
      exact List.head_eq_of_cons_eq hone
    refine ⟨⟨hhas, ?_⟩, q, h⟩
    rw [State.bitsOf_sbits s (by omega) (by omega), hslice, hfirst]
  | advance bits => exact ⟨trivial, h.advance (by omega) hcare⟩
  | align => exact ⟨trivial, h.align hcare⟩

end Steps

theorem at_bclr (val : Nat) : At ⟨[], val &&& 0x7f⟩ (State.bclr val) 0 := by
  refine ⟨(Nat.zero_add _).symm, ?_, Nat.zero_le 2, Nat.le_refl 0,
    fun i hi => absurd hi (Nat.not_lt_zero i), ?_⟩
  · exact Nat.lt_of_le_of_lt Nat.and_le_right (by decide)
  · exact ⟨rfl, Nat.zero_le 8, Nat.zero_lt_succ 31, Nat.dvd_zero 4, rfl, fun i x hx => by simp at hx⟩

/-- In every run in which no advance passes a quadword that is still to come, and `UBITS` and
`SBITS` stay in the window, what is read is the stream. -/
theorem inOrder_of_careful (val : Nat) (ops : List Op) (h : CarefulRun (State.bclr val) ops) :
    InOrder ⟨[], val &&& 0x7f⟩ (State.bclr val) ops := by
  have hrun {st : Stream} {s : State} {q : Nat} (hat : At st s q) (ops : List Op)
      (h : CarefulRun s ops) : InOrder st s ops := by
    induction ops generalizing st s q with
    | nil => exact ⟨Nat.le_of_lt (Nat.lt_of_lt_of_le hat.bp (by decide)), hat.fp⟩
    | cons op ops ih =>
      obtain ⟨hallows, q', hat'⟩ := hat.step h.1
      exact ⟨Nat.le_of_lt (Nat.lt_of_lt_of_le hat.bp (by decide)), hat.fp, hallows, ih hat' h.2⟩
  exact hrun (at_bclr val) ops h

/-- A quadword arrives and a word of it is read. -/
theorem inOrder_one_word :
    InOrder ⟨[], 5 &&& 0x7f⟩ (State.bclr 5) [.write [1], .getBits .bits32 true] :=
  inOrder_of_careful 5 _ ⟨trivial, trivial, trivial⟩

/-- `BCLR` to bit 127 and a skip of 63 bits: the first quadword is to be dropped when it comes. -/
theorem not_inOrder_of_skip :
    ¬ InOrder ⟨[], 127 &&& 0x7f⟩ (State.bclr 127)
      [.advance 63, .write [0, BitVec.allOnes 128], .getBits .bits32 false] := by
  rintro ⟨-, -, -, -, -, -, -, -, hword, -⟩
  exact absurd hword.2 (by decide)

end OmegaRed.IPU
