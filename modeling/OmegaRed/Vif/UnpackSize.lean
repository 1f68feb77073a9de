import OmegaRed.Lib.RingFifo
import OmegaRed.Lib.Traces
import OmegaRed.Vif.Mpg

/-! `UNPACK`: its size, its transfer in as many packets as it comes in, and the loop that takes
its data apart. -/

namespace OmegaRed.Vif

open Lib.Words

/-- The bytes of the source that each vector takes, by the format in `vif.cmd & 0x0f`. -/
def nVifT (cmd : UInt32) : Nat :=
  [4, 2, 1, 0, 8, 4, 2, 0, 12, 6, 3, 0, 16, 8, 4, 2].getD (cmd &&& 0x0f).toNat 0

/-- `NUM` of the VIFcode; 0 is taken as 256. -/
def vifNum (code : UInt32) : Nat :=
  let num := ((code >>> 16) &&& 0xff).toNat
  if num = 0 then 256 else num

/-- What a unit has for unpacks: of `vif`, of its registers and of `nVif`. `buffer` is the part
below `bSize`, and `unpacked` is the data that unpack loops were given. -/
structure Unpack where
  cmd : UInt32
  pass : Nat
  tagAddr : UInt32
  tagSize : Nat
  tagCmd : UInt32
  cl : Nat
  usn : Bool
  start_aligned : Nat
  code : UInt32
  num : UInt32
  cycleCl : UInt8
  cycleWl : UInt8
  tops : UInt32
  buffer : List UInt8
  unpacked : List (List UInt8)

namespace Unpack

variable (idx : Bool) (s : Unpack)

def bSize : Nat := s.buffer.length

/-- The size of `nVif.buffer`. -/
def bufferSize : Nat := 256 * 16

/-- 0 is taken as 256. -/
def wl : Nat := if s.cycleWl = 0 then 256 else s.cycleWl.toNat

def isFill : Bool := s.cycleCl.toNat < s.wl

def vSize : Nat := nVifT s.cmd

/-- `tag.size` of `vifUnpackSetup`. -/
def unpackSize : Nat :=
  if s.wl ≤ s.cycleCl.toNat then (vifNum s.code * s.vSize + 3) / 4
  else
    let n := s.cycleCl.toNat * (vifNum s.code / s.wl) + min (vifNum s.code % s.wl) s.cycleCl.toNat
    (n * s.vSize + 3) / 4

def vifUnpackSetup (vifpacketsize : Nat) : Unpack :=
  let addr := if idx ∧ (s.code >>> 15) &&& 1 ≠ 0 then s.code + s.tops else s.code
  { s with
    usn := (s.code >>> 14) &&& 1 ≠ 0
    num := .ofNat (vifNum s.code)
    tagSize := s.unpackSize
    tagAddr := (addr <<< 4) &&& (if idx then 0x3ff0 else 0xff0)
    cl := 0
    tagCmd := s.cmd
    pass := 1
    start_aligned := 4 - (vifpacketsize + 3) % 4 }

/-- How a filling unpack goes on after a vector: does the vector take data, and `vif.cl`. -/
def nextFill (cl : Nat) : Bool × Nat :=
  let cl := cl + 1
  if cl ≤ s.cycleCl.toNat then (true, cl)
  else if cl = s.cycleWl.toNat then (false, 0)
  else (false, cl)

/-- The loop of a partial transfer that fills; no value where it has not ended in as many rounds
as `num` has left. -/
def fillNum : Nat → UInt32 → Nat → Nat → Option (UInt32 × Nat)
  | rounds, num, cl, size =>
    if size < s.vSize then some (num, cl)
    else
      match rounds with
      | 0 => none
      | rounds + 1 =>
        let (takes, cl) := s.nextFill cl
        fillNum rounds (num - 1) cl (if takes then size - s.vSize else size)

/-- `num` and `vif.cl` after a partial transfer. -/
def accountNum (size : Nat) : Option (UInt32 × Nat) :=
  if !s.isFill then some (s.num - .ofNat (size / s.vSize), s.cl)
  else s.fillNum s.num.toNat s.num s.cl size

/-- `memcpy(&v.buffer[v.bSize], data, size)`, which has to stay in the buffer. -/
def buffered (data : List UInt8) : Option Unpack :=
  if s.bSize + data.length ≤ bufferSize then some { s with buffer := s.buffer ++ data } else none

/-- The loop's data when the last transfer was partial, with `NUM` back from the VIFcode. -/
def gathered (data : List UInt8) : Option (Unpack × List UInt8) :=
  if s.bSize ≠ 0 then
    (s.buffered data).map fun t => ({ t with cl := 0, num := .ofNat (vifNum t.code) }, t.buffer)
  else some (s, data)

/-- `nVifUnpack` on a packet, with how many words of it are taken. -/
def nVifUnpack (data : List UInt32) : Option (Nat × Unpack) := do
  let ret := min data.length s.tagSize
  let bytes := wordBytes (data.take ret)
  let size := ret * 4
  if ret = s.tagSize then
    let (t, bytes) ← s.gathered bytes
    return (ret, { t with
      pass := 0, tagSize := 0, cmd := 0, num := 0, buffer := []
      unpacked := t.unpacked ++ [bytes] })
  else
    let t ← s.buffered bytes
    let (num, cl) ← s.accountNum size
    return (ret, { t with tagSize := s.tagSize - ret, num := num, cl := cl })

/-! ## The loop -/

/-- `calls` is where each vector went and where its data was. -/
structure Loop where
  num : UInt32
  cl : Nat
  addr : UInt32
  data : Nat
  calls : List (UInt32 × Nat)

def getVUptr (offset : UInt32) : UInt32 := offset &&& (if idx then 0x3ff0 else 0xff0)

def round (l : Loop) : Loop :=
  let l := { l with
    calls := l.calls ++ [(getVUptr idx l.addr, l.data)], addr := l.addr + 16, num := l.num - 1 }
  if s.isFill then
    let (takes, cl) := s.nextFill l.cl
    { l with cl := cl, data := if takes then l.data + s.vSize else l.data }
  else
    let l := { l with cl := l.cl + 1, data := l.data + s.vSize }
    if l.cl ≥ s.cycleWl.toNat then
      { l with addr := l.addr + (s.cycleCl.toUInt32 - s.cycleWl.toUInt32) * 16, cl := 0 }
    else l

/-- A round, and as many more as are given until `num` is 0. -/
def rounds : Nat → Loop → Loop
  | 0, l => s.round idx l
  | n + 1, l => if (s.round idx l).num = 0 then s.round idx l else rounds n (s.round idx l)

/-- `_nVifUnpackLoop`, whose `num` comes down to 0 in this many rounds. -/
def nVifUnpackLoop : Loop := s.rounds idx (s.num - 1).toNat ⟨s.num, s.cl, s.tagAddr, 0, []⟩

/-! ## The unit's runs -/

inductive Event
  | code (code : UInt32) (cl wl : UInt8) (tops : UInt32) (vifpacketsize : Nat)
  | packet (data : List UInt32)

/-- With a new VIFcode, and what the registers hold by then. -/
def vifCode (code : UInt32) (cl wl : UInt8) (tops : UInt32) : Unpack :=
  { s with cmd := code >>> 24, code := code, cycleCl := cl, cycleWl := wl, tops := tops }

/-- A VIFcode is taken when the last one is done, and a packet by the unpack that is under way. -/
def step : Unpack → Event → Option Unpack
  | s, .code code cl wl tops vifpacketsize =>
    if s.cmd = 0 ∧ (code >>> 24) &&& 0x60 = 0x60 then
      some (vifUnpackSetup idx (s.vifCode code cl wl tops) vifpacketsize)
    else some s
  | s, .packet data => if s.cmd = 0 then some s else (s.nVifUnpack data).map Prod.snd

/-- After `resetNewVif`. -/
def reset : Unpack := ⟨0, 0, 0, 0, 0, 0, false, 0, 0, 0, 0, 0, 0, [], []⟩

end Unpack

end OmegaRed.Vif

/-! How much data an unpack takes, and that its partial transfers fit the buffer. -/

namespace OmegaRed.Vif

open Lib Lib.Cyclic

theorem nVifT_le (cmd : UInt32) : nVifT cmd ≤ 16 := by
  have hall : ∀ v ∈ [4, 2, 1, 0, 8, 4, 2, 0, 12, 6, 3, 0, 16, 8, 4, 2], v ≤ 16 := by decide
  rw [nVifT, List.getD_eq_getElem?_getD]
  cases h : [4, 2, 1, 0, 8, 4, 2, 0, 12, 6, 3, 0, 16, 8, 4, 2][(cmd &&& 0x0f).toNat]? with
  | none => exact Nat.zero_le _
  | some v => exact hall v (List.mem_of_getElem? h)

theorem vifNum_pos (code : UInt32) : 0 < vifNum code := by
  simp only [vifNum]
  split <;> omega

theorem vifNum_le (code : UInt32) : vifNum code ≤ 256 := by
  simp only [vifNum]
  split
  · exact Nat.le_refl _
  · rw [UInt32.toNat_and]
    exact Nat.le_of_lt (Nat.lt_succ_of_le (Nat.le_trans Nat.and_le_right (by decide)))

theorem toNat_vifNum (code : UInt32) : (UInt32.ofNat (vifNum code)).toNat = vifNum code := by
  rw [UInt32.toNat_ofNat']
  have := vifNum_le code
  omega

namespace Unpack

variable {idx : Bool} {s : Unpack}

theorem wl_pos : 0 < s.wl := by
  rw [wl]
  split
  · decide
  next h => exact Nat.pos_of_ne_zero fun h0 => h (UInt8.toNat_inj.mp h0)

/-- How many of the first `k` vectors take data. -/
def taken (s : Unpack) (k : Nat) : Nat :=
  if s.isFill then s.cycleCl.toNat * (k / s.wl) + min (k % s.wl) s.cycleCl.toNat else k

theorem isFill_iff : s.isFill = true ↔ s.cycleCl.toNat < s.wl := by simp [isFill]

theorem unpackSize_eq : s.unpackSize = (s.taken (vifNum s.code) * s.vSize + 3) / 4 := by
  rw [unpackSize, taken]
  by_cases h : s.isFill = true
  · rw [if_neg (Nat.not_le.mpr (isFill_iff.mp h)), if_pos h]
  · rw [if_pos (Nat.not_lt.mp fun hlt => h (isFill_iff.mpr hlt)), if_neg h]

@[simp] theorem taken_zero : s.taken 0 = 0 := by simp [taken]

theorem taken_succ_skip (h : s.isFill = false) (k : Nat) : s.taken (k + 1) = s.taken k + 1 := by
  simp [taken, h]

theorem taken_succ_fill (h : s.isFill = true) (k : Nat) :
    s.taken (k + 1) = s.taken k + if k % s.wl < s.cycleCl.toNat then 1 else 0 := by
  have hlt := isFill_iff.mp h
  rw [taken, taken, if_pos h, if_pos h, succ_mod wl_pos, succ_div wl_pos]
  by_cases hlast : k % s.wl + 1 = s.wl
  · rw [if_pos hlast, if_pos hlast, Nat.mul_succ]
    split <;> omega
  · rw [if_neg hlast, if_neg hlast]
    split <;> omega

theorem taken_le_succ (k : Nat) : s.taken k ≤ s.taken (k + 1) := by
  cases h : s.isFill with
  | false => exact Nat.le_of_lt (by rw [taken_succ_skip h]; exact Nat.lt_succ_self _)
  | true =>
    rw [taken_succ_fill h]
    exact Nat.le_add_right _ _

theorem taken_mono : Monotone s.taken := monotone_nat_of_le_succ taken_le_succ

theorem taken_le (k : Nat) : s.taken k ≤ k := by
  induction k with
  | zero => simp
  | succ k ih =>
    cases h : s.isFill with
    | false => rw [taken_succ_skip h]; omega
    | true =>
      rw [taken_succ_fill h]
      split <;> omega

theorem unpackSize_le : 4 * s.unpackSize ≤ bufferSize := by
  have hn := Nat.le_trans (taken_le (s := s) (vifNum s.code)) (vifNum_le s.code)
  have hm := Nat.mul_le_mul hn (nVifT_le s.cmd)
  rw [unpackSize_eq, bufferSize]
  rw [← vSize] at hm
  omega

theorem nextFill_eq (h : s.isFill = true) {k : Nat} :
    (s.nextFill (k % s.wl)).1 = decide (k % s.wl < s.cycleCl.toNat) ∧
      (k + 1 < 256 → (s.nextFill (k % s.wl)).2 = (k + 1) % s.wl) := by
  have hlt := isFill_iff.mp h
  have hmod := succ_mod wl_pos (n := s.wl) k
  rw [nextFill]
  by_cases htake : k % s.wl + 1 ≤ s.cycleCl.toNat
  · rw [if_pos htake]
    refine ⟨(decide_eq_true (by omega)).symm, fun _ => ?_⟩
    rw [hmod, if_neg (by omega)]
  · rw [if_neg htake]
    have hno : decide (k % s.wl < s.cycleCl.toNat) = false := decide_eq_false (by omega)
    by_cases hend : k % s.wl + 1 = s.cycleWl.toNat
    · rw [if_pos hend]
      refine ⟨hno.symm, fun _ => ?_⟩
      have hwl : s.wl = s.cycleWl.toNat := by
        rw [wl, if_neg]
        rintro h0
        rw [h0] at hend
        exact Nat.succ_ne_zero _ hend
      rw [hmod, hwl, if_pos (hwl ▸ hend)]
    · rw [if_neg hend]
      refine ⟨hno.symm, fun hk => ?_⟩
      rw [hmod, if_neg]
      intro hwl
      rw [wl] at hwl hend
      split at hwl
      next h0 =>
        rw [if_pos h0] at hend
        omega
      next h0 =>
        rw [if_neg h0] at hend
        exact hend hwl

/-! ## The loop -/

theorem toNat_sub_one {n : UInt32} (h : 0 < n.toNat) : (n - 1).toNat = n.toNat - 1 := by
  have hle : (1 : UInt32) ≤ n := UInt32.le_iff_toNat_le.mpr h
  rw [UInt32.toNat_sub_of_le _ _ hle]
  rfl

/-- The loop has done `k` rounds of `n`. -/
structure Loop.At (s : Unpack) (n k : Nat) (l : Loop) : Prop where
  num : l.num.toNat + k = n
  data : l.data = s.taken k * s.vSize
  cl : s.isFill = true → k < n → l.cl = k % s.wl

variable {n k : Nat} {l : Loop}

theorem Loop.At.round (idx : Bool) (h : l.At s n k) (hk : k < n) (hn : n ≤ 256) :
    (s.round idx l).At s n (k + 1) := by
  have hnum := toNat_sub_one (n := l.num) (by have := h.num; omega)
  have hsum := h.num
  rw [Unpack.round]
  cases hfill : s.isFill with
  | true =>
    obtain ⟨htakes, hcl⟩ := nextFill_eq hfill (k := k)
    simp only [if_true, h.cl hfill hk, htakes]
    refine ⟨by simp only [hnum]; omega, ?_, fun _ hlt => hcl (by omega)⟩
    rw [taken_succ_fill hfill, h.data]
    by_cases htake : k % s.wl < s.cycleCl.toNat
    · simp only [htake, decide_true, if_true, Nat.add_mul, Nat.one_mul]
    · simp only [htake, decide_false, Bool.false_eq_true, if_false, Nat.add_zero]
  | false =>
    have hdata : l.data + s.vSize = s.taken (k + 1) * s.vSize := by
      rw [taken_succ_skip hfill, Nat.add_mul, Nat.one_mul, h.data]
    simp only [Bool.false_eq_true, if_false]
    split <;> exact ⟨by simp only [hnum]; omega, hdata, fun h' => by rw [hfill] at h'; cases h'⟩

theorem Loop.At.rounds (idx : Bool) (h : l.At s n k) {m : Nat} (hm : k + m + 1 = n) (hn : n ≤ 256) :
    (s.rounds idx m l).At s n n := by
  induction m generalizing k l with
  | zero =>
    have hround := h.round idx (by omega) hn
    rw [show k + 1 = n by omega] at hround
    exact hround
  | succ m ih =>
    have hround := h.round idx (by omega) hn
    have hne : (s.round idx l).num ≠ 0 := by
      intro h0
      have hsum := hround.num
      rw [h0, UInt32.toNat_zero] at hsum
      omega
    rw [Unpack.rounds, if_neg hne]
    exact ih hround (by omega)

theorem nVifUnpackLoop_data (vifpacketsize : Nat) :
    ((vifUnpackSetup idx s vifpacketsize).nVifUnpackLoop idx).data =
      s.taken (vifNum s.code) * s.vSize := by
  have hpos := vifNum_pos s.code
  have hnum := toNat_vifNum s.code
  have hstart : (⟨.ofNat (vifNum s.code), 0, (vifUnpackSetup idx s vifpacketsize).tagAddr, 0,
      []⟩ : Loop).At (vifUnpackSetup idx s vifpacketsize) (vifNum s.code) 0 :=
    ⟨hnum, by rw [taken_zero, Nat.zero_mul], fun _ _ => (Nat.zero_mod _).symm⟩
  have hend := hstart.rounds idx (m := ((UInt32.ofNat (vifNum s.code)) - 1).toNat)
    (by rw [toNat_sub_one (by omega)]; omega) (vifNum_le s.code)
  exact hend.data

/-! ## Partial transfers -/

/-- `num` and `vif.cl` stand before vector `k`. -/
structure FillAt (s : Unpack) (k : Nat) (num : UInt32) (cl : Nat) : Prop where
  num : num.toNat + k = vifNum s.code
  cl : k < vifNum s.code → cl = k % s.wl

/-- The count of a filling unpack comes to an end while data of it is still to come. -/
theorem exists_fillNum (hfill : s.isFill = true) {rounds size total cl : Nat} {num : UInt32}
    (h : s.FillAt k num cl) (hrounds : num.toNat ≤ rounds)
    (hsize : s.taken k * s.vSize + size ≤ total)
    (htotal : total < s.taken (vifNum s.code) * s.vSize) :
    ∃ num' cl' k', s.fillNum rounds num cl size = some (num', cl') ∧ s.FillAt k' num' cl' ∧
      s.taken k' * s.vSize ≤ total := by
  induction rounds generalizing num cl size k with
  | zero =>
    have hk : k = vifNum s.code := by
      have := h.num
      omega
    rw [hk] at hsize
    omega
  | succ rounds ih =>
    rw [fillNum]
    by_cases hlt : size < s.vSize
    · exact ⟨num, cl, k, if_pos hlt, h, by omega⟩
    · rw [if_neg hlt]
      have hk : k < vifNum s.code := by
        by_contra hge
        have hmono := Nat.mul_le_mul_right s.vSize (taken_mono (s := s) (Nat.not_lt.mp hge))
        omega
      have hnum := toNat_sub_one (n := num) (by have := h.num; omega)
      have hsum := h.num
      have hle := vifNum_le s.code
      obtain ⟨htakes, hcl⟩ := nextFill_eq hfill (k := k)
      rw [h.cl hk]
      refine ih ⟨by omega, fun hk' => hcl (by omega)⟩ (by omega) ?_
      change _ * s.vSize + (if (s.nextFill (k % s.wl)).1 then size - s.vSize else size) ≤ total
      rw [taken_succ_fill hfill, htakes]
      by_cases htake : k % s.wl < s.cycleCl.toNat
      · simp only [htake, decide_true, if_true, Nat.add_mul, Nat.one_mul]
        omega
      · simp only [htake, decide_false, Bool.false_eq_true, if_false, Nat.add_zero]
        exact hsize

/-- What is buffered and what is to come are together the unpack's data. -/
structure Kept (s : Unpack) : Prop where
  idle : s.cmd = 0 → s.buffer = [] ∧ s.tagSize = 0
  room : s.cmd ≠ 0 → s.bSize + 4 * s.tagSize = 4 * s.unpackSize
  fill : s.cmd ≠ 0 → s.isFill = true →
    ∃ k, s.FillAt k s.num s.cl ∧ s.taken k * s.vSize ≤ s.bSize

theorem kept_reset : reset.Kept := ⟨fun _ => ⟨rfl, rfl⟩, fun h => absurd rfl h, fun h => absurd rfl h⟩

theorem Kept.setup (idx : Bool) (hbuffer : s.buffer = []) (hcmd : s.cmd ≠ 0) (vifpacketsize : Nat) :
    (vifUnpackSetup idx s vifpacketsize).Kept := by
  refine ⟨fun h => absurd h hcmd, fun _ => ?_, fun _ _ => ⟨0, ⟨toNat_vifNum _, ?_⟩, ?_⟩⟩
  · rw [bSize, show (vifUnpackSetup idx s vifpacketsize).buffer = [] from hbuffer]
    exact Nat.zero_add _
  · exact fun _ => (Nat.zero_mod _).symm
  · rw [taken_zero, Nat.zero_mul]
    exact Nat.zero_le _

theorem vifCode_cmd_ne {code : UInt32} {cl wl : UInt8} {tops : UInt32}
    (h : (code >>> 24) &&& 0x60 = 0x60) : (s.vifCode code cl wl tops).cmd ≠ 0 := by
  intro h0
  rw [show code >>> 24 = 0 from h0] at h
  exact absurd h (by decide)

theorem length_taken_words (data : List UInt32) :
    (wordBytes (data.take (min data.length s.tagSize))).length = 4 * min data.length s.tagSize := by
  rw [length_wordBytes, List.length_take]
  omega

theorem Kept.fits (h : s.Kept) (data : List UInt32) :
    s.bSize + 4 * min data.length s.tagSize ≤ bufferSize := by
  rcases eq_or_ne s.cmd 0 with hcmd | hcmd
  · obtain ⟨hbuffer, hsize⟩ := h.idle hcmd
    rw [bSize, hbuffer, hsize]
    simp
  · have hroom := h.room hcmd
    have hle := unpackSize_le (s := s)
    omega

theorem buffered_eq {bytes : List UInt8} (h : s.bSize + bytes.length ≤ bufferSize) :
    s.buffered bytes = some { s with buffer := s.buffer ++ bytes } := if_pos h

theorem exists_gathered {bytes : List UInt8} (h : s.bSize + bytes.length ≤ bufferSize) :
    ∃ t, s.gathered bytes = some t := by
  rw [gathered]
  split
  · rw [buffered_eq h]
    exact ⟨_, rfl⟩
  · exact ⟨_, rfl⟩

theorem Kept.exists_accountNum (h : s.Kept) (hcmd : s.cmd ≠ 0) {size : Nat}
    (hsize : size + 4 ≤ 4 * s.tagSize) :
    ∃ num cl, s.accountNum size = some (num, cl) ∧
      (s.isFill = true → ∃ k, s.FillAt k num cl ∧ s.taken k * s.vSize ≤ s.bSize + size) := by
  rw [accountNum]
  cases hfill : s.isFill with
  | false => exact ⟨_, _, rfl, fun h1 => by cases h1⟩
  | true =>
    obtain ⟨k, hk, hle⟩ := h.fill hcmd hfill
    have hroom := h.room hcmd
    rw [unpackSize_eq] at hroom
    obtain ⟨num, cl, k', hnum, hk', hle'⟩ := exists_fillNum hfill hk (Nat.le_refl _)
      (Nat.add_le_add_right hle size) (by omega)
    exact ⟨num, cl, hnum, fun _ => ⟨k', hk', hle'⟩⟩

theorem Kept.nVifUnpack (h : s.Kept) (hcmd : s.cmd ≠ 0) (data : List UInt32) :
    ∃ ret t, s.nVifUnpack data = some (ret, t) ∧ t.Kept := by
  have hroom := h.room hcmd
  have hfit : s.bSize + (wordBytes (data.take (min data.length s.tagSize))).length ≤
      bufferSize := by
    rw [length_taken_words]
    exact h.fits data
  rw [Unpack.nVifUnpack]
  by_cases hfull : min data.length s.tagSize = s.tagSize
  · obtain ⟨⟨t, bytes⟩, ht⟩ := exists_gathered hfit
    simp only [if_pos hfull, ht]
    exact ⟨_, _, rfl, fun _ => ⟨rfl, rfl⟩, fun h0 => absurd rfl h0, fun h0 => absurd rfl h0⟩
  · have hlen := length_taken_words (s := s) data
    have hsize : (s.buffer ++ wordBytes (data.take (min data.length s.tagSize))).length =
        s.bSize + min data.length s.tagSize * 4 := by
      rw [List.length_append, hlen, bSize]
      omega
    obtain ⟨num, cl, hnum, hfill⟩ := h.exists_accountNum hcmd
      (show min data.length s.tagSize * 4 + 4 ≤ 4 * s.tagSize by omega)
    simp only [if_neg hfull, buffered_eq hfit, hnum]
    refine ⟨_, _, rfl, fun h0 => absurd h0 hcmd, fun _ => ?_, fun _ h1 => ?_⟩
    · rw [bSize, hsize]
      change s.bSize + min data.length s.tagSize * 4 +
        4 * (s.tagSize - min data.length s.tagSize) = 4 * s.unpackSize
      omega
    · obtain ⟨k, hk, hle⟩ := hfill h1
      exact ⟨k, ⟨hk.num, hk.cl⟩, hle.trans (Nat.le_of_eq hsize.symm)⟩

theorem Kept.step (idx : Bool) (h : s.Kept) (e : Event) : ∃ t, step idx s e = some t ∧ t.Kept := by
  cases e with
  | code code cl wl tops vifpacketsize =>
    rw [Unpack.step]
    split
    next hc =>
      exact ⟨_, rfl, Kept.setup (s := s.vifCode code cl wl tops) idx (h.idle hc.1).1
        (vifCode_cmd_ne hc.2) vifpacketsize⟩
    · exact ⟨s, rfl, h⟩
  | packet data =>
    rw [Unpack.step]
    split
    · exact ⟨s, rfl, h⟩
    next hcmd =>
      obtain ⟨ret, t, ht, hkept⟩ := h.nVifUnpack hcmd data
      exact ⟨t, by rw [ht]; rfl, hkept⟩

theorem Kept.run (idx : Bool) (h : s.Kept) (events : List Event) :
    ∃ t, Traces.run (Unpack.step idx) s events = some t ∧ t.Kept := by
  induction events generalizing s with
  | nil => exact ⟨s, rfl, h⟩
  | cons e events ih =>
    obtain ⟨t, ht, hkept⟩ := h.step idx e
    obtain ⟨u, hu, hkept'⟩ := ih hkept
    exact ⟨u, by rw [Traces.run, ht, Option.bind_some, hu], hkept'⟩

/-- `tag.size` is the data of the loop in words, rounded up, and no run of unpacks, in whatever
packets they come, leaves the buffer. -/
theorem unpack_sizes (idx : Bool) :
    (∀ (s : Unpack) (vifpacketsize : Nat),
      let t := vifUnpackSetup idx s vifpacketsize
      t.num.toNat = vifNum s.code ∧ t.tagSize = ((t.nVifUnpackLoop idx).data + 3) / 4) ∧
    ∀ events : List Event, ∃ s, Traces.run (step idx) reset events = some s ∧
      ∀ data : List UInt32, s.bSize + 4 * min data.length s.tagSize ≤ bufferSize := by
  constructor
  · intro s vifpacketsize
    refine ⟨toNat_vifNum s.code, ?_⟩
    rw [nVifUnpackLoop_data]
    exact unpackSize_eq
  · intro events
    obtain ⟨s, hrun, hkept⟩ := kept_reset.run idx events
    exact ⟨s, hrun, hkept.fits⟩

end Unpack

end OmegaRed.Vif

/-! The `NUM` register and the data of an unpack that comes in several packets. -/

namespace OmegaRed.Vif

open Lib

/-- Remainders that are lost one by one are lost in the sum once they make up a whole. -/
theorem sum_div (v : Nat) (l : List Nat) :
    l.sum / v = (l.map (· / v)).sum + (l.map (· % v)).sum / v := by
  rcases Nat.eq_zero_or_pos v with rfl | hv
  · simp
  have hsum : l.sum = v * (l.map (· / v)).sum + (l.map (· % v)).sum := by
    induction l with
    | nil => simp
    | cons x l ih =>
      have hx := Nat.div_add_mod x v
      simp only [List.sum_cons, List.map_cons, Nat.mul_add]
      omega
  rw [hsum, Nat.mul_add_div hv]

namespace Unpack

variable {idx : Bool} {s t : Unpack}

theorem nVifUnpack_partial (h : s.Kept) (hfill : s.isFill = false) {data : List UInt32}
    (hdata : data.length < s.tagSize) :
    s.nVifUnpack data = some (data.length, { s with
      buffer := s.buffer ++ wordBytes data, tagSize := s.tagSize - data.length,
      num := s.num - .ofNat (data.length * 4 / s.vSize) }) := by
  have hmin : min data.length s.tagSize = data.length := Nat.min_eq_left hdata.le
  have hfit : s.bSize + (wordBytes data).length ≤ bufferSize := by
    have := h.fits data
    rw [length_wordBytes]
    omega
  rw [nVifUnpack, hmin, List.take_length]
  simp only [if_neg hdata.ne, buffered_eq hfit, accountNum, hfill, Bool.not_false, if_true]
  rfl

theorem run_packets (idx : Bool) (h : s.Kept) (hcmd : s.cmd ≠ 0) (hfill : s.isFill = false)
    {packets : List (List UInt32)} (hsize : packets.flatten.length < s.tagSize)
    (hnum : (packets.map fun p => p.length * 4 / s.vSize).sum ≤ s.num.toNat) :
    ∃ t, Traces.run (step idx) s (packets.map .packet) = some t ∧ t.Kept ∧
      t.num.toNat + (packets.map fun p => p.length * 4 / s.vSize).sum = s.num.toNat ∧
      t.buffer = s.buffer ++ wordBytes packets.flatten ∧
      t.tagSize + packets.flatten.length = s.tagSize ∧ t.cmd = s.cmd ∧ t.code = s.code ∧
      t.unpacked = s.unpacked := by
  induction packets generalizing s with
  | nil => exact ⟨s, rfl, h, rfl, by simp [wordBytes], rfl, rfl, rfl, rfl⟩
  | cons p packets ih =>
    simp only [List.flatten_cons, List.length_append, List.map_cons, List.sum_cons] at hsize hnum
    obtain ⟨ret, r, hr, hkept⟩ := h.nVifUnpack hcmd p
    have heq := nVifUnpack_partial h hfill (show p.length < s.tagSize by omega)
    rw [heq] at hr
    have hnum' : (s.num - UInt32.ofNat (p.length * 4 / s.vSize)).toNat =
        s.num.toNat - p.length * 4 / s.vSize := by
      have hlt := s.num.toNat_lt
      have hof : (UInt32.ofNat (p.length * 4 / s.vSize)).toNat = p.length * 4 / s.vSize := by
        rw [UInt32.toNat_ofNat', Nat.mod_eq_of_lt (by omega)]
      rw [UInt32.toNat_sub_of_le _ _ (UInt32.le_iff_toNat_le.mpr (by omega)), hof]
    cases hr
    have hrest : (packets.map fun p => p.length * 4 / s.vSize).sum ≤
        (s.num - UInt32.ofNat (p.length * 4 / s.vSize)).toNat := by
      rw [hnum']
      omega
    have hsize' : packets.flatten.length < s.tagSize - p.length := by omega
    obtain ⟨t, hrun, hk, hn, hb, hts, hc, hu⟩ := ih hkept hcmd hfill hsize' hrest
    refine ⟨t, ?_, hk, ?_, ?_, ?_, hc, hu⟩
    · rw [List.map_cons, Traces.run, step, if_neg hcmd, heq, Option.map_some, Option.bind_some]
      exact hrun
    · change t.num.toNat + (packets.map fun p => p.length * 4 / s.vSize).sum =
        (s.num - UInt32.ofNat (p.length * 4 / s.vSize)).toNat at hn
      rw [hnum'] at hn
      simp only [List.map_cons, List.sum_cons]
      omega
    · rw [hb, List.flatten_cons, wordBytes_append, List.append_assoc]
    · change t.tagSize + packets.flatten.length = s.tagSize - p.length at hts
      rw [List.flatten_cons, List.length_append]
      omega

/-- Vectors whose data has all come. -/
def complete (s : Unpack) (packets : List (List UInt32)) : Nat :=
  4 * packets.flatten.length / s.vSize

/-- `num` leaves out the vectors that are complete, and no vector that is still missing. -/
structure NumRight (s : Unpack) (packets : List (List UInt32)) : Prop where
  exact : s.num.toNat = vifNum s.code - s.complete packets
  missing : vifNum s.code - s.complete packets ≤ s.num.toNat

theorem sum_words (packets : List (List UInt32)) :
    (packets.map fun p => p.length * 4).sum = 4 * packets.flatten.length := by
  induction packets with
  | nil => rfl
  | cons p packets ih =>
    simp only [List.map_cons, List.sum_cons, List.flatten_cons, List.length_append, ih]
    omega

/-- Vectors counted packet by packet, and those that only their sum makes complete. -/
theorem complete_eq (packets : List (List UInt32)) :
    s.complete packets = (packets.map fun p => p.length * 4 / s.vSize).sum +
      (packets.map fun p => p.length * 4 % s.vSize).sum / s.vSize := by
  have hsum := sum_div s.vSize (packets.map fun p => p.length * 4)
  rw [sum_words, List.map_map, List.map_map] at hsum
  exact hsum

theorem kept_of_run {events : List Event} (hrun : Traces.run (step idx) reset events = some s) :
    s.Kept := by
  obtain ⟨t, ht, hkept⟩ := kept_reset.run idx events
  rw [hrun] at ht
  cases ht
  exact hkept

/-- A partial transfer of an unpack that fills nothing leaves `num` right exactly while the bytes
that the packets have beyond whole vectors do not make up a vector. -/
theorem num_right_iff {events : List Event} (hrun : Traces.run (step idx) reset events = some s)
    {code : UInt32} {cl wl : UInt8} {tops : UInt32} (hidle : s.cmd = 0)
    (hcode : (code >>> 24) &&& 0x60 = 0x60) (hfill : (s.vifCode code cl wl tops).isFill = false)
    {packets : List (List UInt32)}
    (hsize : packets.flatten.length < (s.vifCode code cl wl tops).unpackSize)
    (vifpacketsize : Nat) :
    ∃ t, Traces.run (step idx) s (.code code cl wl tops vifpacketsize :: packets.map .packet) =
        some t ∧ t.code = code ∧
      (t.NumRight packets ↔
        (packets.map fun p => p.length * 4 % nVifT (code >>> 24)).sum < nVifT (code >>> 24)) := by
  have hkept := kept_of_run hrun
  have hcmd : (s.vifCode code cl wl tops).cmd ≠ 0 := vifCode_cmd_ne hcode
  have hsetup := Kept.setup (s := s.vifCode code cl wl tops) idx (hkept.idle hidle).1 hcmd
    vifpacketsize
  have hcomplete := complete_eq (s := s.vifCode code cl wl tops) packets
  have hnum : (vifUnpackSetup idx (s.vifCode code cl wl tops) vifpacketsize).num.toNat =
      vifNum code := toNat_vifNum code
  have hbound : 4 * packets.flatten.length < vifNum code * nVifT (code >>> 24) := by
    rw [unpackSize_eq, taken, hfill, if_neg Bool.false_ne_true] at hsize
    change packets.flatten.length < (vifNum code * nVifT (code >>> 24) + 3) / 4 at hsize
    omega
  have hv : 0 < nVifT (code >>> 24) := by
    by_contra h0
    rw [Nat.eq_zero_of_not_pos h0] at hbound
    omega
  have hlt : (s.vifCode code cl wl tops).complete packets < vifNum code :=
    (Nat.div_lt_iff_lt_mul hv).mpr hbound
  obtain ⟨t, ht, -, hsum, -, -, htcmd, htcode, -⟩ := run_packets idx hsetup hcmd hfill hsize
    (by rw [hnum]; exact Nat.le_trans (Nat.le.intro hcomplete.symm) hlt.le)
  refine ⟨t, ?_, htcode, ?_⟩
  · rw [Traces.run, step, if_pos ⟨hidle, hcode⟩, Option.bind_some]
    exact ht
  · have htc : t.complete packets = (s.vifCode code cl wl tops).complete packets := by
      rw [complete, complete, vSize, vSize, htcmd]
      rfl
    have htn : vifNum t.code = vifNum code := congrArg vifNum htcode
    rw [hnum] at hsum
    change t.num.toNat + (packets.map fun p => p.length * 4 / nVifT (code >>> 24)).sum =
      vifNum code at hsum
    change _ = (packets.map fun p => p.length * 4 / nVifT (code >>> 24)).sum +
      (packets.map fun p => p.length * 4 % nVifT (code >>> 24)).sum / nVifT (code >>> 24)
      at hcomplete
    rw [← Nat.div_eq_zero_iff_lt hv]
    constructor
    · intro hright
      have hexact := hright.exact
      rw [htc, htn] at hexact
      omega
    · intro hzero
      have hexact : t.num.toNat = vifNum code - (s.vifCode code cl wl tops).complete packets := by
        omega
      exact ⟨by rw [htc, htn, hexact], by rw [htc, htn, hexact]⟩

/-- Two packets of 8 bytes for an unpack of two V4-32 vectors. -/
theorem num_right_iff_halves :
    ∃ t, Traces.run (step false) reset
        (.code 0x6c020000 1 1 0 5 :: [[0, 0], [0, 0]].map .packet) = some t ∧
      t.code = 0x6c020000 ∧
      (t.NumRight [[0, 0], [0, 0]] ↔
        ([[0, 0], [0, 0]].map fun p : List UInt32 => p.length * 4 % nVifT 0x6c).sum <
          nVifT 0x6c) :=
  num_right_iff (show Traces.run (step false) reset [] = some reset from rfl) rfl (by decide) (by decide) (by decide) 5

/-- The first of the two vectors is complete, and `num` is still 2. -/
theorem not_num_right :
    ∃ t, Traces.run (step false) reset
        (.code 0x6c020000 1 1 0 5 :: [[0, 0], [0, 0]].map .packet) = some t ∧
      ¬t.NumRight [[0, 0], [0, 0]] := by
  refine ⟨_, rfl, fun h => ?_⟩
  exact absurd h.exact (by decide)

end Unpack

end OmegaRed.Vif
