import Mathlib.Data.List.GetD
import OmegaRed.GSdx.Transfer

/-! Packets a quadword at a time: every register through its own handler. -/

namespace OmegaRed.GSdx

/-- What is still to come of a packet, for each register or quadword of image data. -/
inductive Item
  | packed (reg : BitVec 4)
  | half (reg : BitVec 4)
  | image
  deriving DecidableEq

structure Decoder (W : Type) where
  m : Machine W
  EOP : Bool
  todo : List Item
  /-- The tag has the registers of one of the combined handlers. -/
  fast : Bool

/-- The register descriptors of a tag. -/
def descriptors (REGS : BitVec 64) (nreg : Nat) : List (BitVec 4) :=
  (List.range nreg).map fun i => REGS.extractLsb' (4 * i) 4

/-- The registers that the combined handlers are for. -/
def combinedRegs : List (List (BitVec 4)) :=
  [[2, 1, 4], [2, 1, 5], [2, 1, 4, 2, 1, 4, 2, 1, 4], [2, 1, 4, 2, 1, 4, 2, 1, 4, 2, 1, 4]]

/-- What a tag with registers `regs` announces. -/
def announced (tag : GIFTag) (regs : List (BitVec 4)) : List Item :=
  match tag.FLG with
  | .PACKED => (List.replicate tag.NLOOP regs).flatten.map .packed
  | .REGLIST => (List.replicate tag.NLOOP regs).flatten.map .half
  | .IMAGE | .IMAGE2 => List.replicate tag.NLOOP .image

namespace Decoder

variable {W : Type} (P : Plugin W)

def tag (d : Decoder W) (r : GIFPackedReg) : Decoder W :=
  let tag : GIFTag := r.extractLsb' 0 64
  if tag.NLOOP = 0 then ⟨d.m, tag.EOP, [], false⟩
  else
    let regs := descriptors (r.extractLsb' 64 64) tag.nreg
    let gs := if tag.PRE ∧ tag.FLG = .PACKED then P.applyPRIM tag.PRIM d.m.gs else d.m.gs
    ⟨{ d.m with gs := gs, m_q := m_one }, tag.EOP, announced tag regs,
      tag.FLG = .PACKED ∧ regs ∈ combinedRegs⟩

/-- A quadword. -/
def step (d : Decoder W) (r : GIFPackedReg) : Decoder W :=
  match d.todo with
  | [] => d.tag P r
  | .packed reg :: todo => { d with m := d.m.packedRegHandler P reg r, todo := todo }
  | .half reg :: .half reg' :: todo =>
    let m := d.m.regHandler P (reg.setWidth 8) (r.extractLsb' 0 64)
    { d with m := m.regHandler P (reg'.setWidth 8) (r.extractLsb' 64 64), todo := todo }
  | .half reg :: todo =>
    { d with m := d.m.regHandler P (reg.setWidth 8) (r.extractLsb' 0 64), todo := todo }
  | .image :: todo =>
    let gs := if P.XDIR d.m.gs = 0 then P.write r d.m.gs else d.m.gs
    { d with m := { d.m with gs := gs }, todo := todo }

/-- Where the first path stops: after a whole packet. -/
def Stops (index : Fin 4) (d : Decoder W) : Prop := index = 0 ∧ d.EOP = true ∧ d.todo = []

instance (index : Fin 4) (d : Decoder W) : Decidable (d.Stops index) :=
  inferInstanceAs (Decidable (_ ∧ _ ∧ _))

def run (index : Fin 4) (d : Decoder W) : List GIFPackedReg → Decoder W
  | [] => d
  | r :: mem =>
    let d := d.step P r
    if d.Stops index then d else run index d mem

/-- The quadwords of a call. For the first path each call stands for itself. -/
def call (index : Fin 4) (d : Decoder W) (mem : List GIFPackedReg) : Decoder W :=
  let d := d.run P index mem
  if index = 0 then { d with todo := [] } else d

def calls (index : Fin 4) (d : Decoder W) (cs : List (List GIFPackedReg)) : Decoder W :=
  cs.foldl (call P index) d

variable {P} {index : Fin 4}

theorem run_eq_foldl (hindex : index ≠ 0) (d : Decoder W) (mem : List GIFPackedReg) :
    d.run P index mem = mem.foldl (step P) d := by
  induction mem generalizing d with
  | nil => rfl
  | cons r mem ih =>
    have hstops : ¬ (d.step P r).Stops index := fun h => hindex h.1
    rw [run, if_neg hstops, ih]
    rfl

theorem calls_eq_foldl (hindex : index ≠ 0) (d : Decoder W) (cs : List (List GIFPackedReg)) :
    d.calls P index cs = cs.flatten.foldl (step P) d := by
  induction cs generalizing d with
  | nil => rfl
  | cons mem cs ih =>
    have hcall : d.call P index mem = mem.foldl (step P) d := by
      rw [call, if_neg hindex, run_eq_foldl hindex]
    rw [List.flatten_cons, List.foldl_append, ← hcall]
    exact ih _

/-- What the combined handlers and `Move` do their own way: a `Q` that is not a number, frames that
are skipped, and image data while `XDIR` asks for a local move. -/
def Fine (P : Plugin W) (d : Decoder W) (r : GIFPackedReg) : Prop :=
  (d.fast = true → P.m_frameskip d.m.gs = false ∧
    (d.todo.head? = some (.packed 2) → isNaN (u32 r 2) = false)) ∧
  (d.todo.head? = some .image → P.XDIR d.m.gs ≠ 2)

instance (P : Plugin W) (d : Decoder W) (r : GIFPackedReg) : Decidable (d.Fine P r) :=
  inferInstanceAs (Decidable ((_ → _ ∧ (_ → _)) ∧ (_ → _)))

def FineRun (P : Plugin W) (index : Fin 4) (d : Decoder W) : List GIFPackedReg → Prop
  | [] => True
  | r :: mem => d.Fine P r ∧ (¬ (d.step P r).Stops index → FineRun P index (d.step P r) mem)

instance FineRun.instDecidable (P : Plugin W) (index : Fin 4) :
    ∀ (d : Decoder W) mem, Decidable (d.FineRun P index mem)
  | _, [] => isTrue trivial
  | d, r :: mem =>
    have := FineRun.instDecidable P index (d.step P r) mem
    inferInstanceAs (Decidable (_ ∧ (_ → _)))

theorem FineRun.next {d : Decoder W} {r : GIFPackedReg} {mem : List GIFPackedReg}
    (h : d.FineRun P index (r :: mem)) (hbusy : (d.step P r).todo ≠ []) :
    (d.step P r).FineRun P index mem :=
  h.2 fun hstops => hbusy hstops.2.2

/-- Quadwords that are taken without a packet ending before the last. -/
inductive Consumes (P : Plugin W) : Decoder W → List GIFPackedReg → Decoder W → Prop
  | last (d r) : Consumes P d [r] (d.step P r)
  | cons {d r mem d'} (busy : (d.step P r).todo ≠ []) (rest : Consumes P (d.step P r) mem d') :
      Consumes P d (r :: mem) d'

theorem Consumes.append {d d' d'' : Decoder W} {mem mem' : List GIFPackedReg}
    (h : Consumes P d mem d') (hbusy : d'.todo ≠ []) (h' : Consumes P d' mem' d'') :
    Consumes P d (mem ++ mem') d'' := by
  induction h with
  | last d r => exact .cons hbusy h'
  | cons busy rest ih => exact .cons busy (ih hbusy h')

theorem Consumes.ne_nil {d d' : Decoder W} {mem : List GIFPackedReg} (h : Consumes P d mem d') :
    mem ≠ [] := by
  cases h <;> nofun

theorem Consumes.fineRun {d d' : Decoder W} {mem mem' : List GIFPackedReg}
    (h : Consumes P d mem d') (hstops : ¬ d'.Stops index)
    (hfine : d.FineRun P index (mem ++ mem')) : d'.FineRun P index mem' := by
  induction h with
  | last d r => exact hfine.2 hstops
  | cons busy rest ih => exact ih hstops (hfine.next busy)

theorem Consumes.run {d d' : Decoder W} {mem : List GIFPackedReg} (h : Consumes P d mem d')
    (mem' : List GIFPackedReg) :
    d.run P index (mem ++ mem') = if d'.Stops index then d' else d'.run P index mem' := by
  induction h with
  | last d r => rfl
  | cons busy rest ih =>
    have hstops : ¬ (Decoder.step P _ _).Stops index := fun h => busy h.2.2
    rw [List.cons_append, Decoder.run, if_neg hstops]
    exact ih

end Decoder

/-! The registers that a path is still to get -/

namespace GIFPath

def remaining (path : GIFPath) : List (BitVec 4) :=
  (List.replicate path.nloop (path.regs.take path.nreg)).flatten.drop path.reg

def todo (path : GIFPath) : List Item :=
  match path.tag.FLG with
  | .PACKED => path.remaining.map .packed
  | .REGLIST => path.remaining.map .half
  | .IMAGE | .IMAGE2 => List.replicate path.nloop .image

/-- A path in a packet is at one of its registers, and its type says which they are. -/
structure InPacket (path : GIFPath) : Prop where
  reg : path.reg < path.nreg
  nreg : path.nreg ≤ path.regs.length
  size : path.nloop * path.nreg < 2 ^ 32
  ad : path.type = .ADONLY → ∀ i < path.nreg, path.getReg i = 0xe
  xyzf2 : path.type = .STQRGBAXYZF2 → path.nreg = 3 ∧ path.regs.take 3 = [2, 1, 4]
  xyz2 : path.type = .STQRGBAXYZ2 → path.nreg = 3 ∧ path.regs.take 3 = [2, 1, 5]

/-- A call of `size` quadwords does not begin in the middle of a loop, or it has more than the rest
of this loop, and the loop is not the last. -/
def Resumable (path : GIFPath) (size : Nat) : Prop :=
  size ≠ 0 → path.nloop ≠ 0 → path.tag.FLG = .PACKED → path.reg ≠ 0 →
    1 < path.nloop ∧ path.nreg - path.reg < size

instance (path : GIFPath) (size : Nat) : Decidable (path.Resumable size) :=
  inferInstanceAs (Decidable (_ → _ → _ → _ → _ ∧ _))

variable {path : GIFPath}

theorem remaining_of_done (h : path.nloop = 0) : path.remaining = [] := by
  simp [remaining, h]

theorem todo_of_done (h : path.nloop = 0) : path.todo = [] := by
  unfold todo
  split <;> simp [remaining_of_done h, h]

theorem stepReg_tag : path.stepReg.1.tag = path.tag := by
  unfold stepReg
  split <;> rfl

theorem stepReg_regs : path.stepReg.1.regs = path.regs := by
  unfold stepReg
  split <;> rfl

theorem stepReg_nreg : path.stepReg.1.nreg = path.nreg := by
  unfold stepReg
  split <;> rfl

theorem stepReg_reg (h : path.reg < path.nreg) :
    path.stepReg.1.reg = if path.reg + 1 < path.nreg then path.reg + 1 else 0 := by
  unfold stepReg
  split
  · rw [if_neg (by omega)]
  · rw [if_pos (by omega)]

theorem stepReg_more (h : 0 < path.nloop) : path.stepReg.2 = true ↔ 0 < path.stepReg.1.nloop := by
  unfold stepReg
  split
  · simp only [decide_eq_true_eq]
    omega
  · exact ⟨fun _ => h, fun _ => rfl⟩

theorem InPacket.stepReg (h : path.InPacket) : path.stepReg.1.InPacket := by
  obtain ⟨hreg, hnreg, hsize, had, hxyzf2, hxyz2⟩ := h
  unfold GIFPath.stepReg
  split
  · have hle := Nat.mul_le_mul_right path.nreg (Nat.sub_le path.nloop 1)
    exact ⟨Nat.zero_lt_of_lt hreg, hnreg, Nat.lt_of_le_of_lt hle hsize, had, hxyzf2, hxyz2⟩
  · exact ⟨by dsimp only; omega, hnreg, hsize, had, hxyzf2, hxyz2⟩

theorem InPacket.remaining_eq (h : path.InPacket) (hnloop : 0 < path.nloop) :
    path.remaining = path.getReg path.reg :: path.stepReg.1.remaining := by
  obtain ⟨hreg, hnreg, -, -, -, -⟩ := h
  obtain ⟨n, hn⟩ : ∃ n, path.nloop = n + 1 := ⟨path.nloop - 1, by omega⟩
  let regs := path.regs.take path.nreg
  have hlen : regs.length = path.nreg := List.length_take_of_le hnreg
  have hget : path.getReg path.reg = regs[path.reg] := by
    simp [getReg, regs, List.getElem?_eq_getElem (Nat.lt_of_lt_of_le hreg hnreg)]
  have hfirst : path.remaining =
      regs.drop path.reg ++ (List.replicate n regs).flatten := by
    rw [remaining, hn, List.replicate_succ, List.flatten_cons, List.drop_append_of_le_length]
    exact Nat.le_trans (Nat.le_of_lt hreg) (Nat.le_of_eq hlen.symm)
  rw [hfirst, List.drop_eq_getElem_cons (Nat.lt_of_lt_of_eq hreg hlen.symm), hget,
    List.cons_append]
  congr 1
  unfold GIFPath.stepReg
  split
  case isTrue hend =>
    rw [hend, List.drop_of_length_le (Nat.le_of_eq hlen)]
    simp [remaining, hn, regs]
  case isFalse hend =>
    rw [remaining, hn, List.replicate_succ, List.flatten_cons, List.drop_append_of_le_length]
    exact Nat.le_trans (by dsimp only; omega) (Nat.le_of_eq hlen.symm)

end GIFPath

/-! What `SetTag` makes of a tag -/

theorem descriptors_length (REGS : BitVec 64) (nreg : Nat) :
    (descriptors REGS nreg).length = nreg := by
  simp [descriptors]

namespace GIFPath

theorem unpackRegs_eq (REGS : BitVec 64) {nreg : Nat} (h : nreg ≤ 16) :
    unpackRegs REGS nreg = descriptors REGS nreg ++ List.replicate (16 - nreg) 0 := by
  apply List.ext_getElem
  · simp [unpackRegs, descriptors, h]
  · intro i hi _
    simp only [unpackRegs, List.getElem_map, List.getElem_range, List.getElem_append,
      List.getElem_replicate, descriptors, List.length_map, List.length_range, dite_eq_ite]

/-- What `classify` finds out about the registers `regs` of a tag. -/
inductive Classified (regs : List (BitVec 4)) : GIFPathType × Nat → Prop
  | ad (h : ∀ reg ∈ regs, reg = 0xe) : Classified regs (.ADONLY, 1)
  | xyzf2 (fold : Nat) (hfold : regs = (List.replicate fold [2, 1, 4]).flatten)
      (h : regs ∈ combinedRegs) : Classified regs (.STQRGBAXYZF2, fold)
  | xyz2 (h : regs = [2, 1, 5]) : Classified regs (.STQRGBAXYZ2, 1)
  | unknown (h : regs ∉ combinedRegs) : Classified regs (.UNKNOWN, 1)

theorem adOnly_spec {regs : List (BitVec 4)} (hlen : regs.length ≤ 16)
    (h : adOnly (regs ++ List.replicate (16 - regs.length) 0) regs.length = true) :
    ∀ reg ∈ regs, reg = 0xe := by
  intro reg hreg
  obtain ⟨i, hi, rfl⟩ := List.getElem_of_mem hreg
  have hat := List.all_eq_true.mp h i (List.mem_range.mpr (by omega))
  simpa [hi, List.getElem?_append_left hi] using hat

theorem append_zeros_eq {regs l : List (BitVec 4)} {k : Nat} :
    regs ++ List.replicate k 0 = l ++ List.replicate k 0 ↔ regs = l :=
  List.append_left_inj _

theorem eq_of_combined {regs : List (BitVec 4)} (h : regs ∈ combinedRegs) :
    regs = [2, 1, 4] ∨ regs = [2, 1, 5] ∨ regs = [2, 1, 4, 2, 1, 4, 2, 1, 4] ∨
      regs = [2, 1, 4, 2, 1, 4, 2, 1, 4, 2, 1, 4] := by
  simpa [combinedRegs] using h

theorem classify_spec {regs : List (BitVec 4)} (hlen : regs.length ≤ 16) :
    Classified regs
      (classify (regs ++ List.replicate (16 - regs.length) 0) regs.length) := by
  have htake : ∀ m, regs.length ≤ m → m ≤ 16 →
      (regs ++ List.replicate (16 - regs.length) 0).take m =
        regs ++ List.replicate (m - regs.length) 0 := by
    intro m hm _
    rw [List.take_append, List.take_of_length_le hm, List.take_replicate]
    congr 2
    omega
  unfold classify
  split
  case isTrue had => exact .ad (adOnly_spec hlen had)
  case isFalse =>
    split
    case h_1 h3 =>
      rw [htake 4 (by omega) (by omega), h3]
      split_ifs with hf h2
      · exact .xyzf2 1 (append_zeros_eq (l := [2, 1, 4]).mp hf)
          (append_zeros_eq (l := [2, 1, 4]).mp hf ▸ by decide)
      · exact .xyz2 (append_zeros_eq (l := [2, 1, 5]).mp h2)
      · refine .unknown fun hmem => ?_
        obtain rfl | rfl | rfl | rfl := eq_of_combined hmem <;> simp_all
    case h_2 h9 =>
      rw [htake 12 (by omega) (by omega), h9]
      split_ifs with hf
      · have hregs := append_zeros_eq (l := [2, 1, 4, 2, 1, 4, 2, 1, 4]).mp hf
        exact .xyzf2 3 hregs (hregs ▸ by decide)
      · refine .unknown fun hmem => ?_
        obtain rfl | rfl | rfl | rfl := eq_of_combined hmem <;> simp_all
    case h_3 h12 =>
      rw [htake 12 (by omega) (by omega), h12, Nat.sub_self, List.replicate_zero, List.append_nil]
      split_ifs with hf
      · exact .xyzf2 4 hf (hf ▸ by decide)
      · refine .unknown fun hmem => ?_
        obtain rfl | rfl | rfl | rfl := eq_of_combined hmem <;> simp_all
    case h_4 h3 h9 h12 =>
      refine .unknown fun hmem => ?_
      obtain rfl | rfl | rfl | rfl := eq_of_combined hmem <;> simp_all

theorem flatten_replicate_mul {α : Type} (n k : Nat) (l : List α) :
    (List.replicate (n * k) l).flatten = (List.replicate n (List.replicate k l).flatten).flatten := by
  induction n with
  | zero => simp
  | succ n ih =>
    rw [Nat.succ_mul, Nat.add_comm, List.replicate_add, List.flatten_append, ih,
      List.replicate_succ, List.flatten_cons]

/-- A path after a tag with a loop. -/
structure Tagged (path : GIFPath) (tag : GIFTag) (regs : List (BitVec 4)) : Prop where
  sameTag : path.tag = tag
  nloop : 0 < path.nloop
  reg : path.reg = 0
  inPacket : path.InPacket
  todo : path.todo = announced tag regs
  fast : path.type = .STQRGBAXYZF2 ∨ path.type = .STQRGBAXYZ2 ↔
    tag.FLG = .PACKED ∧ regs ∈ combinedRegs

theorem size_lt (tag : GIFTag) {n : Nat} (h : n ≤ 16) : tag.NLOOP * n < 2 ^ 32 := by
  have hlt := (tag.extractLsb' 0 15).isLt
  exact Nat.lt_of_le_of_lt (Nat.mul_le_mul (Nat.le_of_lt hlt) h) (by decide)

theorem tagged_plain {tag : GIFTag} {regs : List (BitVec 4)} {type : GIFPathType}
    (hloop : tag.NLOOP ≠ 0) (hregs : regs ≠ []) (hlen : regs.length ≤ 16)
    (had : type = .ADONLY → ∀ reg ∈ regs, reg = 0xe) (hxyzf2 : type ≠ .STQRGBAXYZF2)
    (hxyz2 : type = .STQRGBAXYZ2 → regs = [2, 1, 5])
    (hfast : type = .STQRGBAXYZ2 ↔ tag.FLG = .PACKED ∧ regs ∈ combinedRegs) :
    Tagged ⟨tag, tag.NLOOP, regs.length, 0, type,
      regs ++ List.replicate (16 - regs.length) 0⟩ tag regs := by
  have hpos := List.length_pos_of_ne_nil hregs
  refine ⟨rfl, Nat.pos_of_ne_zero hloop, rfl, ⟨hpos, by simp, size_lt tag hlen, fun htype i hi => ?_,
    fun htype => absurd htype hxyzf2, fun htype => ?_⟩, ?_, ?_⟩
  · have hget : regs.getD i 0 = regs[i] := by simp [List.getElem?_eq_getElem hi]
    simp only [getReg, List.getD_append _ _ _ _ hi, hget]
    exact had htype _ (List.getElem_mem hi)
  · obtain rfl := hxyz2 htype
    exact ⟨rfl, rfl⟩
  · simp [todo, announced, remaining]
  · exact (or_iff_right hxyzf2).trans hfast

theorem tagged_folded {tag : GIFTag} {regs : List (BitVec 4)} {fold nreg : Nat}
    (hloop : tag.NLOOP ≠ 0) (hflg : tag.FLG = .PACKED) (hfold : 0 < fold)
    (hregs : regs = (List.replicate fold [2, 1, 4]).flatten) (hcombined : regs ∈ combinedRegs)
    (hle : regs.length ≤ 16) (hnreg : nreg = 3) :
    Tagged ⟨tag, tag.NLOOP * fold, nreg, 0, .STQRGBAXYZF2,
      regs ++ List.replicate (16 - regs.length) 0⟩ tag regs := by
  have htake : (regs ++ List.replicate (16 - regs.length) 0).take 3 = [2, 1, 4] := by
    obtain ⟨k, rfl⟩ : ∃ k, fold = k + 1 := ⟨fold - 1, by omega⟩
    rw [hregs, List.replicate_succ]
    rfl
  have hlen : 3 ≤ (regs ++ List.replicate (16 - regs.length) 0 : List (BitVec 4)).length := by
    rw [List.length_append, List.length_replicate]
    omega
  have hsize : tag.NLOOP * fold * 3 < 2 ^ 32 := by
    rw [Nat.mul_assoc]
    refine size_lt tag ?_
    rw [hregs] at hle
    simpa using hle
  subst hnreg
  refine ⟨rfl, Nat.mul_pos (Nat.pos_of_ne_zero hloop) hfold, rfl,
    ⟨Nat.zero_lt_succ 2, hlen, hsize, nofun, fun _ => ⟨rfl, htake⟩, nofun⟩, ?_, ?_⟩
  · simp only [todo, announced, hflg, remaining, htake, List.drop_zero]
    rw [flatten_replicate_mul, ← hregs]
  · exact iff_of_true (.inl rfl) ⟨hflg, hcombined⟩

theorem nreg_bounds (tag : GIFTag) : 0 < tag.nreg ∧ tag.nreg ≤ 16 := by
  have hlt := (tag.extractLsb' 60 4).isLt
  unfold GIFTag.nreg GIFTag.NREG
  split_ifs <;> omega

theorem setTag_spec {path : GIFPath} {mem : GIFPackedReg}
    (hloop : GIFTag.NLOOP (mem.extractLsb' 0 64) ≠ 0) :
    Tagged (path.setTag mem) (mem.extractLsb' 0 64)
      (descriptors (mem.extractLsb' 64 64) (GIFTag.nreg (mem.extractLsb' 0 64))) := by
  unfold setTag
  simp only [if_neg hloop]
  obtain ⟨hpos, hle⟩ := nreg_bounds (mem.extractLsb' 0 64)
  generalize GIFTag.nreg (mem.extractLsb' 0 64) = nreg at hpos hle ⊢
  generalize mem.extractLsb' 0 64 = tag at hloop ⊢
  rw [unpackRegs_eq _ hle]
  have hlen := descriptors_length (mem.extractLsb' 64 64) nreg
  generalize descriptors (mem.extractLsb' 64 64) nreg = regs at hlen ⊢
  subst hlen
  have hne := List.ne_nil_of_length_pos hpos
  have hspec := classify_spec hle
  split
  case isFalse hflg =>
    exact tagged_plain hloop hne hle nofun nofun nofun (by simp [hflg])
  case isTrue hflg =>
    generalize classify _ _ = c at hspec ⊢
    cases hspec with
    | ad had =>
      simp only [Nat.mul_one, if_true]
      refine tagged_plain hloop hne hle (fun _ => had) nofun nofun (iff_of_false nofun ?_)
      rintro ⟨-, hmem⟩
      obtain rfl | rfl | rfl | rfl := eq_of_combined hmem <;> simp at had
    | xyzf2 fold hfold hmem =>
      have hpos : 0 < fold := by
        apply Nat.pos_of_ne_zero
        rintro rfl
        exact hne hfold
      refine tagged_folded hloop hflg hpos hfold hmem hle ?_
      have hlen : regs.length = fold * 3 := by
        rw [hfold]
        simp
      split <;> omega
    | xyz2 hxyz2 =>
      simp only [Nat.mul_one, if_true]
      refine tagged_plain hloop hne hle nofun nofun (fun _ => hxyz2) (iff_of_true rfl ⟨hflg, ?_⟩)
      rw [hxyz2]
      decide
    | unknown hmem =>
      simp only [Nat.mul_one, if_true]
      exact tagged_plain hloop hne hle nofun nofun nofun (iff_of_false nofun fun h => hmem h.2)

end GIFPath

end OmegaRed.GSdx
