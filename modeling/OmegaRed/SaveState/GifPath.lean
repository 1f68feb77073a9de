import OmegaRed.SaveState.Freeze
import OmegaRed.SaveState.PathStruct

/-! `gifPathFreeze`: saving and loading one GIF path. -/

namespace OmegaRed.SaveState

open Gif Lib.Memory Lib.Words

/-- `Gif_Path` with `gsPack.readAmount` and `mtvu`. -/
structure FullPath where
  path : GifPath
  packReadAmount : Int
  fakePackets : UInt32
  gsPackQueue : List GSPacket

/-- `RealignPacket`, which does not wait when the MTGS thread has read everything. -/
def realignPacket (p : GifPath) : GifPath :=
  (if p.base < buffLimit then p.fetchAdd (buffLimit - p.base) else p).moveToFront

/-- What `gifPathFreeze` does to the path before it saves it. -/
def FullPath.prepare (p : FullPath) (isMTVU : Bool) : FullPath :=
  if isMTVU then p else { p with path := realignPacket p.path }

variable (image : Image PathStruct)

/-- `gifPathFreeze` when saving: the bytes that it appends. -/
def gifPathSave (isMTVU : Bool) (p : FullPath) : List UInt8 :=
  let p := p.prepare isMTVU
  bytes p.fakePackets ++ image.toBytes (pathStruct p.path p.packReadAmount) ++
    load p.path.buffer 0 p.path.curSize

/-- `gifPathFreeze` when loading. -/
def gifPathFreeze (p : FullPath) : Routine FullPath :=
  .freezeMem 4 4 fun fakePackets =>
    .freezeMem image.size image.size fun object =>
      let q := image.ofBytes object
      .freezeMem buffSize q.curSize.toInt32.toInt fun data =>
        .done
          { path := q.toPath (store p.path.buffer 0 data)
            packReadAmount := 0
            fakePackets := loadWord (fakePackets.getD · 0) 0
            gsPackQueue := p.gsPackQueue }

/-- The `curSize` in the file. -/
def savedCurSize (b : StateBuffer) (idx : Int) : UInt32 :=
  (image.ofBytes (b.read (idx + 4) image.size)).curSize

theorem accesses_gifPathFreeze (p : FullPath) (b : StateBuffer) (idx : Int) :
    ((gifPathFreeze image p).run b idx).accesses =
      [⟨idx, 4, 4⟩, ⟨idx + 4, image.size, image.size⟩,
        ⟨idx + 4 + image.size, (savedCurSize image b idx).toInt32.toInt, buffSize⟩] := rfl

theorem idx_gifPathFreeze (p : FullPath) (b : StateBuffer) (idx : Int) :
    ((gifPathFreeze image p).run b idx).idx =
      idx + 4 + image.size + (savedCurSize image b idx).toInt32.toInt := rfl

theorem toInt32_toInt (x : UInt32) :
    x.toInt32.toInt = if x.toNat < 2 ^ 31 then (x.toNat : Int) else x.toNat - 2 ^ 32 := by
  have hlt := x.toNat_lt
  have hbmod : x.toInt32.toInt = (x.toNat : Int).bmod (2 ^ 32) := by
    rw [← Int32.toInt_toBitVec, UInt32.toBitVec_toInt32, BitVec.toInt_eq_toNat_bmod]
    rfl
  rw [hbmod]
  split <;> simp only [Int.bmod] <;> omega

theorem gifPathFreeze_safe_iff (p : FullPath) (b : StateBuffer) {idx : Int} (h0 : 0 ≤ idx)
    (hle : idx ≤ b.length) :
    (gifPathFreeze image p).Safe b idx ↔
      (savedCurSize image b idx).toNat ≤ buffSize ∧
        idx + 4 + image.size + (savedCurSize image b idx).toNat ≤ b.length := by
  have hlt := (savedCurSize image b idx).toNat_lt
  have hsize : buffSize < 2 ^ 31 := by decide
  rw [Routine.safe_iff b _ h0 hle, Routine.Fits, accesses_gifPathFreeze, idx_gifPathFreeze,
    toInt32_toInt]
  simp only [List.forall_mem_cons, List.not_mem_nil, false_imp_iff, implies_true, and_true,
    Access.Proper]
  split <;> omega

theorem StateBuffer.read_add (b : StateBuffer) (idx : Int) (m n : Nat) :
    b.read idx (m + n : Nat) = b.read idx m ++ b.read (idx + m) n := by
  simp only [StateBuffer.read, Int.toNat_natCast, List.range_add, List.map_append, List.map_map]
  congr 1
  apply List.map_congr_left
  intro i _
  simp only [Function.comp_apply, Int.natCast_add, Int.add_assoc]

theorem StateBuffer.read_append {b : StateBuffer} {idx : Int} {l l' : List UInt8}
    (h : b.read idx (l ++ l').length = l ++ l') :
    b.read idx l.length = l ∧ b.read (idx + l.length) l'.length = l' := by
  rw [List.length_append, StateBuffer.read_add] at h
  exact List.append_inj h (by simp)

theorem alike_realignPacket {p : GifPath} (hp : Placed p) : Alike p (realignPacket p) := by
  rw [realignPacket]
  split
  · have hfetch := alike_fetchAdd hp (buffLimit - p.base)
    exact hfetch.trans (alike_moveToFront hfetch.right)
  · exact alike_moveToFront hp

theorem Bounded.realignPacket {p : GifPath} (h : Bounded p) : Bounded (realignPacket p) := by
  rw [SaveState.realignPacket]
  split
  · exact Bounded.moveToFront ⟨h.gifTag, h.curSize, h.dmaRewind⟩
  · exact h.moveToFront

/-- What loading makes of a saved path. -/
def FullPath.loaded (p q : FullPath) : FullPath where
  path := (pathStruct p.path p.packReadAmount).toPath
    (store q.path.buffer 0 (load p.path.buffer 0 p.path.curSize))
  packReadAmount := 0
  fakePackets := p.fakePackets
  gsPackQueue := q.gsPackQueue

theorem run_gifPathFreeze {isMTVU : Bool} {p : FullPath} (q : FullPath) {b : StateBuffer} {idx : Int}
    (hbounded : Bounded (p.prepare isMTVU).path)
    (hb : b.read idx (gifPathSave image isMTVU p).length = gifPathSave image isMTVU p) :
    ((gifPathFreeze image q).run b idx).result = .ok ((p.prepare isMTVU).loaded q) := by
  rw [gifPathSave] at hb
  generalize p.prepare isMTVU = p at hb hbounded
  obtain ⟨hb, hdata⟩ := StateBuffer.read_append hb
  obtain ⟨hfake, hobject⟩ := StateBuffer.read_append hb
  rw [length_bytes] at hfake hobject
  rw [image.length_toBytes] at hobject
  rw [List.length_append, length_bytes, image.length_toBytes, length_load] at hdata
  have hcurSize : (UInt32.ofNat p.path.curSize).toNat = p.path.curSize :=
    UInt32.toNat_ofNat_of_lt' (Nat.lt_of_le_of_lt hbounded.curSize (by decide))
  have hsize : (pathStruct p.path p.packReadAmount).curSize.toInt32.toInt = p.path.curSize := by
    have hlt := hbounded.curSize
    have hmax : buffSize < 2 ^ 31 := by decide
    change (UInt32.ofNat p.path.curSize).toInt32.toInt = _
    rw [toInt32_toInt, hcurSize, if_pos (by omega)]
  have hread : b.read (idx + 4 + image.size) p.path.curSize =
      load p.path.buffer 0 p.path.curSize := by
    rwa [Int.natCast_add, ← Int.add_assoc] at hdata
  simp only [gifPathFreeze, Routine.run, Run.result_after, Nat.cast_ofNat] at hfake hobject ⊢
  rw [hfake, hobject, image.ofBytes_toBytes, hsize, hread]
  have hword := loadWord_bytes p.fakePackets []
  rw [List.append_nil] at hword
  rw [FullPath.loaded, hword]

theorem alike_loaded {p : FullPath} (q : FullPath) (hp : Placed p.path) (h : Bounded p.path) :
    Alike p.path (p.loaded q).path := by
  refine alike_toPath hp h _ fun i hi => ?_
  have hi' : (load p.path.buffer 0 p.path.curSize)[i]? = some (p.path.buffer i) := by
    rw [getElem?_load _ hi, Nat.zero_add]
  have hstore := store_of_mem q.path.buffer (a := 0) hi'
  rwa [Nat.zero_add] at hstore

end OmegaRed.SaveState

/-! Path 1 in MTVU mode, where the packets are not looked into. -/

namespace OmegaRed.SaveState

open Gif Lib.Memory

inductive MtvuCall
  | copyGSPacketData (data : List UInt8)
  | executeGSPacketMTVU
  | finishGSPacketMTVU

/-- A path in MTVU mode; `pushed` is what the packets pushed to the queue held, and the loops that
wait for the MTGS thread only delay the calls. -/
structure MtvuPath where
  path : GifPath
  pushed : List (List UInt8)

def MtvuPath.call (s : MtvuPath) : MtvuCall → MtvuPath
  | .copyGSPacketData data =>
    let p := if s.path.curSize + data.length > buffSize then s.path.moveToFront else s.path
    { s with path := p.append data }
  | .executeGSPacketMTVU =>
    let p := if s.path.curOffset > buffLimit then s.path.moveToFront else s.path
    { s with path := p.incTag (p.curSize - p.curOffset) }
  | .finishGSPacketMTVU =>
    { path := s.path.afterFlush
      pushed := s.pushed ++ [load s.path.buffer s.path.gsPack.offset s.path.gsPack.size] }

def MtvuPath.calls (s : MtvuPath) (cs : List MtvuCall) : MtvuPath := cs.foldl MtvuPath.call s

/-- A call whose data fits, which an assertion checks. -/
def MtvuPath.Allowed (s : MtvuPath) (c : MtvuCall) : Prop := (s.call c).path.curSize ≤ buffSize

/-- The states of a run from the reset. -/
inductive MtvuPath.Reachable (buffer : Nat → UInt8) : MtvuPath → Prop
  | reset : Reachable buffer ⟨.reset buffer, []⟩
  | call {s : MtvuPath} (c : MtvuCall) : Reachable buffer s → s.Allowed c →
      Reachable buffer (s.call c)

theorem alike_ite_moveToFront {p : GifPath} (hp : Placed p) (c : Prop) [Decidable c] :
    Alike p (if c then p.moveToFront else p) := by
  split
  · exact alike_moveToFront hp
  · exact .refl hp

theorem Alike.incTag_rest {p q : GifPath} (h : Alike p q) :
    Alike (p.incTag (p.curSize - p.curOffset)) (q.incTag (q.curSize - q.curOffset)) := by
  rw [← h.positions.2]
  have hin := h.left.inData
  exact h.incTag (by omega) h.gifTag

theorem call_alike {s t : MtvuPath} (h : Alike s.path t.path) (hpushed : s.pushed = t.pushed)
    (c : MtvuCall) :
    Alike (s.call c).path (t.call c).path ∧ (s.call c).pushed = (t.call c).pushed := by
  cases c with
  | copyGSPacketData data =>
    have hs := (alike_ite_moveToFront h.left (s.path.curSize + data.length > buffSize)).symm
    have ht := alike_ite_moveToFront h.right (t.path.curSize + data.length > buffSize)
    exact ⟨((hs.trans h).trans ht).append data, hpushed⟩
  | executeGSPacketMTVU =>
    have hs := (alike_ite_moveToFront h.left (s.path.curOffset > buffLimit)).symm
    have ht := alike_ite_moveToFront h.right (t.path.curOffset > buffLimit)
    exact ⟨Alike.incTag_rest ((hs.trans h).trans ht), hpushed⟩
  | finishGSPacketMTVU =>
    refine ⟨h.afterFlush, ?_⟩
    simp only [MtvuPath.call, hpushed, h.packet_eq]

theorem calls_alike {s t : MtvuPath} (h : Alike s.path t.path) (hpushed : s.pushed = t.pushed)
    (cs : List MtvuCall) :
    Alike (s.calls cs).path (t.calls cs).path ∧ (s.calls cs).pushed = (t.calls cs).pushed := by
  induction cs generalizing s t with
  | nil => exact ⟨h, hpushed⟩
  | cons c cs ih =>
    obtain ⟨halike, hpushed⟩ := call_alike h hpushed c
    exact ih halike hpushed

theorem MtvuPath.Reachable.placed {buffer : Nat → UInt8} {s : MtvuPath} (h : s.Reachable buffer) :
    Placed s.path ∧ TagBounded s.path.gifTag ∧ s.path.dmaRewind = 0 ∧ s.path.curSize ≤ buffSize := by
  induction h with
  | reset => exact ⟨⟨rfl, Nat.le_refl _⟩, .reset, rfl, Nat.zero_le _⟩
  | @call s c h hallowed ih =>
    obtain ⟨hp, htag, hrewind, -⟩ := ih
    have hplaced := (call_alike (s := s) (t := s) (.refl hp) rfl c).1.left
    refine ⟨hplaced, ?_, ?_, hallowed⟩
    · cases c <;> simp only [MtvuPath.call] <;> (try split) <;> exact htag
    · cases c <;> simp only [MtvuPath.call] <;> (try split) <;> exact hrewind

theorem MtvuPath.Reachable.bounded {buffer : Nat → UInt8} {s : MtvuPath} (h : s.Reachable buffer) :
    Bounded s.path := by
  obtain ⟨-, htag, hrewind, hsize⟩ := h.placed
  exact ⟨htag, hsize, hrewind ▸ Nat.zero_le _⟩

end OmegaRed.SaveState

/-! Loading stays in the buffer where the file's sizes fit, and gives back the saved paths. -/

namespace OmegaRed.SaveState

open Gif Lib.Memory Relation

/-- A path of the EE thread with its saved fields: between two calls, with nothing unread and no
packet in the queue of MTVU mode. -/
structure Drained {σ : Type} (s : State σ) (p : FullPath) : Prop where
  idle : s.ee = .idle
  unread : s.unread = []
  queue : p.gsPackQueue = []
  path : p.path = s.path

/-- The state of a path into which `p` was loaded. -/
def resume {σ : Type} (s : State σ) (p : FullPath) : State σ :=
  { s with path := p.path, queue := [], gs := none }

/-- The loaded path is alike, and every later run of calls on it has the effects it has on the
path that was saved. -/
def ResumesAs {σ : Type} (handlerAD : List UInt8 → σ → Bool × σ) (s : State σ) (p : FullPath) :
    Prop :=
  Alike s.path p.path ∧
    ∀ es s' t', Runs handlerAD s es s' → Runs handlerAD (resume s p) es t' → s'.ee = .idle →
      t'.ee = .idle →
      Alike s'.path t'.path ∧ s'.regs = t'.regs ∧ s'.done = t'.done ∧ s'.sent = t'.sent

/-- The same for a path in MTVU mode. -/
def MtvuPath.ResumesAs (s : MtvuPath) (p : FullPath) : Prop :=
  ∀ cs : List MtvuCall,
    Alike (s.calls cs).path (MtvuPath.calls ⟨p.path, s.pushed⟩ cs).path ∧
      (s.calls cs).pushed = (MtvuPath.calls ⟨p.path, s.pushed⟩ cs).pushed

theorem inv_resume {σ : Type} {s : State σ} (h : Inv s) (hidle : s.ee = .idle) {p : FullPath}
    (halike : Alike s.path p.path) (hread : p.path.readAmount = 0) : Inv (resume s p) where
  placed := halike.right
  valid hvalid := by
    have hv := h.valid (halike.gifTag.isValid.trans hvalid)
    exact ⟨halike.gifTag.hasAD ▸ hv.1, halike.size ▸ hv.2⟩
  pending := by
    change Pending p.path [] s.ee
    rw [hidle]
    exact ⟨.one [] _ _ rfl, hread⟩
  kept offset bytes hm := nomatch hm

theorem resumesAs {σ : Type} {handlerAD : List UInt8 → σ → Bool × σ} {s : State σ} (h : Inv s)
    (hidle : s.ee = .idle) {p : FullPath} (halike : Alike s.path p.path)
    (hread : p.path.readAmount = 0) : ResumesAs handlerAD s p :=
  ⟨halike, fun _ _ _ hrun hrun' hend hend' =>
    runs_alike h (inv_resume h hidle halike hread) halike rfl rfl rfl hidle hidle hrun hrun' hend
      hend'⟩

theorem load_save {σ : Type} {handlerAD : List UInt8 → σ → Bool × σ} (image : Image PathStruct)
    {s : State σ} {p : FullPath} (hinv : Inv s) (hbounded : Bounded s.path) (h : Drained s p)
    (q : FullPath) {b : StateBuffer} {idx : Int}
    (hb : b.read idx (gifPathSave image false p).length = gifPathSave image false p) :
    ∃ loaded, ((gifPathFreeze image q).run b idx).result = .ok loaded ∧
      loaded.path.readAmount = 0 ∧ loaded.packReadAmount = 0 ∧
      loaded.fakePackets = p.fakePackets ∧ ResumesAs handlerAD s loaded := by
  obtain ⟨hidle, -, -, hpath⟩ := h
  have hrealign : Alike p.path (realignPacket p.path) := alike_realignPacket (hpath ▸ hinv.placed)
  have hsaved : Bounded (p.prepare false).path := Bounded.realignPacket (hpath ▸ hbounded)
  refine ⟨(p.prepare false).loaded q, run_gifPathFreeze image q hsaved hb, rfl, rfl, rfl, ?_⟩
  have halike : Alike p.path ((p.prepare false).loaded q).path :=
    hrealign.trans (alike_loaded q hrealign.right hsaved)
  rw [hpath] at halike
  exact resumesAs hinv hidle halike rfl

theorem load_save_mtvu (image : Image PathStruct) {s : MtvuPath} {p : FullPath}
    (hplaced : Placed s.path) (hbounded : Bounded s.path) (hpath : p.path = s.path) (q : FullPath)
    {b : StateBuffer} {idx : Int}
    (hb : b.read idx (gifPathSave image true p).length = gifPathSave image true p) :
    ∃ loaded, ((gifPathFreeze image q).run b idx).result = .ok loaded ∧
      loaded.path.readAmount = 0 ∧ loaded.packReadAmount = 0 ∧
      loaded.fakePackets = p.fakePackets ∧ loaded.gsPackQueue = q.gsPackQueue ∧
      s.ResumesAs loaded := by
  have hsaved : Bounded (p.prepare true).path := hpath ▸ hbounded
  refine ⟨p.loaded q, run_gifPathFreeze image q hsaved hb, rfl, rfl, rfl, rfl, fun cs => ?_⟩
  have halike : Alike p.path (p.loaded q).path := alike_loaded q (hpath ▸ hplaced) hsaved
  rw [hpath] at halike
  exact calls_alike (s := s) (t := ⟨_, s.pushed⟩) halike rfl cs

/-- A buffer that is the list, with zeros around it. -/
def StateBuffer.ofList (l : List UInt8) (h : l.length < 2 ^ 31) : StateBuffer where
  memory i := if i < 0 then 0 else l.getD i.toNat 0
  length := l.length
  length_lt := h

theorem read_ofList {l : List UInt8} (h : l.length < 2 ^ 31) :
    (StateBuffer.ofList l h).read 0 l.length = l := by
  apply List.ext_getElem
  · simp
  · intro i hi hi'
    simp [StateBuffer.read, StateBuffer.ofList, Int.not_lt.mpr (Int.natCast_nonneg i),
      List.getElem?_eq_getElem hi']

/-- A file whose `curSize` is one more than the buffer's size. -/
def oversize : StateBuffer where
  memory i := (Lib.Words.bytes 0 ++ (pathStruct (.reset fun _ => 0) 0 |> fun q =>
    PathStruct.packed.toBytes { q with curSize := 0x900001 })).getD i.toNat 0
  length := 2 ^ 31 - 1
  length_lt := by decide

end OmegaRed.SaveState
