import OmegaRed.Gif.Served

/-! What every step of the unit keeps: the SIGNALs of the history are served as they should be, and
while one is queued the unit does not parse. -/

namespace OmegaRed.Gif

open Lib.Traces

/-! ### One path -/

/-- A path between two calls of `ExecuteGSPacket`, or between two of its rounds. -/
structure PathOk (p : GifPath) : Prop where
  placed : Placed p
  valid : p.gifTag.isValid = true → p.gifTag.hasAD = true ∧ 0 < p.gsPack.size

/-- There is nothing for `FlushToMTGS` to send. -/
def GifPath.Unflushed (p : GifPath) : Prop := p.gsPack.size = 0 ∨ p.gifTag.isValid = true

/-- A path that waits in `RealignPacket` for its next tag. -/
structure Realignable (p : GifPath) : Prop where
  valid : p.gifTag.isValid = false
  size : p.curOffset + 16 ≤ p.curSize

variable {p q : GifPath}

theorem GifPath.Unflushed.flushed (h : p.Unflushed) : p.flushed = none := by
  rw [GifPath.flushed, if_neg]
  rcases h with h | h <;> simp [h]

theorem GifPath.flushed_some {pack : GSPacket} (h : p.flushed = some pack) :
    p.gifTag.isValid = false := by
  rw [GifPath.flushed] at h
  split at h
  · next hsome =>
    simp only [Bool.and_eq_true, Bool.not_eq_eq_eq_not, Bool.not_true] at hsome
    exact hsome.2
  · cases h

theorem GifPath.Unflushed.congr (h : p.Unflushed) (hsize : q.gsPack.size = p.gsPack.size)
    (htag : q.gifTag = p.gifTag) : q.Unflushed := by
  rw [Unflushed, hsize, htag]
  exact h

theorem PathOk.congr (h : PathOk p) (hpack : q.gsPack = p.gsPack)
    (hoffset : q.curOffset = p.curOffset) (hsize : p.curSize ≤ q.curSize)
    (htag : q.gifTag = p.gifTag) : PathOk q where
  placed := by
    refine ⟨?_, ?_⟩
    · rw [hpack, hoffset]
      exact h.placed.packet
    · rw [hoffset]
      exact h.placed.inData.trans hsize
  valid := by
    rw [hpack, htag]
    exact h.valid

theorem PathOk.base_toNat (h : PathOk p) : p.base.toNat = p.gsPack.offset := by
  rw [h.placed.base, Int.toNat_natCast]

theorem PathOk.moveToFront (h : PathOk p) : PathOk p.moveToFront where
  placed := by
    have hpacket := h.placed.packet
    have hdata := h.placed.inData
    refine ⟨Nat.zero_add _, ?_⟩
    simp only [GifPath.moveToFront, h.base_toNat]
    omega
  valid := h.valid

theorem PathOk.fetchAdd (h : PathOk p) (n : Int) : PathOk (p.fetchAdd n) :=
  h.congr rfl rfl (Nat.le_refl _) rfl

theorem PathOk.realignPacket (h : PathOk p) : PathOk p.realignPacket := by
  rw [GifPath.realignPacket]
  split
  · exact (h.fetchAdd _).moveToFront
  · exact h.moveToFront

theorem PathOk.append (h : PathOk p) (data : List UInt8) : PathOk (p.append data) :=
  h.congr rfl rfl (Nat.le_add_right _ _) rfl

theorem PathOk.afterFlush (h : PathOk p) (hvalid : p.gifTag.isValid = false) :
    PathOk p.afterFlush where
  placed := ⟨rfl, h.placed.inData⟩
  valid hv := by
    have hv : p.gifTag.isValid = true := hv
    rw [hvalid] at hv
    cases hv

theorem PathOk.afterSlice (h : PathOk p) : PathOk p.afterSlice where
  placed := ⟨rfl, (Nat.sub_le _ _).trans h.placed.inData⟩
  valid hv := by cases hv

@[simp] theorem GifPath.gifTag_realignPacket (p : GifPath) : p.realignPacket.gifTag = p.gifTag := by
  rw [realignPacket]
  split <;> rfl

@[simp] theorem GifPath.size_realignPacket (p : GifPath) :
    p.realignPacket.gsPack.size = p.gsPack.size := by
  rw [realignPacket]
  split <;> rfl

theorem GifPath.curOffset_realignPacket (p : GifPath) :
    p.realignPacket.curOffset = p.gsPack.size := by
  rw [realignPacket]
  split <;> rfl

theorem GifPath.curSize_realignPacket (p : GifPath) :
    p.realignPacket.curSize = p.curSize - p.base.toNat := by
  rw [realignPacket]
  split <;> rfl

theorem PathOk.size_realign (h : PathOk p) (hsize : p.curOffset + 16 ≤ p.curSize) :
    p.realignPacket.curOffset + 16 ≤ p.realignPacket.curSize := by
  have hpacket := h.placed.packet
  rw [GifPath.curOffset_realignPacket, GifPath.curSize_realignPacket, h.base_toNat]
  omega

/-! ### The registers and the history -/

/-- What is owed to the SIGNALs is what `gsSIGNAL` has. -/
def Owed.Matches (g : GSRegs) : Owed → Prop
  | .nothing => g.signalQueued = false
  | .update _ => False
  | .stalled _ data | .held data => g.signalQueued = true ∧ g.signalData = data

structure Accounts (g₀ g : GSRegs) (h : List GSEvent) : Prop where
  owed : ∃ o, run Owed.next .nothing h = some o ∧ o.Matches g
  sigid : g.sigid = (applied h).foldl updateId g₀.sigid
  irqs : g.intcGS = g₀.intcGS + irqs h

variable {g₀ g g' : GSRegs} {h es : List GSEvent} {path : GIFPath}

theorem Owed.eq_nothing {o : Owed} (ho : o.Matches g) (hq : g.signalQueued = false) :
    o = .nothing := by
  cases o with
  | nothing => rfl
  | update data => exact ho.elim
  | stalled path data =>
    rw [Owed.Matches, hq] at ho
    cases ho.1
  | held data =>
    rw [Owed.Matches, hq] at ho
    cases ho.1

theorem Accounts.run_of_not_queued (ha : Accounts g₀ g h) (hq : g.signalQueued = false) :
    run Owed.next .nothing h = some .nothing := by
  obtain ⟨o, hrun, ho⟩ := ha.owed
  rw [hrun, Owed.eq_nothing ho hq]

theorem Accounts.served (ha : Accounts g₀ g h) (hq : g.signalQueued = false)
    (hs : Served path g g' es) : Accounts g₀ g' (h ++ es) where
  owed := by
    refine ⟨_, (run_append_of_eq (ha.run_of_not_queued hq) es).trans hs.owed, ?_⟩
    cases hq' : g'.signalQueued with
    | false => exact hq'
    | true => exact ⟨hq', rfl⟩
  sigid := by rw [hs.sigid, ha.sigid, applied_append, List.foldl_append]
  irqs := by rw [hs.irqs, ha.irqs, irqs_append, Nat.add_assoc]

theorem Accounts.served_completed (ha : Accounts g₀ g h) (hq : g.signalQueued = false)
    (hs : Served path g g' es) (pack : GSPacket) :
    Accounts g₀ g' (h ++ es ++ [.completed path pack]) where
  owed := by
    have hrun := (run_append_of_eq (ha.run_of_not_queued hq) es).trans hs.owed
    rw [run_append_of_eq hrun]
    cases hq' : g'.signalQueued with
    | false => exact ⟨.nothing, rfl, hq'⟩
    | true => exact ⟨.held g'.signalData, by simp [run, Owed.next], hq', rfl⟩
  sigid := by
    rw [applied_append, (ha.served hq hs).sigid]
    exact congrArg (List.foldl updateId _) (List.append_nil _).symm
  irqs := by
    rw [irqs_append, (ha.served hq hs).irqs]
    rfl

/-- Events that have nothing to do with the SIGNALs. -/
def GSEvent.Apart : GSEvent → Prop
  | .handled _ _ _ | .applied _ _ | .completed _ _ | .csrSignal => False
  | .csrFinish | .imrWrite _ _ | .finishIRQ | .sync => True

theorem Accounts.apart (ha : Accounts g₀ g h) {e : GSEvent} (he : e.Apart)
    (hqueued : g'.signalQueued = g.signalQueued) (hdata : g'.signalData = g.signalData)
    (hsigid : g'.sigid = g.sigid) (hirqs : g'.intcGS = g.intcGS + e.irqs) :
    Accounts g₀ g' (h ++ [e]) where
  owed := by
    obtain ⟨o, hrun, ho⟩ := ha.owed
    rw [run_append_of_eq hrun]
    cases o with
    | nothing =>
      refine ⟨.nothing, ?_, hqueued.trans ho⟩
      cases e <;> first | rfl | exact he.elim
    | update data => exact ho.elim
    | stalled path data =>
      refine ⟨.held data, ?_, hqueued.trans ho.1, hdata.trans ho.2⟩
      cases e <;> first | rfl | exact he.elim
    | held data =>
      refine ⟨.held data, ?_, hqueued.trans ho.1, hdata.trans ho.2⟩
      cases e <;> first | rfl | exact he.elim
  sigid := by
    rw [hsigid, ha.sigid, applied_append]
    cases e <;> first | exact congrArg (List.foldl updateId _) (List.append_nil _).symm
                      | exact he.elim
  irqs := by
    rw [hirqs, ha.irqs, irqs_append, Nat.add_assoc]
    rfl

theorem Accounts.completed (ha : Accounts g₀ g h) (hq : g.signalQueued = false)
    (path : GIFPath) (pack : GSPacket) : Accounts g₀ g (h ++ [.completed path pack]) where
  owed := by
    rw [run_append_of_eq (ha.run_of_not_queued hq)]
    exact ⟨.nothing, rfl, hq⟩
  sigid := by
    rw [ha.sigid, applied_append]
    exact congrArg (List.foldl updateId _) (List.append_nil _).symm
  irqs := by
    rw [ha.irqs, irqs_append]
    rfl

theorem Accounts.congr (ha : Accounts g₀ g h) (hqueued : g'.signalQueued = g.signalQueued)
    (hdata : g'.signalData = g.signalData) (hsigid : g'.sigid = g.sigid)
    (hirqs : g'.intcGS = g.intcGS) : Accounts g₀ g' h where
  owed := by
    obtain ⟨o, hrun, ho⟩ := ha.owed
    refine ⟨o, hrun, ?_⟩
    cases o with
    | nothing => exact hqueued.trans ho
    | update data => exact ho.elim
    | stalled path data => exact ⟨hqueued.trans ho.1, hdata.trans ho.2⟩
    | held data => exact ⟨hqueued.trans ho.1, hdata.trans ho.2⟩
  sigid := hsigid.trans ha.sigid
  irqs := hirqs.trans ha.irqs

theorem Accounts.resumed (ha : Accounts g₀ g h) (hq : g.signalQueued = true)
    (hqueued : g'.signalQueued = false) (hsigid : g'.sigid = updateId g.sigid g.signalData)
    (hirqs : g'.intcGS = if g.sigmsk then g.intcGS else g.intcGS + 1) :
    Accounts g₀ g' (h ++ [.csrSignal, .applied g.signalData g.sigmsk]) where
  owed := by
    obtain ⟨o, hrun, ho⟩ := ha.owed
    have happlied : o.next .csrSignal = some (.update g.signalData) := by
      cases o with
      | nothing =>
        rw [show g.signalQueued = false from ho] at hq
        cases hq
      | update data => exact ho.elim
      | stalled path data => rw [ho.2]; rfl
      | held data => rw [ho.2]; rfl
    refine ⟨.nothing, ?_, hqueued⟩
    rw [run_append_of_eq hrun]
    simp only [run, happlied, Option.bind_some, Owed.next_update]
  sigid := by
    rw [hsigid, ha.sigid, applied_append, List.foldl_append]
    rfl
  irqs := by
    rw [hirqs, ha.irqs, irqs_append]
    cases g.sigmsk <;> rfl

theorem Accounts.acknowledged (ha : Accounts g₀ g h) (hq : g.signalQueued = false)
    (hqueued : g'.signalQueued = false) (hsigid : g'.sigid = g.sigid)
    (hirqs : g'.intcGS = g.intcGS) : Accounts g₀ g' (h ++ [.csrSignal]) where
  owed := by
    rw [run_append_of_eq (ha.run_of_not_queued hq)]
    exact ⟨.nothing, rfl, hqueued⟩
  sigid := by
    rw [hsigid, ha.sigid, applied_append]
    exact congrArg (List.foldl updateId _) (List.append_nil _).symm
  irqs := by
    rw [hirqs, ha.irqs, irqs_append]
    rfl

/-! ### The unit -/

/-- The EE thread is in `ExecuteGSPacket`, or about to call it. -/
def Pc.Parses : Pc → Prop
  | .loop _ | .realign _ => True
  | _ => False

structure UnitInv (u₀ u : GifUnit) : Prop where
  paths : ∀ path, PathOk (u.gifPath path)
  accounts : Accounts u₀.gs u.gs u.history
  flushed : u.gs.signalQueued = true → ∀ path, u.stat.apath = some path →
    (u.gifPath path).Unflushed
  parses : u.pc.Parses → u.gs.signalQueued = false
  realigns : ∀ e path, u.pc = .realign e → u.stat.apath = some path →
    Realignable (u.gifPath path)

variable {u₀ u v : GifUnit}

/-- Outside the parser, when the paths, the registers and the history are the same. -/
theorem UnitInv.outside (hi : UnitInv u₀ u) (hpaths : v.gifPath = u.gifPath) (hgs : v.gs = u.gs)
    (hhistory : v.history = u.history)
    (hapath : v.stat.apath = u.stat.apath ∨ v.stat.apath = none) (hpc : ¬v.pc.Parses) :
    UnitInv u₀ v where
  paths := by
    rw [hpaths]
    exact hi.paths
  accounts := by
    rw [hgs, hhistory]
    exact hi.accounts
  flushed hq path hpath := by
    rw [hgs] at hq
    rw [hpaths]
    rcases hapath with h | h
    · exact hi.flushed hq path (h.symm.trans hpath)
    · rw [h] at hpath
      cases hpath
  parses hp := absurd hp hpc
  realigns e path he _ := by
    rw [he] at hpc
    exact absurd trivial hpc

theorem setPath_paths {P : GifPath → Prop} (h : ∀ path, P (u.gifPath path)) (hp : P p)
    (path path' : GIFPath) : P ((u.setPath path p).gifPath path') := by
  by_cases heq : path' = path
  · subst heq
    rw [GifUnit.setPath_self]
    exact hp
  · rw [GifUnit.setPath_of_ne _ heq]
    exact h path'

theorem UnitInv.setPath (hi : UnitInv u₀ u) (path : GIFPath) (hp : PathOk p)
    (hsize : p.gsPack.size = (u.gifPath path).gsPack.size)
    (htag : p.gifTag = (u.gifPath path).gifTag)
    (hre : Realignable (u.gifPath path) → Realignable p) : UnitInv u₀ (u.setPath path p) where
  paths := setPath_paths hi.paths hp path
  accounts := hi.accounts
  flushed hq path' hpath := by
    by_cases heq : path' = path
    · subst heq
      rw [GifUnit.setPath_self]
      exact (hi.flushed hq path' hpath).congr hsize htag
    · rw [GifUnit.setPath_of_ne _ heq]
      exact hi.flushed hq path' hpath
  parses := hi.parses
  realigns e path' he hpath := by
    by_cases heq : path' = path
    · subst heq
      rw [GifUnit.setPath_self]
      exact hre (hi.realigns e path' he hpath)
    · rw [GifUnit.setPath_of_ne _ heq]
      exact hi.realigns e path' he hpath

theorem UnitInv.setAny (hi : UnitInv u₀ u) (hq : u.gs.signalQueued = false)
    (hre : ∀ e, u.pc ≠ .realign e) (hp : PathOk p) (path : GIFPath) :
    UnitInv u₀ (u.setPath path p) where
  paths := setPath_paths hi.paths hp path
  accounts := hi.accounts
  flushed hq' := by
    rw [show u.gs.signalQueued = true from hq'] at hq
    cases hq
  parses := hi.parses
  realigns e _ he := absurd he (hre e)

theorem UnitInv.goto (hi : UnitInv u₀ u) {pc : Pc} (hpc : ¬pc.Parses) : UnitInv u₀ { u with pc := pc } :=
  hi.outside rfl rfl rfl (.inl rfl) hpc

theorem UnitInv.transferGSPacketData (hi : UnitInv u₀ u) (hpc : u.pc = .idle) (t : TransferType)
    (data : List UInt8) : UnitInv u₀ (u.transferGSPacketData t data) := by
  have hidle : ¬u.pc.Parses := by
    rw [hpc]
    exact id
  unfold GifUnit.transferGSPacketData
  dsimp only
  split
  · exact hi.outside rfl rfl rfl (.inl rfl) hidle
  · cases t with
    | xgkick => exact hi.outside rfl rfl rfl (.inl rfl) id
    | fifo => exact hi.goto id
    | direct | directHL | dma =>
      dsimp only
      split
      · exact hi.goto id
      · exact hi.outside rfl rfl rfl (.inl rfl) hidle

theorem UnitInv.copyGSPacketData (hi : UnitInv u₀ u) {data : List UInt8} {t : Option TransferType}
    (h : u.copyGSPacketData path data t = some v) : UnitInv u₀ v := by
  rw [GifUnit.copyGSPacketData] at h
  dsimp only at h
  split at h
  · split at h
    · cases h
      refine UnitInv.goto ?_ id
      refine hi.setPath path (hi.paths path).realignPacket (GifPath.size_realignPacket _)
        (GifPath.gifTag_realignPacket _) fun hre => ⟨?_, ?_⟩
      · rw [GifPath.gifTag_realignPacket]
        exact hre.valid
      · exact (hi.paths path).size_realign hre.size
    · cases h
  · cases h
    exact hi.goto id

theorem UnitInv.memcpy (hi : UnitInv u₀ u) {data : List UInt8} {t : Option TransferType}
    (h : u.memcpy path data t = some v) : UnitInv u₀ v := by
  unfold GifUnit.memcpy at h
  dsimp only at h
  split at h
  · cases h
    refine UnitInv.goto ?_ (by cases t <;> exact id)
    refine hi.setPath path ((hi.paths path).append data) rfl rfl fun hre => ⟨hre.valid, ?_⟩
    exact hre.size.trans (Nat.le_add_right _ _)
  · cases h

theorem UnitInv.addCompletedGSPacket (hi : UnitInv u₀ u) (hq : u.gs.signalQueued = false)
    (path : GIFPath) (pack : GSPacket) : UnitInv u₀ (u.addCompletedGSPacket path pack) :=
  have hset := hi.setPath path ((hi.paths path).fetchAdd pack.size) rfl rfl
    fun hre => ⟨hre.valid, hre.size⟩
  { paths := hset.paths
    accounts := hi.accounts.completed hq path pack
    flushed := hset.flushed
    parses := hset.parses
    realigns := hset.realigns }

theorem UnitInv.flushToMTGS (hi : UnitInv u₀ u) (hpc : ¬u.pc.Parses) : UnitInv u₀ u.flushToMTGS := by
  rw [GifUnit.flushToMTGS]
  split
  · exact hi
  · next path hpath =>
    split
    · next pack hflushed =>
      cases hq : u.gs.signalQueued with
      | false =>
        have hrealign (e : Execution) : u.pc ≠ .realign e := by
          intro he
          rw [he] at hpc
          exact hpc trivial
        have hp := (hi.paths path).afterFlush (GifPath.flushed_some hflushed)
        exact (hi.setAny hq hrealign hp path).addCompletedGSPacket hq path pack
      | true =>
        -- a stalled path has nothing to flush
        rw [(hi.flushed hq path hpath).flushed] at hflushed
        cases hflushed
    · exact hi

theorem UnitInv.raised (hi : UnitInv u₀ u) {e : GSEvent} (he : e.Apart) (hpaths : v.gifPath = u.gifPath)
    (hapath : v.stat = u.stat) (hpc : v.pc = u.pc) (hhistory : v.history = u.history ++ [e])
    (hqueued : v.gs.signalQueued = u.gs.signalQueued)
    (hdata : v.gs.signalData = u.gs.signalData) (hsigid : v.gs.sigid = u.gs.sigid)
    (hirqs : v.gs.intcGS = u.gs.intcGS + e.irqs) : UnitInv u₀ v where
  paths := by
    rw [hpaths]
    exact hi.paths
  accounts := by
    rw [hhistory]
    exact hi.accounts.apart he hqueued hdata hsigid hirqs
  flushed := by
    rw [hqueued, hapath, hpaths]
    exact hi.flushed
  parses := by
    rw [hpc, hqueued]
    exact hi.parses
  realigns := by
    rw [hpc, hapath, hpaths]
    exact hi.realigns

theorem UnitInv.finishIRQ (hi : UnitInv u₀ u) : UnitInv u₀ u.finishIRQ := by
  rw [GifUnit.finishIRQ]
  split
  · exact hi.raised (e := .finishIRQ) trivial rfl rfl rfl rfl rfl rfl rfl rfl
  · exact hi

theorem UnitInv.returnTo (hi : UnitInv u₀ u) (caller : Caller) (result : Nat) :
    UnitInv u₀ (u.returnTo caller result) := by
  cases caller <;> exact hi.outside rfl rfl rfl (.inl rfl) id

theorem canDoGif_queued (h : u.canDoGif = true) : u.gs.signalQueued = false := by
  simp only [GifUnit.canDoGif, Bool.and_eq_true, Bool.not_eq_eq_eq_not, Bool.not_true] at h
  exact h.2

theorem UnitInv.toLoop (hi : UnitInv u₀ u) (hq : u.gs.signalQueued = false) (stat : GifStat)
    (e : Execution) : UnitInv u₀ { u with stat := stat, pc := .loop e } where
  paths := hi.paths
  accounts := hi.accounts
  flushed hq' := by
    rw [show u.gs.signalQueued = true from hq'] at hq
    cases hq
  parses _ := hq
  realigns _ _ he := by cases he

theorem UnitInv.enter (hi : UnitInv u₀ u) (isPath3 isResume : Bool) (caller : Caller) :
    UnitInv u₀ (u.enter isPath3 isResume caller) := by
  rw [GifUnit.enter]
  split
  · next hcan =>
    have hset : UnitInv u₀ (u.setPath .path3 { u.gifPath .path3 with dmaRewind := 0 }) :=
      hi.setPath .path3 ((hi.paths .path3).congr rfl rfl (Nat.le_refl _) rfl) rfl rfl
        fun hre => ⟨hre.valid, hre.size⟩
    exact hset.toLoop (canDoGif_queued hcan) _ _
  · exact hi.returnTo caller 0

theorem UnitInv.arbitrate (hi : UnitInv u₀ u) (e : Execution) : UnitInv u₀ (u.arbitrate e) := by
  have hnot {b : Bool} (h : (!u.gs.signalQueued && b) = true) : u.gs.signalQueued = false := by
    simp only [Bool.and_eq_true, Bool.not_eq_eq_eq_not, Bool.not_true] at h
    exact h.1
  rw [GifUnit.arbitrate]
  split
  · next h => exact hi.toLoop (hnot h) _ _
  · split
    · next h => exact hi.toLoop (hnot h) _ _
    · split
      · next h =>
        rw [Bool.and_assoc] at h
        exact hi.toLoop (hnot h) _ _
      · split
        · exact hi.outside rfl rfl rfl (.inr rfl) id
        · exact hi.goto id

theorem UnitInv.notDone {e : Execution} (hi : UnitInv u₀ { u with pc := .leave e }) :
    UnitInv u₀ (u.notDone e) := by
  rw [GifUnit.notDone]
  split
  · next h =>
    have hq : u.gs.signalQueued = false := by
      simp only [Bool.and_eq_true, Bool.not_eq_eq_eq_not, Bool.not_true] at h
      exact h.1.1.2
    have hloop := hi.toLoop hq { u.stat with apath := none, ip3 := true }
      { e with didPath3 := true }
    dsimp only
    split
    · have hset := hloop.setAny hq (fun _ he => by cases he) (hi.paths .path3).afterSlice .path3
      exact hset.addCompletedGSPacket hq .path3 _
    · exact hloop
  · exact hi

theorem UnitInv.round (hi : UnitInv u₀ u) (hq : u.gs.signalQueued = false)
    (hpath : u.stat.apath = some path) (hp : PathOk p) {pc : Pc}
    (hs : Served path u.gs g' es) (hstall : g'.signalQueued = true → p.Unflushed ∧ ¬pc.Parses)
    (hre : ∀ e, pc = .realign e → Realignable p) :
    UnitInv u₀ { u.setPath path p with gs := g', history := u.history ++ es, pc := pc } where
  paths := setPath_paths hi.paths hp path
  accounts := hi.accounts.served hq hs
  flushed hq' path' hpath' := by
    obtain rfl : path = path' := Option.some.inj (hpath.symm.trans hpath')
    change ((u.setPath path p).gifPath path).Unflushed
    rw [GifUnit.setPath_self]
    exact (hstall hq').1
  parses hparses := by
    cases hq' : g'.signalQueued with
    | false => rfl
    | true => exact absurd hparses (hstall hq').2
  realigns e path' he hpath' := by
    obtain rfl : path = path' := Option.some.inj (hpath.symm.trans hpath')
    change Realignable ((u.setPath path p).gifPath path)
    rw [GifUnit.setPath_self]
    exact hre e he

theorem UnitInv.afterExec (hi : UnitInv u₀ u) (hq : u.gs.signalQueued = false)
    (hpath : u.stat.apath = some path) (hp : PathOk p) (e : Execution)
    {x : Exec (GSRegs × List GSEvent)} (hok : x.Ok p) (hs : x.Serves path (u.gs, u.history)) :
    UnitInv u₀ (u.afterExec path e x) := by
  have hnot {t : GifTag} (hv : t.isValid = false) {P : Prop} : t.isValid = true → P := by
    intro hv'
    rw [hv] at hv'
    cases hv'
  cases x with
  | again q r =>
    obtain ⟨g', h'⟩ := r
    obtain ⟨hadv, hvalid⟩ := hok
    obtain ⟨es, rfl, hserved, hq'⟩ := hs
    have hqueued {P : Prop} : g'.signalQueued = true → P := by simp [show g'.signalQueued = _ from hq']
    exact hi.round hq hpath ⟨hadv.placed, hnot hvalid⟩ hserved hqueued fun _ he => by cases he
  | realign q r =>
    obtain ⟨g', h'⟩ := r
    obtain ⟨rfl, hvalid, hsize⟩ := hok
    obtain ⟨es, rfl, hserved, hq'⟩ := hs
    have hqueued {P : Prop} : g'.signalQueued = true → P := by simp [show g'.signalQueued = _ from hq']
    exact hi.round hq hpath hp hserved hqueued fun _ _ => ⟨hvalid, hsize⟩
  | exit q r =>
    obtain ⟨g', h'⟩ := r
    obtain ⟨hadv, hvalid⟩ := hok
    obtain ⟨es, rfl, hserved, hstops⟩ := hs
    refine UnitInv.notDone ?_
    exact hi.round hq hpath ⟨hadv.placed, hvalid⟩ hserved
      (fun hq' => ⟨.inr (hstops hq').1, id⟩) fun _ he => by cases he
  | done q r pack =>
    obtain ⟨g', h'⟩ := r
    obtain ⟨-, -, -, -, hpack, hoffset, hdata, -, hvalid⟩ := hok
    obtain ⟨es, rfl, hserved, hstops⟩ := hs
    have hpq : PathOk q := by
      refine ⟨⟨?_, hdata⟩, hnot hvalid⟩
      rw [hpack, hoffset, Nat.add_zero]
    have hdone : UnitInv u₀ { u.setPath path q with
        gs := g', history := u.history ++ es, pc := .arbitrate e } := hi.round hq hpath hpq hserved
      (fun _ => ⟨.inl (by rw [hpack]), id⟩) fun _ he => by cases he
    simp only [GifUnit.afterExec]
    split
    · have hset := hdone.setPath path ((hdone.paths path).fetchAdd pack.size) rfl rfl
        fun hre => ⟨hre.valid, hre.size⟩
      exact ⟨hset.paths, hi.accounts.served_completed hq hserved pack, hset.flushed, hset.parses,
        hset.realigns⟩
    · exact hdone

theorem UnitInv.loop (hi : UnitInv u₀ u) {e : Execution} (hpc : u.pc = .loop e) : UnitInv u₀ (u.loop e) := by
  have hq : u.gs.signalQueued = false := hi.parses (by rw [hpc]; trivial)
  rw [GifUnit.loop]
  split
  · exact hi.goto id
  · next path hpath =>
    have hp := hi.paths path
    exact hi.afterExec hq hpath hp e (executeGSPacket_ok _ hp.placed hp.valid)
      (executeGSPacket_serves hq hp.placed)

theorem UnitInv.realign (hi : UnitInv u₀ u) {e : Execution} (hpc : u.pc = .realign e)
    (h : u.realign e = some v) : UnitInv u₀ v := by
  have hq : u.gs.signalQueued = false := hi.parses (by rw [hpc]; trivial)
  rw [GifUnit.realign] at h
  split at h
  · cases h
  · next path hpath =>
    split at h
    · cases h
      have hp := (hi.paths path).realignPacket
      have hsize := (hi.paths path).size_realign (hi.realigns e path hpc hpath).size
      exact hi.afterExec hq hpath hp e (loadTag_ok _ hp.placed hsize)
        (loadTag_serves hq hp.placed hsize)
    · cases h

theorem UnitInv.leave (hi : UnitInv u₀ u) (hpc : ¬u.pc.Parses) (e : Execution) : UnitInv u₀ (u.leave e) := by
  rw [GifUnit.leave]
  refine UnitInv.returnTo ?_ _ _
  split
  · exact (hi.flushToMTGS hpc).finishIRQ
  · exact hi.finishIRQ

theorem GifUnit.gsCSRwrite_of_no_reset (u : GifUnit) {csr : CSRWrite}
    (hreset : csr.reset = false) : u.gsCSRwrite csr =
      if csr.flags.signal then { u.csrSignal with pc := .enter false true (.csrWrite csr) }
      else { u with pc := .csrTail csr } := by
  rw [gsCSRwrite, hreset]
  rfl

theorem UnitInv.csrSignal (hi : UnitInv u₀ u) (hpc : u.pc = .idle) : UnitInv u₀ u.csrSignal := by
  have hparses : ¬u.pc.Parses := by
    rw [hpc]
    exact id
  have hrealign {e : Execution} {P : Prop} (he : u.pc = .realign e) : P := by
    rw [hpc] at he
    cases he
  rw [GifUnit.csrSignal]
  split
  · next hq =>
    exact ⟨hi.paths, hi.accounts.resumed hq rfl rfl rfl, fun hq' => (by cases hq'),
      fun hp => absurd hp hparses, fun _ _ he => hrealign he⟩
  · next hq =>
    have hq : u.gs.signalQueued = false := by simpa using hq
    exact ⟨hi.paths, hi.accounts.acknowledged hq rfl rfl rfl, fun hq' => (by cases hq'),
      fun hp => absurd hp hparses, fun _ _ he => hrealign he⟩

theorem UnitInv.gsCSRwrite (hi : UnitInv u₀ u) (hpc : u.pc = .idle) {csr : CSRWrite}
    (hreset : csr.reset = false) : UnitInv u₀ (u.gsCSRwrite csr) := by
  rw [GifUnit.gsCSRwrite_of_no_reset u hreset]
  split
  · exact (hi.csrSignal hpc).goto id
  · exact hi.goto id

theorem UnitInv.csrTail (hi : UnitInv u₀ u) (csr : CSRWrite) : UnitInv u₀ (u.csrTail csr) := by
  rw [GifUnit.csrTail]
  dsimp only
  split
  · have hfinish : UnitInv u₀ { u with
        gs := { u.gs with csrFinish := false }
        gsFINISHFired := false
        history := u.history ++ [.csrFinish] } :=
      hi.raised (e := .csrFinish) trivial rfl rfl rfl rfl rfl rfl rfl rfl
    exact hfinish.outside rfl rfl rfl (.inl rfl) id
  · exact hi.outside rfl rfl rfl (.inl rfl) id

theorem UnitInv.imrWrite (hi : UnitInv u₀ u) (value : UInt32) : UnitInv u₀ (u.imrWrite value) := by
  rw [GifUnit.imrWrite]
  dsimp only
  refine hi.raised (e := .imrWrite (.ofBits (value >>> 8))
    (Flags.woken u.csr u.imr (.ofBits (value >>> 8)))) trivial ?_ ?_ ?_ ?_ ?_ ?_ ?_ ?_
  all_goals
    dsimp only [GSEvent.irqs]
    split <;> rfl

theorem UnitInv.hsync (hi : UnitInv u₀ u) : UnitInv u₀ u.hsync := by
  rw [GifUnit.hsync]
  split
  · exact hi
  · split
    · exact ⟨hi.paths, hi.accounts, hi.flushed, hi.parses, hi.realigns⟩
    · exact hi.raised (e := .sync) trivial rfl rfl rfl rfl rfl rfl rfl rfl

theorem UnitInv.vsync (hi : UnitInv u₀ u) : UnitInv u₀ u.vsync := by
  rw [GifUnit.vsync]
  split
  · exact hi
  · split
    · exact ⟨hi.paths, hi.accounts, hi.flushed, hi.parses, hi.realigns⟩
    · exact hi.raised (e := .sync) trivial rfl rfl rfl rfl rfl rfl rfl rfl

/-- A CSR write without RESET. -/
def Action.NoReset : Action → Prop
  | .csrWrite value => (CSRWrite.ofBits value).reset = false
  | _ => True

theorem UnitInv.start (hi : UnitInv u₀ u) (hpc : u.pc = .idle) {a : Action} (ha : a.NoReset) :
    UnitInv u₀ (u.start a) := by
  have hidle : ¬u.pc.Parses := by
    rw [hpc]
    exact id
  cases a with
  | ee | mtgs => exact hi
  | transfer t data => exact hi.transferGSPacketData hpc t data
  | copyGSPacketData path data => exact hi.goto id
  | execute => exact hi.goto id
  | csrWrite value => exact hi.gsCSRwrite hpc ha
  | imrWrite value => exact hi.imrWrite value
  | hsync => exact hi.hsync
  | vsync => exact hi.vsync
  | clearAPATH => exact hi.outside rfl rfl rfl (.inr rfl) hidle
  | path3Idle =>
    dsimp only [GifUnit.start]
    split
    · exact hi.setPath .path3 ((hi.paths .path3).congr rfl rfl (Nat.le_refl _) rfl) rfl rfl
        fun hre => ⟨hre.valid, hre.size⟩
    · exact hi.setPath .path3 (hi.paths .path3) rfl rfl id
  | gifMode m3r imt => exact hi.outside rfl rfl rfl (.inl rfl) hidle
  | mskpath3 m3p => exact hi.outside rfl rfl rfl (.inl rfl) hidle
  | gifCtrl pse => exact hi.outside rfl rfl rfl (.inl rfl) hidle
  | busdir dir =>
    cases dir with
    | true =>
      have hdir : UnitInv u₀ { u with stat := { u.stat with dir := true, oph := true } } :=
        hi.outside rfl rfl rfl (.inl rfl) hidle
      exact hdir.flushToMTGS hidle
    | false => exact hi.outside rfl rfl rfl (.inl rfl) hidle

theorem UnitInv.resume (hi : UnitInv u₀ u) (h : u.resume = some v) : UnitInv u₀ v := by
  rw [GifUnit.resume] at h
  split at h
  case h_1 => cases h
  case h_2 => exact hi.copyGSPacketData h
  case h_3 => exact hi.memcpy h
  case h_4 =>
    cases h
    exact hi.enter _ _ _
  case h_5 e hpc =>
    cases h
    exact hi.loop hpc
  case h_6 e hpc => exact hi.realign hpc h
  case h_7 =>
    cases h
    exact hi.arbitrate _
  case h_8 e hpc =>
    cases h
    exact hi.leave (by rw [hpc]; exact id) e
  case h_9 =>
    cases h
    exact hi.csrTail _

theorem GifUnit.step_start {a : Action} (hee : a ≠ .ee) (hmtgs : ∀ path size, a ≠ .mtgs path size)
    (h : u.step a = some v) : u.pc = .idle ∧ v = u.start a := by
  cases a with
  | ee => exact absurd rfl hee
  | mtgs path size => exact absurd rfl (hmtgs path size)
  | _ =>
    simp only [GifUnit.step] at h
    split at h
    · next hpc => exact ⟨hpc, (Option.some.inj h).symm⟩
    · cases h

theorem UnitInv.step (hi : UnitInv u₀ u) {a : Action} (ha : a.NoReset) (h : u.step a = some v) :
    UnitInv u₀ v := by
  by_cases hee : a = .ee
  · subst hee
    exact hi.resume h
  · by_cases hmtgs : ∃ path size, a = .mtgs path size
    · obtain ⟨path, size, rfl⟩ := hmtgs
      cases h
      exact hi.setPath path ((hi.paths path).fetchAdd _) rfl rfl fun hre => ⟨hre.valid, hre.size⟩
    · obtain ⟨hpc, rfl⟩ := GifUnit.step_start hee (fun path size he => hmtgs ⟨path, size, he⟩) h
      exact hi.start hpc ha

end OmegaRed.Gif
