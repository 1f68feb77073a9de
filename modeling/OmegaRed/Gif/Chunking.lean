import OmegaRed.Gif.Resume
import OmegaRed.Gif.Stability

/-! Parsing a stream of GIF primitives does not depend on how it is cut. -/

namespace OmegaRed.Gif

open Lib.Memory Relation

variable {S : List UInt8}

inductive Stage
  | idle | copying | parsing | sending

def After.stage : After → Stage
  | .copy _ => .copying
  | .tag => .parsing

def After.data : After → List UInt8
  | .copy data => data
  | .tag => []

def Phase.stage : Phase → Stage
  | .idle => .idle
  | .realign k | .addBlank k _ | .sendBlank k _ | .move k => k.stage
  | .wait _ | .memcpy _ => .copying
  | .execute | .loadTag => .parsing
  | .add _ | .send _ => .sending

/-- The chunk that is not in the buffer yet. -/
def Phase.data : Phase → List UInt8
  | .realign k | .addBlank k _ | .sendBlank k _ | .move k => k.data
  | .wait data | .memcpy data => data
  | .idle | .execute | .loadTag | .add _ | .send _ => []

/-- The packet that is not in the queue yet. -/
def Phase.pending (p : GifPath) : Phase → List UInt8
  | .add pack | .send pack => load p.buffer pack.offset pack.size
  | .idle | .realign _ | .addBlank _ _ | .sendBlank _ _ | .move _ | .wait _ | .memcpy _
  | .execute | .loadTag => []

def Driver.chunks : Driver → List (List UInt8)
  | .feed chunks | .execute chunks | .executed chunks => chunks

def GifPath.rest (p : GifPath) : List UInt8 :=
  load p.buffer p.gsPack.offset (p.curSize - p.gsPack.offset)

/-- What is handed over, up to the packet in hand. -/
def Run.handed (r : Run) : List UInt8 := r.path.sent ++ r.path.ee.pending r.path.path

/-- The position of the parser in the stream. -/
def Run.position (r : Run) : Nat := r.handed.length + r.path.path.gsPack.size

/-- Between two primitives, with nothing of the packet left to send. -/
def Flushed (p : GifPath) : Prop :=
  p.gifTag.isValid = false → p.curOffset = p.curSize → p.gsPack.size = 0

/-- What holds of the parser, by where the driver and the path's calls stand. -/
def StageOk (S : List UInt8) (pos : Nat) (p : GifPath) (done : Bool) : Driver → Stage → Prop
  | .feed _, .idle | .feed _, .sending => Exhausted S pos p ∧ Flushed p
  | .execute _, .idle | .execute _, .copying => True
  | .executed _, .parsing => done = false
  | .executed _, .sending => done = true ∧ p.gifTag.isValid = false ∧ p.state = .idle
  | .executed _, .idle =>
    if done then p.gifTag.isValid = false ∧ p.state = .idle else Exhausted S pos p
  | _, _ => False

theorem StageOk.readAmount {pos : Nat} {p : GifPath} {done : Bool} {d : Driver} {st : Stage}
    (h : StageOk S pos p done d st) (n : Int) :
    StageOk S pos { p with readAmount := n } done d st := by
  cases d <;> cases st <;> exact h

structure RunInv (S : List UInt8) (r : Run) : Prop where
  inv : Inv r.path
  content : r.handed ++ r.path.path.rest ++ r.path.ee.data ++ r.driver.chunks.flatten = S
  parsed : At S r.position r.path.path.gifTag r.calls
  stage : StageOk S r.position r.path.path r.path.done r.driver r.path.ee.stage

theorem load_view (A L B : List UInt8) : load (view (A ++ L ++ B)) A.length L.length = L := by
  apply List.ext_getElem?
  intro i
  by_cases hi : i < L.length
  · rw [getElem?_load _ hi, view, List.getD, List.append_assoc,
      List.getElem?_append_right (by omega), Nat.add_sub_cancel_left,
      List.getElem?_append_left hi, List.getElem?_eq_getElem hi, Option.getD_some]
  · simp [Nat.le_of_not_lt hi]

theorem RunInv.shows {r : Run} (h : RunInv S r) : Shows S r.handed.length r.path.path := by
  have hlen : r.path.path.rest.length = r.path.path.curSize - r.path.path.gsPack.offset :=
    length_load _ _ _
  constructor
  · have := load_view r.handed r.path.path.rest (r.path.ee.data ++ r.driver.chunks.flatten)
    rw [← List.append_assoc, h.content, hlen] at this
    exact this.symm
  · rw [← hlen, ← h.content]
    simp only [List.length_append]
    omega

theorem RunInv.quiet {r : Run} (h : RunInv S r) {t : State (GSRegs × List (List UInt8))}
    (ht : Inv t) {n : Int} (hpath : t.path = { r.path.path with readAmount := n })
    (hregs : t.regs = r.path.regs) (hdone : t.done = r.path.done) (hsent : t.sent = r.path.sent)
    (hstage : t.ee.stage = r.path.ee.stage) (hdata : t.ee.data = r.path.ee.data)
    (hpending : t.ee.pending t.path = r.path.ee.pending r.path.path) :
    RunInv S { r with path := t } := by
  obtain ⟨hinv, hcontent, hparsed, hst⟩ := h
  have hhanded : Run.handed { r with path := t } = r.handed := by
    simp only [Run.handed, hsent, hpending]
  have hposition : Run.position { r with path := t } = r.position := by
    simp only [Run.position, hhanded, hpath]
  refine ⟨ht, ?_, ?_, ?_⟩
  · rw [hhanded]
    simp only [hpath, hdata]
    exact hcontent
  · rw [hposition]
    simp only [Run.calls, hregs, hpath]
    exact hparsed
  · rw [hposition]
    simp only [hstage, hdone, hpath]
    exact hst.readAmount n

theorem RunInv.move {r : Run} (h : RunInv S r) {k : After} (hee : r.path.ee = .move k)
    (ht : Inv { r.path with path := r.path.path.moveToFront, ee := k.phase }) :
    RunInv S { r with
      path := { r.path with path := r.path.path.moveToFront, ee := k.phase } } := by
  obtain ⟨hinv, hcontent, hparsed, hst⟩ := h
  have hbase : r.path.path.base.toNat = r.path.path.gsPack.offset := by
    rw [hinv.placed.base]
    rfl
  have hrest : r.path.path.moveToFront.rest = r.path.path.rest := by
    simp only [GifPath.rest, GifPath.moveToFront, hbase, Nat.sub_zero]
    have := load_store_self r.path.path.buffer 0
      (load r.path.path.buffer r.path.path.gsPack.offset
        (r.path.path.curSize - r.path.path.gsPack.offset))
    rwa [length_load] at this
  have hhanded : Run.handed { r with
      path := { r.path with path := r.path.path.moveToFront, ee := k.phase } } = r.handed := by
    cases k <;> simp [Run.handed, hee, After.phase, Phase.pending]
  have hdata : k.phase.data = r.path.ee.data := by
    rw [hee]
    cases k <;> rfl
  have hstage : k.phase.stage = r.path.ee.stage := by
    rw [hee]
    cases k <;> rfl
  refine ⟨ht, ?_, ?_, ?_⟩
  · rw [hhanded]
    simp only [hrest, hdata]
    exact hcontent
  · simp only [Run.position, hhanded]
    exact hparsed
  · simp only [hstage]
    rw [hee] at hst ⊢
    cases k <;> cases hd : r.driver <;> rw [hd] at hst <;> exact hst

theorem RunInv.memcpy {r : Run} (h : RunInv S r) {data : List UInt8}
    (hee : r.path.ee = .memcpy data)
    (ht : Inv { r.path with path := r.path.path.append data, ee := .idle }) :
    RunInv S { r with
      path := { r.path with path := r.path.path.append data, ee := .idle } } := by
  obtain ⟨hinv, hcontent, hparsed, hst⟩ := h
  have hoff := hinv.placed.offset_le
  have hrest : (r.path.path.append data).rest = r.path.path.rest ++ data := by
    have := load_store_append r.path.path.buffer r.path.path.gsPack.offset
      (r.path.path.curSize - r.path.path.gsPack.offset) data
    rw [Nat.add_sub_cancel' hoff] at this
    simp only [GifPath.rest, GifPath.append]
    rwa [Nat.sub_add_comm hoff]
  have hhanded : Run.handed { r with
      path := { r.path with path := r.path.path.append data, ee := .idle } } = r.handed := by
    simp [Run.handed, hee, Phase.pending]
  rw [hee] at hcontent hst
  refine ⟨ht, ?_, ?_, ?_⟩
  · rw [hhanded]
    simp only [hrest, Phase.data, List.append_nil]
    rw [← List.append_assoc]
    exact hcontent
  · simp only [Run.position, hhanded]
    exact hparsed
  · cases hd : r.driver <;> rw [hd] at hst
    · exact hst.elim
    · exact trivial
    · exact hst.elim

theorem RunInv.send {r : Run} (h : RunInv S r) {pack : GSPacket} (hee : r.path.ee = .send pack)
    {t : State (GSRegs × List (List UInt8))} (ht : Inv t) (hpath : t.path = r.path.path)
    (hregs : t.regs = r.path.regs) (hdone : t.done = r.path.done) (hidle : t.ee = .idle)
    (hsent : t.sent = r.path.sent ++ load r.path.path.buffer pack.offset pack.size) :
    RunInv S { r with path := t } := by
  obtain ⟨hinv, hcontent, hparsed, hst⟩ := h
  have hhanded : Run.handed { r with path := t } = r.handed := by
    simp [Run.handed, hee, hidle, hsent, Phase.pending]
  rw [hee] at hcontent hst
  refine ⟨ht, ?_, ?_, ?_⟩
  · rw [hhanded]
    simp only [hpath, hidle]
    exact hcontent
  · simp only [Run.position, hhanded, Run.calls, hpath, hregs]
    exact hparsed
  · simp only [Run.position, hhanded, hpath, hdone, hidle]
    cases hd : r.driver <;> rw [hd] at hst
    · exact hst
    · exact hst.elim
    · obtain ⟨hdone, hready⟩ := hst
      change if r.path.done then _ else _
      rw [if_pos hdone]
      exact hready

theorem RunInv.afterExec {r : Run} (h : RunInv S r) {e : Exec (GSRegs × List (List UInt8))}
    (hpending : r.path.ee.pending r.path.path = []) (hdata : r.path.ee.data = [])
    (hstage : r.path.ee.stage = .parsing) (hok : e.Ok r.path.path)
    (hstreams : e.Streams S r.handed.length r.path.path) (ht : Inv (r.path.afterExec e)) :
    RunInv S { r with path := r.path.afterExec e } := by
  obtain ⟨hinv, hcontent, hparsed, hst⟩ := h
  obtain ⟨chunks, hdriver, hdone⟩ : ∃ chunks, r.driver = .executed chunks ∧ r.path.done = false := by
    rw [hstage] at hst
    cases hd : r.driver with
    | executed chunks =>
      rw [hd] at hst
      exact ⟨chunks, rfl, hst⟩
    | feed chunks =>
      rw [hd] at hst
      exact hst.elim
    | execute chunks =>
      rw [hd] at hst
      exact hst.elim
  have hsent : r.handed = r.path.sent := by rw [Run.handed, hpending, List.append_nil]
  rw [hdata, List.append_nil] at hcontent
  have hrest {q : GifPath} (hadv : Advances r.path.path q) : q.rest = r.path.path.rest := by
    simp only [GifPath.rest, hadv.buffer, hadv.offset, hadv.curSize]
  have hkeep {q : GifPath} {g : GSRegs × List (List UInt8)} {ee : Phase}
      (hadv : Advances r.path.path q) (hat : At S (r.handed.length + q.gsPack.size) q.gifTag g.2)
      (hp : ee.pending q = []) (hd : ee.data = [])
      (hs : StageOk S (r.handed.length + q.gsPack.size) q false (.executed chunks) ee.stage)
      (hi : Inv { r.path with path := q, regs := g, ee := ee }) :
      RunInv S { r with path := { r.path with path := q, regs := g, ee := ee } } := by
    have hhanded : Run.handed { r with path := { r.path with path := q, regs := g, ee := ee } } =
        r.handed := by
      rw [hsent]
      simp [Run.handed, hp]
    refine ⟨hi, ?_, ?_, ?_⟩
    · rw [hhanded]
      simp only [hrest hadv, hd, List.append_nil]
      exact hcontent
    · rw [Run.position, hhanded]
      exact hat
    · rw [Run.position, hhanded]
      simp only [hdone, hdriver]
      exact hs
  cases e with
  | again q g => exact hkeep hok.1 hstreams rfl rfl rfl ht
  | realign q g =>
    obtain ⟨rfl, -⟩ := hok
    exact hkeep hinv.placed.advances hstreams rfl rfl rfl ht
  | exit q g => exact hkeep hok.1 hstreams.1 rfl rfl hstreams.2 ht
  | done q g pack =>
    obtain ⟨hread, hbuf, hoff, hsize, hpack, hcur, hle, hcurSize, hvalid⟩ := hok
    obtain ⟨hat, hsame, hidle⟩ := hstreams
    have hhanded : Run.handed { r with path := r.path.afterExec (.done q g pack) } =
        r.handed ++ load r.path.path.buffer pack.offset pack.size := by
      rw [hsent, ← hbuf]
      rfl
    have hsplit : load r.path.path.buffer pack.offset pack.size ++ q.rest = r.path.path.rest := by
      simp only [GifPath.rest, hpack, hbuf, hsame, ← hoff]
      rw [← load_add]
      congr 1
      omega
    have hposition : Run.position { r with path := r.path.afterExec (.done q g pack) } =
        r.handed.length + pack.size := by
      rw [Run.position, hhanded, List.length_append, length_load]
      simp only [State.afterExec, hpack, Nat.add_zero]
    refine ⟨ht, ?_, ?_, ?_⟩
    · rw [hhanded]
      simp only [State.afterExec, Phase.data, List.append_nil]
      rw [List.append_assoc r.handed, hsplit]
      exact hcontent
    · rw [hposition]
      exact hat
    · rw [hposition]
      simp only [hdriver]
      exact ⟨rfl, hvalid, hidle⟩

theorem RunInv.internal {r : Run} (hsig : NoSignal S) (h : RunInv S r)
    {t : State (GSRegs × List (List UInt8))} (hst : Internal logged NotPath3 r.path t) :
    RunInv S { r with path := t } := by
  have ht := h.inv.internal hst
  cases hst with
  | realign k hee hready =>
    have hstage := congrArg Phase.stage hee
    have hdata := congrArg Phase.data hee
    have hpending := congrArg (Phase.pending r.path.path) hee
    refine h.quiet ht (n := r.path.path.readAmount) rfl rfl rfl rfl ?_ ?_ ?_
    · rw [hstage]
      split <;> rfl
    · rw [hdata]
      split <;> rfl
    · rw [hpending]
      split <;> rfl
  | addBlank k size hee =>
    exact h.quiet ht rfl rfl rfl rfl (by rw [hee]; rfl) (by rw [hee]; rfl) (by rw [hee]; rfl)
  | sendBlank k size hee =>
    exact h.quiet ht rfl rfl rfl rfl (by rw [hee]; rfl) (by rw [hee]; rfl) (by rw [hee]; rfl)
  | move k hee => exact h.move hee ht
  | wait data hee hready =>
    exact h.quiet ht rfl rfl rfl rfl (by rw [hee]; rfl) (by rw [hee]; rfl) (by rw [hee]; rfl)
  | memcpy data hee hsize => exact h.memcpy hee ht
  | execute stat hee hstat =>
    exact h.afterExec (by rw [hee]; rfl) (by rw [hee]; rfl) (by rw [hee]; rfl)
      (executeGSPacket_ok _ h.inv.placed h.inv.valid)
      (executeGSPacket_streams hsig hstat h.inv.placed h.shows h.parsed) ht
  | loadTag stat hee hstat =>
    have hpend := h.inv.pending
    rw [hee] at hpend
    obtain ⟨-, hsize, hvalid⟩ := hpend
    have hstreams : (loadTag logged stat r.path.path r.path.regs).Streams S r.handed.length
        r.path.path := by
      cases h.parsed with
      | tag _ hcalls hend =>
        exact loadTag_streams hsig hstat h.inv.placed h.shows hsize hcalls hend
      | data tagPos n before ht =>
        rw [ht, isValid_iterate, tagAt, GifTag.isValid_setTag] at hvalid
        cases hvalid
    exact h.afterExec (by rw [hee]; rfl) (by rw [hee]; rfl) (by rw [hee]; rfl)
      (loadTag_ok _ h.inv.placed hsize) hstreams ht
  | add pack hee =>
    exact h.quiet ht rfl rfl rfl rfl (by rw [hee]; rfl) (by rw [hee]; rfl) (by rw [hee]; rfl)
  | send pack hee => exact h.send hee ht rfl rfl rfl rfl rfl
  | consume e queue hgs hqueue => exact h.quiet ht rfl rfl rfl rfl rfl rfl rfl
  | fetchSub e hgs => exact h.quiet ht rfl rfl rfl rfl rfl rfl (by cases r.path.ee <;> rfl)

theorem RunInv.init {chunks : List (List UInt8)} (h : chunks.flatten = S) (buffer : Nat → UInt8)
    (regs : GSRegs) : RunInv S (.init chunks buffer regs) where
  inv := Inv.init buffer _
  content := by simpa [Run.handed, Run.init, State.init, Phase.pending, GifPath.rest,
    GifPath.reset, Phase.data, Driver.chunks] using h
  parsed := .tag rfl rfl rfl
  stage := ⟨.inl (by simp [Run.init, State.init, GifPath.reset]), fun _ _ => rfl⟩

theorem RunInv.finish {r : Run} (h : RunInv S r) {chunks : List (List UInt8)}
    (hdriver : r.driver.chunks = chunks) (hee : r.path.ee = .idle)
    (hex : Exhausted S r.position r.path.path) : RunInv S (r.finish chunks) := by
  obtain ⟨hinv, hcontent, hparsed, -⟩ := h
  have hpk := hinv.placed.packet
  rw [hee, hdriver] at hcontent
  have hhanded : r.handed = r.path.sent := by
    rw [Run.handed, hee]
    exact List.append_nil _
  have hstay (hflushed : Flushed r.path.path) : RunInv S ⟨.feed chunks, r.path⟩ := by
    refine ⟨hinv, ?_, hparsed, ?_⟩
    · rw [hee]
      exact hcontent
    · rw [hee]
      exact ⟨hex, hflushed⟩
  rw [Run.finish]
  by_cases hend : r.path.path.curOffset = r.path.path.curSize
  · rw [if_pos hend]
    by_cases hf : r.path.path.gsPack.size ≠ 0 && !r.path.path.gifTag.isValid
    · have hcall : r.path.call .flushToMTGS =
          { r.path with path := r.path.path.afterFlush, ee := .add r.path.path.gsPack } := by
        simp only [State.call, GifPath.flushed, hf, if_true]
      have hnew := hinv.call hee .flushToMTGS
      rw [hcall] at hnew ⊢
      have hrest : load r.path.path.buffer r.path.path.gsPack.offset r.path.path.gsPack.size =
          r.path.path.rest := by
        simp only [GifPath.rest, ← hend, ← hpk, Nat.add_sub_cancel_left]
      have hnil : r.path.path.afterFlush.rest = [] := by
        simp only [GifPath.rest, GifPath.afterFlush, hend, Nat.sub_self, load_zero]
      have hposition : (r.handed ++ r.path.path.rest).length + 0 = r.position := by
        rw [List.length_append, ← hrest, length_load]
        rfl
      have hhanded' : Run.handed ⟨.feed chunks, { r.path with
          path := r.path.path.afterFlush, ee := .add r.path.path.gsPack }⟩ =
            r.handed ++ r.path.path.rest := by
        rw [hhanded, ← hrest]
        rfl
      refine ⟨hnew, ?_, ?_, ?_⟩
      · rw [hhanded']
        simp only [hnil, List.append_nil]
        exact hcontent
      · rw [Run.position, hhanded']
        exact hposition ▸ hparsed
      · rw [Run.position, hhanded']
        exact ⟨hposition ▸ hex, fun _ _ => rfl⟩
    · have hcall : r.path.call .flushToMTGS = r.path := by
        simp only [State.call, GifPath.flushed, hf]
        rfl
      rw [hcall]
      refine hstay fun hvalid _ => ?_
      simpa [hvalid] using hf
  · rw [if_neg hend]
    exact hstay fun _ heq => absurd heq hend

theorem RunInv.step {r t : Run} (hsig : NoSignal S) (h : RunInv S r) (hst : RunStep r t) :
    RunInv S t := by
  have hinv := h.inv
  have hcontent := h.content
  have hparsed := h.parsed
  have hstage := h.stage
  have hhanded (hee : r.path.ee = .idle) : r.handed = r.path.sent := by
    rw [Run.handed, hee]
    exact List.append_nil _
  cases hst with
  | copy data chunks hdriver hee =>
    have hdata : (r.path.call (.copyGSPacketData data)).ee.data = data := by
      simp only [State.call]
      split <;> rfl
    have hstg : (r.path.call (.copyGSPacketData data)).ee.stage = .copying := by
      simp only [State.call]
      split <;> rfl
    have hnew : Run.handed ⟨.execute chunks, r.path.call (.copyGSPacketData data)⟩ = r.handed := by
      rw [hhanded hee]
      simp only [Run.handed, State.call]
      split <;> exact List.append_nil _
    refine ⟨hinv.call hee (.copyGSPacketData data), ?_, ?_, ?_⟩
    · rw [hnew, ← hcontent, hdata, hdriver, hee]
      simp [State.call, Phase.data, Driver.chunks]
    · rw [Run.position, hnew]
      exact hparsed
    · rw [hstg]
      exact trivial
  | execute chunks hdriver hee =>
    rw [hdriver, hee] at hcontent
    refine ⟨hinv.call hee .executeGSPacket, ?_, ?_, rfl⟩
    · rw [hhanded hee] at hcontent
      simp only [Run.handed, State.call, Phase.pending, List.append_nil]
      exact hcontent
    · have : Run.position ⟨.executed chunks, r.path.call .executeGSPacket⟩ = r.position := by
        rw [Run.position, Run.position, hhanded hee]
        simp [Run.handed, State.call, Phase.pending]
      rw [this]
      exact hparsed
  | arbitrate chunks hdriver hee =>
    rw [hdriver, hee] at hstage
    have hstage : if r.path.done then r.path.path.gifTag.isValid = false ∧
      r.path.path.state = .idle else Exhausted S r.position r.path.path := hstage
    rw [Run.arbitrate]
    by_cases hround : r.path.done && !r.path.path.isDone
    · rw [if_pos hround]
      refine ⟨hinv, ?_, hparsed, ?_⟩
      · rw [hdriver] at hcontent
        exact hcontent
      · rw [hee]
        exact trivial
    · rw [if_neg hround]
      refine h.finish (by rw [hdriver]; rfl) hee ?_
      by_cases hdone : r.path.done
      · rw [if_pos hdone] at hstage
        rw [Exhausted, if_neg (by simp [hstage.1])]
        left
        have hleft : ¬ r.path.path.curOffset < r.path.path.curSize := by
          simpa [hdone, GifPath.isDone, GifPath.hasDataRemaining, hstage.2] using hround
        omega
      · rwa [if_neg hdone] at hstage
  | internal t hst => exact h.internal hsig hst

/-- At the end of the stream the calls are all made, and what is not sent is still in the
path's buffer. -/
theorem RunInv.finished {r : Run} (h : RunInv S r) (hfin : r.Finished) :
    r.calls = adCalls S 0 ∧ r.path.sent ++ r.path.path.rest = S ∧
      (Complete S → r.path.sent = S) := by
  obtain ⟨hdriver, hee⟩ := hfin
  have hshows := h.shows
  obtain ⟨hinv, hcontent, hparsed, hstage⟩ := h
  have hpk := hinv.placed.packet
  have hin := hinv.placed.inData
  have hhanded : r.handed = r.path.sent := by
    rw [Run.handed, hee]
    exact List.append_nil _
  rw [hdriver, hee] at hstage
  obtain ⟨hex, hflushed⟩ := hstage
  have hcontent : r.path.sent ++ r.path.path.rest = S := by
    rw [hdriver, hee, hhanded] at hcontent
    simpa [Phase.data, Driver.chunks] using hcontent
  have hrest : r.path.path.rest.length = r.path.path.curSize - r.path.path.gsPack.offset :=
    length_load _ _ _
  have hlen : S.length + r.path.path.curOffset = r.position + r.path.path.curSize := by
    have := congrArg List.length hcontent
    rw [List.length_append, hrest] at this
    rw [Run.position, hhanded]
    omega
  have hdata (tagPos n : Nat) (ht : r.path.path.gifTag = GifTag.packedStep^[n] (tagAt S tagPos))
      (hAD : (tagAt S tagPos).hasAD = true) (hn : 16 * n ≤ (tagAt S tagPos).len) :
      S.length < r.position + 16 ∧ 16 * n + 16 ≤ (tagAt S tagPos).len := by
    have hvalid : r.path.path.gifTag.isValid = true := by
      rw [ht, isValid_iterate, tagAt, GifTag.isValid_setTag]
    rw [Exhausted, if_pos hvalid] at hex
    obtain ⟨hloop, hshort⟩ := hex
    obtain ⟨hidx, htagLen⟩ := GifTag.setTag_of_hasAD .reset (view S) tagPos hAD
    obtain ⟨hidx', hleft⟩ := GifTag.iterate_packedStep (t := tagAt S tagPos) hidx n
    rw [ht] at hloop
    have hpos := (GifTag.left_eq_zero hidx').not.mpr hloop
    simp only [tagAt] at *
    omega
  refine ⟨?_, hcontent, fun hcomplete => ?_⟩
  · cases hparsed with
    | tag hvalid hcalls hend =>
      rw [Exhausted, if_neg (by simp [hvalid])] at hex
      have hnil : adCalls S r.position = [] := by
        rw [adCalls]
        split
        · rfl
        · rename_i hsize
          obtain hshort | ⟨hAD, hshort⟩ := hex
          · omega
          · rw [if_pos (by omega), adWrites, if_neg (by simp [hAD])]
      rwa [hnil, List.append_nil] at hcalls
    | data tagPos n before ht hAD _ hpos hbound hn hcalls hbefore hend =>
      have hshort := hdata tagPos n ht hAD hn
      have hwords : (S.length - tagPos - 16) / 16 = n := by omega
      rw [hcalls, ← hbefore, adCalls.eq_def S tagPos, if_neg (by omega), if_pos (by omega), hwords]
  · have hlast : r.path.path.gifTag.isValid = false ∧ r.position = S.length := by
      cases hparsed with
      | tag hvalid hcalls hend =>
        rw [Exhausted, if_neg (by simp [hvalid])] at hex
        refine ⟨hvalid, ?_⟩
        rw [← hcomplete, ← hend, lastEnd]
        split
        · rfl
        · rename_i hsize
          obtain hshort | ⟨hAD, hshort⟩ := hex
          · omega
          · rw [if_pos (by omega)]
      | data tagPos n before ht hAD _ hpos hbound hn hcalls hbefore hend =>
        have hshort := hdata tagPos n ht hAD hn
        have : lastEnd S tagPos = tagPos := by
          rw [lastEnd, if_neg (by omega), if_pos (by omega)]
        rw [Complete, ← hend, this] at hcomplete
        omega
    obtain ⟨hvalid, hpos⟩ := hlast
    have hsize := hflushed hvalid (by omega)
    have hnil : r.path.path.rest = [] := by
      rw [GifPath.rest, show r.path.path.curSize - r.path.path.gsPack.offset = 0 by omega, load_zero]
    rwa [hnil, List.append_nil] at hcontent

end OmegaRed.Gif
