import OmegaRed.Gif.Parser
import OmegaRed.Gif.Path

/-! A whole stream of GIF primitives, apart from any buffer: where its primitives end and
which of its words are A+D writes. -/

namespace OmegaRed.Gif

open Lib.Memory Lib.Words

/-- The stream as a memory. -/
def view (S : List UInt8) : Nat → UInt8 := fun i => S.getD i 0

/-- The tag at a position of the stream. -/
def tagAt (S : List UInt8) (pos : Nat) : GifTag := GifTag.reset.setTag (view S) pos

/-- The words among the first `n` after the tag at `pos` that are A+D writes. -/
def adWrites (S : List UInt8) (pos n : Nat) : List (List UInt8) :=
  if (tagAt S pos).hasAD then
    (List.range n).flatMap fun i =>
      if (GifTag.packedStep^[i] (tagAt S pos)).curReg = gifRegAD then
        [load (view S) (pos + 16 + 16 * i) 16] else []
  else []

/-- All A+D writes of the stream from `pos` on; of an incomplete last primitive, those of
the words that are there. -/
def adCalls (S : List UInt8) (pos : Nat) : List (List UInt8) :=
  if S.length < pos + 16 then []
  else if S.length < pos + 16 + (tagAt S pos).len then
    adWrites S pos ((S.length - pos - 16) / 16)
  else
    adWrites S pos ((tagAt S pos).len / 16) ++ adCalls S (pos + 16 + (tagAt S pos).len)
termination_by S.length - pos

/-- The end of the last complete primitive from `pos` on. -/
def lastEnd (S : List UInt8) (pos : Nat) : Nat :=
  if S.length < pos + 16 then pos
  else if S.length < pos + 16 + (tagAt S pos).len then pos
  else lastEnd S (pos + 16 + (tagAt S pos).len)
termination_by S.length - pos

/-- The stream ends with a complete primitive. -/
def Complete (S : List UInt8) : Prop := lastEnd S 0 = S.length

variable {S : List UInt8} {pos n : Nat}

theorem adWrites_zero (S : List UInt8) (pos : Nat) : adWrites S pos 0 = [] := by
  simp [adWrites]

theorem adWrites_succ (h : (tagAt S pos).hasAD = true) (n : Nat) :
    adWrites S pos (n + 1) = adWrites S pos n ++
      if (GifTag.packedStep^[n] (tagAt S pos)).curReg = gifRegAD then
        [load (view S) (pos + 16 + 16 * n) 16] else [] := by
  simp only [adWrites, h, if_true, List.range_succ, List.flatMap_append, List.flatMap_singleton]

theorem adWrites_mono (S : List UInt8) (pos : Nat) {n m : Nat} (h : n ≤ m) :
    adWrites S pos n <+: adWrites S pos m := by
  obtain ⟨k, rfl⟩ := Nat.exists_eq_add_of_le h
  by_cases hAD : (tagAt S pos).hasAD
  · simp only [adWrites, hAD, if_true, List.range_add, List.flatMap_append]
    exact List.prefix_append _ _
  · simp [adWrites, hAD]

theorem adWrites_adCalls (hn : pos + 16 + 16 * n ≤ S.length)
    (hlen : 16 * n ≤ (tagAt S pos).len) : adWrites S pos n <+: adCalls S pos := by
  rw [adCalls, if_neg (by omega)]
  split
  · exact adWrites_mono S pos (by omega)
  · exact (adWrites_mono S pos (by omega)).trans (List.prefix_append _ _)

/-- The words of a packed tag still to come. -/
def GifTag.left (t : GifTag) : Nat := t.nLoop * t.nRegs - t.nRegIdx

theorem GifTag.nRegIdx_packedStep_lt {t : GifTag} (h : t.nRegIdx < t.nRegs) :
    t.packedStep.nRegIdx < t.packedStep.nRegs := by
  rw [packedStep]
  split
  · split
    · exact Nat.lt_of_le_of_lt (Nat.zero_le _) h
    · dsimp only
      omega
  · exact h

theorem GifTag.left_eq_zero {t : GifTag} (h : t.nRegIdx < t.nRegs) : t.left = 0 ↔ t.nLoop = 0 := by
  constructor
  · intro hleft
    by_contra hne
    have hmul : t.nRegs ≤ t.nLoop * t.nRegs :=
      Nat.le_mul_of_pos_left _ (Nat.pos_of_ne_zero hne)
    simp only [left] at hleft
    omega
  · intro hloop
    simp [left, hloop]

theorem GifTag.left_packedStep {t : GifTag} (h : t.nRegIdx < t.nRegs) :
    t.packedStep.left = t.left - 1 := by
  rw [packedStep]
  split
  · rename_i hloop
    obtain ⟨k, hk⟩ : ∃ k, t.nLoop = k + 1 := ⟨t.nLoop - 1, by omega⟩
    split
    · simp only [left, hk, Nat.add_sub_cancel, Nat.add_mul, Nat.one_mul]
      omega
    · simp only [left, hk, Nat.add_mul, Nat.one_mul]
      omega
  · rename_i hloop
    have : t.nLoop = 0 := by omega
    simp [left, this]

theorem GifTag.iterate_packedStep {t : GifTag} (h : t.nRegIdx < t.nRegs) (n : Nat) :
    (packedStep^[n] t).nRegIdx < (packedStep^[n] t).nRegs ∧
      (packedStep^[n] t).left = t.left - n := by
  induction n with
  | zero => exact ⟨h, rfl⟩
  | succ n ih =>
    obtain ⟨hidx, hleft⟩ := ih
    rw [Function.iterate_succ_apply']
    refine ⟨nRegIdx_packedStep_lt hidx, ?_⟩
    rw [left_packedStep hidx, hleft, Nat.sub_sub]

theorem GifTag.setTag_of_hasAD (t : GifTag) (m : Nat → UInt8) (a : Nat)
    (h : (t.setTag m a).hasAD = true) :
    (t.setTag m a).nRegIdx < (t.setTag m a).nRegs ∧
      (t.setTag m a).len = 16 * (t.setTag m a).left := by
  simp only [setTag] at h ⊢
  split at h
  · simp only [analyzeTag, left, Nat.sub_zero]
    refine ⟨Nat.succ_pos _, ?_⟩
    rw [Nat.mul_comm 16, Nat.mul_comm (HWGifTag.read m a).nloop]
  · simp at h
  · simp at h
  · simp at h

/-- Two tags read from the same 16 bytes agree, up to registers that are not looked at. -/
theorem GifTag.setTag_congr (t t' : GifTag) {m m' : Nat → UInt8} {a b : Nat}
    (h : load m a 16 = load m' b 16) :
    (t.setTag m a).hasAD = (t'.setTag m' b).hasAD ∧
      (t.setTag m a).len = (t'.setTag m' b).len ∧
      ((t.setTag m a).hasAD = true → t.setTag m a = t'.setTag m' b) := by
  simp only [setTag, HWGifTag.read_congr h]
  split
  · simp [analyzeTag]
  · simp
  · simp
  · simp

end OmegaRed.Gif

/-! `Gif_Unit` feeding one path while the other two are idle: every chunk is copied into
the path's buffer and executed. -/

namespace OmegaRed.Gif

open Lib.Memory

/-- Where `Gif_Unit` stands: between two chunks, before a round of the loop of `Execute`,
or after `ExecuteGSPacket` has been called in it. -/
inductive Driver
  | feed (chunks : List (List UInt8))
  | execute (chunks : List (List UInt8))
  | executed (chunks : List (List UInt8))

/-- `handlerAD` with the history of its calls. -/
def logged (pMem : List UInt8) (r : GSRegs × List (List UInt8)) :
    Bool × GSRegs × List (List UInt8) :=
  let (dblSIGNAL, g) := handlerAD pMem r.1
  (dblSIGNAL, g, r.2 ++ [pMem])

structure Run where
  driver : Driver
  path : State (GSRegs × List (List UInt8))

def Run.init (chunks : List (List UInt8)) (buffer : Nat → UInt8) (regs : GSRegs) : Run :=
  ⟨.feed chunks, .init buffer (regs, [])⟩

def Run.calls (r : Run) : List (List UInt8) := r.path.regs.2

/-- The end of `Execute`. -/
def Run.finish (r : Run) (chunks : List (List UInt8)) : Run :=
  { driver := .feed chunks
    path := if r.path.path.curOffset = r.path.path.curSize then r.path.call .flushToMTGS
      else r.path }

/-- After `ExecuteGSPacket`: leave the loop, or find in the arbitration that the path is
not done and go round again. -/
def Run.arbitrate (r : Run) (chunks : List (List UInt8)) : Run :=
  if r.path.done && !r.path.path.isDone then { r with driver := .execute chunks }
  else r.finish chunks

/-- Path 3 is not the active one. -/
def NotPath3 (stat : Stat) : Prop := stat.path3 = false

inductive RunStep : Run → Run → Prop
  | copy (r : Run) (data : List UInt8) (chunks : List (List UInt8)) :
      r.driver = .feed (data :: chunks) → r.path.ee = .idle →
      RunStep r ⟨.execute chunks, r.path.call (.copyGSPacketData data)⟩
  | execute (r : Run) (chunks : List (List UInt8)) :
      r.driver = .execute chunks → r.path.ee = .idle →
      RunStep r ⟨.executed chunks, r.path.call .executeGSPacket⟩
  | arbitrate (r : Run) (chunks : List (List UInt8)) :
      r.driver = .executed chunks → r.path.ee = .idle → RunStep r (r.arbitrate chunks)
  | internal (r : Run) (t : State (GSRegs × List (List UInt8))) :
      Internal logged NotPath3 r.path t → RunStep r { r with path := t }

/-- Every chunk is copied and executed. -/
def Run.Finished (r : Run) : Prop := r.driver = .feed [] ∧ r.path.ee = .idle

/-- A chunk does not fit behind the packet in hand, which fails an assertion. -/
def Run.Overflows (r : Run) : Prop :=
  ∃ data, r.path.ee = .memcpy data ∧ buffSize < r.path.path.curSize + data.length

/-- `chunks` cuts `S` into non-empty pieces of whole quadwords. -/
structure Cutting (S : List UInt8) (chunks : List (List UInt8)) : Prop where
  flatten : chunks.flatten = S
  nonempty : ∀ c ∈ chunks, c ≠ []
  quadwords : ∀ c ∈ chunks, 16 ∣ c.length

end OmegaRed.Gif

/-! The parser over data that shows a stream: it resumes where it stood, between two
primitives or inside the data of an A+D tag. -/

namespace OmegaRed.Gif

open Lib.Memory

variable {S : List UInt8} {start pos : Nat} {stat : Stat}

/-- The parser has handled the first `pos` bytes of the stream: it is between two
primitives, or inside a primitive with A+D data. -/
inductive At (S : List UInt8) (pos : Nat) (t : GifTag) (calls : List (List UInt8)) : Prop
  | tag : t.isValid = false → calls ++ adCalls S pos = adCalls S 0 →
      lastEnd S pos = lastEnd S 0 → At S pos t calls
  | data (tagPos n : Nat) (before : List (List UInt8)) :
      t = GifTag.packedStep^[n] (tagAt S tagPos) → (tagAt S tagPos).hasAD = true →
      t.nLoop ≠ 0 → pos = tagPos + 16 + 16 * n → pos ≤ S.length → 16 * n ≤ (tagAt S tagPos).len →
      calls = before ++ adWrites S tagPos n → before ++ adCalls S tagPos = adCalls S 0 →
      lastEnd S tagPos = lastEnd S 0 → At S pos t calls

/-- The data of the path from the packet in hand on is the stream from `start` on. -/
structure Shows (S : List UInt8) (start : Nat) (p : GifPath) : Prop where
  bytes : load p.buffer p.gsPack.offset (p.curSize - p.gsPack.offset) =
    load (view S) start (p.curSize - p.gsPack.offset)
  bound : start + (p.curSize - p.gsPack.offset) ≤ S.length

theorem Shows.load {p : GifPath} (h : Shows S start p) (hp : Placed p) {n : Nat}
    (hn : p.curOffset + n ≤ p.curSize) :
    load p.buffer p.curOffset n = load (view S) (start + p.gsPack.size) n := by
  have hpk := hp.packet
  rw [← hpk]
  exact load_part h.bytes (by omega)

theorem Shows.advances {p q : GifPath} (h : Shows S start p) (hadv : Advances p q) :
    Shows S start q := by
  obtain ⟨hbytes, hbound⟩ := h
  rw [← hadv.buffer, ← hadv.offset, ← hadv.curSize] at hbytes
  rw [← hadv.offset, ← hadv.curSize] at hbound
  exact ⟨hbytes, hbound⟩

theorem isValid_iterate (t : GifTag) (n : Nat) :
    (GifTag.packedStep^[n] t).isValid = t.isValid := by
  induction n with
  | zero => rfl
  | succ n ih => rw [Function.iterate_succ_apply', GifTag.isValid_packedStep, ih]

theorem hasAD_iterate (t : GifTag) (n : Nat) :
    (GifTag.packedStep^[n] t).hasAD = t.hasAD := by
  induction n with
  | zero => rfl
  | succ n ih => rw [Function.iterate_succ_apply', GifTag.hasAD_packedStep, ih]

theorem At.next {tagPos n : Nat} {before : List (List UInt8)} {t : GifTag}
    (hAD : (tagAt S tagPos).hasAD = true)
    (hloop : (GifTag.packedStep^[n] (tagAt S tagPos)).nLoop = 0)
    (hbound : tagPos + 16 + 16 * n ≤ S.length) (hlen : 16 * n ≤ (tagAt S tagPos).len)
    (hbefore : before ++ adCalls S tagPos = adCalls S 0) (hend : lastEnd S tagPos = lastEnd S 0)
    (ht : t.isValid = false) : At S (tagPos + 16 + 16 * n) t (before ++ adWrites S tagPos n) := by
  obtain ⟨hidx, hleft⟩ := GifTag.setTag_of_hasAD .reset (view S) tagPos hAD
  obtain ⟨hidx', hleft'⟩ := GifTag.iterate_packedStep (t := tagAt S tagPos) hidx n
  have hzero := (GifTag.left_eq_zero hidx').mpr hloop
  have hlen' : (tagAt S tagPos).len = 16 * n := by
    simp only [tagAt] at *
    omega
  refine .tag ht ?_ ?_
  · rw [← hbefore, adCalls.eq_def S tagPos, if_neg (by omega), if_neg (by omega), hlen',
      Nat.mul_div_cancel_left n (by decide), List.append_assoc]
  · rw [← hend, lastEnd.eq_def S tagPos, if_neg (by omega), if_neg (by omega), hlen']

/-- No A+D write of the stream is a SIGNAL. -/
def NoSignal (S : List UInt8) : Prop := ∀ q ∈ adCalls S 0, q.getD 8 0 ≠ regSIGNAL

theorem logged_of_ne_signal {q : List UInt8} (h : q.getD 8 0 ≠ regSIGNAL)
    (r : GSRegs × List (List UInt8)) :
    logged q r = (false, (handlerAD q r.1).2, r.2 ++ [q]) := by
  have hstall := handlerAD_of_ne_signal h r.1
  rw [logged]
  generalize handlerAD q r.1 = res at hstall
  obtain ⟨dblSIGNAL, g⟩ := res
  obtain rfl : dblSIGNAL = false := hstall
  rfl

/-- What the loop over A+D data has reached: `n` words of the tag at `tagPos`. -/
structure AdReached (S : List UInt8) (tagPos : Nat) (before : List (List UInt8)) (start : Nat)
    (p : GifPath) (calls : List (List UInt8)) (n : Nat) : Prop where
  gifTag : p.gifTag = GifTag.packedStep^[n] (tagAt S tagPos)
  pos : start + p.gsPack.size = tagPos + 16 + 16 * n
  bound : tagPos + 16 + 16 * n ≤ S.length
  len : 16 * n ≤ (tagAt S tagPos).len
  calls : calls = before ++ adWrites S tagPos n

theorem AdReached.step {tagPos : Nat} {before : List (List UInt8)} {p : GifPath} {n : Nat}
    {r : GSRegs × List (List UInt8)} (hsig : NoSignal S)
    (hAD : (tagAt S tagPos).hasAD = true) (hbefore : before ++ adCalls S tagPos = adCalls S 0)
    (hp : Placed p) (hshow : Shows S start p) (h : AdReached S tagPos before start p r.2 n)
    (hloop : p.gifTag.nLoop ≠ 0) (hsize : p.curOffset + 16 ≤ p.curSize) :
    let res := if p.gifTag.curReg = gifRegAD then logged (load p.buffer p.curOffset 16) r
      else (false, r)
    res.1 = false ∧ AdReached S tagPos before start
      { p.incTag 16 with gifTag := p.gifTag.packedStep } res.2.2 (n + 1) := by
  obtain ⟨hidx, hlen⟩ := GifTag.setTag_of_hasAD .reset (view S) tagPos hAD
  obtain ⟨hidx', hleft⟩ := GifTag.iterate_packedStep (t := tagAt S tagPos) hidx n
  have hpos : p.gifTag.left ≠ 0 := by
    rw [h.gifTag] at hloop ⊢
    exact fun hzero => hloop ((GifTag.left_eq_zero hidx').mp hzero)
  have hmore : 16 * (n + 1) ≤ (tagAt S tagPos).len := by
    rw [h.gifTag, hleft] at hpos
    simp only [tagAt] at *
    omega
  have hbound : tagPos + 16 + 16 * (n + 1) ≤ S.length := by
    have := hp.packet
    have := hshow.bound
    have := h.pos
    omega
  have hword : load p.buffer p.curOffset 16 = load (view S) (tagPos + 16 + 16 * n) 16 := by
    rw [hshow.load hp hsize, h.pos]
  have hsucc := adWrites_succ hAD n
  rw [← h.gifTag] at hsucc
  have hnew : ∀ calls, calls = before ++ adWrites S tagPos (n + 1) →
      AdReached S tagPos before start { p.incTag 16 with gifTag := p.gifTag.packedStep } calls
        (n + 1) := by
    intro calls hcalls
    refine ⟨?_, ?_, hbound, hmore, hcalls⟩
    · dsimp only
      rw [Function.iterate_succ_apply', h.gifTag]
    · have := h.pos
      simp only [GifPath.incTag]
      omega
  by_cases hreg : p.gifTag.curReg = gifRegAD
  · rw [if_pos hreg] at hsucc
    have hmem : load (view S) (tagPos + 16 + 16 * n) 16 ∈ adCalls S 0 := by
      rw [← hbefore]
      refine List.mem_append_right _ ((adWrites_adCalls hbound hmore).mem ?_)
      simp [hsucc]
    rw [if_pos hreg, hword, logged_of_ne_signal (hsig _ hmem)]
    refine ⟨rfl, hnew _ ?_⟩
    rw [h.calls, hsucc, List.append_assoc]
  · rw [if_neg hreg] at hsucc ⊢
    refine ⟨rfl, hnew _ ?_⟩
    rw [h.calls, hsucc, List.append_nil]

theorem adLoop_stream {tagPos : Nat} {before : List (List UInt8)} (hsig : NoSignal S)
    (hAD : (tagAt S tagPos).hasAD = true) (hbefore : before ++ adCalls S tagPos = adCalls S 0)
    {p : GifPath} {r : GSRegs × List (List UInt8)} {n : Nat} (hp : Placed p)
    (hshow : Shows S start p) (h : AdReached S tagPos before start p r.2 n) :
    (adLoop logged p r).1 ≠ .stalled ∧
      (∃ m, AdReached S tagPos before start (adLoop logged p r).2.1 (adLoop logged p r).2.2.2 m) ∧
      ((adLoop logged p r).1 = .finished → (adLoop logged p r).2.1.gifTag.nLoop = 0) ∧
      ((adLoop logged p r).1 = .early → (adLoop logged p r).2.1.gifTag.nLoop ≠ 0 ∧
        (adLoop logged p r).2.1.curSize < (adLoop logged p r).2.1.curOffset + 16) := by
  fun_induction adLoop logged p r generalizing n with
  | case1 p r hloop => exact ⟨by simp, ⟨n, h⟩, fun _ => hloop, by simp⟩
  | case2 p r hloop hsize => exact ⟨by simp, ⟨n, h⟩, by simp, fun _ => ⟨hloop, by omega⟩⟩
  | case3 p r hloop hsize r' =>
    rename_i hr
    have hstep := (h.step hsig hAD hbefore hp hshow hloop (by omega)).1
    simp only [← dite_eq_ite, hr] at hstep
    simp at hstep
  | case4 p r hloop hsize dbl r' =>
    rename_i hr p' hdbl ih
    have hstep := (h.step hsig hAD hbefore hp hshow hloop (by omega)).2
    simp only [← dite_eq_ite, hr] at hstep
    have hadv := hp.incTag (n := 16) (by omega) p.gifTag.packedStep p.state
    exact ih hadv.placed (hshow.advances hadv) hstep

/-- The data at hand holds no further word of the primitive in hand, or no further
complete primitive. -/
def Exhausted (S : List UInt8) (pos : Nat) (p : GifPath) : Prop :=
  if p.gifTag.isValid then p.gifTag.nLoop ≠ 0 ∧ p.curSize < p.curOffset + 16
  else p.curSize < p.curOffset + 16 ∨
    (tagAt S pos).hasAD = false ∧ p.curSize < p.curOffset + 16 + (tagAt S pos).len

/-- How a round of `ExecuteGSPacket` from `p` leaves the parser in the stream. -/
def Exec.Streams (S : List UInt8) (start : Nat) (p : GifPath) :
    Exec (GSRegs × List (List UInt8)) → Prop
  | .again q r => At S (start + q.gsPack.size) q.gifTag r.2
  | .realign q r => At S (start + q.gsPack.size) q.gifTag r.2
  | .exit q r => At S (start + q.gsPack.size) q.gifTag r.2 ∧
      Exhausted S (start + q.gsPack.size) q
  | .done q r pack => At S (start + pack.size) q.gifTag r.2 ∧ q.curSize = p.curSize ∧
      q.state = .idle

theorem Exec.Streams.of_curSize {p q : GifPath} {e : Exec (GSRegs × List (List UInt8))}
    (h : e.Streams S start q) (hsize : q.curSize = p.curSize) : e.Streams S start p := by
  cases e with
  | again r g => exact h
  | realign r g => exact h
  | exit r g => exact h
  | done r g pack => exact ⟨h.1, h.2.1.trans hsize, h.2.2⟩

theorem endTag_streams {p : GifPath} {r : GSRegs × List (List UInt8)} (hstat : NotPath3 stat)
    (h : ∀ t, t.isValid = false → At S (start + p.gsPack.size) t r.2) :
    (endTag stat p r).Streams S start p := by
  have hstat : stat.path3 = false := hstat
  simp only [endTag, hstat]
  split
  · exact ⟨h _ rfl, rfl, rfl⟩
  · exact h _ rfl

theorem processData_streams {p : GifPath} {r : GSRegs × List (List UInt8)} {tagPos n : Nat}
    {before : List (List UInt8)} (hsig : NoSignal S) (hstat : NotPath3 stat)
    (hAD : (tagAt S tagPos).hasAD = true) (hbefore : before ++ adCalls S tagPos = adCalls S 0)
    (hend : lastEnd S tagPos = lastEnd S 0) (hp : Placed p) (hshow : Shows S start p)
    (h : AdReached S tagPos before start p r.2 n) :
    (processData logged stat p r).Streams S start p := by
  have hpAD : p.gifTag.hasAD = true := by rw [h.gifTag, hasAD_iterate, hAD]
  rw [processData, if_pos hpAD]
  obtain ⟨hadv, -, -⟩ := adLoop_advances logged r hp
  obtain ⟨hne, ⟨m, hm⟩, hfin, hearly⟩ := adLoop_stream hsig hAD hbefore hp hshow h
  generalize adLoop logged p r = res at *
  obtain ⟨exit, q, r'⟩ := res
  cases exit with
  | early =>
    obtain ⟨hloop, hsize⟩ := hearly rfl
    refine ⟨.data tagPos m before hm.gifTag hAD hloop hm.pos ?_ hm.len hm.calls hbefore hend, ?_⟩
    · rw [hm.pos]
      exact hm.bound
    · have hvalid : q.gifTag.isValid = true := by
        rw [hm.gifTag, isValid_iterate, tagAt, GifTag.isValid_setTag]
      rw [Exhausted, if_pos hvalid]
      exact ⟨hloop, hsize⟩
  | stalled => exact absurd rfl hne
  | finished =>
    have hloop : q.gifTag.nLoop = 0 := hfin rfl
    rw [hm.gifTag] at hloop
    refine (endTag_streams hstat fun t ht => ?_).of_curSize hadv.curSize
    rw [hm.pos, hm.calls]
    exact .next hAD hloop hm.bound hm.len hbefore hend ht

theorem loadTag_streams {p : GifPath} {r : GSRegs × List (List UInt8)} (hsig : NoSignal S)
    (hstat : NotPath3 stat) (hp : Placed p) (hshow : Shows S start p)
    (hsize : p.curOffset + 16 ≤ p.curSize)
    (hcalls : r.2 ++ adCalls S (start + p.gsPack.size) = adCalls S 0)
    (hend : lastEnd S (start + p.gsPack.size) = lastEnd S 0) :
    (loadTag logged stat p r).Streams S start p := by
  have hpk := hp.packet
  have hbound := hshow.bound
  obtain ⟨hAD, hlen, heq⟩ := GifTag.setTag_congr p.gifTag .reset (hshow.load hp hsize)
  change _ = (tagAt S (start + p.gsPack.size)).hasAD at hAD
  change _ = (tagAt S (start + p.gsPack.size)).len at hlen
  have htag : p.setTag.gifTag = p.gifTag.setTag p.buffer p.curOffset := rfl
  have hcur : p.setTag.curOffset = p.curOffset := rfl
  have hcurSize : p.setTag.curSize = p.curSize := rfl
  simp only [loadTag, htag, hcur, hcurSize, hAD, hlen]
  have hadv : Advances p (p.setTag.incTag 16) := hp.incTag hsize _ _
  by_cases hT : (tagAt S (start + p.gsPack.size)).hasAD
  · rw [if_neg (by simp [hT])]
    refine (processData_streams (n := 0) hsig hstat hT hcalls hend hadv.placed
      (hshow.advances hadv) ?_).of_curSize rfl
    refine ⟨heq (by rw [hAD, hT]), ?_, ?_, Nat.zero_le _, ?_⟩
    · exact (Nat.add_assoc _ _ _).symm
    · omega
    · rw [adWrites_zero, List.append_nil]
  · have hT : (tagAt S (start + p.gsPack.size)).hasAD = false := by simpa using hT
    by_cases hmore : p.curSize < p.curOffset + 16 + (tagAt S (start + p.gsPack.size)).len
    · rw [if_pos (by simpa [hT] using hmore)]
      refine ⟨.tag rfl hcalls hend, ?_⟩
      rw [Exhausted, if_neg (by simp)]
      exact .inr ⟨hT, hmore⟩
    · rw [if_neg (by simpa [hT] using hmore), processData]
      have hpAD : (p.setTag.incTag 16).gifTag.hasAD = false := hAD.trans hT
      have hplen : (p.setTag.incTag 16).gifTag.len = (tagAt S (start + p.gsPack.size)).len := hlen
      rw [if_neg (by simp [hpAD]), hplen]
      refine (endTag_streams hstat fun t ht => ?_).of_curSize rfl
      have hpos : start + ((p.setTag.incTag 16).incTag
          (tagAt S (start + p.gsPack.size)).len).gsPack.size =
            start + p.gsPack.size + 16 + (tagAt S (start + p.gsPack.size)).len := by
        simp only [GifPath.incTag, GifPath.setTag]
        omega
      rw [hpos]
      refine .tag ht ?_ ?_
      · rw [← hcalls, adCalls.eq_def S (start + p.gsPack.size), if_neg (by omega),
          if_neg (by omega), adWrites, if_neg (by simp [hT]), List.nil_append]
      · rw [← hend, lastEnd.eq_def S (start + p.gsPack.size), if_neg (by omega),
          if_neg (by omega)]

theorem executeGSPacket_streams {p : GifPath} {r : GSRegs × List (List UInt8)}
    (hsig : NoSignal S) (hstat : NotPath3 stat) (hp : Placed p) (hshow : Shows S start p)
    (h : At S (start + p.gsPack.size) p.gifTag r.2) :
    (executeGSPacket logged stat p r).Streams S start p := by
  rw [executeGSPacket]
  cases h with
  | tag hvalid hcalls hend =>
    have hat : At S (start + p.gsPack.size) p.gifTag r.2 := .tag hvalid hcalls hend
    rw [if_pos (by simp [hvalid])]
    split
    · rename_i hsize
      refine ⟨hat, ?_⟩
      rw [Exhausted, if_neg (by simp [hvalid])]
      exact .inl hsize
    · split
      · exact hat
      · exact loadTag_streams hsig hstat hp hshow (by omega) hcalls hend
  | data tagPos n before ht hAD hloop hpos hbound hlen hcalls hbefore hend =>
    have hvalid : p.gifTag.isValid = true := by
      rw [ht, isValid_iterate, tagAt, GifTag.isValid_setTag]
    rw [if_neg (by simp [hvalid])]
    exact processData_streams hsig hstat hAD hbefore hend hp hshow
      ⟨ht, hpos, by omega, hlen, hcalls⟩

end OmegaRed.Gif
