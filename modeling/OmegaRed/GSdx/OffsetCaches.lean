import OmegaRed.GSdx.LocalMemory
import OmegaRed.Lib.Memo

/-! The caches of offset tables: what a request finds in them. -/

namespace OmegaRed.GSdx

open OmegaRed.Lib Memo

local instance neZero_rows : NeZero 8 := ⟨by decide⟩

structure GIFRegFRAME where
  FBP : Fin 512
  FBW : Fin 64
  PSM : Fin 64
  deriving DecidableEq

structure GIFRegZBUF where
  ZBP : Fin 512
  PSM : Fin 64
  deriving DecidableEq

/-- `FBP << 5` -/
def GIFRegFRAME.block (FRAME : GIFRegFRAME) : Nat := FRAME.FBP.val <<< 5

def GIFRegZBUF.block (ZBUF : GIFRegZBUF) : Nat := ZBUF.ZBP.val <<< 5

/-- `GSPixelOffset`, and `GSPixelOffset4` with a quarter of the columns. -/
structure GSPixelOffset (columns : Nat) where
  row : Vector (Int × Int) 2048
  col : Vector (Int × Int) columns
  hash : Nat
  fbp : Nat
  zbp : Nat
  fpsm : Fin 64
  zpsm : Fin 64
  bw : Fin 64

/-- The arguments of `GetOffset`. -/
structure OffsetRequest where
  bp : Fin 16384
  bw : Fin 64
  psm : Fin 64
  deriving DecidableEq

/-- The arguments of `GetPixelOffset`. -/
structure PixelRequest where
  FRAME : GIFRegFRAME
  ZBUF : GIFRegZBUF
  deriving DecidableEq

def OffsetRequest.hash (r : OffsetRequest) : Nat :=
  r.bp.val ||| r.bw.val <<< 14 ||| r.psm.val <<< 20

def OffsetRequest.offset (r : OffsetRequest) : GSOffset := getOffset r.bp r.bw r.psm

/-- `(psm & 0x0f) ^ ((psm & 0x30) >> 2)` -/
def psmHash (psm : Nat) : Nat := (psm &&& 0x0f) ^^^ ((psm &&& 0x30) >>> 2)

namespace PixelRequest

variable (r : PixelRequest)

def hash : Nat :=
  r.FRAME.FBP.val <<< 0 ||| r.ZBUF.ZBP.val <<< 9 ||| r.FRAME.FBW.val <<< 18 |||
    psmHash r.FRAME.PSM <<< 24 ||| psmHash r.ZBUF.PSM <<< 28

/-- `off->row[i]` -/
def row (i : Nat) : Int × Int :=
  let fs := (m_psm r.FRAME.PSM).bpp >>> 5
  let zs := (m_psm r.ZBUF.PSM).bpp >>> 5
  ((m_psm r.FRAME.PSM).pa 0 i r.FRAME.block r.FRAME.FBW * 2 ^ fs,
    (m_psm r.ZBUF.PSM).pa 0 i r.ZBUF.block r.FRAME.FBW * 2 ^ zs)

/-- `off->col[i]` -/
def col (i : Fin 4096) : Int × Int :=
  let fs := (m_psm r.FRAME.PSM).bpp >>> 5
  let zs := (m_psm r.ZBUF.PSM).bpp >>> 5
  (((m_psm r.FRAME.PSM).rowOffset.get 0).get i * 2 ^ fs,
    ((m_psm r.ZBUF.PSM).rowOffset.get 0).get i * 2 ^ zs)

/-- The tables with every `step`-th column. -/
def tables (step columns : Nat) (h : columns * step ≤ 2048) : GSPixelOffset columns where
  row := .ofFn fun i => r.row i
  col := .ofFn fun i => r.col ⟨i * step, by
    have := Nat.mul_le_mul_right step (Nat.succ_le_of_lt i.isLt)
    have := Nat.le_add_right (i * step) step
    rw [Nat.succ_mul] at *
    omega⟩
  hash := r.hash
  fbp := r.FRAME.block
  zbp := r.ZBUF.block
  fpsm := r.FRAME.PSM
  zpsm := r.ZBUF.PSM
  bw := r.FRAME.FBW

end PixelRequest

/-- The caches of `GSLocalMemory`; nothing is removed from them while it lives. -/
structure OffsetCaches where
  m_omap : Cache Nat GSOffset
  m_pomap : Cache Nat (GSPixelOffset 2048)
  m_po4map : Cache Nat (GSPixelOffset 512)

inductive OffsetCall
  | getOffset (r : OffsetRequest)
  | getPixelOffset (r : PixelRequest)
  | getPixelOffset4 (r : PixelRequest)
  deriving DecidableEq

def PixelRequest.offset (r : PixelRequest) : GSPixelOffset 2048 := r.tables 1 2048 (by decide)

def PixelRequest.offset4 (r : PixelRequest) : GSPixelOffset 512 := r.tables 4 512 (by decide)

namespace OffsetCaches

def empty : OffsetCaches := ⟨.empty, .empty, .empty⟩

/-- `GetOffset`, with the table that it returns. -/
def getOffset (c : OffsetCaches) (r : OffsetRequest) : OffsetCaches × Nat :=
  let (m, i) := c.m_omap.request OffsetRequest.hash OffsetRequest.offset r
  ({ c with m_omap := m }, i)

/-- `GetPixelOffset` -/
def getPixelOffset (c : OffsetCaches) (r : PixelRequest) : OffsetCaches × Nat :=
  let (m, i) := c.m_pomap.request PixelRequest.hash PixelRequest.offset r
  ({ c with m_pomap := m }, i)

/-- `GetPixelOffset4` -/
def getPixelOffset4 (c : OffsetCaches) (r : PixelRequest) : OffsetCaches × Nat :=
  let (m, i) := c.m_po4map.request PixelRequest.hash PixelRequest.offset4 r
  ({ c with m_po4map := m }, i)

def step (c : OffsetCaches) : OffsetCall → OffsetCaches
  | .getOffset r => (c.getOffset r).1
  | .getPixelOffset r => (c.getPixelOffset r).1
  | .getPixelOffset4 r => (c.getPixelOffset4 r).1

def run (calls : List OffsetCall) : OffsetCaches := calls.foldl step empty

end OffsetCaches

/-- The rows and columns of a table. -/
def GSPixelOffset.entries {columns : Nat} (off : GSPixelOffset columns) :
    Vector (Int × Int) 2048 × Vector (Int × Int) columns := (off.row, off.col)

/-- Every call of a history returned the table it asked for, and the pointer to it is still
good. -/
structure Right (calls : List OffsetCall) : Prop where
  offset : ∀ before r after, calls = before ++ .getOffset r :: after →
    (OffsetCaches.run calls).m_omap.heap[((OffsetCaches.run before).getOffset r).2]? =
      some r.offset
  pixelOffset : ∀ before r after, calls = before ++ .getPixelOffset r :: after →
    (OffsetCaches.run calls).m_pomap.heap[((OffsetCaches.run before).getPixelOffset r).2]?.map
      GSPixelOffset.entries = some r.offset.entries
  pixelOffset4 : ∀ before r after, calls = before ++ .getPixelOffset4 r :: after →
    (OffsetCaches.run calls).m_po4map.heap[((OffsetCaches.run before).getPixelOffset4 r).2]?.map
      GSPixelOffset.entries = some r.offset4.entries

/-- A format for each way that the pixels of a buffer lie. -/
def GS_PSM.layout : GS_PSM → GS_PSM
  | PSMCT24 | PSMT8H | PSMT4HL | PSMT4HH => PSMCT32
  | PSGPU24 => PSMCT16
  | PSMZ24 => PSMZ32
  | p => p

/-- Requests for the same bases and width whose formats have the same identifiers are for the
same layouts. -/
def SameLayouts (rs : List PixelRequest) : Prop :=
  ∀ r ∈ rs, ∀ r' ∈ rs, r.FRAME.FBP = r'.FRAME.FBP → r.FRAME.FBW = r'.FRAME.FBW →
    r.ZBUF.ZBP = r'.ZBUF.ZBP → psmHash r.FRAME.PSM = psmHash r'.FRAME.PSM →
    psmHash r.ZBUF.PSM = psmHash r'.ZBUF.PSM →
    (GS_PSM.ofCode r.FRAME.PSM).layout = (GS_PSM.ofCode r'.FRAME.PSM).layout ∧
      (GS_PSM.ofCode r.ZBUF.PSM).layout = (GS_PSM.ofCode r'.ZBUF.PSM).layout

instance (rs : List PixelRequest) : Decidable (SameLayouts rs) :=
  inferInstanceAs (Decidable (∀ r ∈ rs, ∀ r' ∈ rs, _))

namespace OffsetCall

def offset? : OffsetCall → Option OffsetRequest
  | getOffset r => some r
  | _ => none

def pixelOffset? : OffsetCall → Option PixelRequest
  | getPixelOffset r => some r
  | _ => none

def pixelOffset4? : OffsetCall → Option PixelRequest
  | getPixelOffset4 r => some r
  | _ => none

theorem offset?_iff (q : OffsetCall) (r : OffsetRequest) :
    q.offset? = some r ↔ q = .getOffset r := by
  cases q <;> simp [offset?]

theorem pixelOffset?_iff (q : OffsetCall) (r : PixelRequest) :
    q.pixelOffset? = some r ↔ q = .getPixelOffset r := by
  cases q <;> simp [pixelOffset?]

theorem pixelOffset4?_iff (q : OffsetCall) (r : PixelRequest) :
    q.pixelOffset4? = some r ↔ q = .getPixelOffset4 r := by
  cases q <;> simp [pixelOffset4?]

end OffsetCall

theorem run_eq (calls : List OffsetCall) : OffsetCaches.run calls =
    ⟨Cache.serve OffsetRequest.hash OffsetRequest.offset .empty (calls.filterMap OffsetCall.offset?),
      Cache.serve PixelRequest.hash PixelRequest.offset .empty
        (calls.filterMap OffsetCall.pixelOffset?),
      Cache.serve PixelRequest.hash PixelRequest.offset4 .empty
        (calls.filterMap OffsetCall.pixelOffset4?)⟩ := by
  induction calls using List.reverseRecOn with
  | nil => rfl
  | append_singleton calls q ih =>
    rw [OffsetCaches.run, List.foldl_append, ← OffsetCaches.run, ih, List.filterMap_append,
      List.filterMap_append, List.filterMap_append, Cache.serve_append, Cache.serve_append,
      Cache.serve_append]
    cases q <;> rfl

theorem or_shiftLeft_inj {k a b a' b' : Nat} (ha : a < 2 ^ k) (ha' : a' < 2 ^ k) :
    a ||| b <<< k = a' ||| b' <<< k ↔ a = a' ∧ b = b' := by
  constructor
  · intro h
    rw [Nat.or_comm a, Nat.or_comm a', ← Nat.shiftLeft_add_eq_or_of_lt ha,
      ← Nat.shiftLeft_add_eq_or_of_lt ha', Nat.shiftLeft_eq, Nat.shiftLeft_eq] at h
    exact (digits_inj ha ha' h).symm
  · rintro ⟨rfl, rfl⟩
    rfl

theorem or_shiftLeft_lt {k n a b : Nat} (ha : a < 2 ^ k) (hb : b < 2 ^ n) :
    a ||| b <<< k < 2 ^ (k + n) := by
  refine Nat.or_lt_two_pow (Nat.lt_of_lt_of_le ha (Nat.pow_le_pow_right Nat.two_pos ?_)) ?_
  · exact Nat.le_add_right k n
  · rw [Nat.shiftLeft_eq, Nat.add_comm, Nat.pow_add]
    exact Nat.mul_lt_mul_of_pos_right hb (Nat.two_pow_pos k)

theorem psmHash_lt : ∀ psm : Fin 64, psmHash psm < 2 ^ 4 := by decide

theorem OffsetRequest.hash_inj {r r' : OffsetRequest} (h : r.hash = r'.hash) : r = r' := by
  obtain ⟨bp, bw, psm⟩ := r
  obtain ⟨bp', bw', psm'⟩ := r'
  have hlow := or_shiftLeft_lt (k := 14) (n := 6) bp.isLt bw.isLt
  have hlow' := or_shiftLeft_lt (k := 14) (n := 6) bp'.isLt bw'.isLt
  obtain ⟨h, hpsm⟩ := (or_shiftLeft_inj hlow hlow').1 h
  obtain ⟨hbp, hbw⟩ := (or_shiftLeft_inj bp.isLt bp'.isLt).1 h
  obtain rfl := Fin.ext hbp
  obtain rfl := Fin.ext hbw
  obtain rfl := Fin.ext hpsm
  rfl

theorem PixelRequest.hash_eq_iff (r r' : PixelRequest) : r.hash = r'.hash ↔
    r.FRAME.FBP = r'.FRAME.FBP ∧ r.ZBUF.ZBP = r'.ZBUF.ZBP ∧ r.FRAME.FBW = r'.FRAME.FBW ∧
      psmHash r.FRAME.PSM = psmHash r'.FRAME.PSM ∧ psmHash r.ZBUF.PSM = psmHash r'.ZBUF.PSM := by
  have bases (q : PixelRequest) := or_shiftLeft_lt (k := 9) (n := 9) q.FRAME.FBP.isLt q.ZBUF.ZBP.isLt
  have width (q : PixelRequest) := or_shiftLeft_lt (n := 6) (bases q) q.FRAME.FBW.isLt
  have frame (q : PixelRequest) := or_shiftLeft_lt (width q) (psmHash_lt q.FRAME.PSM)
  rw [hash, hash, Nat.shiftLeft_zero, Nat.shiftLeft_zero, or_shiftLeft_inj (frame r) (frame r'),
    or_shiftLeft_inj (width r) (width r'), or_shiftLeft_inj (bases r) (bases r'),
    or_shiftLeft_inj r.FRAME.FBP.isLt r'.FRAME.FBP.isLt, Fin.ext_iff, Fin.ext_iff, Fin.ext_iff]
  tauto

namespace GS_PSM

variable (p : GS_PSM)

/-- A column entry of a format. -/
def colEntry (x : Fin 4096) : Int := (p.entry.rowOffset.get 0).get x * 2 ^ (p.entry.bpp >>> 5)

theorem layout_pa : p.layout.entry.pa = p.entry.pa := by cases p <;> rfl

theorem layout_fs : p.layout.entry.bpp >>> 5 = p.entry.bpp >>> 5 := by cases p <;> rfl

theorem layout_rowOffset : p.layout.entry.rowOffset.get 0 = p.entry.rowOffset.get 0 := by
  cases p <;> rfl

theorem entry_of_layout {p q : GS_PSM} (h : p.layout = q.layout) :
    p.entry.pa = q.entry.pa ∧ p.entry.bpp >>> 5 = q.entry.bpp >>> 5 ∧
      p.entry.rowOffset.get 0 = q.entry.rowOffset.get 0 := by
  rw [← layout_pa p, ← layout_fs p, ← layout_rowOffset p, h]
  exact ⟨layout_pa q, layout_fs q, layout_rowOffset q⟩

theorem colEntry_eq (x : Fin 4096) (h : x.val < 2048) : p.colEntry x =
    (((x.val >>> p.swizzle.pgx) * 32 * p.swizzle.cells + p.swizzle.place x.val 0 : Nat) -
      (p.swizzle.place 0 0 : Nat)) * 2 ^ (p.entry.bpp >>> 5) := by
  have hrow : p.entry.rowOffset.get 0 = p.swizzle.rowOffset 0 :=
    (p.rowOffset_eq 0).trans (by cases p <;> rfl)
  have hpage : x.val >>> p.swizzle.pgx < 512 :=
    Nat.lt_trans (Swizzle.shiftRight_pgx_lt h) (by decide)
  have hzero (x : Nat) : p.swizzle.pageNumber x 0 32 = x >>> p.swizzle.pgx := by
    rw [Swizzle.pageNumber, Nat.zero_shiftRight, Nat.zero_mul, Nat.zero_add]
  rw [colEntry, hrow, Swizzle.rowOffset, get_ofFn, Nat.mod_eq_of_lt h, Swizzle.pixelAddress_eq,
    Swizzle.pixelAddress_eq, hzero, hzero, Nat.zero_shiftRight, Nat.zero_div, Nat.zero_add,
    Nat.zero_mod, Nat.add_zero, Nat.add_zero, Nat.mod_eq_of_lt hpage, Nat.zero_mul,
    Nat.zero_add]

/-- The entries of columns 8 and 32 of each layout. -/
def marks : GS_PSM → Int × Int
  | PSMCT32 | PSMCT24 | PSMT8H | PSMT4HL | PSMT4HH => (128, 2048)
  | PSMCT16 | PSGPU24 => (1, 1024)
  | PSMCT16S => (1, 2048)
  | PSMT8 | PSMT4 => (2, 1024)
  | PSMZ32 | PSMZ24 => (128, -2048)
  | PSMZ16 => (1, -1024)
  | PSMZ16S => (1, -2048)

theorem marks_eq : (p.colEntry 8, p.colEntry 32) = p.marks := by
  rw [colEntry_eq p 8 (by decide), colEntry_eq p 32 (by decide)]
  cases p <;> decide +kernel

theorem layout_eq_of_marks : ∀ psm psm' : Fin 64, psmHash psm = psmHash psm' →
    (ofCode psm).marks = (ofCode psm').marks → (ofCode psm).layout = (ofCode psm').layout := by
  decide +kernel

end GS_PSM

namespace PixelRequest

variable {r r' : PixelRequest} {step columns : Nat} (h : columns * step ≤ 2048)

theorem col_eq (r : PixelRequest) (x : Fin 4096) : r.col x =
    ((GS_PSM.ofCode r.FRAME.PSM).colEntry x, (GS_PSM.ofCode r.ZBUF.PSM).colEntry x) := rfl

theorem tables_col (x : Fin 4096) {i : Fin columns} (hi : i * step = x) :
    (r.tables step columns h).col.get i = r.col x := by
  rw [tables, get_ofFn]
  exact congrArg r.col (Fin.ext hi)

theorem layouts_of_entries {i j : Fin columns} (hi : i * step = 8) (hj : j * step = 32)
    (hf : psmHash r.FRAME.PSM = psmHash r'.FRAME.PSM)
    (hz : psmHash r.ZBUF.PSM = psmHash r'.ZBUF.PSM)
    (heq : (r.tables step columns h).entries = (r'.tables step columns h).entries) :
    (GS_PSM.ofCode r.FRAME.PSM).layout = (GS_PSM.ofCode r'.FRAME.PSM).layout ∧
      (GS_PSM.ofCode r.ZBUF.PSM).layout = (GS_PSM.ofCode r'.ZBUF.PSM).layout := by
  have hcol : (r.tables step columns h).col = (r'.tables step columns h).col :=
    congrArg Prod.snd heq
  have h8 : r.col 8 = r'.col 8 := by
    rw [← tables_col h 8 hi, hcol, tables_col h 8 hi]
  have h32 : r.col 32 = r'.col 32 := by
    rw [← tables_col h 32 hj, hcol, tables_col h 32 hj]
  rw [col_eq, col_eq, Prod.mk.injEq] at h8 h32
  constructor
  · apply GS_PSM.layout_eq_of_marks _ _ hf
    rw [← GS_PSM.marks_eq, ← GS_PSM.marks_eq, h8.1, h32.1]
  · apply GS_PSM.layout_eq_of_marks _ _ hz
    rw [← GS_PSM.marks_eq, ← GS_PSM.marks_eq, h8.2, h32.2]

theorem entries_of_layouts (hfbp : r.FRAME.FBP = r'.FRAME.FBP) (hfbw : r.FRAME.FBW = r'.FRAME.FBW)
    (hzbp : r.ZBUF.ZBP = r'.ZBUF.ZBP)
    (hf : (GS_PSM.ofCode r.FRAME.PSM).layout = (GS_PSM.ofCode r'.FRAME.PSM).layout)
    (hz : (GS_PSM.ofCode r.ZBUF.PSM).layout = (GS_PSM.ofCode r'.ZBUF.PSM).layout) :
    (r.tables step columns h).entries = (r'.tables step columns h).entries := by
  obtain ⟨hfpa, hfs, hfcol⟩ := GS_PSM.entry_of_layout hf
  obtain ⟨hzpa, hzs, hzcol⟩ := GS_PSM.entry_of_layout hz
  have hrow : r.row = r'.row := by
    funext i
    simp only [row, m_psm, GIFRegFRAME.block, GIFRegZBUF.block, hfpa, hfs, hzpa, hzs, hfbp, hfbw,
      hzbp]
  have hcol : r.col = r'.col := by
    funext i
    simp only [col, m_psm, hfs, hfcol, hzs, hzcol]
  rw [GSPixelOffset.entries, GSPixelOffset.entries, tables, tables, hrow, hcol]

end PixelRequest

theorem sameLayouts_iff (step columns : Nat) (h : columns * step ≤ 2048) (i j : Fin columns)
    (hi : i * step = 8) (hj : j * step = 32) (rs : List PixelRequest) :
    (∀ r ∈ rs, ∀ r' ∈ rs, r.hash = r'.hash →
      (r.tables step columns h).entries = (r'.tables step columns h).entries) ↔
    SameLayouts rs := by
  constructor
  · intro heq r hr r' hr' hfbp hfbw hzbp hf hz
    have hkey := (PixelRequest.hash_eq_iff r r').2 ⟨hfbp, hzbp, hfbw, hf, hz⟩
    exact PixelRequest.layouts_of_entries h hi hj hf hz (heq r hr r' hr' hkey)
  · intro hsame r hr r' hr' hkey
    obtain ⟨hfbp, hzbp, hfbw, hf, hz⟩ := (PixelRequest.hash_eq_iff r r').1 hkey
    obtain ⟨hframe, hzbuf⟩ := hsame r hr r' hr' hfbp hfbw hzbp hf hz
    exact PixelRequest.entries_of_layouts h hfbp hfbw hzbp hframe hzbuf

theorem offset_right (calls before : List OffsetCall) (r : OffsetRequest)
    (after : List OffsetCall) (h : calls = before ++ .getOffset r :: after) :
    (OffsetCaches.run calls).m_omap.heap[((OffsetCaches.run before).getOffset r).2]? =
      some r.offset := by
  have hanswers := (Cache.answers_iff OffsetRequest.hash OffsetRequest.offset id
    (calls.filterMap OffsetCall.offset?)).2 fun _ _ _ _ hkey => by
      rw [OffsetRequest.hash_inj hkey]
  rw [run_eq, run_eq]
  have hsplit := (forall_split_iff OffsetCall.offset?_iff _ calls).2 hanswers before r after h
  rwa [Option.map_id] at hsplit

theorem pixelOffset_right_iff (calls : List OffsetCall) :
    (∀ before r after, calls = before ++ .getPixelOffset r :: after →
      (OffsetCaches.run calls).m_pomap.heap[((OffsetCaches.run before).getPixelOffset r).2]?.map
        GSPixelOffset.entries = some r.offset.entries) ↔
    SameLayouts (calls.filterMap OffsetCall.pixelOffset?) := by
  have hlayouts := sameLayouts_iff 1 2048 (by decide) 8 32 rfl rfl
    (calls.filterMap OffsetCall.pixelOffset?)
  rw [← hlayouts]
  refine Iff.trans ?_ (Cache.answers_iff PixelRequest.hash PixelRequest.offset
    GSPixelOffset.entries (calls.filterMap OffsetCall.pixelOffset?))
  refine Iff.trans ?_ (forall_split_iff OffsetCall.pixelOffset?_iff _ calls)
  simp only [run_eq, OffsetCaches.getPixelOffset]

theorem pixelOffset4_right_iff (calls : List OffsetCall) :
    (∀ before r after, calls = before ++ .getPixelOffset4 r :: after →
      (OffsetCaches.run calls).m_po4map.heap[((OffsetCaches.run before).getPixelOffset4 r).2]?.map
        GSPixelOffset.entries = some r.offset4.entries) ↔
    SameLayouts (calls.filterMap OffsetCall.pixelOffset4?) := by
  have hlayouts := sameLayouts_iff 4 512 (by decide) 2 8 rfl rfl
    (calls.filterMap OffsetCall.pixelOffset4?)
  rw [← hlayouts]
  refine Iff.trans ?_ (Cache.answers_iff PixelRequest.hash PixelRequest.offset4
    GSPixelOffset.entries (calls.filterMap OffsetCall.pixelOffset4?))
  refine Iff.trans ?_ (forall_split_iff OffsetCall.pixelOffset4?_iff _ calls)
  simp only [run_eq, OffsetCaches.getPixelOffset4]

/-- Every call of a history gets its own tables exactly if the formats of the requests for two
buffers can be told apart by their identifiers. -/
theorem right_iff (calls : List OffsetCall) : Right calls ↔
    SameLayouts (calls.filterMap OffsetCall.pixelOffset?) ∧
      SameLayouts (calls.filterMap OffsetCall.pixelOffset4?) := by
  rw [← pixelOffset_right_iff, ← pixelOffset4_right_iff]
  exact ⟨fun h => ⟨h.pixelOffset, h.pixelOffset4⟩, fun h => ⟨offset_right calls, h.1, h.2⟩⟩

/-- `PSMZ32` and `PSMT4HL` have the same identifier. -/
theorem not_right :
    ¬ Right [.getPixelOffset ⟨⟨0, 1, 0x30⟩, ⟨0, 0x30⟩⟩,
      .getPixelOffset ⟨⟨0, 1, 0x24⟩, ⟨0, 0x30⟩⟩] := by
  intro h
  exact absurd ((pixelOffset_right_iff _).1 h.pixelOffset) (by decide)

end OmegaRed.GSdx
