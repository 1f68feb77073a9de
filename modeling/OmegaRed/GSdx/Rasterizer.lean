import OmegaRed.Lib.Grid
import Mathlib.Algebra.BigOperators.Group.List.Basic
import Mathlib.Data.List.Count
import Mathlib.Data.List.Nodup
import Mathlib.Data.Nat.Find
import Mathlib.Data.Nat.ModEq
import Mathlib.Order.Bounds.Basic

/-! The scanlines of the software rasterizers. -/

namespace OmegaRed.GSdx

open Lib.Grid

/-- The height of a band, from `extrathreads_height`. -/
def compute_best_thread_height (th : Int) : Nat := if 0 < th ∧ th < 9 then th.toNat else 4

def lineRows (m_thread_height : Nat) : Nat := (2048 >>> m_thread_height) + 16

/-- What `while(row < rows)` stores; it turns at most `rows` times. -/
def stores (value : Nat → Nat) (threads rows : Nat) : Nat → Nat → List (Nat × Nat)
  | 0, _ => []
  | fuel + 1, row =>
    if row < rows then
      (List.range threads).map (fun i => (row + i, value i)) ++
        stores value threads rows fuel (row + threads)
    else []

/-- The memory of a table after its stores. -/
def build (value : Nat → Nat) (threads rows : Nat) (memory : Nat → Nat) : Nat → Nat :=
  (stores value threads rows rows 0).foldl (fun m w => Function.update m w.1 w.2) memory

section

variable {value m memory : Nat → Nat} {n k row x : Nat}

theorem foldl_band (value m : Nat → Nat) (row n x : Nat) :
    (((List.range n).map fun i => (row + i, value i)).foldl
      (fun m w => Function.update m w.1 w.2) m) x =
      if row ≤ x ∧ x < row + n then value (x - row) else m x := by
  induction n with
  | zero => simp
  | succ n ih =>
    rw [List.range_succ, List.map_append, List.foldl_append, List.map_singleton, List.foldl_cons,
      List.foldl_nil]
    by_cases hx : x = row + n
    · rw [hx, Function.update_self, if_pos (by omega), Nat.add_sub_cancel_left]
    · rw [Function.update_of_ne hx, ih]
      by_cases hin : row ≤ x ∧ x < row + n
      · rw [if_pos hin, if_pos (by omega)]
      · rw [if_neg hin, if_neg (by omega)]

theorem foldl_stores {rows fuel : Nat} (hn : 0 < n) (hrow : n ∣ row) (hfuel : rows ≤ row + fuel)
    (hx : x < rows) (m : Nat → Nat) :
    (stores value n rows fuel row).foldl (fun m w => Function.update m w.1 w.2) m x =
      if row ≤ x then value (x % n) else m x := by
  induction fuel generalizing row m with
  | zero => rw [stores, List.foldl_nil, if_neg (by omega)]
  | succ fuel ih =>
    by_cases hlt : row < rows
    · rw [stores, if_pos hlt, List.foldl_append,
        ih (Nat.dvd_add hrow (Nat.dvd_refl n)) (by omega), foldl_band]
      by_cases hnext : row + n ≤ x
      · rw [if_pos hnext, if_pos (by omega)]
      · rw [if_neg hnext]
        by_cases hin : row ≤ x
        · obtain ⟨k, rfl⟩ := hrow
          have hmod : x % n = x - n * k := by
            conv_lhs => rw [← Nat.add_sub_cancel' hin]
            rw [Nat.mul_add_mod, Nat.mod_eq_of_lt (by omega)]
          rw [if_pos (by omega), if_pos hin, hmod]
        · rw [if_neg (by omega), if_neg hin]
    · rw [stores, if_neg hlt, List.foldl_nil, if_neg (by omega)]

theorem build_apply {rows : Nat} (hn : 0 < n) (hx : x < rows) :
    build value n rows memory x = value (x % n) := by
  rw [build, foldl_stores hn (Nat.dvd_zero n) (by omega) hx, if_pos (Nat.zero_le x)]

theorem mem_stores {rows fuel : Nat} {w : Nat × Nat} (hrow : n ∣ row) (hrows : n ∣ rows)
    (hw : w ∈ stores value n rows fuel row) : w.1 < rows := by
  induction fuel generalizing row with
  | zero => simp [stores] at hw
  | succ fuel ih =>
    by_cases hlt : row < rows
    · rw [stores, if_pos hlt, List.mem_append] at hw
      rcases hw with hw | hw
      · obtain ⟨i, hi, rfl⟩ := List.mem_map.1 hw
        have hle : n ≤ rows - row := Nat.le_of_dvd (by omega) (Nat.dvd_sub hrows hrow)
        have hlt := List.mem_range.1 hi
        change row + i < rows
        omega
      · exact ih (Nat.dvd_add hrow (Nat.dvd_refl n)) hw
    · rw [stores, if_neg hlt] at hw
      cases hw

theorem exists_mem_stores {rows fuel : Nat} (hn : 0 < n) (hrow : row < rows)
    (hdvd : ¬ n ∣ rows - row) (hfuel : rows ≤ row + fuel) :
    ∃ w ∈ stores value n rows fuel row, rows ≤ w.1 := by
  induction fuel generalizing row with
  | zero => omega
  | succ fuel ih =>
    rw [stores, if_pos hrow]
    by_cases hnext : row + n < rows
    · have hdvd' : ¬ n ∣ rows - (row + n) := by
        intro h
        apply hdvd
        have hsum := Nat.dvd_add h (Nat.dvd_refl n)
        rwa [show rows - (row + n) + n = rows - row by omega] at hsum
      obtain ⟨w, hw, hle⟩ := ih hnext hdvd' (by omega)
      exact ⟨w, List.mem_append_right _ hw, hle⟩
    · have hne : row + n ≠ rows := by
        rintro rfl
        rw [Nat.add_sub_cancel_left] at hdvd
        exact hdvd (Nat.dvd_refl n)
      refine ⟨(row + (n - 1), value (n - 1)), List.mem_append_left _ (List.mem_map.2 ?_), ?_⟩
      · exact ⟨n - 1, List.mem_range.2 (by omega), rfl⟩
      · change rows ≤ row + (n - 1)
        omega

end

/-- `none` reads outside the table. -/
def load (m_thread_height : Nat) (m_scanline : Nat → Nat) (i : Nat) : Option Nat :=
  if i < lineRows m_thread_height then some (m_scanline i) else none

structure GSRasterizer where
  m_id : Nat
  m_threads : Nat
  m_thread_height : Nat
  m_scanline : Nat → Nat

namespace GSRasterizer

/-- `m_scanline[row] = i == id ? 1 : 0` -/
def flag (id i : Nat) : Nat := if i = id then 1 else 0

def new (config : Int) (id threads : Nat) (memory : Nat → Nat) : GSRasterizer :=
  let th := compute_best_thread_height config
  ⟨id, threads, th, build (flag id) threads (lineRows th) memory⟩

variable (r : GSRasterizer)

def load (i : Nat) : Option Nat := GSdx.load r.m_thread_height r.m_scanline i

def IsOneOfMyScanlines (top : Nat) : Option Bool :=
  (r.load (top >>> r.m_thread_height)).map (· != 0)

/-- `while(m_scanline[++i] == 0)` -/
def search : Nat → Nat → Option Nat
  | 0, _ => none
  | fuel + 1, i => do
    let v ← r.load (i + 1)
    if v = 0 then search fuel (i + 1) else some (i + 1)

def FindMyNextScanline (top : Nat) : Option Nat := do
  let i := top >>> r.m_thread_height
  let v ← r.load i
  if v = 0 then
    let i ← r.search (lineRows r.m_thread_height) i
    some (i <<< r.m_thread_height)
  else some top

/-- The rows of `DrawTriangleSection` after the first. -/
def sectionRows (bottom : Nat) : Nat → Nat → Option (List Nat)
  | 0, _ => none
  | fuel + 1, top =>
    if top < bottom then do
      let mine ← r.IsOneOfMyScanlines (top + 1)
      let next := if mine then top + 1 else top + 1 + ((r.m_threads - 1) <<< r.m_thread_height)
      let rest ← sectionRows bottom fuel next
      some (top :: rest)
    else some []

def DrawTriangleSection (top bottom : Nat) : Option (List Nat) := do
  let top ← r.FindMyNextScanline top
  r.sectionRows bottom (bottom + 1) top

/-- The bottom of the band, `(top + (1 << th)) & ~((1 << th) - 1)`. -/
def bandEnd (top : Nat) : Nat :=
  let x := top + 1 <<< r.m_thread_height
  x - (x &&& (1 <<< r.m_thread_height - 1))

/-- The rows of the rectangles of a solid sprite. -/
def solidRows (bottom : Nat) : Nat → Nat → Option (List Nat)
  | 0, _ => none
  | fuel + 1, top =>
    if top < bottom then do
      let end_ := min (r.bandEnd top) bottom
      let rest ← solidRows bottom fuel (end_ + ((r.m_threads - 1) <<< r.m_thread_height))
      some (List.range' top (end_ - top) ++ rest)
    else some []

def DrawSolidRect (top bottom : Nat) : Option (List Nat) :=
  if r.m_threads = 1 then some (List.range' top (bottom - top))
  else do
    let top ← r.FindMyNextScanline top
    r.solidRows bottom (bottom + 1) top

/-- Points, lines, edges and sprites test each of their rows. -/
def testedRows : List Nat → Option (List Nat)
  | [] => some []
  | top :: tops => do
    let mine ← r.IsOneOfMyScanlines top
    let rest ← testedRows tops
    some (if mine then top :: rest else rest)

end GSRasterizer

/-- The ways to go through the rows of a primitive. -/
inductive RowLoop
  | triangle
  | solidRect
  | tested

def GSRasterizer.draw (r : GSRasterizer) (top bottom : Nat) : RowLoop → Option (List Nat)
  | .triangle => r.DrawTriangleSection top bottom
  | .solidRect => r.DrawSolidRect top bottom
  | .tested => r.testedRows (List.range' top (bottom - top))

namespace GSRasterizerList

/-- `m_scanline[row] = (uint8)i` -/
def worker (i : Nat) : Nat := i % 256

/-- The workers that `Queue` gives data with these rows. -/
def Queue (config : Int) (threads : Nat) (memory : Nat → Nat) (top bottom : Nat) :
    Option (List Nat) :=
  let th := compute_best_thread_height config
  let m_scanline := build worker threads (lineRows th) memory
  let first := top >>> th
  let last := min ((bottom + 1 <<< th - 1) >>> th) (first + threads)
  (List.range' first (last - first)).mapM (load th m_scanline)

/-- The rows that the workers draw of a primitive of the data. -/
def drawn (config : Int) (threads : Nat) (memory : Nat → Nat → Nat) (bbox prim : Nat × Nat)
    (loop : RowLoop) : Option (List Nat) := do
  let workers ← Queue config threads (memory threads) bbox.1 bbox.2
  let lists ← workers.mapM fun id =>
    (GSRasterizer.new config id threads (memory id)).draw prim.1 prim.2 loop
  some lists.flatten

end GSRasterizerList

/-- The rasterizers share the scanlines out. -/
structure Partitions (config : Int) (threads : Nat) : Prop where
  writes : ∀ id < threads,
    ∀ w ∈ stores (GSRasterizer.flag id) threads (lineRows (compute_best_thread_height config))
      (lineRows (compute_best_thread_height config)) 0,
        w.1 < lineRows (compute_best_thread_height config)
  owner : ∀ memory : Nat → Nat → Nat, ∀ y < 2048, ∃! id, id < threads ∧
    (GSRasterizer.new config id threads (memory id)).IsOneOfMyScanlines y = some true
  next : ∀ memory, ∀ id < threads, ∀ y < 2048,
    ∃ t, (GSRasterizer.new config id threads memory).FindMyNextScanline y = some t ∧
      IsLeast {t | y ≤ t ∧
        (GSRasterizer.new config id threads memory).IsOneOfMyScanlines t = some true} t
  drawn : ∀ memory loop, ∀ bbox prim : Nat × Nat, bbox.1 ≤ prim.1 → prim.1 < prim.2 →
    prim.2 ≤ bbox.2 → bbox.2 ≤ 2048 →
    ∃ l, GSRasterizerList.drawn config threads memory bbox prim loop = some l ∧
      ∀ y, l.count y = if prim.1 ≤ y ∧ y < prim.2 then 1 else 0

theorem Partitions.dvd {config : Int} {n : Nat} (hn : 1 ≤ n) (h : Partitions config n) :
    n ∣ lineRows (compute_best_thread_height config) := by
  by_contra hdvd
  have hpos : 0 < lineRows (compute_best_thread_height config) := Nat.succ_pos _
  obtain ⟨w, hw, hle⟩ : ∃ w ∈ stores (GSRasterizer.flag 0) n
      (lineRows (compute_best_thread_height config))
        (lineRows (compute_best_thread_height config)) 0,
      lineRows (compute_best_thread_height config) ≤ w.1 :=
    exists_mem_stores hn hpos hdvd (Nat.le_add_left ..)
  have hlt : w.1 < lineRows (compute_best_thread_height config) := h.writes 0 hn w hw
  omega

namespace GSRasterizer

/-- The table of a rasterizer is filled. -/
structure Filled (r : GSRasterizer) : Prop where
  pos : 0 < r.m_threads
  lt : r.m_id < r.m_threads
  table : ∀ i < lineRows r.m_thread_height,
    r.m_scanline i = if i % r.m_threads = r.m_id then 1 else 0

theorem filled_new (config : Int) {id n : Nat} (hid : id < n) (memory : Nat → Nat) :
    (new config id n memory).Filled where
  pos := Nat.zero_lt_of_lt hid
  lt := hid
  table _ hi := build_apply (Nat.zero_lt_of_lt hid) hi

variable {r : GSRasterizer} {top bottom y i j : Nat}

/-- The scanlines of the rasterizer's bands. -/
def Owns (r : GSRasterizer) (y : Nat) : Prop := y / 2 ^ r.m_thread_height % r.m_threads = r.m_id

instance : Decidable (r.Owns y) := inferInstanceAs (Decidable (_ = _))

theorem load_eq_none (hi : ¬ i < lineRows r.m_thread_height) : r.load i = none := if_neg hi

theorem band_add_lt (hth : r.m_thread_height ≤ 11) (hy : y < 2048) :
    y / 2 ^ r.m_thread_height + 17 ≤ lineRows r.m_thread_height := by
  have hdvd : 2 ^ r.m_thread_height ∣ 2048 := pow_dvd_pow 2 hth
  have hlt := Nat.div_lt_div_of_lt_of_dvd hdvd hy
  rw [lineRows, Nat.shiftRight_eq_div_pow]
  omega

theorem succ_band_lt (hth : r.m_thread_height ≤ 11) (hy : y < 2048) :
    (y + 1) / 2 ^ r.m_thread_height < lineRows r.m_thread_height := by
  have hle := band_add_lt hth hy
  rw [Nat.succ_div]
  split <;> omega

theorem mod_ne {n q k : Nat} (hlt : q < k) (hk : k < q + n) : k % n ≠ q % n := by
  intro heq
  have hdvd : n ∣ k - q := (Nat.modEq_iff_dvd' hlt.le).1 heq.symm
  have hle := Nat.le_of_dvd (by omega) hdvd
  omega

theorem owns_succ (hy : r.Owns y) (hnext : ¬ r.Owns (y + 1)) : 2 ^ r.m_thread_height ∣ y + 1 := by
  by_contra hband
  apply hnext
  rw [Owns, Nat.succ_div_of_not_dvd hband]
  exact hy

theorem bandEnd_eq : r.bandEnd top = (top / 2 ^ r.m_thread_height + 1) * 2 ^ r.m_thread_height := by
  have hH : 0 < 2 ^ r.m_thread_height := Nat.two_pow_pos _
  have hdiv := Nat.div_add_mod (top + 2 ^ r.m_thread_height) (2 ^ r.m_thread_height)
  rw [Nat.add_div_right _ hH, Nat.mul_comm] at hdiv
  unfold bandEnd
  simp only [Nat.one_shiftLeft, Nat.and_two_pow_sub_one_eq_mod]
  omega

theorem solidRows_of_le (hle : bottom ≤ top) {fuel : Nat} (hfuel : 0 < fuel) :
    r.solidRows bottom fuel top = some [] := by
  obtain ⟨fuel, rfl⟩ := Nat.exists_eq_add_of_le' hfuel
  rw [solidRows, if_neg (Nat.not_lt.2 hle)]

/-- The rows of the rasterizer from `top` on. -/
def own (r : GSRasterizer) (top bottom : Nat) : List Nat :=
  (List.range' top (bottom - top)).filter fun y => decide (r.Owns y)

theorem own_of_le (hle : bottom ≤ top) : r.own top bottom = [] := by
  rw [own, Nat.sub_eq_zero_of_le hle, List.range'_zero, List.filter_nil]

theorem own_skip {next : Nat} (hle : top ≤ next) (hnot : ∀ z, top ≤ z → z < next → ¬ r.Owns z) :
    r.own top bottom = r.own next bottom := by
  by_cases hnext : next ≤ bottom
  · rw [own, range'_split hle hnext, List.filter_append, own]
    convert List.nil_append _
    rw [List.filter_eq_nil_iff]
    intro z hz
    rw [List.mem_range'_1] at hz
    simpa using hnot z hz.1 (by omega)
  · rw [own_of_le (show bottom ≤ next by omega), own, List.filter_eq_nil_iff]
    intro z hz
    rw [List.mem_range'_1] at hz
    simpa using hnot z hz.1 (by omega)

theorem own_take {next : Nat} (hle : top ≤ next) (hnext : next ≤ bottom)
    (hown : ∀ z, top ≤ z → z < next → r.Owns z) :
    r.own top bottom = List.range' top (next - top) ++ r.own next bottom := by
  rw [own, range'_split hle hnext, List.filter_append, own]
  congr 1
  rw [List.filter_eq_self]
  intro z hz
  rw [List.mem_range'_1] at hz
  simpa using hown z hz.1 (by omega)

namespace Filled

theorem load_eq (h : r.Filled) (hi : i < lineRows r.m_thread_height) :
    r.load i = some (if i % r.m_threads = r.m_id then 1 else 0) := by
  rw [load, GSdx.load, if_pos hi, h.table i hi]

theorem isOne_eq (h : r.Filled) (hy : y / 2 ^ r.m_thread_height < lineRows r.m_thread_height) :
    r.IsOneOfMyScanlines y = some (decide (r.Owns y)) := by
  rw [IsOneOfMyScanlines, Nat.shiftRight_eq_div_pow, h.load_eq hy]
  unfold Owns
  by_cases hmod : y / 2 ^ r.m_thread_height % r.m_threads = r.m_id
  · simp [hmod]
  · simp [hmod]

theorem isOne_iff (h : r.Filled) : r.IsOneOfMyScanlines y = some true ↔
    y / 2 ^ r.m_thread_height < lineRows r.m_thread_height ∧ r.Owns y := by
  by_cases hy : y / 2 ^ r.m_thread_height < lineRows r.m_thread_height
  · rw [h.isOne_eq hy]
    simp [hy]
  · rw [IsOneOfMyScanlines, Nat.shiftRight_eq_div_pow, load_eq_none hy]
    simp [hy]

theorem search_eq (h : r.Filled) {fuel : Nat} (hij : i < j) (hj : j < lineRows r.m_thread_height)
    (hmod : j % r.m_threads = r.m_id) (hbetween : ∀ k, i < k → k < j → k % r.m_threads ≠ r.m_id)
    (hfuel : j ≤ i + fuel) : r.search fuel i = some j := by
  induction fuel generalizing i with
  | zero => omega
  | succ fuel ih =>
    rw [search, h.load_eq (by omega), Option.bind_eq_bind, Option.bind_some]
    by_cases hnext : i + 1 = j
    · rw [hnext, if_pos hmod, if_neg (by decide)]
    · rw [if_neg (hbetween (i + 1) (by omega) (by omega)), if_pos rfl]
      exact ih (by omega) (fun k hk => hbetween k (by omega)) (by omega)

theorem search_eq_none (h : r.Filled) {fuel : Nat}
    (hnone : ∀ k, i < k → k < lineRows r.m_thread_height → k % r.m_threads ≠ r.m_id) :
    r.search fuel i = none := by
  induction fuel generalizing i with
  | zero => rfl
  | succ fuel ih =>
    rw [search, Option.bind_eq_bind]
    by_cases hi : i + 1 < lineRows r.m_thread_height
    · rw [h.load_eq hi, Option.bind_some, if_neg (hnone (i + 1) (by omega) hi), if_pos rfl]
      exact ih fun k hk => hnone k (by omega)
    · rw [load_eq_none hi, Option.bind_none]

theorem exists_band (h : r.Filled) (hi : i % r.m_threads ≠ r.m_id) :
    ∃ j, i < j ∧ j < i + r.m_threads ∧ j % r.m_threads = r.m_id := by
  have hpos := h.pos
  have hlt := h.lt
  have hmod := Nat.mod_lt i hpos
  have hdiv := Nat.div_add_mod i r.m_threads
  by_cases hle : i % r.m_threads < r.m_id
  · refine ⟨r.m_threads * (i / r.m_threads) + r.m_id, by omega, by omega, ?_⟩
    rw [Nat.mul_add_mod, Nat.mod_eq_of_lt hlt]
  · refine ⟨r.m_threads * (i / r.m_threads + 1) + r.m_id, ?_, ?_, ?_⟩
    · rw [Nat.mul_add, Nat.mul_one]
      omega
    · rw [Nat.mul_add, Nat.mul_one]
      omega
    · rw [Nat.mul_add_mod, Nat.mod_eq_of_lt hlt]

theorem find_eq (h : r.Filled) (hth : r.m_thread_height ≤ 11) (hn : r.m_threads ≤ 17)
    (hy : y < 2048) : ∃ t, r.FindMyNextScanline y = some t ∧ y ≤ t ∧ r.Owns t ∧
      t / 2 ^ r.m_thread_height < lineRows r.m_thread_height ∧ ∀ z, y ≤ z → z < t → ¬ r.Owns z := by
  have hband := band_add_lt hth hy
  have hH : 0 < 2 ^ r.m_thread_height := Nat.two_pow_pos _
  rw [FindMyNextScanline, Nat.shiftRight_eq_div_pow, h.load_eq (by omega), Option.bind_eq_bind,
    Option.bind_some]
  by_cases hown : y / 2 ^ r.m_thread_height % r.m_threads = r.m_id
  · rw [if_pos hown, if_neg (by decide)]
    exact ⟨y, rfl, Nat.le_refl y, hown, by omega, fun z hle hlt => absurd hlt (by omega)⟩
  rw [if_neg hown, if_pos rfl]
  have hex := h.exists_band hown
  have hfind := Nat.find_spec hex
  have hmin (k : Nat) (hik : y / 2 ^ r.m_thread_height < k) (hkj : k < Nat.find hex) :
      k % r.m_threads ≠ r.m_id := by
    intro hk
    exact Nat.find_min hex hkj ⟨hik, hkj.trans hfind.2.1, hk⟩
  generalize Nat.find hex = j at hfind hmin
  obtain ⟨hij, hjn, hj⟩ := hfind
  have hlt : j < lineRows r.m_thread_height := by omega
  rw [h.search_eq hij hlt hj hmin (hlt.le.trans (Nat.le_add_left ..)), Option.bind_some,
    Nat.shiftLeft_eq]
  have hdiv : j * 2 ^ r.m_thread_height / 2 ^ r.m_thread_height = j := Nat.mul_div_cancel j hH
  refine ⟨_, rfl, ?_, ?_, ?_, ?_⟩
  · exact ((Nat.div_lt_iff_lt_mul hH).1 hij).le
  · rw [Owns, hdiv]
    exact hj
  · rwa [hdiv]
  · intro z hyz hzj hz
    have hle : y / 2 ^ r.m_thread_height ≤ z / 2 ^ r.m_thread_height := Nat.div_le_div_right hyz
    have hlt : z / 2 ^ r.m_thread_height < j := (Nat.div_lt_iff_lt_mul hH).2 hzj
    rcases Nat.eq_or_lt_of_le hle with heq | hgt
    · exact hown (heq ▸ hz)
    · exact hmin _ hgt hlt hz

theorem find_eq_none (h : r.Filled) (hth : r.m_thread_height ≤ 11) (hid : r.m_id = 0)
    (hdvd : r.m_threads ∣ lineRows r.m_thread_height) (hn : 17 < r.m_threads) :
    r.FindMyNextScanline 2047 = none := by
  have hband := band_add_lt hth (show 2047 < 2048 by decide)
  have hlast : lineRows r.m_thread_height ≤ 2047 / 2 ^ r.m_thread_height + 17 := by
    have hsucc : 2048 / 2 ^ r.m_thread_height = _ := Nat.succ_div
    rw [lineRows, Nat.shiftRight_eq_div_pow, hsucc]
    split <;> omega
  have hnone (k : Nat) (hk : 2047 / 2 ^ r.m_thread_height ≤ k)
      (hlt : k < lineRows r.m_thread_height) : k % r.m_threads ≠ r.m_id := by
    rw [hid]
    intro hmod
    have hle := Nat.le_of_dvd (by omega) (Nat.dvd_sub hdvd (Nat.dvd_of_mod_eq_zero hmod))
    omega
  have hlt : 2047 / 2 ^ r.m_thread_height < lineRows r.m_thread_height := by omega
  rw [FindMyNextScanline, Nat.shiftRight_eq_div_pow, h.load_eq hlt, Option.bind_eq_bind,
    Option.bind_some, if_neg (hnone _ (Nat.le_refl _) hlt), if_pos rfl,
    h.search_eq_none fun k hk => hnone k hk.le]
  rfl

theorem gap (h : r.Filled) (hy : r.Owns y) (hband : 2 ^ r.m_thread_height ∣ y + 1) :
    r.Owns (y + 1 + (r.m_threads - 1) * 2 ^ r.m_thread_height) ∧
      ∀ z, y + 1 ≤ z → z < y + 1 + (r.m_threads - 1) * 2 ^ r.m_thread_height → ¬ r.Owns z := by
  have hH : 0 < 2 ^ r.m_thread_height := Nat.two_pow_pos _
  have hpos := h.pos
  unfold Owns at *
  generalize 2 ^ r.m_thread_height = H at *
  have hsucc : y + 1 = (y / H + 1) * H := by
    have hdiv := Nat.succ_div_of_dvd hband
    rw [← hdiv, Nat.div_mul_cancel hband]
  have hend : y + 1 + (r.m_threads - 1) * H = (y / H + r.m_threads) * H := by
    conv_lhs => rw [hsucc]
    rw [← Nat.add_mul]
    congr 1
    omega
  rw [hend, Nat.mul_div_cancel _ hH, Nat.add_mod_right]
  refine ⟨hy, fun z hle hlt => ?_⟩
  rw [← hy]
  refine mod_ne ?_ ?_
  · rw [hsucc] at hle
    exact (Nat.le_div_iff_mul_le hH).2 hle
  · exact (Nat.div_lt_iff_lt_mul hH).2 hlt

theorem sectionRows_eq (h : r.Filled) (hth : r.m_thread_height ≤ 11) (hbottom : bottom ≤ 2048)
    {fuel : Nat} (htop : r.Owns top) (hfuel : bottom - top < fuel) :
    r.sectionRows bottom fuel top = some (r.own top bottom) := by
  induction fuel generalizing top with
  | zero => exact absurd hfuel (Nat.not_lt_zero _)
  | succ fuel ih =>
    rw [sectionRows]
    by_cases hlt : top < bottom
    · have hone : r.own top bottom = top :: r.own (top + 1) bottom := by
        rw [own_take (Nat.le_succ top) hlt fun z hle hz => ?_]
        · simp
        · obtain rfl : z = top := by omega
          exact htop
      rw [if_pos hlt, h.isOne_eq (succ_band_lt hth (by omega)), Option.bind_eq_bind,
        Option.bind_some, hone]
      by_cases hnext : r.Owns (top + 1)
      · simp only [hnext, decide_true, if_true]
        rw [ih hnext (by omega), Option.bind_eq_bind, Option.bind_some]
      · have hgap := h.gap htop (owns_succ htop hnext)
        simp only [hnext, decide_false, Bool.false_eq_true, if_false, Nat.shiftLeft_eq]
        rw [ih hgap.1 (by omega), Option.bind_eq_bind, Option.bind_some,
          own_skip (Nat.le_add_right ..) hgap.2]
    · rw [if_neg hlt, own_of_le (by omega)]

theorem solidRows_eq (h : r.Filled) {fuel : Nat} (htop : r.Owns top)
    (hfuel : bottom - top < fuel) : r.solidRows bottom fuel top = some (r.own top bottom) := by
  induction fuel generalizing top with
  | zero => exact absurd hfuel (Nat.not_lt_zero _)
  | succ fuel ih =>
    rw [solidRows]
    by_cases hlt : top < bottom
    · have hH : 0 < 2 ^ r.m_thread_height := Nat.two_pow_pos _
      have hend : top < r.bandEnd top := by
        rw [bandEnd_eq]
        exact (Nat.div_lt_iff_lt_mul hH).1 (Nat.lt_succ_self _)
      have hband (z : Nat) (hle : top ≤ z) (hz : z < r.bandEnd top) : r.Owns z := by
        rw [bandEnd_eq] at hz
        have hdiv : z / 2 ^ r.m_thread_height = top / 2 ^ r.m_thread_height :=
          Nat.le_antisymm (Nat.lt_succ_iff.1 ((Nat.div_lt_iff_lt_mul hH).2 hz))
            (Nat.div_le_div_right hle)
        rw [Owns, hdiv]
        exact htop
      rw [if_pos hlt]
      simp only [Nat.shiftLeft_eq]
      by_cases hle : r.bandEnd top ≤ bottom
      · have hlast : r.bandEnd top - 1 + 1 = r.bandEnd top := Nat.sub_add_cancel (by omega)
        have hgap := h.gap (hband (r.bandEnd top - 1) (by omega) (by omega))
          (by rw [hlast, bandEnd_eq]; exact Nat.dvd_mul_left ..)
        rw [hlast] at hgap
        rw [Nat.min_eq_left hle, ih hgap.1 (by omega), Option.bind_eq_bind, Option.bind_some,
          own_take hend.le hle hband, own_skip (Nat.le_add_right ..) hgap.2]
      · have hown (z : Nat) (hz : top ≤ z) (hzb : z < bottom) : r.Owns z :=
          hband z hz (by omega)
        rw [Nat.min_eq_right (by omega), own_take hlt.le (Nat.le_refl _) hown,
          own_of_le (Nat.le_refl _), solidRows_of_le (Nat.le_add_right ..) (by omega)]
        rfl
    · rw [if_neg hlt, own_of_le (by omega)]

theorem testedRows_eq (h : r.Filled) {tops : List Nat}
    (htops : ∀ y ∈ tops, y / 2 ^ r.m_thread_height < lineRows r.m_thread_height) :
    r.testedRows tops = some (tops.filter fun y => decide (r.Owns y)) := by
  induction tops with
  | nil => rfl
  | cons y tops ih =>
    rw [testedRows, h.isOne_eq (htops y List.mem_cons_self),
      ih fun z hz => htops z (List.mem_cons_of_mem y hz)]
    by_cases hy : r.Owns y
    · simp [hy]
    · simp [hy]

theorem draw_eq (h : r.Filled) (hth : r.m_thread_height ≤ 11) (hn : r.m_threads ≤ 17)
    (htop : top < bottom) (hbottom : bottom ≤ 2048) (loop : RowLoop) :
    r.draw top bottom loop = some (r.own top bottom) := by
  obtain ⟨t, hfind, hle, hown, -, hleast⟩ := h.find_eq hth hn (show top < 2048 by omega)
  cases loop with
  | triangle =>
    rw [draw, DrawTriangleSection, hfind, Option.bind_eq_bind, Option.bind_some,
      h.sectionRows_eq hth hbottom hown (by omega), own_skip hle hleast]
  | solidRect =>
    rw [draw, DrawSolidRect]
    by_cases hone : r.m_threads = 1
    · have hall (z : Nat) : r.Owns z := by
        have hlt := h.lt
        rw [Owns, hone, Nat.mod_one]
        omega
      rw [if_pos hone, own_take htop.le (Nat.le_refl _) fun z _ _ => hall z,
        own_of_le (Nat.le_refl _), List.append_nil]
    · rw [if_neg hone, hfind, Option.bind_eq_bind, Option.bind_some,
        h.solidRows_eq hown (by omega), own_skip hle hleast]
  | tested =>
    refine h.testedRows_eq fun y hy => ?_
    rw [List.mem_range'_1] at hy
    have hband := band_add_lt hth (show y < 2048 by omega)
    omega

end Filled

end GSRasterizer

namespace GSRasterizerList

variable {n : Nat} {bbox : Nat × Nat}

theorem thread_height_le (config : Int) : compute_best_thread_height config ≤ 8 := by
  unfold compute_best_thread_height
  split <;> omega

theorem mapM_some {α β : Type} {f : α → Option β} {g : α → β} {l : List α}
    (h : ∀ x ∈ l, f x = some (g x)) : l.mapM f = some (l.map g) := by
  induction l with
  | nil => rfl
  | cons x l ih =>
    rw [List.mapM_cons, h x List.mem_cons_self, ih fun y hy => h y (List.mem_cons_of_mem x hy)]
    rfl

theorem queue_eq (config : Int) (memory : Nat → Nat) (hn : 1 ≤ n) (hle : n ≤ 17)
    (hbottom : bbox.2 ≤ 2048) :
    ∃ ids, Queue config n memory bbox.1 bbox.2 = some ids ∧ ids.Nodup ∧
      (∀ id ∈ ids, id < n) ∧ ∀ y, bbox.1 ≤ y → y < bbox.2 →
        y / 2 ^ compute_best_thread_height config % n ∈ ids := by
  have hth := thread_height_le config
  unfold Queue
  generalize compute_best_thread_height config = th at *
  have hH : 0 < 2 ^ th := Nat.two_pow_pos th
  have hdvd : 2 ^ th ∣ 2048 := pow_dvd_pow 2 (show th ≤ 11 by omega)
  have hrows : lineRows th = 2048 / 2 ^ th + 16 := by rw [lineRows, Nat.shiftRight_eq_div_pow]
  simp only [Nat.shiftRight_eq_div_pow, Nat.one_shiftLeft]
  have hlast : (bbox.2 + 2 ^ th - 1) / 2 ^ th ≤ 2048 / 2 ^ th := by
    obtain ⟨k, hk⟩ := hdvd
    rw [hk, Nat.mul_div_cancel_left _ hH]
    refine Nat.lt_succ_iff.1 ((Nat.div_lt_iff_lt_mul hH).2 ?_)
    rw [Nat.succ_mul, Nat.mul_comm]
    omega
  refine ⟨(List.range' (bbox.1 / 2 ^ th) (min ((bbox.2 + 2 ^ th - 1) / 2 ^ th)
    (bbox.1 / 2 ^ th + n) - bbox.1 / 2 ^ th)).map (· % n), mapM_some fun i hi => ?_, ?_, ?_, ?_⟩
  · rw [List.mem_range'_1] at hi
    rw [load, if_pos (by omega), build_apply hn (by omega), worker,
      Nat.mod_eq_of_lt ((Nat.mod_lt i hn).trans (by omega))]
  · refine (List.nodup_map_iff_inj_on List.nodup_range').2 fun i hi j hj heq => ?_
    rw [List.mem_range'_1] at hi hj
    by_contra hne
    rcases Nat.lt_or_gt_of_ne hne with hlt | hgt
    · exact GSRasterizer.mod_ne hlt (by omega) heq.symm
    · exact GSRasterizer.mod_ne hgt (by omega) heq
  · intro id hid
    obtain ⟨i, -, rfl⟩ := List.mem_map.1 hid
    exact Nat.mod_lt i hn
  · intro y hy hlt
    have hge : bbox.1 / 2 ^ th ≤ y / 2 ^ th := Nat.div_le_div_right hy
    have hyend : y / 2 ^ th < (bbox.2 + 2 ^ th - 1) / 2 ^ th := by
      refine (Nat.le_div_iff_mul_le hH).2 ?_
      rw [Nat.succ_mul]
      have hmul := Nat.div_mul_le_self y (2 ^ th)
      omega
    have hmod := Nat.mod_lt (y / 2 ^ th - bbox.1 / 2 ^ th) hn
    have hmodle := Nat.mod_le (y / 2 ^ th - bbox.1 / 2 ^ th) n
    refine List.mem_map.2 ⟨bbox.1 / 2 ^ th + (y / 2 ^ th - bbox.1 / 2 ^ th) % n, ?_, ?_⟩
    · rw [List.mem_range'_1]
      omega
    · rw [Nat.add_mod_mod, Nat.add_sub_cancel' hge]

theorem sum_map_eq_count (ids : List Nat) (o : Nat) :
    (ids.map fun id => if o = id then 1 else 0).sum = ids.count o := by
  induction ids with
  | nil => rfl
  | cons id ids ih =>
    rw [List.map_cons, List.sum_cons, ih, List.count_cons, Nat.add_comm]
    by_cases heq : o = id
    · simp [heq]
    · simp [heq, Ne.symm heq]

theorem count_own {r : GSRasterizer} {top bottom : Nat} (y : Nat) :
    (r.own top bottom).count y =
      if (top ≤ y ∧ y < bottom) ∧ r.Owns y then 1 else 0 := by
  rw [GSRasterizer.own, List.Nodup.count (List.Nodup.filter _ List.nodup_range')]
  simp only [List.mem_filter, mem_cells_iff, decide_eq_true_eq]

end GSRasterizerList

open GSRasterizerList

theorem partitions_of_dvd {config : Int} {n : Nat} (hn : 1 ≤ n) (hle : n ≤ 17)
    (hdvd : n ∣ lineRows (compute_best_thread_height config)) : Partitions config n where
  writes id _ w hw := mem_stores (Nat.dvd_zero n) hdvd hw
  owner memory y hy := by
    have hth := thread_height_le config
    have hband {id : Nat} (hid : id < n) := GSRasterizer.band_add_lt
      (r := GSRasterizer.new config id n (memory id)) (show _ ≤ 11 from hth.trans (by decide)) hy
    have hmod := Nat.mod_lt (y / 2 ^ compute_best_thread_height config) hn
    refine ⟨_, ⟨hmod, ?_⟩, ?_⟩
    · exact (GSRasterizer.filled_new config hmod _).isOne_iff.2 ⟨by have := hband hmod; omega, rfl⟩
    · rintro id ⟨hid, hown⟩
      exact ((GSRasterizer.filled_new config hid _).isOne_iff.1 hown).2.symm
  next memory id hid y hy := by
    have h := GSRasterizer.filled_new config hid memory
    have hth : (GSRasterizer.new config id n memory).m_thread_height ≤ 11 :=
      (thread_height_le config).trans (by decide)
    obtain ⟨t, hfind, hyt, hown, hlt, hleast⟩ := h.find_eq hth hle hy
    refine ⟨t, hfind, ⟨hyt, h.isOne_iff.2 ⟨hlt, hown⟩⟩, ?_⟩
    rintro z ⟨hyz, hz⟩
    by_contra hzt
    exact hleast z hyz (by omega) (h.isOne_iff.1 hz).2
  drawn memory loop bbox prim htop hprim hbottom hscreen := by
    obtain ⟨ids, hqueue, hnodup, hids, hmem⟩ := queue_eq config (memory n) hn hle hscreen
    have hth (id : Nat) : (GSRasterizer.new config id n (memory id)).m_thread_height ≤ 11 :=
      (thread_height_le config).trans (by decide)
    have hdraw := mapM_some fun id hid => (GSRasterizer.filled_new config (hids id hid)
      (memory id)).draw_eq (hth id) hle hprim (by omega) loop
    refine ⟨_, by rw [GSRasterizerList.drawn, hqueue, Option.bind_eq_bind, Option.bind_some, hdraw,
      Option.bind_eq_bind, Option.bind_some], fun y => ?_⟩
    rw [List.count_flatten, List.map_map]
    by_cases hy : prim.1 ≤ y ∧ y < prim.2
    · rw [if_pos hy, ← List.count_eq_one_of_mem hnodup (hmem y (by omega) (by omega)),
        ← sum_map_eq_count]
      refine congrArg _ (List.map_congr_left fun id _ => ?_)
      rw [Function.comp_apply, count_own]
      simp only [hy, true_and, and_self]
      rfl
    · rw [if_neg hy]
      refine List.sum_eq_zero fun k hk => ?_
      obtain ⟨id, -, rfl⟩ := List.mem_map.1 hk
      rw [Function.comp_apply, count_own, if_neg (fun h => hy h.1)]

theorem Partitions.le {config : Int} {n : Nat} (hn : 1 ≤ n) (h : Partitions config n) :
    n ≤ 17 := by
  by_contra hgt
  have hdvd := h.dvd hn
  obtain ⟨t, hfind, -⟩ := h.next (fun _ => 0) 0 hn 2047 (by decide)
  have hfilled := GSRasterizer.filled_new config hn (fun _ => 0)
  have hth := (thread_height_le config).trans (show 8 ≤ 11 by decide)
  rw [hfilled.find_eq_none hth rfl hdvd (Nat.lt_of_not_le hgt)] at hfind
  cases hfind

/-- Which numbers of threads share the scanlines out. -/
theorem partitions_iff (config : Int) (n : Nat) (hn : 1 ≤ n) : Partitions config n ↔
    n ∣ lineRows (compute_best_thread_height config) ∧ n ≤ 17 :=
  ⟨fun h => ⟨h.dvd hn, h.le hn⟩, fun h => partitions_of_dvd hn h.2 h.1⟩

theorem partitions_two : Partitions 4 2 := (partitions_iff 4 2 (by decide)).2 (by decide)

/-- Five threads: 144 bands are written as 145. -/
theorem not_partitions : ¬ Partitions 4 5 :=
  fun h => absurd (h.dvd (by decide)) (by decide)

end OmegaRed.GSdx
