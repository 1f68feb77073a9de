import OmegaRed.Lib.Memory
import Mathlib.Logic.Function.Basic
import Mathlib.Tactic.Common

/-! A memory of `n` cells addressed by positions that never wrap: position `v`
stands for cell `v % n`. -/

namespace OmegaRed.Lib.Cyclic

universe u

variable {α : Type u} {n r u v w : Nat}

/-- Positions less than a lap apart stand for different cells. -/
theorem mod_ne_mod (h : u < v) (hv : v < u + n) : u % n ≠ v % n := by
  intro heq
  have hzero := Nat.sub_mod_eq_zero_of_mod_eq heq.symm
  rw [Nat.mod_eq_of_lt (by omega)] at hzero
  omega

theorem mod_eq_mod_iff (h : u ≤ v) (hv : v < u + n) : u % n = v % n ↔ u = v := by
  constructor
  · intro heq
    by_contra hne
    exact mod_ne_mod (by omega) hv heq
  · rintro rfl
    rfl

/-- The positions from `u` up to `v` hold the same in both memories. -/
def Agree (n : Nat) (m m' : Nat → α) (u v : Nat) : Prop :=
  ∀ i, u ≤ i → i < v → m' (i % n) = m (i % n)

theorem Agree.mono {m m' : Nat → α} (h : Agree n m m' u v) (hr : u ≤ r) (hw : w ≤ v) :
    Agree n m m' r w :=
  fun i hi hiv => h i (by omega) (by omega)

theorem Agree.refl (m : Nat → α) : Agree n m m u v := fun _ _ _ => rfl

/-- A write at a position from `w` on, less than a lap after `r`, misses `r` to `w`. -/
theorem agree_update (m : Nat → α) (x : α) (hw : w ≤ v) (hr : v < r + n) :
    Agree n m (Function.update m (v % n) x) r w := by
  intro i hri hiw
  exact Function.update_of_ne (mod_ne_mod (by omega) (by omega)) _ _

theorem succ_mod {n : Nat} (hn : 0 < n) (k : Nat) :
    (k + 1) % n = if k % n + 1 = n then 0 else k % n + 1 := by
  have hk := Nat.div_add_mod k n
  have hlt := Nat.mod_lt k hn
  split
  · have hnext : k + 1 = n * (k / n + 1) := by
      rw [Nat.mul_succ]
      omega
    rw [hnext, Nat.mul_mod_right]
  · have hnext : k + 1 = n * (k / n) + (k % n + 1) := by omega
    conv_lhs => rw [hnext]
    rw [Nat.mul_add_mod, Nat.mod_eq_of_lt (by omega)]

theorem succ_div {n : Nat} (hn : 0 < n) (k : Nat) :
    (k + 1) / n = if k % n + 1 = n then k / n + 1 else k / n := by
  have hk := Nat.div_add_mod k n
  have hlt := Nat.mod_lt k hn
  split
  · have hnext : k + 1 = n * (k / n + 1) := by
      rw [Nat.mul_succ]
      omega
    rw [hnext, Nat.mul_div_right _ hn]
  · have hnext : k + 1 = n * (k / n) + (k % n + 1) := by omega
    have hrest : (k % n + 1) / n = 0 := Nat.div_eq_of_lt (by omega)
    conv_lhs => rw [hnext]
    rw [Nat.mul_add_div hn, hrest, Nat.add_zero]

/-- The first `k` values go to the cells at position `v` on, one after another. -/
def fill (n : Nat) (m : Nat → α) (v : Nat) (data : Nat → α) : Nat → Nat → α
  | 0 => m
  | k + 1 => Function.update (fill n m v data k) ((v + k) % n) (data k)

/-- Within a lap, a cell that is filled holds its value. -/
theorem fill_of_lt (m : Nat → α) (data : Nat → α) {i k : Nat} (hi : i < k) (hk : k ≤ n) :
    fill n m v data k ((v + i) % n) = data i := by
  induction k with
  | zero => omega
  | succ k ih =>
    rw [fill]
    rcases Nat.lt_succ_iff_lt_or_eq.mp hi with hlt | rfl
    · rw [Function.update_of_ne (mod_ne_mod (by omega) (by omega)), ih hlt (by omega)]
    · rw [Function.update_self]

end OmegaRed.Lib.Cyclic

/-! A queue in a ring of `n` cells, written and read in blocks that wrap at the end. -/

namespace OmegaRed.Lib

open Memory

universe u

structure RingFifo (α : Type u) where
  data : Nat → α
  readPos : Nat
  writePos : Nat
  size : Int

namespace RingFifo

variable {α : Type u} (n : Nat) (f : RingFifo α)

def free : Int := n - f.size

/-- A block is written in two copies, to the end of the ring and from its start. -/
def write (l : List α) : RingFifo α :=
  let part := min (n - f.writePos) l.length
  { f with
    data := store (store f.data f.writePos (l.take part)) 0 (l.drop part)
    writePos := (f.writePos + l.length) % n
    size := f.size + l.length }

/-- The next `k` cells are taken as they are. -/
def bump (k : Nat) : RingFifo α :=
  { f with writePos := (f.writePos + k) % n, size := f.size + k }

def read (k : Nat) : List α × RingFifo α :=
  let part := min (n - f.readPos) k
  (load f.data f.readPos part ++ load f.data 0 (k - part),
    { f with readPos := (f.readPos + k) % n, size := f.size - k })

def content : List α := (List.range f.size.toNat).map fun i => f.data ((f.readPos + i) % n)

structure Ok : Prop where
  readPos_lt : f.readPos < n
  size_nonneg : 0 ≤ f.size
  size_le : f.size ≤ n
  writePos_eq : f.writePos = (f.readPos + f.size.toNat) % n

@[simp] theorem length_content : (f.content n).length = f.size.toNat := by
  simp [content]

theorem getElem_content {i : Nat} (h : i < (f.content n).length) :
    (f.content n)[i] = f.data ((f.readPos + i) % n) := by
  simp [content]

theorem length_read (k : Nat) : (f.read n k).1.length = k := by
  simp only [read, List.length_append, length_load]
  omega

theorem mod_of_lt_two_mul {a : Nat} (h : a < n + n) : a % n = if a < n then a else a - n := by
  split
  · rename_i hlt
    exact Nat.mod_eq_of_lt hlt
  · rw [Nat.mod_eq_sub_mod (by omega), Nat.mod_eq_of_lt (by omega)]

variable {n f}

/-- A cell behind the write position holds what was written there. -/
theorem data_write_of_lt {l : List α} (hw : f.writePos < n) (hl : l.length ≤ n) {i : Nat}
    (hi : i < l.length) : (f.write n l).data ((f.writePos + i) % n) = l[i] := by
  rw [mod_of_lt_two_mul n (by omega)]
  simp only [write]
  split
  · rename_i hlt
    have hget : (l.take (min (n - f.writePos) l.length))[i]? = some l[i] := by
      rw [List.getElem?_take_of_lt (by omega), List.getElem?_eq_getElem hi]
    rw [store_of_ge _ _ (by rw [List.length_drop]; omega)]
    exact store_of_mem _ hget
  · rename_i hge
    have hget : (l.drop (min (n - f.writePos) l.length))[f.writePos + i - n]? = some l[i] := by
      rw [List.getElem?_drop, show min (n - f.writePos) l.length + (f.writePos + i - n) = i by omega,
        List.getElem?_eq_getElem hi]
    have hstore := store_of_mem (store f.data f.writePos (l.take (min (n - f.writePos) l.length)))
      (a := 0) hget
    rwa [Nat.zero_add] at hstore

theorem data_write_of_ge {l : List α} (hw : f.writePos < n) {i : Nat} (hi : l.length ≤ i)
    (hin : i < n) :
    (f.write n l).data ((f.writePos + i) % n) = f.data ((f.writePos + i) % n) := by
  rw [mod_of_lt_two_mul n (by omega)]
  simp only [write]
  split
  · rw [store_of_ge _ _ (by rw [List.length_drop]; omega),
      store_of_ge _ _ (by rw [List.length_take]; omega)]
  · rw [store_of_ge _ _ (by rw [List.length_drop]; omega), store_of_lt _ _ (by omega)]

namespace Ok

theorem writePos_lt (h : f.Ok n) : f.writePos < n := by
  have hlt := h.readPos_lt
  rw [h.writePos_eq]
  exact Nat.mod_lt _ (by omega)

/-- The cell `i` behind the read position, counted from the write position. -/
theorem readPos_add (h : f.Ok n) (i : Nat) :
    (f.readPos + i) % n =
      (f.writePos + (if i < f.size.toNat then n - f.size.toNat + i else i - f.size.toNat)) % n := by
  have hle := h.size_le
  have hnonneg := h.size_nonneg
  rw [h.writePos_eq, Nat.mod_add_mod]
  split
  · rw [show f.readPos + f.size.toNat + (n - f.size.toNat + i) = f.readPos + i + n by omega,
      Nat.add_mod_right]
  · rw [show f.readPos + f.size.toNat + (i - f.size.toNat) = f.readPos + i by omega]

theorem write (h : f.Ok n) {l : List α} (hl : f.size + l.length ≤ n) : (f.write n l).Ok n where
  readPos_lt := h.readPos_lt
  size_nonneg := by
    have hnonneg := h.size_nonneg
    simp only [RingFifo.write]
    omega
  size_le := hl
  writePos_eq := by
    have hnonneg := h.size_nonneg
    simp only [RingFifo.write, h.writePos_eq, Nat.mod_add_mod]
    congr 1
    omega

theorem content_write (h : f.Ok n) {l : List α} (hl : f.size + l.length ≤ n) :
    (f.write n l).content n = f.content n ++ l := by
  have hnonneg := h.size_nonneg
  have hsize : (f.write n l).size.toNat = f.size.toNat + l.length := by
    simp only [RingFifo.write]
    omega
  apply List.ext_getElem
  · rw [List.length_append, length_content, length_content, hsize]
  · intro i hi hi'
    rw [length_content, hsize] at hi
    rw [getElem_content]
    change (f.write n l).data ((f.readPos + i) % n) = _
    rw [h.readPos_add i]
    split
    · rename_i hlt
      rw [data_write_of_ge h.writePos_lt (by omega) (by omega),
        List.getElem_append_left (by rwa [length_content]), getElem_content]
      have hback := h.readPos_add i
      rw [if_pos hlt] at hback
      rw [hback]
    · rename_i hge
      rw [data_write_of_lt h.writePos_lt (by omega) (by omega),
        List.getElem_append_right (by rw [length_content]; omega)]
      simp only [length_content]

theorem bump (h : f.Ok n) {k : Nat} (hk : f.size + k ≤ n) : (f.bump n k).Ok n where
  readPos_lt := h.readPos_lt
  size_nonneg := by
    have hnonneg := h.size_nonneg
    simp only [RingFifo.bump]
    omega
  size_le := hk
  writePos_eq := by
    have hnonneg := h.size_nonneg
    simp only [RingFifo.bump, h.writePos_eq, Nat.mod_add_mod]
    congr 1
    omega

/-- The cells that are taken as they are hold something. -/
theorem content_bump (h : f.Ok n) {k : Nat} :
    ∃ l : List α, l.length = k ∧ (f.bump n k).content n = f.content n ++ l := by
  have hnonneg := h.size_nonneg
  have hsize : (f.bump n k).size.toNat = f.size.toNat + k := by
    simp only [RingFifo.bump]
    omega
  refine ⟨(List.range k).map fun i => f.data ((f.readPos + (f.size.toNat + i)) % n), by simp, ?_⟩
  rw [content, hsize, List.range_add, List.map_append, List.map_map]
  rfl

theorem read (h : f.Ok n) {k : Nat} (hk : k ≤ f.size) : (f.read n k).2.Ok n where
  readPos_lt := Nat.mod_lt _ (Nat.lt_of_le_of_lt (Nat.zero_le _) h.readPos_lt)
  size_nonneg := by
    simp only [RingFifo.read]
    omega
  size_le := by
    have hle := h.size_le
    simp only [RingFifo.read]
    omega
  writePos_eq := by
    simp only [RingFifo.read, h.writePos_eq, Nat.mod_add_mod]
    congr 1
    omega

theorem content_read (h : f.Ok n) {k : Nat} (hk : k ≤ f.size) :
    f.content n = (f.read n k).1 ++ (f.read n k).2.content n := by
  have hle := h.size_le
  have hlt := h.readPos_lt
  have hlen := length_read n f k
  have hsize : (f.read n k).2.size.toNat = f.size.toNat - k := by
    simp only [RingFifo.read]
    omega
  apply List.ext_getElem
  · rw [List.length_append, length_content, length_content, hlen, hsize]
    omega
  · intro i hi hi'
    rw [length_content] at hi
    rw [getElem_content]
    by_cases hik : i < k
    · rw [List.getElem_append_left (by rwa [hlen]), mod_of_lt_two_mul n (by omega)]
      simp only [RingFifo.read]
      by_cases hpart : i < n - f.readPos
      · rw [if_pos (by omega), List.getElem_append_left (by rw [length_load]; omega)]
        simp [load]
      · rw [if_neg (by omega), List.getElem_append_right (by rw [length_load]; omega)]
        simp only [load, List.getElem_map, List.getElem_range, List.length_map, List.length_range]
        congr 1
        omega
    · rw [List.getElem_append_right (by rw [hlen]; omega), getElem_content]
      simp only [RingFifo.read, Nat.mod_add_mod]
      congr 2
      have hlen' := hlen
      simp only [RingFifo.read] at hlen'
      omega

end Ok

end RingFifo

end OmegaRed.Lib
