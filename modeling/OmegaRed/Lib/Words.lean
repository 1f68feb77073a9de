import OmegaRed.Lib.Memory
import Mathlib.Tactic.Ring

/-! Little-endian 32-bit words in a memory of bytes. -/

namespace OmegaRed.Lib.Words

open Memory

def bytes (x : UInt32) : List UInt8 :=
  [.ofNat x.toNat, .ofNat (x.toNat / 256), .ofNat (x.toNat / 65536), .ofNat (x.toNat / 16777216)]

def ofBytes (b₀ b₁ b₂ b₃ : UInt8) : UInt32 :=
  .ofNat (b₀.toNat + 256 * b₁.toNat + 65536 * b₂.toNat + 16777216 * b₃.toNat)

@[simp] theorem length_bytes (x : UInt32) : (bytes x).length = 4 := rfl

theorem ofBytes_bytes (x : UInt32) :
    ofBytes (.ofNat x.toNat) (.ofNat (x.toNat / 256)) (.ofNat (x.toNat / 65536))
      (.ofNat (x.toNat / 16777216)) = x := by
  apply UInt32.toNat.inj
  have hx := x.toNat_lt
  simp only [ofBytes, UInt8.toNat_ofNat', UInt32.toNat_ofNat']
  omega

/-- The word at byte address `a`. -/
def loadWord (m : Nat → UInt8) (a : Nat) : UInt32 :=
  ofBytes (m a) (m (a + 1)) (m (a + 2)) (m (a + 3))

theorem loadWord_congr {m m' : Nat → UInt8} {a b : Nat}
    (h : ∀ i, i < 4 → m (a + i) = m' (b + i)) : loadWord m a = loadWord m' b := by
  have h0 : m a = m' b := h 0 (by omega)
  rw [loadWord, loadWord, h0, h 1 (by omega), h 2 (by omega), h 3 (by omega)]

theorem loadWord_of_laid {m : Nat → UInt8} {a : Nat} {x : UInt32}
    (h : Laid m a ((bytes x).map some)) : loadWord m a = x := by
  have h0 := h 0 _ rfl
  have h1 := h 1 _ rfl
  have h2 := h 2 _ rfl
  have h3 := h 3 _ rfl
  rw [Nat.add_zero] at h0
  rw [loadWord, h0, h1, h2, h3, ofBytes_bytes]

/-- Equal words have equal highest bytes. -/
theorem eq_of_loadWord_eq {m m' : Nat → UInt8} {a b : Nat} (h : loadWord m a = loadWord m' b) :
    m (a + 3) = m' (b + 3) := by
  have htop := congrArg UInt32.toNat h
  have h0 := (m a).toNat_lt
  have h1 := (m (a + 1)).toNat_lt
  have h2 := (m (a + 2)).toNat_lt
  have h3 := (m (a + 3)).toNat_lt
  have h0' := (m' b).toNat_lt
  have h1' := (m' (b + 1)).toNat_lt
  have h2' := (m' (b + 2)).toNat_lt
  have h3' := (m' (b + 3)).toNat_lt
  simp only [loadWord, ofBytes, UInt32.toNat_ofNat'] at htop
  apply UInt8.toNat.inj
  omega

theorem loadWord_bytes (x : UInt32) (l : List UInt8) :
    loadWord ((bytes x ++ l).getD · 0) 0 = x := by
  change ofBytes _ _ _ _ = x
  exact ofBytes_bytes x

end OmegaRed.Lib.Words

/-! Little-endian 64-bit words in a memory of bytes. -/

namespace OmegaRed.Lib.DWords

/-- The value of `n` bytes from address `a` on. -/
def value (m : Nat → UInt8) (a : Nat) : Nat → Nat
  | 0 => 0
  | n + 1 => (m a).toNat + 256 * value m (a + 1) n

/-- The word at byte address `a`. -/
def loadDWord (m : Nat → UInt8) (a : Nat) : UInt64 := .ofNat (value m a 8)

theorem value_lt (m : Nat → UInt8) (a n : Nat) : value m a n < 256 ^ n := by
  induction n generalizing a with
  | zero => exact Nat.one_pos
  | succ n ih =>
    have hhead := (m a).toNat_lt
    have htail := ih (a + 1)
    rw [value, Nat.pow_succ]
    omega

theorem value_congr {m m' : Nat → UInt8} {a b n : Nat}
    (h : ∀ i, i < n → m (a + i) = m' (b + i)) : value m a n = value m' b n := by
  induction n generalizing a b with
  | zero => rfl
  | succ n ih =>
    have hhead : m a = m' b := h 0 (Nat.succ_pos n)
    have htail : value m (a + 1) n = value m' (b + 1) n := by
      refine ih fun i hi => ?_
      rw [Nat.add_assoc, Nat.add_assoc, Nat.add_comm 1]
      exact h (i + 1) (Nat.succ_lt_succ hi)
    rw [value, value, hhead, htail]

theorem eq_of_value_eq {m m' : Nat → UInt8} {a b n : Nat} (h : value m a n = value m' b n) :
    ∀ i, i < n → m (a + i) = m' (b + i) := by
  induction n generalizing a b with
  | zero => exact fun i hi => absurd hi (Nat.not_lt_zero i)
  | succ n ih =>
    rw [value, value] at h
    have hlt := (m a).toNat_lt
    have hlt' := (m' b).toNat_lt
    intro i hi
    cases i with
    | zero => exact UInt8.toNat.inj (show (m a).toNat = (m' b).toNat by omega)
    | succ i =>
      have htail := ih (a := a + 1) (b := b + 1) (by omega) i (by omega)
      rwa [Nat.add_assoc, Nat.add_assoc, Nat.add_comm 1] at htail

theorem loadDWord_congr {m m' : Nat → UInt8} {a b : Nat}
    (h : ∀ i, i < 8 → m (a + i) = m' (b + i)) : loadDWord m a = loadDWord m' b := by
  rw [loadDWord, loadDWord, value_congr h]

/-- Equal words are of equal bytes. -/
theorem eq_of_loadDWord_eq {m m' : Nat → UInt8} {a b : Nat} (h : loadDWord m a = loadDWord m' b) :
    ∀ i, i < 8 → m (a + i) = m' (b + i) := by
  have hlt (m : Nat → UInt8) (a : Nat) : value m a 8 < 2 ^ 64 :=
    Nat.lt_of_lt_of_le (value_lt m a 8) (by decide)
  have hval := congrArg UInt64.toNat h
  rw [loadDWord, loadDWord, UInt64.toNat_ofNat', UInt64.toNat_ofNat',
    Nat.mod_eq_of_lt (hlt m a), Nat.mod_eq_of_lt (hlt m' b)] at hval
  exact eq_of_value_eq hval

end OmegaRed.Lib.DWords

/-! Masks that keep one field of a number. -/

namespace OmegaRed.Lib.Masks

theorem and_field (a k n : Nat) : a &&& (2 ^ n - 1) * 2 ^ k = a / 2 ^ k % 2 ^ n * 2 ^ k := by
  have hdiv : (a &&& (2 ^ n - 1) * 2 ^ k) / 2 ^ k = a / 2 ^ k % 2 ^ n := by
    rw [Nat.and_div_two_pow, Nat.mul_div_cancel _ (Nat.two_pow_pos k),
      Nat.and_two_pow_sub_one_eq_mod]
  have hmod : (a &&& (2 ^ n - 1) * 2 ^ k) % 2 ^ k = 0 := by
    rw [Nat.and_mod_two_pow, Nat.mul_mod_left, Nat.and_zero]
  rw [← hdiv, Nat.div_mul_cancel (Nat.dvd_of_mod_eq_zero hmod)]

end OmegaRed.Lib.Masks

/-! Words that are written into a memory one after another. -/

namespace OmegaRed.Lib.Stores

universe u

open Memory Words

variable {ι : Type u} {m : Nat → UInt8} {a b : Nat}

def storeWord (m : Nat → UInt8) (a : Nat) (x : UInt32) : Nat → UInt8 := store m a (bytes x)

/-- Two words that have no byte in common. -/
def Apart (a b : Nat) : Prop := a + 4 ≤ b ∨ b + 4 ≤ a

theorem Apart.symm (h : Apart a b) : Apart b a := Or.symm h

theorem loadWord_storeWord (m : Nat → UInt8) (a : Nat) (x : UInt32) :
    loadWord (storeWord m a x) a = x :=
  loadWord_of_laid (laid_store_self m a (bytes x))

theorem loadWord_storeWord_of_apart (h : Apart a b) (x : UInt32) :
    loadWord (storeWord m b x) a = loadWord m a := by
  refine loadWord_congr fun i hi => ?_
  rcases h with h | h
  · exact store_of_lt m _ (by omega)
  · exact store_of_ge m _ (by rw [length_bytes]; omega)

theorem loadWord_update_of_outside {j : Nat} (h : j < a ∨ a + 4 ≤ j) (x : UInt8) :
    loadWord (Function.update m j x) a = loadWord m a :=
  loadWord_congr fun i hi => Function.update_of_ne (by omega) x m

/-- Write a word for each of the list. -/
def storeWords (addr : ι → Nat) (word : ι → UInt32) (m : Nat → UInt8) (l : List ι) :
    Nat → UInt8 :=
  l.foldl (fun m i => storeWord m (addr i) (word i)) m

variable {addr : ι → Nat} {word : ι → UInt32} {l : List ι}

theorem loadWord_storeWords_of_apart (h : ∀ i ∈ l, Apart a (addr i)) :
    loadWord (storeWords addr word m l) a = loadWord m a := by
  induction l generalizing m with
  | nil => rfl
  | cons i l ih =>
    obtain ⟨hi, hl⟩ := List.forall_mem_cons.mp h
    exact (ih hl).trans (loadWord_storeWord_of_apart hi _)

theorem loadWord_storeWords (addr : ι → Nat) (word : ι → UInt32) {m : Nat → UInt8} {l : List ι}
    (h : l.Pairwise fun i j => Apart (addr i) (addr j)) {i : ι} (hi : i ∈ l) :
    loadWord (storeWords addr word m l) (addr i) = word i := by
  induction l generalizing m with
  | nil => cases hi
  | cons j l ih =>
    obtain ⟨hj, hl⟩ := List.pairwise_cons.mp h
    rcases List.mem_cons.mp hi with rfl | hi
    · exact (loadWord_storeWords_of_apart hj).trans (loadWord_storeWord _ _ _)
    · exact ih hl hi

end OmegaRed.Lib.Stores
