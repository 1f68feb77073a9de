import Mathlib.Data.BitVec
import Mathlib.Tactic.Common

/-! Little-endian words in a memory of bytes, and the two halves of an unaligned access. -/

namespace OmegaRed.Lib.Unaligned

variable {w : Nat}

/-- A memory of bytes. -/
abbrev Mem (w : Nat) := BitVec w → BitVec 8

/-- The word of `n` bytes at an address. -/
def read (m : Mem w) (a : BitVec w) : (n : Nat) → BitVec (8 * n)
  | 0 => 0
  | n + 1 => read m (a + 1) n ++ m a

def byte {n : Nat} (v : BitVec (8 * n)) (i : Nat) : BitVec 8 := v.extractLsb' (8 * i) 8

def write {n : Nat} (m : Mem w) (a : BitVec w) (v : BitVec (8 * n)) : Mem w := fun x =>
  if (x - a).toNat < n then byte v (x - a).toNat else m x

/-- The low `k` bytes. -/
def lowMask (n k : Nat) : BitVec (8 * n) := BitVec.ofNat _ (2 ^ (8 * k) - 1)

/-- The bytes of the word from `base` up to its byte `k`, moved to the top. -/
def loadLeft {n : Nat} (m : Mem w) (base : BitVec w) (k : Nat) (reg : BitVec (8 * n)) :
    BitVec (8 * n) :=
  (reg &&& lowMask n (n - 1 - k)) ||| (read m base n <<< (8 * (n - 1 - k)))

/-- The bytes of the word from its byte `k` on, moved to the bottom. -/
def loadRight {n : Nat} (m : Mem w) (base : BitVec w) (k : Nat) (reg : BitVec (8 * n)) :
    BitVec (8 * n) :=
  (reg &&& ~~~lowMask n (n - k)) ||| (read m base n >>> (8 * k))

def storeLeft {n : Nat} (m : Mem w) (base : BitVec w) (k : Nat) (reg : BitVec (8 * n)) : Mem w :=
  write m base ((reg >>> (8 * (n - 1 - k))) ||| (read m base n &&& ~~~lowMask n (k + 1)))

def storeRight {n : Nat} (m : Mem w) (base : BitVec w) (k : Nat) (reg : BitVec (8 * n)) : Mem w :=
  write m base ((reg <<< (8 * k)) ||| (read m base n &&& lowMask n k))

theorem getLsbD_lowMask (n k i : Nat) :
    (lowMask n k).getLsbD i = (decide (i < 8 * n) && decide (i < 8 * k)) := by
  rw [lowMask, BitVec.getLsbD_ofNat, Nat.testBit_two_pow_sub_one]

theorem getLsbD_read (m : Mem w) (a : BitVec w) (n i : Nat) : (read m a n).getLsbD i =
    (decide (i < 8 * n) && (m (a + BitVec.ofNat w (i / 8))).getLsbD (i % 8)) := by
  induction n generalizing a i with
  | zero => simp [read]
  | succ n ih =>
    have happ : (read m a (n + 1)).getLsbD i =
        if i < 8 then (m a).getLsbD i else (read m (a + 1) n).getLsbD (i - 8) :=
      BitVec.getLsbD_append
    rw [happ]
    by_cases hi : i < 8
    · have hlt : i < 8 * (n + 1) := by omega
      rw [if_pos hi, Nat.div_eq_of_lt hi, Nat.mod_eq_of_lt hi, decide_eq_true hlt, Bool.true_and]
      simp
    · have hiff : decide (i - 8 < 8 * n) = decide (i < 8 * (n + 1)) :=
        decide_eq_decide.2 (by omega)
      have hdiv : i / 8 = (i - 8) / 8 + 1 := by omega
      have hmod : (i - 8) % 8 = i % 8 := by omega
      have haddr : a + 1 + BitVec.ofNat w ((i - 8) / 8) = a + BitVec.ofNat w (i / 8) := by
        rw [hdiv, BitVec.ofNat_add, BitVec.add_assoc, BitVec.add_comm 1]
        rfl
      rw [if_neg hi, ih, haddr, hmod, hiff]

theorem getLsbD_byte {n : Nat} (v : BitVec (8 * n)) (i j : Nat) :
    (byte v i).getLsbD j = (decide (j < 8) && v.getLsbD (8 * i + j)) := by
  rw [byte, BitVec.getLsbD_extractLsb']

theorem byte_read (m : Mem w) (a : BitVec w) {n i : Nat} (hi : i < n) :
    byte (read m a n) i = m (a + BitVec.ofNat w i) := by
  apply BitVec.eq_of_getLsbD_eq
  intro j hj
  have hlt : 8 * i + j < 8 * n := by omega
  have hdiv : (8 * i + j) / 8 = i := by omega
  have hmod : (8 * i + j) % 8 = j := by omega
  rw [getLsbD_byte, getLsbD_read, hdiv, hmod, decide_eq_true hlt, decide_eq_true hj,
    Bool.true_and, Bool.true_and]

variable {n k : Nat} {m : Mem w} {a base : BitVec w}

/-- The left half of a load has the bytes of the word at `a` from the one at `base` on. -/
theorem getLsbD_loadLeft (hbase : base = a + BitVec.ofNat w (n - 1 - k)) (reg : BitVec (8 * n))
    {i : Nat} (hi : i < 8 * n) : (loadLeft m base k reg).getLsbD i =
      if i < 8 * (n - 1 - k) then reg.getLsbD i else (read m a n).getLsbD i := by
  rw [loadLeft, BitVec.getLsbD_or, BitVec.getLsbD_and, BitVec.getLsbD_shiftLeft, getLsbD_lowMask,
    getLsbD_read, getLsbD_read]
  by_cases hlow : i < 8 * (n - 1 - k)
  · simp [hlow, hi]
  · have hlt : i - 8 * (n - 1 - k) < 8 * n := by omega
    have hmod : (i - 8 * (n - 1 - k)) % 8 = i % 8 := by omega
    have hdiv : (n - 1 - k) + (i - 8 * (n - 1 - k)) / 8 = i / 8 := by omega
    have haddr : base + BitVec.ofNat w ((i - 8 * (n - 1 - k)) / 8) = a + BitVec.ofNat w (i / 8) := by
      rw [hbase, BitVec.add_assoc, ← BitVec.ofNat_add, hdiv]
    simp [hlow, hi, hlt, hmod, haddr]

theorem getLsbD_loadRight (hbase : base + BitVec.ofNat w k = a) (reg : BitVec (8 * n))
    {i : Nat} (hi : i < 8 * n) : (loadRight m base k reg).getLsbD i =
      if i < 8 * (n - k) then (read m a n).getLsbD i else reg.getLsbD i := by
  rw [loadRight, BitVec.getLsbD_or, BitVec.getLsbD_and, BitVec.getLsbD_ushiftRight,
    BitVec.getLsbD_not, getLsbD_lowMask, getLsbD_read, getLsbD_read]
  have hmod : (8 * k + i) % 8 = i % 8 := by omega
  have hdiv : (8 * k + i) / 8 = k + i / 8 := by omega
  have haddr : base + BitVec.ofNat w (k + i / 8) = a + BitVec.ofNat w (i / 8) := by
    rw [BitVec.ofNat_add, ← BitVec.add_assoc, hbase]
  rw [hmod, hdiv, haddr]
  by_cases hlow : i < 8 * (n - k)
  · have hlt : 8 * k + i < 8 * n := by omega
    simp [hlow, hi, hlt]
  · have hge : ¬ 8 * k + i < 8 * n := by omega
    simp [hlow, hi, hge]

/-- The places of the two halves: the left one ends, and the right one starts, at the word. -/
structure Pair (n : Nat) (a left right : BitVec w) (kl kr : Nat) : Prop where
  left_eq : left = a + BitVec.ofNat w (n - 1 - kl)
  right_eq : right + BitVec.ofNat w kr = a
  meets : n - 1 - kl ≤ n - kr
  left_lt : kl < n
  right_lt : kr < n

theorem aligned_add (x M : BitVec w) : (x &&& ~~~M) + (x &&& M) = x := by
  have hdisj : (x &&& ~~~M) &&& (x &&& M) = 0#w := by
    apply BitVec.eq_of_getLsbD_eq
    intro i hi
    simp only [BitVec.getLsbD_and, BitVec.getLsbD_not, hi, decide_true, Bool.true_and,
      BitVec.getLsbD_zero]
    cases x.getLsbD i <;> cases M.getLsbD i <;> rfl
  rw [BitVec.add_eq_or_of_and_eq_zero _ _ hdisj]
  apply BitVec.eq_of_getLsbD_eq
  intro i hi
  simp only [BitVec.getLsbD_or, BitVec.getLsbD_and, BitVec.getLsbD_not, hi, decide_true,
    Bool.true_and]
  cases x.getLsbD i <;> cases M.getLsbD i <;> rfl

theorem toNat_and_mask {p : Nat} (hp : p ≤ w) (x : BitVec w) :
    (x &&& BitVec.ofNat w (2 ^ p - 1)).toNat = x.toNat % 2 ^ p := by
  have hle : 2 ^ p ≤ 2 ^ w := Nat.pow_le_pow_right (by decide) hp
  have hpos : 0 < 2 ^ p := Nat.two_pow_pos p
  rw [BitVec.toNat_and, BitVec.toNat_ofNat, Nat.mod_eq_of_lt (by omega),
    Nat.and_two_pow_sub_one_eq_mod]

theorem mod_pred {x d : Nat} (hd : 0 < d) (hx : x % d ≠ 0) : (x + (d - 1)) % d = x % d - 1 := by
  have hsplit := Nat.div_add_mod x d
  have hlt := Nat.mod_lt x hd
  have hsum : x + (d - 1) = x % d - 1 + d * (x / d + 1) := by
    rw [Nat.mul_add]
    omega
  rw [hsum, Nat.add_mul_mod_self_left, Nat.mod_eq_of_lt (by omega)]

/-- The halves of an access of `2 ^ p` bytes lie in aligned words. -/
theorem Pair.of_aligned {p : Nat} (hp : p ≤ w) (a : BitVec w) {M y : BitVec w}
    (hM : M = BitVec.ofNat w (2 ^ p - 1)) (hy : y = a + M) :
    Pair (2 ^ p) a (y &&& ~~~M) (a &&& ~~~M) (y &&& M).toNat (a &&& M).toNat := by
  have hle : 2 ^ p ≤ 2 ^ w := Nat.pow_le_pow_right (by decide) hp
  have hpos : 0 < 2 ^ p := Nat.two_pow_pos p
  have hl : (y &&& M).toNat = y.toNat % 2 ^ p := by rw [hM, toNat_and_mask hp]
  have hr : (a &&& M).toNat = a.toNat % 2 ^ p := by rw [hM, toNat_and_mask hp]
  have hsum : y.toNat % 2 ^ p = (a.toNat + (2 ^ p - 1)) % 2 ^ p := by
    rw [hy, hM, BitVec.toNat_add, BitVec.toNat_ofNat,
      Nat.mod_eq_of_lt (by omega : 2 ^ p - 1 < 2 ^ w), Nat.mod_mod_of_dvd _ (Nat.pow_dvd_pow 2 hp)]
  have hlt : (y &&& M).toNat < 2 ^ p := hl ▸ Nat.mod_lt _ hpos
  have hlr : (a &&& M).toNat < 2 ^ p := hr ▸ Nat.mod_lt _ hpos
  have hofNat (x : BitVec w) : BitVec.ofNat w x.toNat = x := by
    rw [BitVec.ofNat_toNat, BitVec.setWidth_eq]
  refine ⟨?_, ?_, ?_, hlt, hlr⟩
  · have hk : BitVec.ofNat w (2 ^ p - 1 - (y &&& M).toNat) + (y &&& M) = M := calc
      _ = BitVec.ofNat w (2 ^ p - 1 - (y &&& M).toNat) + BitVec.ofNat w (y &&& M).toNat := by
        rw [hofNat (y &&& M)]
      _ = M := by
        rw [← BitVec.ofNat_add, Nat.sub_add_cancel (by omega)]
        exact hM.symm
    apply add_right_cancel (b := y &&& M)
    rw [aligned_add, add_assoc, hk, hy]
  · rw [hofNat]
    exact aligned_add a M
  · by_cases hz : a.toNat % 2 ^ p = 0
    · omega
    · have hpred := mod_pred hpos hz
      omega

variable {left right : BitVec w} {kl kr : Nat}

theorem Pair.loadRight_loadLeft (hp : Pair n a left right kl kr) (reg : BitVec (8 * n)) :
    loadRight m right kr (loadLeft m left kl reg) = read m a n := by
  apply BitVec.eq_of_getLsbD_eq
  intro i hi
  have hmeets := hp.meets
  rw [getLsbD_loadRight hp.right_eq _ hi, getLsbD_loadLeft hp.left_eq _ hi]
  split
  · rfl
  · rw [if_neg (by omega)]

theorem Pair.loadLeft_loadRight (hp : Pair n a left right kl kr) (reg : BitVec (8 * n)) :
    loadLeft m left kl (loadRight m right kr reg) = read m a n := by
  apply BitVec.eq_of_getLsbD_eq
  intro i hi
  have hmeets := hp.meets
  rw [getLsbD_loadLeft hp.left_eq _ hi, getLsbD_loadRight hp.right_eq _ hi]
  split
  · rw [if_pos (by omega)]
  · rfl

theorem getLsbD_word {v v' : BitVec (8 * n)} {i i' : Nat}
    (hbits : ∀ j < 8, v.getLsbD (8 * i + j) = v'.getLsbD (8 * i' + j)) : byte v i = byte v' i' := by
  apply BitVec.eq_of_getLsbD_eq
  intro j hj
  rw [getLsbD_byte, getLsbD_byte, hbits j hj]

/-- The left half of a store has the bytes up to the last one of the word. -/
theorem storeLeft_apply (hk : k < n) (reg : BitVec (8 * n)) (x : BitVec w) :
    storeLeft m base k reg x = if (x - base).toNat ≤ k
      then byte reg ((x - base).toNat + (n - 1 - k)) else m x := by
  have hx : base + BitVec.ofNat w (x - base).toNat = x := by
    rw [BitVec.ofNat_toNat, BitVec.setWidth_eq, BitVec.add_comm, BitVec.sub_add_cancel]
  rw [storeLeft, write]
  generalize (x - base).toNat = d at hx
  by_cases hd : d < n
  · rw [if_pos hd]
    split
    · rename_i hle
      apply getLsbD_word
      intro j hj
      have hmask : 8 * d + j < 8 * (k + 1) := by omega
      have hidx : 8 * (n - 1 - k) + (8 * d + j) = 8 * (d + (n - 1 - k)) + j := by omega
      rw [BitVec.getLsbD_or, BitVec.getLsbD_and, BitVec.getLsbD_ushiftRight, BitVec.getLsbD_not,
        getLsbD_lowMask, hidx]
      simp [hmask]
    · rename_i hlt
      have hkeep : byte ((reg >>> (8 * (n - 1 - k))) ||| (read m base n &&& ~~~lowMask n (k + 1))) d =
          byte (read m base n) d := by
        apply getLsbD_word
        intro j hj
        have hmask : ¬ 8 * d + j < 8 * (k + 1) := by omega
        have hbit : 8 * d + j < 8 * n := by omega
        have hout : reg.getLsbD (8 * (n - 1 - k) + (8 * d + j)) = false :=
          BitVec.getLsbD_of_ge _ _ (by omega)
        rw [BitVec.getLsbD_or, BitVec.getLsbD_and, BitVec.getLsbD_ushiftRight, BitVec.getLsbD_not,
          getLsbD_lowMask, hout]
        simp [hmask, hbit]
      rw [hkeep, byte_read m base hd, hx]
  · rw [if_neg hd, if_neg (by omega)]

theorem storeRight_apply (reg : BitVec (8 * n)) (x : BitVec w) :
    storeRight m base k reg x = if k ≤ (x - base).toNat ∧ (x - base).toNat < n
      then byte reg ((x - base).toNat - k) else m x := by
  have hx : base + BitVec.ofNat w (x - base).toNat = x := by
    rw [BitVec.ofNat_toNat, BitVec.setWidth_eq, BitVec.add_comm, BitVec.sub_add_cancel]
  rw [storeRight, write]
  generalize (x - base).toNat = d at hx
  by_cases hd : d < n
  · rw [if_pos hd]
    by_cases hle : k ≤ d
    · rw [if_pos ⟨hle, hd⟩]
      apply getLsbD_word
      intro j hj
      have hbit : 8 * d + j < 8 * n := by omega
      have hge : ¬ 8 * d + j < 8 * k := by omega
      have hidx : 8 * d + j - 8 * k = 8 * (d - k) + j := by omega
      rw [BitVec.getLsbD_or, BitVec.getLsbD_and, BitVec.getLsbD_shiftLeft, getLsbD_lowMask, hidx]
      simp [hbit, hge]
    · rw [if_neg fun h => hle h.1]
      have hkeep : byte ((reg <<< (8 * k)) ||| (read m base n &&& lowMask n k)) d =
          byte (read m base n) d := by
        apply getLsbD_word
        intro j hj
        have hbit : 8 * d + j < 8 * n := by omega
        have hlt : 8 * d + j < 8 * k := by omega
        rw [BitVec.getLsbD_or, BitVec.getLsbD_and, BitVec.getLsbD_shiftLeft, getLsbD_lowMask]
        simp [hbit, hlt]
      rw [hkeep, byte_read m base hd, hx]
  · rw [if_neg hd, if_neg fun h => hd h.2]

theorem Pair.storeLeft_eq (hp : Pair n a left right kl kr) (hn : n ≤ 2 ^ w) (reg : BitVec (8 * n))
    (x : BitVec w) : storeLeft m left kl reg x =
      if n - 1 - kl ≤ (x - a).toNat ∧ (x - a).toNat < n then byte reg (x - a).toNat else m x := by
  have hlt := hp.left_lt
  have hsub : x - left = (x - a) - BitVec.ofNat w (n - 1 - kl) := by
    rw [hp.left_eq, sub_add_eq_sub_sub]
  have he := (x - a).isLt
  have hmod : (n - 1 - kl) % 2 ^ w = n - 1 - kl := Nat.mod_eq_of_lt (by omega)
  have hd : (x - left).toNat = (2 ^ w - (n - 1 - kl) + (x - a).toNat) % 2 ^ w := by
    rw [hsub, BitVec.toNat_sub, BitVec.toNat_ofNat, hmod]
  rw [storeLeft_apply hlt]
  by_cases hc : n - 1 - kl ≤ (x - a).toNat
  · have hval : (x - left).toNat = (x - a).toNat - (n - 1 - kl) := by
      rw [hd, show 2 ^ w - (n - 1 - kl) + (x - a).toNat =
        (x - a).toNat - (n - 1 - kl) + 2 ^ w by omega, Nat.add_mod_right, Nat.mod_eq_of_lt (by omega)]
    rw [hval, Nat.sub_add_cancel hc]
    by_cases hle : (x - a).toNat < n
    · rw [if_pos (by omega), if_pos ⟨hc, hle⟩]
    · rw [if_neg (by omega), if_neg fun h => hle h.2]
  · have hval : (x - left).toNat = 2 ^ w - (n - 1 - kl) + (x - a).toNat := by
      rw [hd, Nat.mod_eq_of_lt (by omega)]
    rw [if_neg (by omega), if_neg fun h => hc h.1]

theorem Pair.storeRight_eq (hp : Pair n a left right kl kr) (hn : n ≤ 2 ^ w) (reg : BitVec (8 * n))
    (x : BitVec w) : storeRight m right kr reg x =
      if (x - a).toNat < n - kr then byte reg (x - a).toNat else m x := by
  have hlt := hp.right_lt
  have hadd : x - right = (x - a) + BitVec.ofNat w kr := by
    rw [← hp.right_eq, sub_add_eq_sub_sub, BitVec.sub_add_cancel]
  have he := (x - a).isLt
  have hd : (x - right).toNat = ((x - a).toNat + kr) % 2 ^ w := by
    rw [hadd, BitVec.toNat_add, BitVec.toNat_ofNat, Nat.mod_eq_of_lt (by omega : kr < 2 ^ w)]
  rw [storeRight_apply]
  by_cases hc : (x - a).toNat + kr < 2 ^ w
  · rw [hd, Nat.mod_eq_of_lt hc, Nat.add_sub_cancel]
    by_cases hle : (x - a).toNat < n - kr
    · rw [if_pos (by omega), if_pos hle]
    · rw [if_neg (by omega), if_neg hle]
  · have hval : (x - right).toNat = (x - a).toNat + kr - 2 ^ w := by
      rw [hd, Nat.mod_eq_sub_mod (by omega), Nat.mod_eq_of_lt (by omega)]
    rw [if_neg (by omega), if_neg (by omega)]

theorem Pair.storeRight_storeLeft (hp : Pair n a left right kl kr) (hn : n ≤ 2 ^ w)
    (reg : BitVec (8 * n)) :
    storeRight (storeLeft m left kl reg) right kr reg = write m a reg := by
  have hmeets := hp.meets
  funext x
  rw [hp.storeRight_eq hn, hp.storeLeft_eq hn, write]
  by_cases hx : (x - a).toNat < n
  · rw [if_pos hx]
    split
    · rfl
    · rw [if_pos (by omega)]
  · rw [if_neg hx, if_neg (by omega), if_neg (by omega)]

theorem Pair.storeLeft_storeRight (hp : Pair n a left right kl kr) (hn : n ≤ 2 ^ w)
    (reg : BitVec (8 * n)) :
    storeLeft (storeRight m right kr reg) left kl reg = write m a reg := by
  have hmeets := hp.meets
  funext x
  rw [hp.storeLeft_eq hn, hp.storeRight_eq hn, write]
  by_cases hx : (x - a).toNat < n
  · rw [if_pos hx]
    split
    · rfl
    · rw [if_pos (by omega)]
  · rw [if_neg hx, if_neg (by omega), if_neg (by omega)]

end OmegaRed.Lib.Unaligned
