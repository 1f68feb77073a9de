import OmegaRed.CDVD.Registers

/-! Which accesses of the registers stay inside the buffers. -/

namespace OmegaRed.CDVD.Registers

open cdvdStruct

/-- The counters never leave the buffers. -/
structure Inv (s : cdvdStruct) : Prop where
  ParamP : s.ParamP ≤ 32
  ParamC : s.ParamC = s.ParamP
  ResultC : s.ResultC ≤ 16
  mg_size : s.mg_size ≤ 65535
  mg_maxsize : s.mg_maxsize ≤ 65535
  nul : s.memory .Result 31 = 0

/-- A command that stays inside. -/
def Safe (o : Option (cdvdStruct × Bool)) : Prop := ∃ s done, o = some (s, done) ∧ Inv s

variable {s : cdvdStruct} {b : Buffer} {n size : Nat} {data vals : List u8} {e : Env}

theorem Inv.safe (h : Inv s) (done : Bool) : Safe (some (s, done)) := ⟨s, done, rfl, h⟩

theorem Inv.setResultSize (h : Inv s) (hsize : size ≤ 16) : Inv (s.SetResultSize size) :=
  ⟨h.ParamP, h.ParamC, hsize, h.mg_size, h.mg_maxsize, h.nul⟩

theorem read_eq {i : Nat} (hi : i < b.size) : s.read b i = some (s.memory b i) := by
  rw [cdvdStruct.read, if_pos ⟨Int.natCast_nonneg i, Int.ofNat_lt.2 hi⟩, Int.toNat_natCast]

theorem readBytes_eq {i : Nat} (hi : i + n ≤ b.size) :
    s.readBytes b i n = some ((List.range n).map fun k => s.memory b (i + k)) := by
  rw [readBytes, if_pos (by omega), Int.toNat_natCast]

theorem Inv.writeBytes (h : Inv s) {i : Nat} (hi : i + n ≤ b.size)
    (hb : b = .Result → i + n ≤ 31) :
    ∃ m, s.writeBytes b i n data = some { s with memory := m } ∧ Inv { s with memory := m } := by
  refine ⟨_, if_pos hi, h.ParamP, h.ParamC, h.ResultC, h.mg_size, h.mg_maxsize, ?_⟩
  by_cases hresult : b = .Result
  · subst hresult
    have hle := hb rfl
    simp only [Function.update_self]
    rw [if_neg (by omega)]
    exact h.nul
  · simp only [Function.update_of_ne (Ne.symm hresult)]
    exact h.nul

section

variable {f : u8 → Option (cdvdStruct × Bool)} {g : cdvdStruct → Option (cdvdStruct × Bool)}
  {t : List u8 → Option (cdvdStruct × Bool)} {k : cdvdStruct × Bool → Option (cdvdStruct × Bool)}

theorem Safe.read {i : Nat} (hi : i < b.size) (hf : Safe (f (s.memory b i))) :
    Safe (s.read b i >>= f) := by
  rw [read_eq hi]
  exact hf

theorem Safe.readBytes {i : Nat} (hi : i + n ≤ b.size) (ht : ∀ data, Safe (t data)) :
    Safe (s.readBytes b i n >>= t) := by
  rw [readBytes_eq hi]
  exact ht _

theorem Safe.readAt {i : Int} (hi : 0 ≤ i ∧ i + n ≤ b.size) (ht : ∀ data, Safe (t data)) :
    Safe (s.readBytes b i n >>= t) := by
  rw [cdvdStruct.readBytes, if_pos hi]
  exact ht _

theorem Safe.writeBytes (h : Inv s) {i : Nat} (hi : i + n ≤ b.size)
    (hb : b = .Result → i + n ≤ 31)
    (hg : ∀ m, Inv { s with memory := m } → Safe (g { s with memory := m })) :
    Safe (s.writeBytes b i n data >>= g) := by
  obtain ⟨m, hm, hinv⟩ := h.writeBytes hi hb
  rw [hm]
  exact hg m hinv

theorem Safe.fill (h : Inv s) (file : Option (List u8)) {i : Nat} (hi : i + n ≤ 31)
    (hk : ∀ m done, Inv { s with memory := m } → Safe (k ({ s with memory := m }, done))) :
    Safe (s.fill file .Result i n >>= k) := by
  cases file with
  | none => exact hk s.memory false h
  | some data =>
    obtain ⟨m, hm, hinv⟩ := h.writeBytes (show i + n ≤ Buffer.size .Result by
      change i + n ≤ 32
      omega) fun _ => hi
    rw [cdvdStruct.fill, hm]
    exact hk m true hinv

end

theorem answer_safe (h : Inv s) (hsize : size ≤ 16) (hvals : vals.length ≤ 16) :
    Safe (s.answer size vals) := by
  refine Safe.writeBytes (h.setResultSize hsize) ?_ (fun _ => ?_) fun m hm => hm.safe true
  · change 0 + vals.length ≤ 32
    omega
  · omega

theorem fill_safe (h : Inv s) (file : Option (List u8)) {i : Nat} (hi : i + n ≤ 31) :
    Safe (s.fill file .Result i n) := by
  have hfill := Safe.fill (k := some) h file hi fun m done hm => hm.safe done
  rwa [Option.bind_eq_bind, Option.bind_fun_some] at hfill

theorem store_safe (h : Inv s) (file : Option (List u8)) {i : Nat} (hi : i + n ≤ 32) :
    Safe (s.store file i n) := by
  cases file with
  | none => exact h.safe false
  | some data => exact Safe.readBytes hi fun _ => h.safe true

theorem write_safe (h : Inv s) (v : u8) : Safe (do
    let s ← s.write .Result 0 v
    some (s, true)) :=
  Safe.writeBytes h (by decide) (fun _ => by decide) fun _ hm => hm.safe true

theorem mecacon_safe (h : Inv s) : Safe (s.mecacon e) := by
  refine Safe.read (by decide) ?_
  split
  · exact fill_safe (h.setResultSize (by decide)) e.mec (by decide)
  · exact store_safe (h.setResultSize (by decide)) e.nvm (by decide)
  · exact fill_safe (h.setResultSize (by decide)) e.nvm (by decide)
  · exact answer_safe h (by decide) (by decide)
  · exact answer_safe h (by decide) (by decide)

theorem address_eq : ∃ a, s.address = some a := by
  have h0 : s.read .Param 0 = some _ := read_eq (i := 0) (by decide)
  have h1 : s.read .Param 1 = some _ := read_eq (i := 1) (by decide)
  rw [address, h0, h1]
  exact ⟨_, rfl⟩

theorem sceCdReadNVM_safe (h : Inv s) : Safe (s.sceCdReadNVM e) := by
  obtain ⟨a, ha⟩ := @address_eq s
  rw [sceCdReadNVM, ha, Option.bind_eq_bind, Option.bind_some]
  split
  · refine Safe.fill (h.setResultSize (by decide)) e.nvm (by decide) fun m done hm => ?_
    cases done with
    | false => exact hm.safe false
    | true =>
      refine Safe.read (by decide) (Safe.read (by decide) ?_)
      refine Safe.writeBytes hm (by decide) (fun _ => by decide) fun m hm => ?_
      exact Safe.writeBytes hm (by decide) (fun _ => by decide) fun m hm => hm.safe true
  · exact answer_safe h (by decide) (by decide)

theorem sceCdWriteNVM_safe (h : Inv s) : Safe (s.sceCdWriteNVM e) := by
  have hs := h.setResultSize (show 1 ≤ 16 by decide)
  obtain ⟨a, ha⟩ := @address_eq (s.SetResultSize 1)
  rw [sceCdWriteNVM, ha, Option.bind_eq_bind, Option.bind_some]
  split
  · refine Safe.read (by decide) (Safe.read (by decide) ?_)
    refine Safe.writeBytes hs (by decide) (fun heq => by cases heq) fun m hm => ?_
    refine Safe.writeBytes hm (by decide) (fun heq => by cases heq) fun m hm => ?_
    exact store_safe hm e.nvm (by decide)
  · exact write_safe hs 0xff

theorem readRegionParams_safe (h : Inv s) : Safe (s.readRegionParams e) := by
  refine Safe.fill (h.setResultSize (by decide)) e.mec (by decide) fun m done hm => ?_
  cases done with
  | false => exact hm.safe false
  | true =>
    refine Safe.fill hm e.nvm (by decide) fun m done hm => ?_
    cases done with
    | false => exact hm.safe false
    | true =>
      refine Safe.read (by decide) ?_
      have hwrites : ∀ v, Safe (do
          let s ← ({ s.SetResultSize 15 with memory := m } : cdvdStruct).writeBytes .Result 1 2 v
          let s ← s.writeBytes .Result 11 4 [0, 0, 0, 0]
          some (s, true)) := by
        intro v
        refine Safe.writeBytes hm (by decide) (fun _ => by decide) fun m hm => ?_
        exact Safe.writeBytes hm (by decide) (fun _ => by decide) fun m hm => hm.safe true
      dsimp only
      split
      · have hstring : ({ s.SetResultSize 15 with memory := m } : cdvdStruct).readString .Result 3 =
            some () := by
          refine if_pos (List.any_eq_true.2 ⟨31, by decide, ?_⟩)
          exact beq_iff_eq.2 hm.nul
        rw [hstring]
        exact hwrites _
      · exact hwrites _

theorem cdvdReadConfig_safe (h : Inv s) : Safe (s.cdvdReadConfig e) := by
  have hs := h.setResultSize (show 16 ≤ 16 by decide)
  unfold cdvdReadConfig
  dsimp only
  split
  · refine Safe.writeBytes hs (by decide) (fun _ => by decide) fun m hm => ?_
    exact Safe.writeBytes hm (by decide) (fun _ => by decide) fun m hm => hm.safe true
  split
  · exact hs.safe true
  split
  · exact Safe.writeBytes hs (by decide) (fun _ => by decide) fun m hm => hm.safe true
  · refine fill_safe ?_ e.nvm (by decide)
    exact ⟨hs.1, hs.2, hs.3, hs.4, hs.5, hs.6⟩

theorem cdvdWriteConfig_safe (h : Inv s) : Safe (s.cdvdWriteConfig e) := by
  have hs := h.setResultSize (show 1 ≤ 16 by decide)
  unfold cdvdWriteConfig
  dsimp only
  split
  · exact hs.safe true
  split
  · exact hs.safe true
  · refine store_safe ?_ e.nvm (by decide)
    exact ⟨hs.1, hs.2, hs.3, hs.4, hs.5, hs.6⟩

theorem CdOpenConfig_safe (h : Inv s) : Safe s.CdOpenConfig := by
  have hs := h.setResultSize (show 1 ≤ 16 by decide)
  refine Safe.read (by decide) (Safe.read (by decide) (Safe.read (by decide) ?_))
  refine Safe.writeBytes hs (by decide) (fun _ => by decide) fun m hm => Inv.safe ?_ true
  exact ⟨hm.1, hm.2, hm.3, hm.4, hm.5, hm.6⟩

theorem sceMgWriteData_safe (h : Inv s) : Safe s.sceMgWriteData := by
  have hs := h.setResultSize (show 1 ≤ 16 by decide)
  have hParamP := h.ParamP
  have hParamC := h.ParamC
  have hmax := h.mg_maxsize
  unfold sceMgWriteData
  dsimp only
  split
  · exact write_safe hs 0x80
  · rename_i hfit
    change ¬ s.mg_maxsize < s.mg_size + s.ParamC at hfit
    refine Safe.readBytes (i := 0) ?_ fun data => ?_
    · change 0 + s.ParamC ≤ 32
      omega
    refine Safe.writeBytes hs ?_ (fun heq => by cases heq) fun m hm => ?_
    · change s.mg_size + s.ParamC ≤ 65536
      omega
    refine write_safe ?_ 0
    refine ⟨hm.1, hm.2, hm.3, ?_, hm.5, hm.6⟩
    change s.mg_size + s.ParamC ≤ 65535
    omega

theorem sceMgReadData_safe (h : Inv s) : Safe s.sceMgReadData := by
  have hmin : min 16 s.mg_size ≤ 16 := Nat.min_le_left ..
  have hminsize : min 16 s.mg_size ≤ s.mg_size := Nat.min_le_right ..
  have hs := h.setResultSize hmin
  have hsize := h.mg_size
  refine Safe.readBytes (i := 0) ?_ fun data => ?_
  · change 0 + min 16 s.mg_size ≤ 65536
    omega
  refine Safe.writeBytes hs ?_ (fun _ => ?_) fun m hm => ?_
  · change 0 + min 16 s.mg_size ≤ 32
    omega
  · change 0 + min 16 s.mg_size ≤ 31
    omega
  refine Safe.readBytes ?_ fun rest => ?_
  · change min 16 s.mg_size + (s.mg_size - min 16 s.mg_size) ≤ 65536
    omega
  refine Safe.writeBytes hm ?_ (fun heq => by cases heq) fun m hm => ?_
  · change 0 + (s.mg_size - min 16 s.mg_size) ≤ 65536
    omega
  refine Inv.safe ?_ true
  refine ⟨hm.1, hm.2, hm.3, ?_, hm.5, hm.6⟩
  change s.mg_size - min 16 s.mg_size ≤ 65535
  omega

theorem word_le (low high : u8) : low.toNat + 256 * high.toNat ≤ 65535 := by
  have hlow := low.isLt
  have hhigh := high.isLt
  omega

theorem sceMgWriteHeaderStart_safe (h : Inv s) : Safe s.sceMgWriteHeaderStart := by
  have hs := h.setResultSize (show 1 ≤ 16 by decide)
  refine Safe.read (by decide) (Safe.read (by decide) ?_)
  refine Safe.writeBytes hs (by decide) (fun _ => by decide) fun m hm => ?_
  refine Inv.safe ?_ true
  exact ⟨hm.1, hm.2, hm.3, Nat.zero_le _, word_le .., hm.6⟩

theorem length_eq : s.length =
    some ((s.memory .Param 0).toNat + 256 * (s.memory .Param 1).toNat) := by
  have h0 : s.read .Param 0 = some _ := read_eq (i := 0) (by decide)
  have h1 : s.read .Param 1 = some _ := read_eq (i := 1) (by decide)
  rw [cdvdStruct.length, h0, h1]
  rfl

theorem sceMgWriteDatainLength_safe (h : Inv s) : Safe s.sceMgWriteDatainLength := by
  have hs := h.setResultSize (show 1 ≤ 16 by decide)
  rw [sceMgWriteDatainLength, length_eq, Option.bind_eq_bind, Option.bind_some]
  refine Safe.writeBytes hs (by decide) (fun _ => by decide) fun m hm => ?_
  refine Inv.safe ?_ true
  exact ⟨hm.1, hm.2, hm.3, Nat.zero_le _, word_le .., hm.6⟩

theorem sceMgWriteDataoutLength_safe (h : Inv s) : Safe s.sceMgWriteDataoutLength := by
  have hs := h.setResultSize (show 1 ≤ 16 by decide)
  rw [sceMgWriteDataoutLength, length_eq, Option.bind_eq_bind, Option.bind_some]
  split
  · refine Safe.writeBytes hs (by decide) (fun _ => by decide) fun m hm => ?_
    refine Inv.safe ?_ true
    exact ⟨hm.1, hm.2, hm.3, hm.4, Nat.zero_le _, hm.6⟩
  · exact write_safe hs 0x80

theorem readKeyHalf_safe (h : Inv s) (key : List u8) : Safe (s.readKeyHalf key) := by
  have hs := h.setResultSize (show 9 ≤ 16 by decide)
  refine Safe.writeBytes (i := 0) (n := 1) hs (by decide) (fun _ => by decide) fun m hm => ?_
  exact Safe.writeBytes (b := .Result) (i := 1) (n := 8) hm (by decide) (fun _ => by decide)
    fun m hm => hm.safe true

theorem read_some {i : Int} (hi : 0 ≤ i ∧ i < b.size) : s.read b i = some (s.memory b i.toNat) :=
  if_pos hi

theorem read_none {i : Int} (hi : ¬ (0 ≤ i ∧ i < b.size)) : s.read b i = none := if_neg hi

theorem readBytes_none {i : Int} (hi : ¬ (0 ≤ i ∧ i + n ≤ b.size)) : s.readBytes b i n = none :=
  if_neg hi

theorem sceCdWriteRTC_safe (h : Inv s) (hP : 7 ≤ s.ParamP) : Safe s.sceCdWriteRTC := by
  have hs := h.setResultSize (show 1 ≤ 16 by decide)
  have hle := h.ParamP
  have hread (t : cdvdStruct) (ht : t.ParamP = s.ParamP) {k : Nat} (hk : 1 ≤ k ∧ k ≤ 7) :
      t.read .Param (t.ParamP - k : Int) = some (t.memory .Param (t.ParamP - k : Int).toNat) := by
    refine read_some ?_
    change 0 ≤ (t.ParamP - k : Int) ∧ (t.ParamP - k : Int) < 32
    omega
  refine Safe.writeBytes (i := 0) (n := 1) hs (by decide) (fun _ => by decide) fun m hm => ?_
  generalize ht : ({ s.SetResultSize 1 with memory := m } : cdvdStruct) = t at hm ⊢
  have hP : t.ParamP = s.ParamP := by
    rw [← ht]
    rfl
  have h7 := hread t hP (show 1 ≤ 7 ∧ 7 ≤ 7 by decide)
  have h6 := hread t hP (show 1 ≤ 6 ∧ 6 ≤ 7 by decide)
  have h5 := hread t hP (show 1 ≤ 5 ∧ 5 ≤ 7 by decide)
  have h3 := hread t hP (show 1 ≤ 3 ∧ 3 ≤ 7 by decide)
  have h2 := hread t hP (show 1 ≤ 2 ∧ 2 ≤ 7 by decide)
  have h1 := hread t hP (show 1 ≤ 1 ∧ 1 ≤ 7 by decide)
  simp only [Nat.cast_ofNat, Nat.cast_one] at h7 h6 h5 h3 h2 h1
  simp only [h7, h6, h5, h3, h2, h1, Option.bind_eq_bind, Option.bind_some]
  refine Inv.safe ?_ true
  exact ⟨hm.1, hm.2, hm.3, hm.4, hm.5, hm.6⟩

theorem sceCdWriteRTC_none (h : Inv s) (hP : ¬ 7 ≤ s.ParamP) : s.sceCdWriteRTC = none := by
  have hs := h.setResultSize (show 1 ≤ 16 by decide)
  obtain ⟨m, hm, -⟩ : ∃ m, (s.SetResultSize 1).writeBytes .Result 0 1 [0] =
      some { s.SetResultSize 1 with memory := m } ∧ _ :=
    hs.writeBytes (by decide) fun _ => by decide
  rw [sceCdWriteRTC, write, hm, Option.bind_eq_bind, Option.bind_some]
  dsimp only
  rw [read_none]
  · rfl
  · intro hin
    have hlow : 0 ≤ (s.ParamP - 7 : Int) := hin.1
    omega

/-- What the header says. -/
def word (m : Nat → u8) (i : Nat) : Nat := (m i).toNat + 256 * (m (i + 1)).toNat

/-- Where the list of the header ends. -/
def headerEnd (m : Nat → u8) : Nat := 0x20 + 0x10 * word m 0x1A

/-- Where the BIT table is. -/
def bitOfs (m : Nat → u8) : Nat :=
  (if word m 0x18 &&& 1 ≠ 0 then headerEnd m + (m (headerEnd m)).toNat else headerEnd m) +
    (if word m 0x18 &&& 0xF000 = 0 then 8 else 0) + 0x20

/-- A flag byte after the list is in the buffer. -/
def FlagFits (m : Nat → u8) : Prop := word m 0x18 &&& 1 ≠ 0 → headerEnd m < 65536

/-- The header of `auth_0x8F` has its table in the buffer. -/
def KeysFit (m : Nat → u8) : Prop := FlagFits m ∧ bitOfs m + 8 ≤ 65536

/-- The table of `sceMgReadBITLength` is in the buffer. -/
def TableFits (m : Nat → u8) : Prop :=
  FlagFits m ∧ bitOfs m + 8 + 16 * (m (bitOfs m + 4)).toNat ≤ 65536

instance (m : Nat → u8) : Decidable (FlagFits m) := inferInstanceAs (Decidable (_ → _))

instance (m : Nat → u8) : Decidable (KeysFit m) := inferInstanceAs (Decidable (_ ∧ _))

theorem u16_eq {i : Nat} (hi : i + 1 < 65536) : s.u16 i = some (word (s.memory .mg_buffer) i) := by
  have hlow : s.read .mg_buffer i = some _ := read_eq (show i < Buffer.size .mg_buffer by
    change i < 65536
    omega)
  have hhigh : s.read .mg_buffer (i + 1) = some _ := read_eq (i := i + 1) hi
  rw [u16, hlow, hhigh]
  rfl

theorem mg_BIToffset_eq (h : FlagFits (s.memory .mg_buffer)) :
    s.mg_BIToffset = some (bitOfs (s.memory .mg_buffer)) := by
  rw [mg_BIToffset, u16_eq (by decide), u16_eq (by decide)]
  simp only [Option.bind_eq_bind, Option.bind_some]
  by_cases hflag : word (s.memory .mg_buffer) 0x18 &&& 1 ≠ 0
  · have hread : s.read .mg_buffer (headerEnd (s.memory .mg_buffer)) = some _ :=
      read_eq (h hflag)
    rw [headerEnd] at hread
    rw [if_pos hflag, hread]
    simp only [bitOfs, headerEnd, if_pos hflag, Option.map_some, Option.bind_some]
    split <;> rfl
  · rw [if_neg hflag]
    simp only [bitOfs, headerEnd, if_neg hflag]
    split <;> rfl

theorem mg_BIToffset_none (h : ¬ FlagFits (s.memory .mg_buffer)) : s.mg_BIToffset = none := by
  obtain ⟨hflag, hout⟩ := Classical.not_imp.1 h
  rw [mg_BIToffset, u16_eq (by decide), u16_eq (by decide)]
  simp only [Option.bind_eq_bind, Option.bind_some]
  have hread : s.read .mg_buffer (headerEnd (s.memory .mg_buffer)) = none := by
    refine read_none fun hin => hout ?_
    exact Int.ofNat_lt.1 hin.2
  rw [headerEnd] at hread
  rw [if_pos hflag, hread]
  rfl

/-- The header of an authentication, when it passes the checks of the size. -/
def AuthFits (s : cdvdStruct) : Prop :=
  s.mg_datatype = 1 → s.mg_maxsize = s.mg_size → 0x20 ≤ s.mg_size →
    s.mg_size = word (s.memory .mg_buffer) 0x14 → KeysFit (s.memory .mg_buffer)

instance (s : cdvdStruct) : Decidable (AuthFits s) :=
  inferInstanceAs (Decidable (_ → _ → _ → _ → _))

theorem bitOfs_ge (m : Nat → u8) : 0x20 ≤ bitOfs m := Nat.le_add_left ..

theorem auth_0x8F_safe (h : Inv s) (hfit : AuthFits s) : Safe s.auth_0x8F := by
  have hs := h.setResultSize (show 1 ≤ 16 by decide)
  have hfit : AuthFits (s.SetResultSize 1) := hfit
  unfold auth_0x8F
  generalize s.SetResultSize 1 = t at hs hfit
  dsimp only
  split
  · rename_i htype
    rw [u16_eq (by decide), Option.bind_eq_bind, Option.bind_some]
    split
    · exact write_safe hs 0x80
    · rename_i hsize
      push Not at hsize
      obtain ⟨hmax, hmin, hword⟩ := hsize
      obtain ⟨hflag, htable⟩ := hfit htype hmax hmin hword
      have hge := bitOfs_ge (t.memory .mg_buffer)
      rw [mg_BIToffset_eq hflag, Option.bind_some]
      refine Safe.readAt ?_ fun keys => ?_
      · change _ ∧ _ ≤ (65536 : Int)
        omega
      refine Safe.readAt ?_ fun v => ?_
      · change _ ∧ _ ≤ (65536 : Int)
        omega
      have hkey : Inv { t with mg_kbit := keys.take 16, mg_kcon := keys.drop 16 } :=
        ⟨hs.1, hs.2, hs.3, hs.4, hs.5, hs.6⟩
      split
      · exact write_safe hkey 0x80
      · exact write_safe hkey 0
  · exact write_safe hs 0

theorem auth_0x8F_none (hfit : ¬ AuthFits s) : s.auth_0x8F = none := by
  have hfit : ¬ AuthFits (s.SetResultSize 1) := hfit
  unfold auth_0x8F
  generalize s.SetResultSize 1 = t at hfit
  simp only [AuthFits, Classical.not_imp] at hfit
  obtain ⟨htype, hmax, hmin, hword, hout⟩ := hfit
  dsimp only
  rw [if_pos htype, u16_eq (by decide), Option.bind_eq_bind, Option.bind_some, if_neg]
  · by_cases hflag : FlagFits (t.memory .mg_buffer)
    · have htable : ¬ bitOfs (t.memory .mg_buffer) + 8 ≤ 65536 := fun hle => hout ⟨hflag, hle⟩
      rw [mg_BIToffset_eq hflag, Option.bind_some]
      cases hkeys : t.readBytes .mg_buffer ((bitOfs (t.memory .mg_buffer) : Int) - 0x20) 0x20 with
      | none => rfl
      | some keys =>
        rw [Option.bind_eq_bind, Option.bind_some, readBytes_none]
        · rfl
        · rintro ⟨-, hle⟩
          change _ ≤ (65536 : Int) at hle
          omega
    · rw [mg_BIToffset_none hflag]
      rfl
  · omega

theorem sceMgReadBITLength_safe (h : Inv s) (hfit : TableFits (s.memory .mg_buffer)) :
    Safe s.sceMgReadBITLength := by
  have hs := h.setResultSize (show 3 ≤ 16 by decide)
  have hfit : TableFits ((s.SetResultSize 3).memory .mg_buffer) := hfit
  unfold sceMgReadBITLength
  generalize s.SetResultSize 3 = t at hs hfit
  obtain ⟨hflag, htable⟩ := hfit
  rw [Nat.add_assoc] at htable
  dsimp only
  rw [mg_BIToffset_eq hflag, Option.bind_eq_bind, Option.bind_some]
  have hread : t.read .mg_buffer ((bitOfs (t.memory .mg_buffer) : Int) + 4) = some _ :=
    read_eq (i := bitOfs (t.memory .mg_buffer) + 4) (by
      change _ < 65536
      omega)
  rw [hread, Option.bind_eq_bind, Option.bind_some]
  refine Safe.readBytes htable fun table => ?_
  refine Safe.writeBytes hs (Nat.le_trans ?_ htable) (fun heq => by cases heq) fun m hm => ?_
  · exact Nat.add_le_add_right (Nat.zero_le _) _
  refine Safe.read (i := 4) (by decide) ?_
  refine Safe.writeBytes (b := .Result) (i := 0) (n := 3) ?_ (by decide) (fun _ => by decide)
    fun m hm => hm.safe true
  refine ⟨hm.1, hm.2, hm.3, ?_, Nat.zero_le _, hm.6⟩
  have hlt := (m .mg_buffer 4).isLt
  change 8 + 16 * (m .mg_buffer 4).toNat ≤ 65535
  omega

theorem sceMgReadBITLength_none (hfit : ¬ TableFits (s.memory .mg_buffer)) :
    s.sceMgReadBITLength = none := by
  have hfit : ¬ TableFits ((s.SetResultSize 3).memory .mg_buffer) := hfit
  unfold sceMgReadBITLength
  generalize s.SetResultSize 3 = t at hfit
  dsimp only
  by_cases hflag : FlagFits (t.memory .mg_buffer)
  · rw [mg_BIToffset_eq hflag, Option.bind_eq_bind, Option.bind_some]
    by_cases hcount : bitOfs (t.memory .mg_buffer) + 4 < 65536
    · have hread : t.read .mg_buffer ((bitOfs (t.memory .mg_buffer) : Int) + 4) = some _ :=
        read_eq (i := bitOfs (t.memory .mg_buffer) + 4) hcount
      rw [hread, Option.bind_eq_bind, Option.bind_some, readBytes_none]
      · rfl
      · rintro ⟨-, hle⟩
        refine hfit ⟨hflag, ?_⟩
        change _ ≤ (65536 : Int) at hle
        omega
    · rw [read_none]
      · rfl
      · rintro ⟨-, hlt⟩
        change _ < (65536 : Int) at hlt
        omega
  · rw [mg_BIToffset_none hflag]
    rfl

/-- What a command needs to stay inside. -/
def Fits (s : cdvdStruct) (rt : Nat) : Prop :=
  (rt = 0x09 → 7 ≤ s.ParamP) ∧ (rt = 0x88 ∨ rt = 0x8F → AuthFits s) ∧
    (rt = 0x91 → TableFits (s.memory .mg_buffer))

theorem command_safe (h : Inv s) {rt : Nat} (hfit : Fits s rt) : Safe (s.command e rt) := by
  unfold command
  split
  case h_1 =>
    refine Safe.writeBytes (b := .Result) (i := 1) (n := 10) (h.setResultSize (by decide))
      (by decide) (fun _ => by decide) fun m hm => write_safe hm _
  case h_2 => exact mecacon_safe h
  case h_4 => exact Safe.read (by decide) (answer_safe h (by decide) (Nat.le_of_ble_eq_true rfl))
  case h_6 => exact sceCdWriteRTC_safe h (hfit.1 rfl)
  case h_7 => exact sceCdReadNVM_safe h
  case h_8 => exact sceCdWriteNVM_safe h
  case h_9 | h_20 => exact fill_safe (h.setResultSize (by decide)) e.nvm (by decide)
  case h_10 | h_21 | h_22 => exact store_safe (h.setResultSize (by decide)) e.nvm (by decide)
  case h_12 =>
    exact Safe.read (by decide) (fill_safe (h.setResultSize (by decide)) e.nvm (by decide))
  case h_13 =>
    exact Safe.read (by decide) (store_safe (h.setResultSize (by decide)) e.nvm (by decide))
  case h_19 => exact readRegionParams_safe h
  case h_23 => exact CdOpenConfig_safe h
  case h_24 => exact cdvdReadConfig_safe h
  case h_25 => exact cdvdWriteConfig_safe h
  case h_26 | h_27 | h_28 =>
    refine answer_safe ?_ (by decide) (by decide)
    exact ⟨h.1, h.2, h.3, h.4, h.5, h.6⟩
  case h_31 => exact auth_0x8F_safe h (hfit.2.1 (.inl rfl))
  case h_32 => exact sceMgWriteData_safe h
  case h_33 => exact sceMgReadData_safe h
  case h_34 => exact auth_0x8F_safe h (hfit.2.1 (.inr rfl))
  case h_35 => exact sceMgWriteHeaderStart_safe h
  case h_36 => exact sceMgReadBITLength_safe h (hfit.2.2 rfl)
  case h_37 => exact sceMgWriteDatainLength_safe h
  case h_38 => exact sceMgWriteDataoutLength_safe h
  case h_39 | h_40 | h_41 | h_42 => exact readKeyHalf_safe h _
  all_goals exact answer_safe h (by decide) (Nat.le_of_ble_eq_true rfl)

theorem command_none (h : Inv s) {rt : Nat} (hfit : ¬ Fits s rt) : s.command e rt = none := by
  by_cases hrtc : rt = 0x09 → 7 ≤ s.ParamP
  · by_cases hauth : rt = 0x88 ∨ rt = 0x8F → AuthFits s
    · obtain ⟨rfl, htable⟩ : rt = 0x91 ∧ ¬ TableFits (s.memory .mg_buffer) :=
        Classical.not_imp.1 fun htable => hfit ⟨hrtc, hauth, htable⟩
      exact sceMgReadBITLength_none htable
    · obtain ⟨rfl | rfl, hout⟩ := Classical.not_imp.1 hauth
      · exact auth_0x8F_none hout
      · exact auth_0x8F_none hout
  · obtain ⟨rfl, hshort⟩ := Classical.not_imp.1 hrtc
    exact sceCdWriteRTC_none h hshort

theorem cleared (h : Inv s) : ∃ t, s.write .Result 0 0 = some t ∧ Inv t ∧
    ∀ rt, Fits t rt ↔ Fits s rt := by
  obtain ⟨m, hm, hinv⟩ : ∃ m, s.writeBytes .Result 0 1 [0] = some { s with memory := m } ∧ _ :=
    h.writeBytes (by decide) fun _ => by decide
  refine ⟨_, hm, hinv, fun rt => ?_⟩
  rw [cdvdStruct.writeBytes, if_pos (by decide), Option.some.injEq] at hm
  rw [← hm]
  rfl

theorem cdvdWrite16_safe (h : Inv s) {rt : Nat} (hfit : Fits s rt) :
    ∃ t, s.cdvdWrite16 e rt = some t ∧ Inv t := by
  obtain ⟨t, ht, hinv, hfits⟩ := cleared h
  obtain ⟨u, done, hu, hu'⟩ := command_safe (e := e) hinv ((hfits rt).2 hfit)
  rw [cdvdWrite16, ht, Option.bind_eq_bind, Option.bind_some, hu]
  refine ⟨_, rfl, ?_⟩
  cases done with
  | false => exact hu'
  | true => exact ⟨Nat.zero_le _, rfl, hu'.3, hu'.4, hu'.5, hu'.6⟩

theorem cdvdWrite16_none (h : Inv s) {rt : Nat} (hfit : ¬ Fits s rt) :
    s.cdvdWrite16 e rt = none := by
  obtain ⟨t, ht, hinv, hfits⟩ := cleared h
  rw [cdvdWrite16, ht, Option.bind_eq_bind, Option.bind_some,
    command_none hinv (fun hfit' => hfit ((hfits rt).1 hfit'))]
  rfl

theorem cdvdWrite04_safe (h : Inv s) (rt : Nat) : ∃ t, s.cdvdWrite04 e rt = some t ∧ Inv t := by
  have hclear {t : cdvdStruct} (ht : Inv t) : Inv { t with ParamP := 0, ParamC := 0 } :=
    ⟨Nat.zero_le _, rfl, ht.3, ht.4, ht.5, ht.6⟩
  have hparam (n : Nat) (hn : n ≤ 32) : s.readBytes .Param 0 n = some _ :=
    readBytes_eq (i := 0) (by
      change 0 + n ≤ 32
      omega)
  unfold cdvdWrite04
  split
  case h_6 =>
    obtain ⟨m, hm, hinv⟩ : ∃ m, s.writeBytes .Key 0 16 e.key =
        some { s with memory := m } ∧ _ := h.writeBytes (by decide) fun heq => by cases heq
    rw [hparam 7 (by decide), Option.bind_eq_bind, Option.bind_some, hm]
    exact ⟨_, rfl, hclear hinv⟩
  case h_9 => exact ⟨_, rfl, hclear h⟩
  all_goals
    rw [hparam _ (by decide)]
    exact ⟨_, rfl, hclear h⟩

theorem cdvdWrite17_safe (h : Inv s) (rt : u8) : ∃ t, s.cdvdWrite17 rt = some t ∧ Inv t := by
  unfold cdvdWrite17
  split
  · rename_i hlt
    obtain ⟨m, hm, hinv⟩ : ∃ m, s.writeBytes .Param s.ParamP 1 [rt] =
        some { s with memory := m } ∧ _ := h.writeBytes hlt fun heq => by cases heq
    rw [write, hm]
    exact ⟨_, rfl, hlt, congrArg (· + 1) hinv.2, hinv.3, hinv.4, hinv.5, hinv.6⟩
  · exact ⟨s, rfl, h⟩

theorem cdvdRead18_safe (h : Inv s) : ∃ t v, s.cdvdRead18 = some (t, v) ∧ Inv t := by
  unfold cdvdRead18
  split
  · rename_i hmore
    have hsize := h.ResultC
    dsimp only
    rw [Nat.add_sub_cancel, read_eq (show s.ResultP < Buffer.size .Result by
      change s.ResultP < 32
      omega)]
    exact ⟨_, _, rfl, h.1, h.2, h.3, h.4, h.5, h.6⟩
  · exact ⟨s, 0, rfl, h⟩

theorem cdvdRead_safe (h : Inv s) (key : Nat) :
    ∃ t v, s.cdvdRead e key = some (t, v) ∧ Inv t := by
  have hkey {i : Int} (hi : 0 ≤ i ∧ i < 16) :
      ∃ t v, (s.read .Key i).map (fun v => (s, v)) = some (t, v) ∧ Inv t := by
    rw [read_some hi]
    exact ⟨s, _, rfl, h⟩
  unfold cdvdRead
  split
  · exact cdvdRead18_safe h
  split
  · exact hkey (by omega)
  split
  · exact hkey (by omega)
  split
  · exact hkey (by omega)
  split
  · exact hkey (by decide)
  · exact ⟨s, e.other, rfl, h⟩

theorem reset_inv (RTC : Rtc.cdvdRTC) : Inv (reset RTC) :=
  ⟨Nat.zero_le _, rfl, Nat.zero_le _, Nat.zero_le _, Nat.zero_le _, rfl⟩

/-- What an access needs: only S commands need anything. -/
def Access.Fits (s : cdvdStruct) : Access → Prop
  | .write 0x16 rt => Registers.Fits s rt.toNat
  | _ => True

theorem step_read (key : Nat) :
    step s (.read key, e) = (s.cdvdRead e key).map fun p => (p.1, [p.2]) := rfl

theorem step_write (key : Nat) (rt : u8) :
    step s (.write key rt, e) = (s.cdvdWrite e key rt).map fun s => (s, []) := rfl

theorem step_safe (h : Inv s) {a : Access × Env} (hfit : a.1.Fits s) :
    ∃ t vs, step s a = some (t, vs) ∧ Inv t := by
  obtain ⟨access, e⟩ := a
  cases access with
  | read key =>
    obtain ⟨t, v, ht, hinv⟩ := cdvdRead_safe (e := e) h key
    exact ⟨t, [v], by rw [step_read, ht, Option.map_some], hinv⟩
  | write key rt =>
    obtain ⟨t, ht, hinv⟩ : ∃ t, s.cdvdWrite e key rt = some t ∧ Inv t := by
      unfold cdvdWrite
      split
      · exact cdvdWrite04_safe h rt.toNat
      · exact cdvdWrite17_safe h rt
      · exact ⟨_, rfl, reset_inv s.RTC⟩
      · exact cdvdWrite16_safe h hfit
      · exact cdvdWrite17_safe h rt
      · exact ⟨s, rfl, h⟩
    exact ⟨t, [], by rw [step_write, ht, Option.map_some], hinv⟩

theorem step_none (h : Inv s) {a : Access × Env} (hfit : ¬ a.1.Fits s) : step s a = none := by
  obtain ⟨access, e⟩ := a
  unfold Access.Fits at hfit
  split at hfit
  · rename_i rt heq
    change access = _ at heq
    subst heq
    rw [step_write, show s.cdvdWrite e 0x16 rt = s.cdvdWrite16 e rt.toNat from rfl,
      cdvdWrite16_none h hfit, Option.map_none]
  · exact absurd trivial hfit

/-- Each access of a run finds what it needs. -/
def Meets : cdvdStruct → List (Access × Env) → Prop
  | _, [] => True
  | s, a :: as => a.1.Fits s ∧ ∀ t vs, step s a = some (t, vs) → Meets t as

/-- A run stays inside of the buffers exactly when each access finds what it needs. -/
theorem run_isSome_iff (h : Inv s) (as : List (Access × Env)) :
    (run s as).isSome ↔ Meets s as := by
  induction as generalizing s with
  | nil => simp [run, Meets]
  | cons a as ih =>
    by_cases hfit : a.1.Fits s
    · obtain ⟨t, vs, hstep, hinv⟩ := step_safe h hfit
      have hmeets : Meets s (a :: as) ↔ Meets t as := by
        refine ⟨fun hm => hm.2 t vs hstep, fun hm => ⟨hfit, fun t' vs' hstep' => ?_⟩⟩
        obtain ⟨rfl, rfl⟩ := Prod.mk.inj (Option.some.inj (hstep.symm.trans hstep'))
        exact hm
      rw [hmeets, ← ih hinv, run, hstep]
      rcases hrun : run t as with _ | ⟨u, ws⟩
      · simp [hrun]
      · simp [hrun]
    · rw [run, step_none h hfit]
      simp [Meets, hfit]

end OmegaRed.CDVD.Registers
