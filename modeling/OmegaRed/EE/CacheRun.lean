import OmegaRed.EE.CacheAccess

/-! The cache does not show: runs through it and runs without it read the same. -/

namespace OmegaRed.EE

open Lib.Memory Machine

/-- Where each line has been filled from. -/
abbrev Origin := Nat → Fin 2 → Option Nat

/-- The fill of a `getFreeCache`, remembered. -/
def Origin.lookup (vmap : VMap) (s : Machine) (mem : UInt32) (o : Origin) : Origin :=
  let c := s.pCache (index mem)
  if IsHit (c.tag 0) (vmap.paddr mem) ∨ IsHit (c.tag 1) (vmap.paddr mem) then o
  else fun i way =>
    if i = index mem ∧ way = s.victim mem then some ((vmap.ppf mem).toNat / 64 * 64) else o i way

/-- The fills of an access, remembered. -/
def Origin.access (vmap : VMap) (s : Machine) (o : Origin) : Access → Origin
  | .read128 mem => (o.lookup vmap s mem).lookup vmap (s.readCache64 vmap mem).1 (mem + 8)
  | a => o.lookup vmap s a.mem

def origins (vmap : VMap) (s : Machine) (o : Origin) : List Access → Origin
  | [] => o
  | a :: as => origins vmap (a.exec vmap s).1 (o.access vmap s a) as

/-- Every line in the cache. -/
def lines : List (UInt32 × Fin 2) :=
  (List.range 64).flatMap fun i => [(.ofNat (64 * i), 0), (.ofNat (64 * i), 1)]

/-- All dirty lines are written back. -/
def Machine.flush (s : Machine) : Machine :=
  lines.foldl (fun s line => s.writeBack line.1 line.2) s

/-- What is asked of the cache after a run from `s`. -/
structure Transparent (vmap : VMap) (s : Machine) (as : List Access) : Prop where
  reads : (run vmap s as).2 = (runFlat vmap s.mem as).2
  once : ∀ i, i < 64 → Valid (((run vmap s as).1.pCache i).tag 0) →
    Valid (((run vmap s as).1.pCache i).tag 1) →
    page (((run vmap s as).1.pCache i).tag 0) ≠ page (((run vmap s as).1.pCache i).tag 1)
  replaced : ∀ mem,
    ¬ IsHit (((run vmap s as).1.pCache (index mem)).tag 0) (vmap.paddr mem) →
    ¬ IsHit (((run vmap s as).1.pCache (index mem)).tag 1) (vmap.paddr mem) →
    Dirty (((run vmap s as).1.pCache (index mem)).tag ((run vmap s as).1.victim mem)) →
    ∃ a, origins vmap s (fun _ _ => none) as (index mem) ((run vmap s as).1.victim mem) = some a ∧
      ((run vmap s as).1.getFreeCache vmap mem).1.mem = store (run vmap s as).1.mem a
        (load (((run vmap s as).1.pCache (index mem)).data ((run vmap s as).1.victim mem)) 0 64)
  flushed : (run vmap s as).1.flush.mem = (runFlat vmap s.mem as).1

section Access

variable {vmap : VMap} {s : Machine} {a : Access} {o : Origin}

theorem Access.Cacheable.onHost (h : a.Cacheable vmap) : OnHost vmap a.mem := ⟨h.page, h.host⟩

theorem Access.Cacheable.onHost_hi {mem : UInt32} (h : (Access.read128 mem).Cacheable vmap) :
    OnHost vmap (mem + 8) ∧ (vmap.ppf (mem + 8)).toNat = (vmap.ppf mem).toNat + 8 := by
  have haligned : 16 ∣ mem.toNat := h.aligned
  have hlt := mem.toNat_lt
  have hpage : (mem + 8) >>> 12 = mem >>> 12 := by
    apply UInt32.toNat.inj
    simp only [UInt32.toNat_shiftRight, UInt32.toNat_add, UInt32.reduceToNat, Nat.reduceMod,
      Nat.shiftRight_eq_div_pow]
    omega
  have hmod := h.onHost.ppf_mod
  have hhost := h.host
  have hnext : (vmap.ppf (mem + 8)).toNat = (vmap.ppf mem).toNat + 8 := by
    rw [VMap.ppf, hpage]
    rw [VMap.ppf] at hmod hhost ⊢
    simp only [Access.mem, UInt32.toNat_add, UInt32.reduceToNat] at hmod hhost ⊢
    omega
  refine ⟨⟨?_, ?_⟩, hnext⟩
  · rw [hpage]
    exact h.page
  · simp only [Access.mem] at hmod hhost
    omega

theorem exec_spec (h : s.Ok) (ha : a.Cacheable vmap) :
    (a.exec vmap s).1.Ok ∧ a.flat vmap s.view = ((a.exec vmap s).1.view, (a.exec vmap s).2) := by
  have hhost := ha.onHost
  have haligned := ha.aligned
  cases a with
  | read8 mem =>
    obtain ⟨hok, hview, hvalue⟩ := h.readCache (k := 0) (by decide) hhost haligned
    exact ⟨hok, Prod.ext hview.symm hvalue.symm⟩
  | read16 mem =>
    obtain ⟨hok, hview, hvalue⟩ := h.readCache (k := 1) (by decide) hhost haligned
    exact ⟨hok, Prod.ext hview.symm hvalue.symm⟩
  | read32 mem =>
    obtain ⟨hok, hview, hvalue⟩ := h.readCache (k := 2) (by decide) hhost haligned
    exact ⟨hok, Prod.ext hview.symm hvalue.symm⟩
  | read64 mem =>
    obtain ⟨hok, hview, hvalue⟩ := h.readCache (k := 3) (by decide) hhost haligned
    exact ⟨hok, Prod.ext hview.symm hvalue.symm⟩
  | read128 mem =>
    have hmem : 16 ∣ mem.toNat := haligned
    have hlt := mem.toNat_lt
    have hadd : (mem + 8).toNat = mem.toNat + 8 := by
      rw [UInt32.toNat_add]
      simp only [UInt32.reduceToNat]
      omega
    obtain ⟨hhost', hnext⟩ := ha.onHost_hi
    obtain ⟨hok, hview, hlo⟩ := h.readCache (k := 3) (by decide) hhost (by
      simp only [Access.mem]
      omega)
    obtain ⟨hok', hview', hhi⟩ := hok.readCache (k := 3) (by decide) hhost' (by omega)
    refine ⟨hok', Prod.ext (hview'.trans hview).symm ?_⟩
    rw [hview, hnext] at hhi
    exact (load_add s.view _ 8 8).trans (congrArg₂ _ hlo.symm hhi.symm)
  | write8 mem value =>
    obtain ⟨hok, hview⟩ := h.writeCache (k := 0) (by decide) hhost haligned value.length_toList
    exact ⟨hok, Prod.ext hview.symm rfl⟩
  | write16 mem value =>
    obtain ⟨hok, hview⟩ := h.writeCache (k := 1) (by decide) hhost haligned value.length_toList
    exact ⟨hok, Prod.ext hview.symm rfl⟩
  | write32 mem value =>
    obtain ⟨hok, hview⟩ := h.writeCache (k := 2) (by decide) hhost haligned value.length_toList
    exact ⟨hok, Prod.ext hview.symm rfl⟩
  | write64 mem value =>
    obtain ⟨hok, hview⟩ := h.writeCache (k := 3) (by decide) hhost haligned value.length_toList
    exact ⟨hok, Prod.ext hview.symm rfl⟩
  | write128 mem lo hi =>
    obtain ⟨hok, hview⟩ := h.writeCache128 hhost haligned lo hi
    exact ⟨hok, Prod.ext hview.symm rfl⟩

end Access

section Traced

variable {vmap : VMap} {s : Machine} {o : Origin} {mem : UInt32}

/-- The tags say where the lines come from. -/
def Traced (o : Origin) (s : Machine) : Prop :=
  ∀ i way, i < 64 → Valid ((s.pCache i).tag way) →
    o i way = some (hostPage ((s.pCache i).tag way) + 64 * i)

theorem tag_writeBack_of_ne {number way : Fin 2} {i : Nat}
    (h : ¬ (i = index mem ∧ way = number)) :
    ((s.writeBack mem number).pCache i).tag way = (s.pCache i).tag way := by
  by_cases hdirty : Dirty ((s.pCache (index mem)).tag number)
  · rw [writeBack_of_dirty hdirty, tag_setLine, if_neg h]
  · rw [writeBack_of_not_dirty hdirty]

theorem Traced.getFreeCache (h : Traced o s) (hhost : OnHost vmap mem) :
    Traced (o.lookup vmap s mem) (s.getFreeCache vmap mem).1 := by
  rw [Machine.getFreeCache, Origin.lookup]
  dsimp only
  by_cases h0 : IsHit ((s.pCache (index mem)).tag 0) (vmap.paddr mem)
  · rw [if_pos h0, if_pos (.inl h0)]
    exact h
  · by_cases h1 : IsHit ((s.pCache (index mem)).tag 1) (vmap.paddr mem)
    · rw [if_neg h0, if_pos h1, if_pos (.inr h1)]
      exact h
    · rw [if_neg h0, if_neg h1, if_neg (not_or.mpr ⟨h0, h1⟩)]
      intro i way hi hvalid
      rw [Machine.fill] at hvalid ⊢
      rw [tag_setLine] at hvalid ⊢
      dsimp only
      by_cases hsame : i = index mem ∧ way = s.victim mem
      · have hindex := hhost.index_eq
        rw [if_pos hsame, if_pos hsame, hostPage_eq, page_filledTag, ← hostPage_eq,
          hhost.hostPage_paddr, hsame.1]
        congr 1
        omega
      · rw [if_neg hsame] at hvalid
        rw [if_neg hsame, if_neg hsame]
        rw [tag_writeBack_of_ne hsame] at hvalid ⊢
        exact h i way hi hvalid

theorem Traced.setLine (h : Traced o s) (i : Nat) (way : Fin 2) (data : Nat → UInt8) :
    Traced o (s.setLine i way ((s.pCache i).tag way ||| dirtyFlag) data) := by
  intro j way' hj hvalid
  rw [tag_setLine] at hvalid ⊢
  by_cases hsame : j = i ∧ way' = way
  · obtain ⟨rfl, rfl⟩ := hsame
    rw [if_pos ⟨rfl, rfl⟩] at hvalid ⊢
    rw [valid_or_dirtyFlag] at hvalid
    rw [hostPage_eq, page_or_dirtyFlag, ← hostPage_eq]
    exact h j way' hj hvalid
  · rw [if_neg hsame] at hvalid ⊢
    exact h j way' hj hvalid

theorem Traced.access {a : Access} (h : Traced o s) (ha : a.Cacheable vmap) :
    Traced (o.access vmap s a) (a.exec vmap s).1 := by
  have hlookup := h.getFreeCache ha.onHost
  cases a with
  | read8 mem => exact hlookup
  | read16 mem => exact hlookup
  | read32 mem => exact hlookup
  | read64 mem => exact hlookup
  | read128 mem => exact hlookup.getFreeCache ha.onHost_hi.1
  | write8 mem value => exact hlookup.setLine _ _ _
  | write16 mem value => exact hlookup.setLine _ _ _
  | write32 mem value => exact hlookup.setLine _ _ _
  | write64 mem value => exact hlookup.setLine _ _ _
  | write128 mem lo hi => exact hlookup.setLine _ _ _

end Traced

section Flush

variable {s : Machine}

theorem Dirty.of_writeBack {mem : UInt32} {number way : Fin 2} {i : Nat}
    (h : Dirty (((s.writeBack mem number).pCache i).tag way)) :
    Dirty ((s.pCache i).tag way) ∧ ¬ (i = index mem ∧ way = number) := by
  have hne : ¬ (i = index mem ∧ way = number) := by
    rintro ⟨rfl, rfl⟩
    exact not_dirty_writeBack s mem way h
  rw [tag_writeBack_of_ne hne] at h
  exact ⟨h, hne⟩

theorem foldl_writeBack (h : s.Ok) (ls : List (UInt32 × Fin 2)) :
    (ls.foldl (fun s line => s.writeBack line.1 line.2) s).Ok ∧
    (ls.foldl (fun s line => s.writeBack line.1 line.2) s).view = s.view ∧
    ∀ i way, Dirty (((ls.foldl (fun s line => s.writeBack line.1 line.2) s).pCache i).tag way) →
      Dirty ((s.pCache i).tag way) ∧ ∀ line, line ∈ ls → ¬ (i = index line.1 ∧ way = line.2) := by
  induction ls generalizing s with
  | nil => exact ⟨h, rfl, fun i way hdirty => ⟨hdirty, fun line hline => absurd hline List.not_mem_nil⟩⟩
  | cons line ls ih =>
    obtain ⟨hok, hview⟩ := h.writeBack line.1 line.2
    obtain ⟨hok', hview', hdirty'⟩ := ih hok
    refine ⟨hok', hview'.trans hview, fun i way hdirty => ?_⟩
    obtain ⟨hbefore, hrest⟩ := hdirty' i way hdirty
    obtain ⟨hfirst, hne⟩ := hbefore.of_writeBack
    exact ⟨hfirst, List.forall_mem_cons.mpr ⟨hne, hrest⟩⟩

theorem mem_lines {i : Nat} (hi : i < 64) (way : Fin 2) :
    ∃ line, line ∈ lines ∧ i = index line.1 ∧ way = line.2 := by
  refine ⟨(.ofNat (64 * i), way), ?_, ?_, rfl⟩
  · refine List.mem_flatMap.mpr ⟨i, List.mem_range.mpr hi, ?_⟩
    match way with
    | 0 => exact List.mem_cons_self
    | 1 => exact List.mem_cons_of_mem _ List.mem_cons_self
  · rw [index_eq, UInt32.toNat_ofNat']
    omega

theorem Machine.Ok.mem_flush (h : s.Ok) : s.flush.mem = s.view := by
  obtain ⟨hok, hview, hdirty⟩ := foldl_writeBack h lines
  refine (funext fun a => ?_ : _ = _).trans hview
  by_cases hholds : ∃ way, Holds ((s.flush.setOf a).tag way) a
  · obtain ⟨way, hway⟩ := hholds
    obtain ⟨line, hline, hat⟩ := mem_lines (Nat.mod_lt (a / 64) (by decide)) way
    have hclean : ¬ Dirty ((s.flush.setOf a).tag way) := fun hd =>
      (hdirty _ way hd).2 line hline hat
    exact ((hok.view_of_holds hway).trans (hok.clean a way hway hclean)).symm
  · exact (view_of_not_holds (not_exists.mp hholds)).symm

end Flush

section Run

variable {vmap : VMap} {s : Machine}

theorem Machine.ok_of_invalid (h : ∀ i way, i < 64 → ¬ Valid ((s.pCache i).tag way)) :
    s.Ok ∧ s.view = s.mem := by
  have hset (a : Nat) (way : Fin 2) : ¬ Holds ((s.setOf a).tag way) a := fun hholds =>
    h _ way (Nat.mod_lt _ (by decide)) hholds.1
  exact ⟨⟨fun i way hi hvalid => absurd hvalid (h i way hi),
    fun i way _ hi hvalid => absurd hvalid (h i way hi), fun a way hholds => absurd hholds (hset a way)⟩,
    funext fun a => view_of_not_holds (hset a)⟩

theorem run_spec (h : s.Ok) {o : Origin} (ho : Traced o s) {as : List Access}
    (has : ∀ a, a ∈ as → a.Cacheable vmap) :
    (run vmap s as).1.Ok ∧ Traced (origins vmap s o as) (run vmap s as).1 ∧
      runFlat vmap s.view as = ((run vmap s as).1.view, (run vmap s as).2) := by
  induction as generalizing s o with
  | nil => exact ⟨h, ho, rfl⟩
  | cons a as ih =>
    obtain ⟨ha, has⟩ := List.forall_mem_cons.mp has
    obtain ⟨hok, hflat⟩ := exec_spec h ha
    obtain ⟨hok', ho', hflat'⟩ := ih hok (ho.access ha) has
    refine ⟨hok', ho', ?_⟩
    rw [runFlat, hflat]
    dsimp only
    rw [hflat']
    rfl

/-- From an invalid cache, every run of aligned accesses to pages of the host is as without the
cache. -/
theorem transparent (vmap : VMap) (s : Machine)
    (hinvalid : ∀ i way, i < 64 → ¬ Valid ((s.pCache i).tag way)) (as : List Access)
    (has : ∀ a, a ∈ as → a.Cacheable vmap) : Transparent vmap s as := by
  obtain ⟨hok, hview⟩ := Machine.ok_of_invalid hinvalid
  have htraced : Traced (fun _ _ => none) s := fun i way hi hvalid =>
    absurd hvalid (hinvalid i way hi)
  obtain ⟨hok', ho', hflat⟩ := run_spec hok htraced has
  rw [hview] at hflat
  refine ⟨?_, fun i hi h0 h1 hpage => ?_, fun mem h0 h1 hdirty => ?_, ?_⟩
  · rw [hflat]
  · exact absurd (hok'.once i 0 1 hi h0 h1 hpage) (by decide)
  · refine ⟨_, ho' _ _ (index_lt mem) ((dirty_iff _).mp hdirty).1, ?_⟩
    rw [Machine.getFreeCache]
    dsimp only
    rw [if_neg h0, if_neg h1]
    change (Machine.writeBack _ mem _).mem = _
    rw [writeBack_of_dirty hdirty]
    rfl
  · rw [hok'.mem_flush, hflat]

/-- A byte is written and read again, in a cache of zeros. -/
theorem transparent_byte :
    Transparent (fun _ => 0) ⟨fun _ => ⟨fun _ => 0, fun _ _ => 0⟩, fun _ => 0⟩
      [.write8 0x1000 #v[5], .read8 0x1000] :=
  transparent _ _ (fun _ _ _ => by simp [Valid]) _ (fun a ha => by
    simp only [List.mem_cons, List.not_mem_nil, or_false] at ha
    rcases ha with rfl | rfl
    · exact ⟨Nat.one_dvd _, Nat.dvd_zero _, by decide⟩
    · exact ⟨Nat.one_dvd _, Nat.dvd_zero _, by decide⟩)

end Run

end OmegaRed.EE
