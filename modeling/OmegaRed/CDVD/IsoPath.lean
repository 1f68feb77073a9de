import OmegaRed.CDVD.IsoListing

/-! The way along a path of directories, and when `FindFile` finds it. -/

namespace OmegaRed.CDVD.IsoFS

open Lib Lib.Memory IsoDirectory

section path

variable (reader : SectorSource)

/-- The first of the records that has the name. -/
def Named (files : List IsoFileDescriptor) (name : List Char) (d : IsoFileDescriptor) : Prop :=
  files.find? (fun d => d.name = name) = some d

/-- The records of a directory. -/
def Holds (info : IsoFileDescriptor) (files : List IsoFileDescriptor) : Prop :=
  ∃ ps, Lists (extent reader info) info.size.toNat 0 ps ∧
    files = ps.map (recordAt (extent reader info))

/-- The directories `names` lead from the records `files` to the records `files'`. -/
inductive Leads : List IsoFileDescriptor → List (List Char) → List IsoFileDescriptor → Prop
  | here (files : List IsoFileDescriptor) : Leads files [] files
  | down {files files' files'' : List IsoFileDescriptor} {name : List Char}
      {names : List (List Char)} {info : IsoFileDescriptor} (hname : Named files name info)
      (hdir : info.isFile = false) (hholds : Holds reader info files')
      (hrest : Leads files' names files'') : Leads files (name :: names) files''

/-- The record that the path leads to. -/
inductive Found (files : List IsoFileDescriptor) (path : Path) : IsoFileDescriptor → Prop
  | file {files' : List IsoFileDescriptor} {d : IsoFileDescriptor} (hname : path.fullName ≠ [])
      (hdirs : Leads reader files path.dirs files') (hd : Named files' path.fullName d) :
      Found files path d
  | dir {files' files'' : List IsoFileDescriptor} {names : List (List Char)} {name : List Char}
      {d : IsoFileDescriptor} (hname : path.fullName = []) (hsplit : path.dirs = names ++ [name])
      (hdirs : Leads reader files names files') (hd : Named files' name d)
      (hdir : d.isFile = false) (hholds : Holds reader d files'') : Found files path d

/-- A directory that the path enters. -/
inductive Enters : List IsoFileDescriptor → List (List Char) → IsoFileDescriptor → Prop
  | here {files : List IsoFileDescriptor} {name : List Char} {names : List (List Char)}
      {info : IsoFileDescriptor} (hname : Named files name info) (hdir : info.isFile = false) :
      Enters files (name :: names) info
  | down {files files' : List IsoFileDescriptor} {name : List Char} {names : List (List Char)}
      {info d : IsoFileDescriptor} (hname : Named files name info) (hdir : info.isFile = false)
      (hholds : Holds reader info files') (hrest : Enters files' names d) :
      Enters files (name :: names) d

/-- The files that `Init` gives. -/
def listOf (b : Nat → UInt8) (info : IsoFileDescriptor) : Except Fault (List IsoFileDescriptor) :=
  match IsoDirectory.init (info.size.toNat + 2) reader info b with
  | some o => o.files
  | none => .error .endOfStream

end path

section find

variable {reader : SectorSource} {b : Nat → UInt8} {files files' : List IsoFileDescriptor}
  {names : List (List Char)} {info d : IsoFileDescriptor}

theorem getEntry_of_named {name : List Char} (h : Named files name d) :
    getEntry files name = .ok d := by
  rw [getEntry, h]

theorem named_of_getEntry {name : List Char} (h : getEntry files name = .ok d) :
    Named files name d := by
  rw [getEntry] at h
  split at h
  · rename_i d' hfind
    cases h
    exact hfind
  · cases h

theorem getEntry_error {name : List Char} {e : Fault} (h : getEntry files name = .error e) :
    e = .fileNotFound := by
  rw [getEntry] at h
  split at h
  · cases h
  · cases h
    rfl

theorem listOf_of_contiguous (h : Contiguous reader info) :
    ∃ files, listOf reader b info = .ok files ∧ Holds reader info files := by
  obtain ⟨o, ho, _, hlisted, _⟩ := correct_of_contiguous (b := b) h
  obtain ⟨ps, q, hc, hwf, hpad⟩ := h
  have hlists := hc.lists hwf hpad.lists
  refine ⟨_, ?_, ps, hlists, rfl⟩
  rw [listOf, ho]
  exact hlisted ps hlists

theorem Holds.unique (h : Holds reader info files) (h' : Holds reader info files') :
    files = files' := by
  obtain ⟨ps, hps, rfl⟩ := h
  obtain ⟨ps', hps', rfl⟩ := h'
  rw [hps.unique hps']

theorem walk_spec (names : List (List Char)) (files : List IsoFileDescriptor)
    (info : IsoFileDescriptor) (hplain : ∀ d, Enters reader files names d → Contiguous reader d) :
    (∃ files' last, walk (listOf reader b) names files info = .ok (files', last) ∧
        Leads reader files names files' ∧
        (names = [] ∨ ∃ init name files'', names = init ++ [name] ∧
          Leads reader files init files'' ∧ Named files'' name last ∧ last.isFile = false ∧
          Holds reader last files')) ∨
      walk (listOf reader b) names files info = .error .fileNotFound ∧
        ∀ files', ¬ Leads reader files names files' := by
  induction names generalizing files info with
  | nil => exact .inl ⟨files, info, rfl, .here files, .inl rfl⟩
  | cons name names ih =>
    rw [walk]
    cases hget : getEntry files name with
    | error e =>
      rw [getEntry_error hget]
      refine .inr ⟨rfl, fun files' hleads => ?_⟩
      cases hleads with
      | down hname => rw [getEntry_of_named hname] at hget; cases hget
    | ok next =>
      have hnamed := named_of_getEntry hget
      cases hfile : next.isFile with
      | true =>
        refine .inr ⟨if_pos hfile, fun files' hleads => ?_⟩
        cases hleads with
        | down hname hdir =>
          obtain rfl := Option.some.inj (hname.symm.trans hnamed)
          rw [hfile] at hdir
          cases hdir
      | false =>
        obtain ⟨inside, hlist, hholds⟩ :=
          listOf_of_contiguous (b := b) (hplain next (.here hnamed hfile))
        simp only [hfile, Bool.false_eq_true, if_false, hlist]
        rcases ih inside next fun d hd => hplain d (.down hnamed hfile hholds hd) with
          ⟨files', last, hwalk, hleads, hlast⟩ | ⟨hwalk, hnone⟩
        · refine .inl ⟨files', last, hwalk, .down hnamed hfile hholds hleads, .inr ?_⟩
          rcases hlast with rfl | ⟨init, name', files'', rfl, hinit, hrest⟩
          · cases hwalk
            cases hleads
            exact ⟨[], name, files, rfl, .here files, hnamed, hfile, hholds⟩
          · exact ⟨name :: init, name', files'', rfl, .down hnamed hfile hholds hinit, hrest⟩
        · refine .inr ⟨hwalk, fun files' hleads => ?_⟩
          cases hleads with
          | down hname hdir hholds' hrest =>
            obtain rfl := Option.some.inj (hname.symm.trans hnamed)
            obtain rfl := hholds'.unique hholds
            exact hnone _ hrest

theorem Leads.unique {files'' : List IsoFileDescriptor} (h : Leads reader files names files')
    (h' : Leads reader files names files'') : files' = files'' := by
  induction h with
  | here =>
    cases h'
    rfl
  | down hname _ hholds _ ih =>
    cases h' with
    | down hname' _ hholds' hrest =>
      obtain rfl := Option.some.inj (hname.symm.trans hname')
      obtain rfl := hholds.unique hholds'
      exact ih hrest

theorem Leads.snoc {files'' : List IsoFileDescriptor} {name : List Char}
    (h : Leads reader files names files') (hname : Named files' name d) (hdir : d.isFile = false)
    (hholds : Holds reader d files'') : Leads reader files (names ++ [name]) files'' := by
  induction h with
  | here => exact .down hname hdir hholds (.here _)
  | down hname' hdir' hholds' _ ih => exact .down hname' hdir' hholds' (ih hname)

theorem Found.unique {path : Path} {d' : IsoFileDescriptor} (h : Found reader files path d)
    (h' : Found reader files path d') : d = d' := by
  cases h with
  | file hname hdirs hd =>
    cases h' with
    | file _ hdirs' hd' =>
      obtain rfl := hdirs.unique hdirs'
      exact Option.some.inj (hd.symm.trans hd')
    | dir hnone => exact absurd hnone hname
  | dir hnone hsplit hdirs hd =>
    cases h' with
    | file hname => exact absurd hnone hname
    | dir _ hsplit' hdirs' hd' =>
      obtain ⟨rfl, hlast⟩ := List.append_inj' (hsplit.symm.trans hsplit') rfl
      obtain rfl := List.singleton_inj.mp hlast
      obtain rfl := hdirs.unique hdirs'
      exact Option.some.inj (hd.symm.trans hd')

/-- Over contiguous directories `FindFile` finds the record that the path leads to, or no file. -/
theorem findFile_spec {path : Path} (hpath : path.dirs ≠ [] ∨ path.fullName ≠ [])
    (hplain : ∀ d, Enters reader files path.dirs d → Contiguous reader d) :
    (∃ d, findFile (listOf reader b) files path = .ok d ∧ Found reader files path d) ∨
      findFile (listOf reader b) files path = .error .fileNotFound ∧
        ∀ d, ¬ Found reader files path d := by
  rw [findFile]
  rcases walk_spec (b := b) path.dirs files .blank hplain with
    ⟨files', last, hwalk, hleads, hlast⟩ | ⟨hwalk, hnone⟩
  · rw [hwalk]
    by_cases hname : path.fullName = []
    · simp only [hname, if_true]
      rcases hlast with hnil | ⟨init, name, files'', hsplit, hinit, hd, hdir, hholds⟩
      · exact absurd hname (hpath.resolve_left (not_not_intro hnil))
      · exact .inl ⟨last, rfl, .dir hname hsplit hinit hd hdir hholds⟩
    · simp only [hname, if_false]
      cases hget : getEntry files' path.fullName with
      | ok d => exact .inl ⟨d, rfl, .file hname hleads (named_of_getEntry hget)⟩
      | error e =>
        rw [getEntry_error hget]
        refine .inr ⟨rfl, fun d hd => ?_⟩
        cases hd with
        | file _ hdirs hd =>
          obtain rfl := hdirs.unique hleads
          rw [getEntry_of_named hd] at hget
          cases hget
        | dir hempty => exact hname hempty
  · rw [hwalk]
    refine .inr ⟨rfl, fun d hd => ?_⟩
    cases hd with
    | file _ hdirs => exact hnone _ hdirs
    | dir _ hsplit hdirs hd hdir hholds =>
      rw [hsplit] at hnone
      exact hnone _ (hdirs.snoc hd hdir hholds)

end find

/-- `Init` is right about an extent exactly where its record lengths lead on to the padding behind
the last record, or over the end of an extent that ends inside a sector; and over such directories
`FindFile` gives the record that the path leads to, or finds no file. -/
theorem listing_correct_iff (reader : SectorSource) (b : Nat → UInt8) :
    (∀ entry, Correct reader entry b ↔ Contiguous reader entry ∨ CutShort reader entry b) ∧
      ∀ (files : List IsoFileDescriptor) (path : Path), path.dirs ≠ [] ∨ path.fullName ≠ [] →
        (∀ d, Enters reader files path.dirs d → Contiguous reader d) →
        (∀ d, findFile (listOf reader b) files path = .ok d ↔ Found reader files path d) ∧
          ((∀ d, ¬ Found reader files path d) →
            findFile (listOf reader b) files path = .error .fileNotFound) := by
  refine ⟨fun entry => correct_iff, fun files path hpath hplain => ?_⟩
  rcases findFile_spec (b := b) hpath hplain with ⟨d, hfind, hfound⟩ | ⟨hfind, hnone⟩
  · refine ⟨fun d' => ⟨fun h => ?_, fun h => ?_⟩, fun hno => absurd hfound (hno d)⟩
    · obtain rfl := Except.ok.inj (hfind.symm.trans h)
      exact hfound
    · rw [hfind, hfound.unique h]
  · refine ⟨fun d => ⟨fun h => ?_, fun h => absurd h (hnone d)⟩, fun _ => hfind⟩
    rw [hfind] at h
    cases h

section sample

/-- Every sector holds one record, of a directory named A. -/
def sampleReader : SectorSource := fun _ i =>
  if i = 0 then 34 else if i = 25 then 2 else if i = 32 then 1 else if i = 33 then 65 else 0

def sampleEntry (size : UInt32) : IsoFileDescriptor :=
  { IsoFileDescriptor.blank with size, flags := 2, name := ['A'] }

theorem sample_chain (size : UInt32) (hsize : 100 ≤ size.toNat) :
    Chain (extent sampleReader (sampleEntry size)) size.toNat
        (Stops (extent sampleReader (sampleEntry size)) size.toNat) 0 [0] 34 ∧
      ∀ r ∈ [0], WellFormed (extent sampleReader (sampleEntry size)) size.toNat r := by
  have hlen : extent sampleReader (sampleEntry size) 0 = 34 := rfl
  have hnat : (extent sampleReader (sampleEntry size) 0).toNat = 34 := by rw [hlen]; rfl
  constructor
  · refine .record ?_ (by omega) ?_
    · rw [Stops, hlen]
      rintro (hshort | hzero)
      · omega
      · cases hzero
    · rw [hnat]
      exact .stop (.inr rfl)
  · intro r hr
    rw [List.mem_singleton.mp hr]
    refine ⟨?_, ?_, by omega⟩
    · rw [hnat]
      exact (show (34 : Nat) ≤ 34 by decide)
    · rw [hnat]
      decide

theorem sample_contiguous : Contiguous sampleReader (sampleEntry 2048) := by
  obtain ⟨hc, hwf⟩ := sample_chain 2048 (by decide)
  refine ⟨[0], 34, hc, hwf, .inr rfl, fun k hk hlt => ?_⟩
  have htwo : (sampleEntry 2048).size.toNat = 2048 := rfl
  rw [htwo] at hlt
  simp only [sectorLength] at hk hlt
  omega

theorem listing_correct_sample :
    Correct sampleReader (sampleEntry 2048) (fun _ => 0) ∧
      findFile (listOf sampleReader fun _ => 0) [sampleEntry 2048] ⟨[['A']], []⟩ =
        .ok (sampleEntry 2048) := by
  obtain ⟨hcorrect, hfind⟩ := listing_correct_iff sampleReader fun _ => 0
  refine ⟨(hcorrect _).mpr (.inl sample_contiguous), ?_⟩
  have hnamed : Named [sampleEntry 2048] ['A'] (sampleEntry 2048) := rfl
  have henters : ∀ d, Enters sampleReader [sampleEntry 2048] [['A']] d →
      Contiguous sampleReader d := by
    intro d hd
    cases hd with
    | here hname =>
      obtain rfl := Option.some.inj (hname.symm.trans hnamed)
      exact sample_contiguous
    | down _ _ _ hrest => cases hrest
  have hholds := (listOf_of_contiguous (b := fun _ => 0) sample_contiguous).choose_spec.2
  refine ((hfind _ ⟨[['A']], []⟩ (.inl (List.cons_ne_nil _ _)) henters).1 _).mpr ?_
  have hsplit : [['A']] = [] ++ [['A']] := rfl
  exact .dir rfl hsplit (.here _) hnamed rfl hholds

/-- The records of a second sector are not listed where the first one is not full. -/
theorem not_listing_correct :
    ¬ ∀ (reader : SectorSource) (entry : IsoFileDescriptor) (b : Nat → UInt8),
      Correct reader entry b := by
  intro h
  obtain ⟨o, ho, _, hlisted, _⟩ := h sampleReader (sampleEntry 4096) fun _ => 0
  obtain ⟨hc, hwf⟩ := sample_chain 4096 (by decide)
  obtain ⟨sectors, _, hgood, _⟩ := init_of_stops (b := fun _ => 0) hc
  obtain ⟨hloads, hnames⟩ := loads_of_wellFormed (fun _ => 0) hwf
  obtain rfl := Option.some.inj (ho.symm.trans (hgood hnames))
  have hlen : (extent sampleReader (sampleEntry 4096) 2048).toNat = 34 := rfl
  have hsize : (sampleEntry 4096).size.toNat = 4096 := rfl
  have hlast : Lists (extent sampleReader (sampleEntry 4096)) 4096 2048 [2048] := by
    refine .record (by decide) (by decide) ⟨by decide, by decide, by decide⟩ ?_
    rw [hlen]
    exact .pad (by decide) (by decide) (.done (by decide))
  have hboth : Lists (extent sampleReader (sampleEntry 4096)) 4096 0 [0, 2048] := by
    refine .record (by decide) (by decide) (hwf 0 (List.mem_singleton.mpr rfl)) ?_
    exact .pad (by decide) (by decide) hlast
  have hfiles := Except.ok.inj (hlisted _ hboth)
  rw [hloads] at hfiles
  cases congrArg List.length hfiles

end sample

end OmegaRed.CDVD.IsoFS
