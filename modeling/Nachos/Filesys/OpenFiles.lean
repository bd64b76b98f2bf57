import Nachos.Filesys.Consistency

/-!
# Open files

Runs of `Create`, `Open`, `Remove`, `ReadAt` and `WriteAt`. An open file keeps the header that it
read when it was opened, and `Remove` does not know which files are open. As long as nobody writes
to a file that has been removed since it was opened, a write stays within the data of its own file
(`writes_separate`). A write to a removed file lands in whatever its sectors are used for now
(`write_to_removed`).
-/

namespace Nachos.Filesys.OpenFiles

open WordBytes Ownership Transition
open Frames (held)

/-- `FileSystem::Open`, with the sector of the header. `slotFree` is whether `getIdxFreeSlot` has
found a slot. -/
def openFile (fs : FileSystem) (disk : Disk) (raw : Bytes) (slotFree : Bool) (name : CString) :
    Except Failure (Option (Int × FileHeader)) :=
  if !slotFree then .ok none
  else do
    let directory ← (Directory.new NumDirEntries raw).fetchFrom disk fs.directoryFile
    let sector := directory.find name
    if 0 ≤ sector then
      let hdr ← FileHeader.fetchFrom disk sector
      pure (some (sector, hdr))
    else pure none

/-- An `OpenFile`. The source keeps the header only, not the sector from which it was read nor
whether the file has been removed since. -/
structure Handle where
  hdr : FileHeader
  sector : Int
  removed : Bool

/-- The file system and the files that are open. -/
structure State extends Filesys.State where
  handles : List Handle

/-- The operations. -/
inductive Act where
  | file (act : Filesys.Act)
  | openFile (raw : Bytes) (slotFree : Bool) (name : CString)
  | close (i : Nat)
  | readAt (i : Nat) (into : Bytes) (numBytes position : Int)
  | writeAt (i : Nat) (source raw : Bytes) (numBytes position : Int)

inductive Event where
  | file (event : Filesys.Event)
  | opened (name : CString) (sector : Int)

/-- An open file after some operations of the file system. -/
def Handle.after (events : List Filesys.Event) (h : Handle) : Handle :=
  { h with removed := h.removed || events.any fun
    | .removed _ sector => sector == h.sector
    | .created _ _ => false }

/-- One operation. It is refused when the file is not open or something fails. -/
def step (s : State) : Act → Option (List Event × State)
  | .file act => do
    let (events, t) ← Filesys.step s.toState act
    pure (events.map .file, ⟨t, s.handles.map (Handle.after events)⟩)
  | .openFile raw slotFree name => do
    match ← (openFile s.fs s.disk raw slotFree name).toOption with
    | none => pure ([], s)
    | some (sector, hdr) =>
      pure ([.opened name sector], { s with handles := s.handles ++ [⟨hdr, sector, false⟩] })
  | .close i => some ([], { s with handles := s.handles.eraseIdx i })
  | .readAt i into numBytes position => do
    let h ← s.handles[i]?
    let _ ← (readAt s.disk h.hdr into numBytes position).toOption
    pure ([], s)
  | .writeAt i source raw numBytes position => do
    let h ← s.handles[i]?
    let (_, disk) ← (writeAt s.disk h.hdr source raw numBytes position).toOption
    pure ([], { s with disk })

/-- Nobody writes to a file that has been removed since it was opened. -/
def Careful (s : State) : Act → Prop
  | .file act => Sized s.toState act
  | .writeAt i _ _ _ _ => ∀ h, s.handles[i]? = some h → h.removed = false
  | _ => True

/-! ## Writing within a file -/

section Sound

variable {fs : FileSystem} {disk disk' : Disk}

/-- Two files share no sector. -/
theorem fileSectors_disjoint (h : Sound fs disk) {f g : Key × Int} (hf : f ∈ filesOn disk)
    (hg : g ∈ filesOn disk) (hne : f ≠ g) :
    List.Disjoint (fileSectors disk f) (fileSectors disk g) := by
  have hpairs := (List.pairwise_cons.mp h.owned.pairwise_disjoint).2
  have : Std.Symm fun a b => List.Disjoint (fileSectors disk a) (fileSectors disk b) :=
    ⟨fun _ _ hdisjoint => hdisjoint.symm⟩
  exact (List.pairwise_map.mp hpairs).forall hf hg hne

/-- The data sectors of a file hold nothing else. -/
theorem data_separate (h : Sound fs disk) {f : Key × Int} (hf : f ∈ filesOn disk) {x : Int}
    (hx : x ∈ (headerOn disk f.2).sectors) :
    x ∉ systemSectors ∧ x ≠ f.2 ∧ ∀ g ∈ filesOn disk, g ≠ f → x ∉ fileSectors disk g := by
  have hmem : x ∈ fileSectors disk f := List.mem_cons_of_mem _ hx
  have hnodup := h.sectors_nodup hf
  rw [fileSectors, List.nodup_cons] at hnodup
  exact ⟨(h.marked hf hmem).2, fun heq => hnodup.1 (heq ▸ hx),
    fun g hg hne hgx => fileSectors_disjoint h hg hf hne hgx hmem⟩

/-- What is not in the data of a file keeps its contents when only these change. -/
theorem headers_kept (h : Sound fs disk) {f : Key × Int} (hf : f ∈ filesOn disk)
    (hframe : ∀ x, x ∉ (headerOn disk f.2).sectors → disk' x = disk x) :
    (∀ x ∈ systemSectors, disk' x = disk x) ∧ ∀ g ∈ filesOn disk, disk' g.2 = disk g.2 := by
  refine ⟨fun x hx => hframe x fun hdata => (data_separate h hf hdata).1 hx, fun g hg => ?_⟩
  refine hframe g.2 fun hdata => ?_
  obtain ⟨-, hown, hothers⟩ := data_separate h hf hdata
  by_cases hgf : g = f
  · exact hown (by rw [hgf])
  · exact hothers g hg hgf List.mem_cons_self

theorem filesOn_congr (hsystem : ∀ x ∈ systemSectors, disk' x = disk x) :
    filesOn disk' = filesOn disk := by
  rw [filesOn, directoryOn, hsystem DirectoryData (by decide), filesOn, directoryOn]

end Sound

/-! ## The invariant -/

/-- The file of an open file is in the directory, and its header is as it was read. -/
def Live (disk : Disk) (h : Handle) : Prop :=
  ∃ key, (key, h.sector) ∈ filesOn disk ∧ h.hdr = headerOn disk h.sector

/-- The disk is sound and the open files that have not been removed are files. -/
structure Good (s : State) : Prop where
  sound : Sound s.fs s.disk
  live : ∀ h ∈ s.handles, h.removed = false → Live s.disk h

variable {s t : State} {disk disk' : Disk} {h : Handle}

theorem Live.congr (hlive : Live disk h) (hfiles : ∀ f ∈ filesOn disk, f.2 = h.sector →
    f ∈ filesOn disk' ∧ headerOn disk' f.2 = headerOn disk f.2) : Live disk' h := by
  obtain ⟨key, hmem, hhdr⟩ := hlive
  obtain ⟨hmem', hheader⟩ := hfiles _ hmem rfl
  exact ⟨key, hmem', by rw [hhdr]; exact hheader.symm⟩

/-- An operation of the file system leaves a file alone that it does not remove. -/
theorem Live.effect {event : Option Filesys.Event} (hsound : Sound s.fs s.disk)
    (hlive : Live s.disk h) (heffect : Effect s.toState event disk')
    (hkept : (h.after event.toList).removed = false) : Live disk' h := by
  cases heffect with
  | failed => exact hlive
  | created hc =>
    exact hlive.congr fun f hf _ =>
      ⟨(hc.mem_files f).mpr (.inr hf), hsound.created_header hc hf⟩
  | removed hr =>
    refine hlive.congr fun f hf hsector =>
      ⟨(hr.mem_files hsound f).mpr ⟨hf, fun hkey => ?_⟩, hsound.removed_header hr hf⟩
    simp only [Handle.after, Option.toList, List.any_cons, List.any_nil, Bool.or_false,
      Bool.or_eq_false_iff, beq_eq_false_iff_ne] at hkept
    exact hkept.2 ((hsound.sector_unique hr.mem (hkey ▸ hf)).trans hsector)

/-- What `Open` finds. -/
theorem openFile_spec {fs : FileSystem} (hsound : Sound fs disk) (raw : Bytes) (slotFree : Bool)
    (name : CString) {r : Option (Int × FileHeader)}
    (h : openFile fs disk raw slotFree name = .ok r) :
    ∀ sector hdr, r = some (sector, hdr) →
      (name.key, sector) ∈ filesOn disk ∧ hdr = headerOn disk sector := by
  rintro sector hdr rfl
  unfold openFile at h
  split at h
  · cases h
  · rw [fetch_directory hsound.directoryFile, ok_bind] at h
    rcases hsound.find_cases name with ⟨hfind, -, -⟩ | ⟨-, -, hmem⟩
    · simp only [hfind] at h
      cases h
    · have honDisk := hsound.header_onDisk hmem
      simp only [if_pos honDisk.1, fetch_header honDisk] at h
      cases h
      exact ⟨hmem, rfl⟩

/-- A write to a file that has not been removed changes only its data. -/
theorem Good.written (hs : Good s) (hh : h ∈ s.handles) (hremoved : h.removed = false)
    (hframe : ∀ x, x ∉ h.hdr.sectors → disk' x = s.disk x) : Good { s with disk := disk' } := by
  obtain ⟨key, hmem, hhdr⟩ := hs.live h hh hremoved
  rw [hhdr] at hframe
  obtain ⟨hsystem, hheaders⟩ := headers_kept hs.sound hmem hframe
  refine ⟨hs.sound.congr hsystem hheaders, fun g hg hgremoved => ?_⟩
  refine (hs.live g hg hgremoved).congr fun f hf _ => ⟨?_, ?_⟩
  · rw [filesOn_congr hsystem]
    exact hf
  · exact congrArg FileHeader.ofBytes (hheaders f hf)

theorem Good.step (hs : Good s) {act : Act} {events : List Event} (hok : Careful s act)
    (hstep : step s act = some (events, t)) : Good t := by
  cases act with
  | file act =>
    simp only [OpenFiles.step, bind, Option.bind_eq_some_iff, pure, Option.some.injEq] at hstep
    obtain ⟨⟨changes, t'⟩, hfile, hstep⟩ := hstep
    cases hstep
    obtain ⟨event, disk', heffect, rfl, rfl⟩ := step_effect hs.sound hok hfile
    refine ⟨hs.sound.effect heffect, fun g hg hremoved => ?_⟩
    obtain ⟨h, hh, rfl⟩ := List.mem_map.mp hg
    have hbefore : h.removed = false := by
      simp only [Handle.after, Bool.or_eq_false_iff] at hremoved
      exact hremoved.1
    have hlive : Live disk' h := (hs.live h hh hbefore).effect hs.sound heffect hremoved
    exact hlive
  | openFile raw slotFree name =>
    simp only [OpenFiles.step, bind, Option.bind_eq_some_iff, pure] at hstep
    obtain ⟨r, hopen, hstep⟩ := hstep
    cases r with
    | none =>
      cases hstep
      exact hs
    | some found =>
      cases hstep
      obtain ⟨hmem, hhdr⟩ :=
        openFile_spec hs.sound raw slotFree name (ok_of_toOption hopen) _ _ rfl
      refine ⟨hs.sound, fun h hh hremoved => ?_⟩
      rcases List.mem_append.mp hh with hh | hh
      · exact hs.live h hh hremoved
      · cases List.mem_singleton.mp hh
        exact ⟨name.key, hmem, hhdr⟩
  | close i =>
    cases hstep
    exact ⟨hs.sound, fun h hh => hs.live h (List.mem_of_mem_eraseIdx hh)⟩
  | readAt i into numBytes position =>
    simp only [OpenFiles.step, bind, Option.bind_eq_some_iff, pure, Option.some.injEq] at hstep
    obtain ⟨h, hh, r, hread, hstep⟩ := hstep
    cases hstep
    exact hs
  | writeAt i source raw numBytes position =>
    simp only [OpenFiles.step, bind, Option.bind_eq_some_iff, pure, Option.some.injEq] at hstep
    obtain ⟨h, hh, ⟨n, disk'⟩, hwrite, hstep⟩ := hstep
    cases hstep
    have hmem := List.mem_of_getElem? hh
    have hremoved := hok h hh
    obtain ⟨key, hfile, hhdr⟩ := hs.live h hmem hremoved
    have hformed := hs.sound.formed (key, h.sector) hfile
    rw [← hhdr] at hformed
    exact hs.written hmem hremoved fun x hx => writeAt_frame hformed (ok_of_toOption hwrite) hx

/-- Every run in which nobody writes to a removed file keeps the disk and the open files good. -/
theorem good_run {trace : List Event} (hs : Good s) (hrun : Run step Careful s trace t) :
    Good t := by
  apply hrun.invariant hs
  intro s act events t hs hok hstep
  exact hs.step hok hstep

/-- From a formatted disk, as long as nobody writes to a file that has been removed since it was
opened, the sectors of an open file that has not been removed are data of its own file and of
nothing else, and a write changes nothing but these. -/
theorem writes_separate (disk : Disk) (raw : Heap) :
    ∃ fs start, format disk raw = .ok (fs, start) ∧
      ∀ trace s, Run step Careful ⟨⟨fs, start⟩, []⟩ trace s →
        ∀ h ∈ s.handles, h.removed = false →
          ∃ key, (key, h.sector) ∈ filesOn s.disk ∧
            h.hdr.sectors = (headerOn s.disk h.sector).sectors ∧
            (∀ x ∈ h.hdr.sectors, x ∉ systemSectors ∧
              ∀ g ∈ filesOn s.disk, g ≠ (key, h.sector) → x ∉ fileSectors s.disk g) ∧
            ∀ (source raw : Bytes) (numBytes position : Int), 0 ≤ position →
              position + numBytes < 2147483648 →
              ∃ n disk', writeAt s.disk h.hdr source raw numBytes position = .ok (n, disk') ∧
                ∀ x, x ∉ h.hdr.sectors → disk' x = s.disk x := by
  obtain ⟨fs, start, hformat, hsound, -⟩ := format_spec disk raw
  refine ⟨fs, start, hformat, fun trace s hrun h hh hremoved => ?_⟩
  have hs := good_run ⟨hsound, by simp⟩ hrun
  obtain ⟨key, hmem, hhdr⟩ := hs.live h hh hremoved
  refine ⟨key, hmem, by rw [hhdr], fun x hx => ?_, fun source raw numBytes position h0 hfits => ?_⟩
  · rw [hhdr] at hx
    obtain ⟨hsystem, -, hothers⟩ := data_separate hs.sound hmem hx
    exact ⟨hsystem, hothers⟩
  · have hformed := hs.sound.formed (key, h.sector) hmem
    rw [← hhdr] at hformed
    exact writeAt_spec hformed h0 hfits

/-! ## A file that is removed while it is open -/

theorem step_file {act : Filesys.Act} {events : List Filesys.Event} {t : Filesys.State}
    (hfile : Filesys.step s.toState act = some (events, t)) :
    step s (.file act) = some (events.map .file, ⟨t, s.handles.map (Handle.after events)⟩) := by
  simp [step, hfile]

/-- A file that is there is opened. -/
theorem step_openFile (hsound : Sound s.fs s.disk) (raw : Bytes) {name : CString} {x : Int}
    (hmem : (name.key, x) ∈ filesOn s.disk) :
    step s (.openFile raw true name) =
      some ([.opened name x],
        { s with handles := s.handles ++ [⟨headerOn s.disk x, x, false⟩] }) := by
  have hopen : openFile s.fs s.disk raw true name = .ok (some (x, headerOn s.disk x)) := by
    have honDisk := hsound.header_onDisk hmem
    rw [openFile, if_neg (by decide), fetch_directory hsound.directoryFile, ok_bind]
    simp only [hsound.find_eq hmem, if_pos honDisk.1, fetch_header honDisk]
    rfl
  simp [step, hopen, Except.toOption]

/-- The names `a` and `b`. -/
def nameA : CString := ⟨[97], by decide⟩

@[inherit_doc nameA]
def nameB : CString := ⟨[98], by decide⟩

/-- On a formatted disk of zeros the file `a` of one sector gets the sectors 4 and 5. -/
theorem run_opened :
    ∃ fs start disk', format (fun _ _ => 0) (fun _ _ => 0) = .ok (fs, start) ∧ Sound fs disk' ∧
      (freeMapOn start).clearBits = List.range' 4 1020 ∧ filesOn disk' = [(nameA.key, 4)] ∧
      Created start nameA SectorSize 4 disk' ∧ (headerOn disk' 4).OneSector SectorSize 5 ∧
      disk' 5 = (fun _ => 0) ∧
      Run step Careful ⟨⟨fs, start⟩, []⟩ [.file (.created nameA 4), .opened nameA 4]
        ⟨⟨fs, disk'⟩, [⟨headerOn disk' 4, 4, false⟩]⟩ := by
  obtain ⟨fs, start, hformat, hsound, hfiles, hclear, hframe⟩ :=
    format_spec (fun _ _ => 0) fun _ _ => 0
  have hn : SectorSize ≤ MaxFileSize := by decide
  obtain ⟨sector, disk', hcreate, hc⟩ := @step_create ⟨fs, start⟩ hsound (fun _ _ => 0) nameA
    SectorSize hn (room_formatted _ hn hfiles hclear)
  have hfree : (freeMapOn start).clearBits = 4 :: 5 :: List.range' 6 1018 := hclear
  obtain ⟨rfl, hone⟩ := hc.whole_sector hfree
  have hfiles' : filesOn disk' = [(nameA.key, 4)] := hc.first_file hfiles
  have hsound' := hsound.created hc
  have hopen := @step_openFile ⟨⟨fs, disk'⟩, []⟩ hsound' (fun _ => 0) nameA 4
    (by rw [hfiles']; exact List.mem_cons_self)
  refine ⟨fs, start, disk', hformat, hsound', hclear, hfiles', hc, hone, ?_, ?_⟩
  · exact (hc.frame 5 (by decide) (by decide) (by decide)).trans (hframe 5 (by decide))
  · have hsized : Careful ⟨⟨fs, start⟩, []⟩ (.file (.create (fun _ _ => 0) nameA SectorSize)) :=
      ⟨by decide, by decide⟩
    have hcreated := Run.snoc .refl hsized (step_file (s := ⟨⟨fs, start⟩, []⟩) hcreate)
    have hcareful : Careful ⟨⟨fs, disk'⟩, []⟩ (.openFile (fun _ => 0) true nameA) := True.intro
    exact Run.snoc hcreated hcareful hopen

/-- The file `a` is open, and what is written to it goes to the sector 5. -/
theorem writes_separate_opened :
    ∃ fs start s h key, format (fun _ _ => 0) (fun _ _ => 0) = .ok (fs, start) ∧
      Run step Careful ⟨⟨fs, start⟩, []⟩ [.file (.created nameA 4), .opened nameA 4] s ∧
      h ∈ s.handles ∧ (key, h.sector) ∈ filesOn s.disk ∧ h.hdr.sectors = [5] ∧
      ∃ n disk', writeAt s.disk h.hdr (fun _ => 1) (fun _ => 0) 1 0 = .ok (n, disk') ∧
        ∀ x, x ∉ h.hdr.sectors → disk' x = s.disk x := by
  obtain ⟨fs, start, hformat, hall⟩ := writes_separate (fun _ _ => 0) fun _ _ => 0
  obtain ⟨fs', start', disk', hformat', -, -, -, -, hone, -, hrun⟩ := run_opened
  cases hformat.symm.trans hformat'
  have hmem := List.mem_singleton.mpr (rfl : (⟨headerOn disk' 4, 4, false⟩ : Handle) = _)
  obtain ⟨key, hfile, -, -, hwrite⟩ := hall _ _ hrun _ hmem rfl
  exact ⟨fs, start, _, _, key, hformat, hrun, hmem, hfile, hone.sectors_eq,
    hwrite _ _ 1 0 (by decide) (by decide)⟩

/-- The file `a` is created, opened and removed, and `b` is created: it gets the sectors of `a`. A
write to `a` changes the contents of `b`. -/
theorem write_to_removed :
    ∃ fs start s h disk', format (fun _ _ => 0) (fun _ _ => 0) = .ok (fs, start) ∧
      Run step anyAct ⟨⟨fs, start⟩, []⟩ [.file (.created nameA 4), .opened nameA 4,
        .file (.removed nameA 4), .file (.created nameB 4)] s ∧
      s.handles = [h] ∧ filesOn s.disk = [(nameB.key, 4)] ∧ (headerOn s.disk 4).sectors = [5] ∧
      writeAt s.disk h.hdr (fun _ => 1) (fun _ => 0) SectorSize 0 = .ok (SectorSize, disk') ∧
      s.disk 5 0 = 0 ∧ disk' 5 0 = 1 := by
  obtain ⟨fs, start, disk₁, hformat, hsound, hclear, hfiles, hc, hone, hzero, hrun⟩ := run_opened
  -- `Remove`
  obtain ⟨disk₂, hremove, hr⟩ := @step_remove ⟨fs, disk₁⟩ hsound (fun _ _ => 0) nameA 4
    (by rw [hfiles]; exact List.mem_cons_self)
  have hfree : (freeMapOn disk₂).clearBits = 4 :: 5 :: List.range' 6 1018 :=
    (Removed.restored hc hr).trans hclear
  have hfiles₂ : filesOn disk₂ = [] := by
    obtain ⟨before, after, hbefore, hafter⟩ := hr.files
    have hlength := congrArg List.length (hfiles.symm.trans hbefore)
    simp only [List.length_append, List.length_cons, List.length_nil] at hlength
    rw [hafter, List.length_eq_zero_iff.mp (show before.length = 0 by omega),
      List.length_eq_zero_iff.mp (show after.length = 0 by omega), List.nil_append]
  have hsound₂ := hsound.removed hr
  -- `Create`
  have hn : SectorSize ≤ MaxFileSize := by decide
  obtain ⟨sector, disk₃, hcreate, hc₃⟩ := @step_create ⟨fs, disk₂⟩ hsound₂ (fun _ _ => 0) nameB
    SectorSize hn (room_formatted _ hn hfiles₂ hfree)
  obtain ⟨rfl, hone₃⟩ := hc₃.whole_sector hfree
  have hzero₃ : disk₃ 5 = fun _ => 0 :=
    (hc₃.frame 5 (by decide) (by decide) (by decide)).trans
      ((hr.frame 5 (by decide) (by decide)).trans hzero)
  obtain ⟨data, hdata, hwrite⟩ := writeAt_whole disk₃ (fun _ => 1) (fun _ => 0) hone
  have hremoved := Run.snoc (hrun.mono fun _ _ _ => True.intro) True.intro
    (step_file (s := ⟨⟨fs, disk₁⟩, [⟨headerOn disk₁ 4, 4, false⟩]⟩) hremove)
  have hcreated := Run.snoc hremoved True.intro
    (step_file (s := ⟨⟨fs, disk₂⟩, [⟨headerOn disk₁ 4, 4, true⟩]⟩) hcreate)
  refine ⟨fs, start, _, _, _, hformat, hcreated, rfl, hc₃.first_file hfiles₂,
    hone₃.sectors_eq, hwrite, ?_, ?_⟩
  · exact congrFun hzero₃ 0
  · rw [Function.update_self, hdata 0 (by decide)]

end Nachos.Filesys.OpenFiles
