import Nachos.Filesys.Consistency
import Nachos.Userprog.Syscalls

/-!
# The names of files

What `Find` returns after a run of `Create` and `Remove`, from the history of the run. Names are
stored and compared up to `FileNameMaxLen` characters, so `find_by_key` speaks of the beginnings of
names. When no two names in use have the same beginning, names identify files (`names_identify`);
otherwise one name finds the file of another (`name_confused`).
-/

namespace Nachos.Filesys

open Transition

/-- The name in a call. -/
def Act.name : Act → CString
  | .create _ name _ => name
  | .remove _ name => name

def Event.name : Event → CString
  | .created name _ => name
  | .removed name _ => name

/-- The header that a name has after an event that is about it. -/
def Event.header : Event → Option Int
  | .created _ sector => some sector
  | .removed _ _ => none

/-- The header of the file that has been created under one of the names and not removed since. -/
def holder (names : CString → Bool) (trace : List Event) : Option Int :=
  trace.foldl (fun r event => if names event.name then event.header else r) none

section Holder

variable {names : CString → Bool} {trace : List Event}

theorem holder_append (events : List Event) : holder names (trace ++ events) =
    events.foldl (fun r event => if names event.name then event.header else r)
      (holder names trace) :=
  List.foldl_append

theorem holder_snoc (event : Event) : holder names (trace ++ [event]) =
    if names event.name then event.header else holder names trace :=
  holder_append [event]

/-- What happens to other names does not matter. -/
theorem holder_other {events : List Event} (h : ∀ e ∈ events, names e.name = false) :
    holder names (trace ++ events) = holder names trace := by
  induction events using List.reverseRecOn with
  | nil => rw [List.append_nil]
  | append_singleton events event ih =>
    rw [← List.append_assoc, holder_snoc, h event (by simp), if_neg Bool.false_ne_true]
    exact ih fun e he => h e (by simp [he])

theorem holder_congr {names' : CString → Bool} (h : ∀ e ∈ trace, names e.name = names' e.name) :
    holder names trace = holder names' trace := by
  induction trace using List.reverseRecOn with
  | nil => rfl
  | append_singleton events event ih =>
    rw [holder_snoc, holder_snoc, h event (by simp), ih fun e he => h e (by simp [he])]

end Holder

/-! ## Find by the beginning of the name -/

/-- The files on the disk are those that have been created and not removed since. -/
def Recorded (trace : List Event) (disk : Disk) : Prop :=
  ∀ key x, (key, x) ∈ filesOn disk ↔ holder (fun name => name.key = key) trace = some x

variable {s t : State} {trace : List Event} {event : Option Event} {disk' : Disk} {act : Act}

theorem Recorded.effect (h : Recorded trace s.disk) (hsound : Sound s.fs s.disk)
    (heffect : Effect s event disk') : Recorded (trace ++ event.toList) disk' := by
  intro key x
  cases heffect with
  | failed => simpa using h key x
  | @created name n sector disk' hc =>
    rw [Option.toList_some, holder_snoc, hc.mem_files, Event.name, Event.header]
    by_cases hkey : name.key = key
    · have hnew : (key, x) ∉ filesOn s.disk := fun hold => hc.new _ hold hkey.symm
      simp [hkey, hnew, eq_comm]
    · simp [hkey, h key x, Ne.symm hkey]
  | @removed name sector disk' hr =>
    rw [Option.toList_some, holder_snoc, hr.mem_files hsound, Event.name, Event.header]
    by_cases hkey : name.key = key
    · simp [hkey]
    · simp [hkey, h key x, Ne.symm hkey]

/-- After every run the files on the disk are recorded in its history. -/
theorem recorded_run {fs : FileSystem} {start : Disk} (hsound : Sound fs start)
    (hempty : filesOn start = []) (hrun : Run step Sized ⟨fs, start⟩ trace s) :
    Sound s.fs s.disk ∧ Recorded trace s.disk := by
  apply hrun.traceInvariant
  · exact ⟨hsound, fun key x => by simp [hempty, holder]⟩
  · intro tr s act events t hs hsized hstep
    obtain ⟨event, disk', heffect, rfl, rfl⟩ := step_effect hs.1 hsized hstep
    exact ⟨hs.1.effect heffect, hs.2.effect hs.1 heffect⟩

/-- `Find` returns the header of the file that has been created under a name with this beginning
and not removed since. -/
theorem find_by_key (hsound : Sound s.fs s.disk) (h : Recorded trace s.disk) (name : CString) :
    (directoryOn s.disk).find name =
        (holder (fun other => other.key = name.key) trace).getD (-1) ∧
      holder (fun other => other.key = name.key) trace ≠ some (-1) := by
  cases hholder : holder (fun other => other.key = name.key) trace with
  | none =>
    refine ⟨?_, by simp⟩
    rcases hsound.find_cases name with ⟨hfind, -, -⟩ | ⟨-, -, hmem⟩
    · exact hfind
    · rw [h, hholder] at hmem
      cases hmem
  | some x =>
    have hmem := (h name.key x).mpr hholder
    have honDisk := hsound.header_onDisk hmem
    refine ⟨hsound.find_eq hmem, fun heq => ?_⟩
    cases heq
    omega

/-! ## Find by the name -/

theorem ok_of_map {α β : Type} {f : α → β} {x : Except Failure α} {b : β}
    (h : x.map f = .ok b) : ∃ a, f a = b := by
  cases x with
  | error e => cases h
  | ok a => exact ⟨a, Except.ok.inj h⟩

/-- The event of an operation is about the name in the call. -/
theorem perform_name (h : perform s act = .ok (event, disk')) :
    ∀ e ∈ event.toList, e.name = act.name := by
  intro e he
  cases act with
  | create raw name initialSize =>
    obtain ⟨r, heq⟩ := ok_of_map h
    cases heq
    obtain ⟨sector, -, rfl⟩ := Option.map_eq_some_iff.mp (Option.mem_toList.mp he)
    rfl
  | remove raw name =>
    obtain ⟨r, heq⟩ := ok_of_map h
    cases heq
    obtain ⟨sector, -, rfl⟩ := Option.map_eq_some_iff.mp (Option.mem_toList.mp he)
    rfl

theorem step_name {events : List Event} (h : step s act = some (events, t)) :
    ∀ e ∈ events, e.name = act.name := by
  unfold step at h
  split at h
  · rename_i hperform
    cases h
    exact perform_name hperform
  · cases h

section Identify

variable {used : CString → Prop}

/-- Only names in use occur in calls. -/
def Uses (used : CString → Prop) (s : State) (act : Act) : Prop := Sized s act ∧ used act.name

theorem used_of_mem {start : State} (hrun : Run step (Uses used) start trace s) :
    ∀ e ∈ trace, used e.name := by
  apply hrun.traceInvariant
  · simp
  · intro tr s act events t htr hok hstep e he
    rcases List.mem_append.mp he with he | he
    · exact htr e he
    · exact step_name hstep e he ▸ hok.2

/-- Among names in use the beginning of a name is as good as the name. -/
theorem holder_name (hused : ∀ a b, used a → used b → a.key = b.key → a = b)
    (htrace : ∀ e ∈ trace, used e.name) {name : CString} (hname : used name) :
    holder (fun other => other.key = name.key) trace = holder (· = name) trace := by
  refine holder_congr fun e he => ?_
  have hiff : e.name.key = name.key ↔ e.name = name :=
    ⟨hused _ _ (htrace e he) hname, fun heq => by rw [heq]⟩
  simp [hiff]

/-- `Remove` returns `TRUE` for the names with a recorded beginning. -/
theorem remove_by_key (hsound : Sound s.fs s.disk) (h : Recorded trace s.disk) (raw : Heap)
    (name : CString) : ∃ disk', s.fs.remove s.disk raw name =
      .ok (holder (fun other => other.key = name.key) trace, disk') := by
  rcases remove_spec hsound raw name with ⟨hnew, heq⟩ | ⟨sector, disk', heq, hremoved⟩
  · refine ⟨s.disk, ?_⟩
    cases hholder : holder (fun other => other.key = name.key) trace with
    | none => exact heq
    | some x => exact absurd rfl (hnew _ ((h name.key x).mpr hholder))
  · exact ⟨disk', by rw [heq, (h name.key sector).mp hremoved.mem]⟩

/-- When no two names in use have the same first nine characters, `Find` returns a sector exactly
for the names under which a file has been created and not removed since, and it is the sector of its
header; `Remove` succeeds for exactly these; and a call with one name does not change what `Find`
returns for another. -/
theorem names_identify (used : CString → Prop)
    (hused : ∀ a b, used a → used b → a.key = b.key → a = b) (disk : Disk) (raw : Heap) :
    ∃ fs start, format disk raw = .ok (fs, start) ∧
      ∀ trace s, Run step (Uses used) ⟨fs, start⟩ trace s →
        ∃ directory,
          (∀ bytes, (Directory.new NumDirEntries bytes).fetchFrom s.disk s.fs.directoryFile =
            .ok directory) ∧
          ∀ name, used name →
            (directory.find name ≠ -1 ↔ ∃ sector, holder (· = name) trace = some sector) ∧
            (∀ sector, holder (· = name) trace = some sector → directory.find name = sector) ∧
            (∀ raw, ∃ disk',
              s.fs.remove s.disk raw name = .ok (holder (· = name) trace, disk')) ∧
            ∀ act events t, Uses used s act → act.name ≠ name → step s act = some (events, t) →
              (directoryOn t.disk).find name = directory.find name := by
  obtain ⟨fs, start, hformat, hstart, hempty, -⟩ := format_spec disk raw
  have hrecorded : ∀ {trace s}, Run step (Uses used) ⟨fs, start⟩ trace s →
      Sound s.fs s.disk ∧ Recorded trace s.disk := fun hrun =>
    recorded_run hstart hempty (hrun.mono fun _ _ hok => hok.1)
  refine ⟨fs, start, hformat, fun trace s hrun => ?_⟩
  obtain ⟨hsound, hs⟩ := hrecorded hrun
  refine ⟨directoryOn s.disk, fetch_directory hsound.directoryFile s.disk, fun name hname => ?_⟩
  have hholder := holder_name hused (used_of_mem hrun) hname
  obtain ⟨hfind, hvalid⟩ := find_by_key hsound hs name
  rw [hholder] at hfind hvalid
  refine ⟨?_, fun sector hsector => by rw [hfind, hsector]; rfl,
    fun raw => hholder ▸ remove_by_key hsound hs raw name, fun act events t hok hne hstep => ?_⟩
  · rw [hfind]
    cases hcase : holder (· = name) trace with
    | none => simp
    | some sector =>
      rw [hcase] at hvalid
      simpa using hvalid
  · have hrun' := hrun.snoc hok hstep
    obtain ⟨hsound', ht⟩ := hrecorded hrun'
    have hother : holder (· = name) (trace ++ events) = holder (· = name) trace :=
      holder_other fun e he => by simpa [step_name hstep e he] using hne
    rw [(find_by_key hsound' ht name).1, holder_name hused (used_of_mem hrun') hname, hother, hfind]

end Identify

/-- Names of at most nine characters are their own beginnings. -/
theorem key_injective_short {a b : CString} (ha : a.chars.length ≤ FileNameMaxLen)
    (hb : b.chars.length ≤ FileNameMaxLen) (h : a.key = b.key) : a = b := by
  rw [CString.key, CString.key, List.take_of_length_le ha, List.take_of_length_le hb] at h
  cases a
  cases b
  cases h
  rfl

/-- The file `a` is found under its name. -/
theorem names_identify_short :
    ∃ fs start sector s directory, format (fun _ _ => 0) (fun _ _ => 0) = .ok (fs, start) ∧
      Run step (Uses fun name => name.chars.length ≤ FileNameMaxLen) ⟨fs, start⟩
        [.created ⟨[97], by decide⟩ sector] s ∧
      (Directory.new NumDirEntries fun _ => 0).fetchFrom s.disk s.fs.directoryFile =
        .ok directory ∧
      directory.find ⟨[97], by decide⟩ = sector := by
  obtain ⟨fs, start, hformat, hall⟩ := names_identify
    (fun name => name.chars.length ≤ FileNameMaxLen) (fun _ _ => key_injective_short)
    (fun _ _ => 0) fun _ _ => 0
  obtain ⟨fs', start', hformat', hsound, hfiles, hclear, -⟩ :=
    format_spec (fun _ _ => 0) fun _ _ => 0
  cases hformat.symm.trans hformat'
  have hn : 0 ≤ MaxFileSize := by decide
  obtain ⟨sector, disk', hstep, -⟩ := @step_create ⟨fs, start⟩ hsound (fun _ _ => 0)
    ⟨[97], by decide⟩ 0 hn (room_formatted _ hn hfiles hclear)
  have huses : Uses (fun name => name.chars.length ≤ FileNameMaxLen) ⟨fs, start⟩
      (.create (fun _ _ => 0) ⟨[97], by decide⟩ (0 : Nat)) := ⟨⟨by decide, by decide⟩, by decide⟩
  have hrun := Run.snoc .refl huses hstep
  obtain ⟨directory, hfetch, hnames⟩ := hall _ _ hrun
  obtain ⟨-, hfind, -⟩ := hnames ⟨[97], by decide⟩ (by decide)
  exact ⟨fs, start, sector, _, directory, hformat, hrun, hfetch _, hfind sector rfl⟩

/-- The names `abcdefghix` and `abcdefghiy`. -/
def nameX : CString := ⟨[97, 98, 99, 100, 101, 102, 103, 104, 105, 120], by decide⟩

@[inherit_doc nameX]
def nameY : CString := ⟨[97, 98, 99, 100, 101, 102, 103, 104, 105, 121], by decide⟩

/-- A file is created under one of the names. The other finds it, cannot be created and removes
it. -/
theorem name_confused :
    nameX ≠ nameY ∧ (nameX.chars.length : Int) ≤ MAX_FILENAME_LEN ∧
      (nameY.chars.length : Int) ≤ MAX_FILENAME_LEN ∧
      ∃ fs start s sector, format (fun _ _ => 0) (fun _ _ => 0) = .ok (fs, start) ∧
        Run step Sized ⟨fs, start⟩ [.created nameX sector] s ∧
        (directoryOn s.disk).find nameY = sector ∧ sector ≠ -1 ∧
        (∀ raw, s.fs.create s.disk raw nameY 0 = .ok (none, s.disk)) ∧
        ∀ raw, ∃ disk', s.fs.remove s.disk raw nameY = .ok (some sector, disk') := by
  obtain ⟨fs, start, hformat, hsound, hfiles, hclear, -⟩ :=
    format_spec (fun _ _ => 0) fun _ _ => 0
  have hn : 0 ≤ MaxFileSize := by decide
  obtain ⟨sector, disk', hstep, -⟩ := @step_create ⟨fs, start⟩ hsound (fun _ _ => 0) nameX 0 hn
    (room_formatted _ hn hfiles hclear)
  have hsized : Sized ⟨fs, start⟩ (.create (fun _ _ => 0) nameX (0 : Nat)) :=
    ⟨by decide, by decide⟩
  have hrun := Run.snoc .refl hsized hstep
  obtain ⟨hs, hrecorded⟩ := recorded_run hsound hfiles hrun
  have hholder : holder (fun other => other.key = nameY.key) [.created nameX sector] =
      some sector := rfl
  have hmem := (hrecorded nameY.key sector).mpr hholder
  have honDisk := hs.header_onDisk hmem
  refine ⟨by decide, by decide, by decide, fs, start, _, sector, hformat, hrun, hs.find_eq hmem,
    by omega, fun raw => ?_, fun raw => remove_by_key hs hrecorded raw nameY⟩
  rcases create_spec hs raw nameY hn with ⟨-, heq⟩ | ⟨hroom, -⟩
  · exact heq
  · exact absurd rfl (hroom.1 _ hmem)

end Nachos.Filesys
