import Nachos.Userprog.Process.Moves

/-!
# The process table over whole runs

Most moves leave the process table alone: they only move their own thread to another point
(`Quiet`). The three that do not are the reservation of a slot, the fork of its thread and the
removal of a process. Each keeps the state well formed, and so does every run.
-/

namespace Nachos.Process

open Transition State PCB

/-- The fields of a PCB that `Wf` speaks about. -/
def PCB.core (p : PCB) : PCB := { p with exitcode := 0, numwait := 0, joinStatus := 0 }

/-- What the core of a block determines. -/
theorem PCB.proj_of_core {α : Type*} (π : PCB → α) (hπ : ∀ p, π (PCB.core p) = π p) {p p' : PCB}
    (h : p'.core = p.core) : π p' = π p := by
  rw [← hπ, h, hπ]

/-- What a thread knows at its control point stays true when its own process number and wait, the
identity of the PCB it is forking for, and the rest of the table survive. -/
theorem ControlOk.mono {s s' : State} {u : Tid} {c : Control} (hc : ControlOk s u c)
    (hpid : (s'.thread u).processID = (s.thread u).processID)
    (hwait : c = .finished → (s'.thread u).waiting = (s.thread u).waiting)
    (hbits : s'.gPhysPageBitMap.numBits = s.gPhysPageBitMap.numBits)
    (hpcb : ∀ p, (s.pcb p).isSome → (s'.pcb p).isSome) (href : s.nextRef ≤ s'.nextRef)
    (hcreator : ∀ r, r < s.nextRef → (s'.heap r).creator = (s.heap r).creator)
    (hfork : ∀ r, r < s.nextRef → (s.heap r).thread = none → (s.heap r).creator = some u →
      (s'.heap r).core = (s.heap r).core) : ControlOk s' u c := by
  cases c with
  | forked pID => exact ⟨hpid.trans hc.1, hc.2⟩
  | loading sp =>
    show ∀ f ∈ _, 0 ≤ f ∧ f < (s'.gPhysPageBitMap.numBits : Int)
    rw [hbits]
    exact hc
  | execFork r name pID =>
    obtain ⟨hr, hne, hlive, hnone, hp, hparent, hcr⟩ := hc
    have hcore := hfork r hr hnone hcr
    exact ⟨Nat.lt_of_lt_of_le hr href, hne,
      (proj_of_core PCB.destroyed (fun _ => rfl) hcore).trans hlive,
      (proj_of_core PCB.thread (fun _ => rfl) hcore).trans hnone,
      (proj_of_core PCB.pid (fun _ => rfl) hcore).trans hp,
      ((proj_of_core PCB.parentID (fun _ => rfl) hcore).trans hparent).trans hpid.symm,
      (proj_of_core PCB.creator (fun _ => rfl) hcore).trans hcr⟩
  | execUnlock r pID => exact ⟨Nat.lt_of_lt_of_le hc.1 href, (hcreator r hc.1).trans hc.2⟩
  | joined pID => exact hpcb pID hc
  | exitReleased ec => exact fun h0 => hc (hpid.symm.trans h0)
  | removing ec => exact fun h0 => hc (hpid.symm.trans h0)
  | finished => exact (hwait rfl).trans hc
  | _ => trivial

/-- A step of thread `t` that leaves the table, the PCBs' identities and the other threads
alone. -/
structure Quiet (t : Tid) (s s' : State) : Prop where
  bm : s'.bm = s.bm
  pcb : s'.pcb = s.pcb
  nextRef : s'.nextRef = s.nextRef
  nextTid : s'.nextTid = s.nextTid
  frameBits : s'.gPhysPageBitMap.numBits = s.gPhysPageBitMap.numBits
  core : ∀ r, (s'.heap r).core = (s.heap r).core
  processID : ∀ u, (s'.thread u).processID = (s.thread u).processID
  others : ∀ u, u ≠ t → (s'.thread u).control = (s.thread u).control ∧
    (s'.thread u).waiting = (s.thread u).waiting ∧ (s'.thread u).space = (s.thread u).space
  running : (s'.thread t).control ≠ .finished
  control : ControlOk s t (s'.thread t).control
  space : ∀ sp, (s'.thread t).space = some sp → FramesIn s sp

namespace Quiet

variable {s s' : State} {t : Tid}

theorem pid (h : Quiet t s s') (r : Ref) : (s'.heap r).pid = (s.heap r).pid :=
  proj_of_core PCB.pid (fun _ => rfl) (h.core r)

theorem thread (h : Quiet t s s') (r : Ref) : (s'.heap r).thread = (s.heap r).thread :=
  proj_of_core PCB.thread (fun _ => rfl) (h.core r)

theorem parentID (h : Quiet t s s') (r : Ref) : (s'.heap r).parentID = (s.heap r).parentID :=
  proj_of_core PCB.parentID (fun _ => rfl) (h.core r)

theorem destroyed (h : Quiet t s s') (r : Ref) : (s'.heap r).destroyed = (s.heap r).destroyed :=
  proj_of_core PCB.destroyed (fun _ => rfl) (h.core r)

theorem creator (h : Quiet t s s') (r : Ref) : (s'.heap r).creator = (s.heap r).creator :=
  proj_of_core PCB.creator (fun _ => rfl) (h.core r)

/-- Frames in range stay in range. -/
theorem framesIn (h : Quiet t s s') {sp : AddrSpace} (hsp : FramesIn s sp) : FramesIn s' sp := by
  unfold FramesIn
  rw [h.frameBits]
  exact hsp

/-- What a thread knew at its control point it still knows. -/
theorem controlOk (h : Quiet t s s') {u : Tid} {c : Control} (hc : ControlOk s u c)
    (hu : c = .finished → (s'.thread u).waiting = (s.thread u).waiting) : ControlOk s' u c :=
  hc.mono (h.processID u) hu h.frameBits (fun p hp => by rwa [h.pcb]) (by rw [h.nextRef])
    (fun r _ => h.creator r) (fun r _ _ _ => h.core r)

/-- A quiet step of a running thread keeps the state well formed. -/
theorem wf (h : Quiet t s s') (hs : Wf s) (ht : t < s.nextTid)
    (htc : (s.thread t).control ≠ .finished) : Wf s' := by
  have hfin : ∀ u, (s'.thread u).control = .finished ↔ (s.thread u).control = .finished := by
    intro u
    rcases eq_or_ne u t with rfl | hu
    · exact ⟨fun hf => absurd hf h.running, fun hf => absurd hf htc⟩
    · rw [(h.others u hu).1]
  refine ⟨by rw [h.bm, hs.tableBits], by rw [h.frameBits, hs.frameBits], ?_, ?_, ?_, ?_, ?_, ?_,
    ?_, ?_, ?_⟩
  · simpa only [h.pcb, h.nextRef, h.pid, h.destroyed, h.bm] using hs.slot
  · simpa only [h.pcb, h.nextRef, h.pid, h.destroyed] using hs.alive
  · simpa only [h.nextTid, h.pcb, h.processID, h.destroyed, Owns, h.thread, ne_eq, hfin]
      using hs.owns
  · simpa only [h.nextRef, h.nextTid, h.thread, h.processID, h.pid, h.destroyed, hfin]
      using hs.owner
  · simpa only [h.nextTid, hfin] using hs.unborn
  · intro u
    rcases eq_or_ne u t with rfl | hu
    · exact h.controlOk h.control fun hf => absurd hf h.running
    · obtain ⟨hcontrol, hwaiting, -⟩ := h.others u hu
      rw [hcontrol]
      exact h.controlOk (hs.control u) fun _ => hwaiting
  · simpa only [h.pcb, h.nextRef, h.parentID] using hs.parent
  · simpa only [h.pcb, h.thread, h.processID, h.nextTid, ne_eq, hfin] using hs.root
  · intro u sp hsp
    rcases eq_or_ne u t with rfl | hu
    · exact h.framesIn (h.space sp hsp)
    · exact h.framesIn (hs.space u sp ((h.others u hu).2.2 ▸ hsp))

end Quiet

/-! ## Quiet moves -/

section

variable {s : State} {t : Tid} {c : Control} {heap : Ref → PCB} {frames : BitMap}

/-- `P` is quiet, also after changes to exit codes, counters and join states. -/
theorem quiet_P (hs : Wf s) (hcore : ∀ r, (heap r).core = (s.heap r).core)
    (hbits : frames.numBits = s.gPhysPageBitMap.numBits) (hc : ControlOk s t c)
    (hrun : c ≠ .finished) (id : SemId) :
    Quiet t s ((s.patch heap frames).P t id c).2 where
  bm := rfl
  pcb := rfl
  nextRef := rfl
  nextTid := rfl
  frameBits := hbits
  core := hcore
  processID u := by simp
  others u hu := by simp [P_waiting, hu]
  running := by simpa using hrun
  control := by simpa using hc
  space sp hsp := hs.space t sp (by simpa using hsp)

/-- So is `V` followed by a jump. -/
theorem quiet_V (hs : Wf s) (hcore : ∀ r, (heap r).core = (s.heap r).core)
    (hbits : frames.numBits = s.gPhysPageBitMap.numBits) (hc : ControlOk s t c)
    (hrun : c ≠ .finished) (id : SemId) :
    Quiet t s (((s.patch heap frames).V t id).2.goto t c) where
  bm := rfl
  pcb := rfl
  nextRef := rfl
  nextTid := rfl
  frameBits := hbits
  core := hcore
  processID u := by simp
  others u hu := by simp [hu]
  running := by simpa using hrun
  control := by simpa using hc
  space sp hsp := hs.space t sp (by simpa using hsp)

end

/-! ## Reserving, forking, removing -/

/-- What no step changes about a PCB that has been built. -/
structure Kept (s s' : State) (r : Ref) : Prop where
  lt : r < s'.nextRef
  pid : (s'.heap r).pid = (s.heap r).pid
  parentID : (s'.heap r).parentID = (s.heap r).parentID
  creator : (s'.heap r).creator = (s.heap r).creator
  thread : ∀ c, (s.heap r).thread = some c → (s'.heap r).thread = some c
  destroyed : (s.heap r).destroyed = true → (s'.heap r).destroyed = true

namespace Kept

variable {s s₁ s' : State} {t : Tid} {r r' : Ref}

/-- Nothing happens to the block. -/
theorem refl (hr : r < s.nextRef) : Kept s s r := ⟨hr, rfl, rfl, rfl, fun _ h => h, id⟩

/-- One step after the other. -/
theorem trans (h₁ : Kept s s₁ r) (h₂ : Kept s₁ s' r) : Kept s s' r where
  lt := h₂.lt
  pid := h₂.pid.trans h₁.pid
  parentID := h₂.parentID.trans h₁.parentID
  creator := h₂.creator.trans h₁.creator
  thread c hc := h₂.thread c (h₁.thread c hc)
  destroyed hd := h₂.destroyed (h₁.destroyed hd)

/-- Reserving a slot keeps the old blocks. -/
theorem reserve {n : Nat} {name : String} (hr : r < s.nextRef) :
    Kept s (s.reserve t n name) r := by
  have hheap := s.reserve_heap t n name (Nat.ne_of_lt hr)
  refine ⟨Nat.lt_succ_of_lt hr, ?_, ?_, ?_, ?_, ?_⟩ <;> rw [hheap] <;> simp

/-- The PCB that gets its thread had none, and its parent was the caller already. -/
theorem execFork {name : String} {pID : Int} (hr : r' < s.nextRef)
    (hnone : (s.heap r).thread = none) (hparent : (s.heap r).parentID = (s.thread t).processID) :
    Kept s (s.execFork t r name pID).2 r' := by
  have hheap := s.execFork_heap t name r r' pID hparent
  refine ⟨hr, ?_, ?_, ?_, ?_, ?_⟩ <;> rw [hheap] <;> split <;> simp_all

/-- Removing a process keeps what the blocks are. -/
theorem removed {bm : BitMap} (hr : r' < s.nextRef) : Kept s (s.removed t r bm) r' := by
  have hheap := s.removed_heap t r r' bm
  refine ⟨hr, ?_, ?_, ?_, ?_, ?_⟩ <;> rw [hheap] <;> split <;> simp_all

end Kept

/-- So do quiet steps. -/
theorem Quiet.kept {s s' : State} {t : Tid} {r : Ref} (h : Quiet t s s') (hr : r < s.nextRef) :
    Kept s s' r where
  lt := by rw [h.nextRef]; exact hr
  pid := h.pid r
  parentID := h.parentID r
  creator := h.creator r
  thread c hc := (h.thread r).trans hc
  destroyed hd := (h.destroyed r).trans hd

namespace Wf

variable {s : State} {t : Tid} {r : Ref} {i : Nat} {name : String}

/-- Stopping the machine changes nothing else. -/
theorem halt (hs : Wf s) : Wf s.halt :=
  ⟨hs.tableBits, hs.frameBits, hs.slot, hs.alive, hs.owns, hs.owner, hs.unborn, hs.control,
    hs.parent, hs.root, hs.space⟩

/-- The first block exists. -/
theorem nextRef_pos (hs : Wf s) : 0 < s.nextRef := (hs.slot 0 0 hs.root.1).2.2.1

/-- It is never destroyed. -/
theorem root_live (hs : Wf s) : (s.heap 0).destroyed = false := by
  obtain ⟨hslot, -, hpid, hrun, hpos⟩ := hs.root
  obtain ⟨r, hr, hlive, -⟩ := hs.owns 0 hpos hrun
  rw [hpid, hslot] at hr
  exact Option.some.inj hr ▸ hlive

/-- Slot 0 belongs to the initial process for ever. -/
theorem pid_ne_zero (hs : Wf s) (hr : r < s.nextRef) (hne : r ≠ 0)
    (hlive : (s.heap r).destroyed = false) : (s.heap r).pid ≠ 0 := by
  intro h0
  have hslot := hs.alive r hr hlive
  rw [h0, hs.root.1] at hslot
  exact hne (Option.some.inj hslot).symm

/-- A free slot holds no live PCB. -/
theorem slot_ne_free (hs : Wf s) (hfree : s.bm.bit i = false) {p : Int} (hp : s.pcb p = some r)
    (hlive : (s.heap r).destroyed = false) : p ≠ i := by
  obtain ⟨-, -, -, -, hbit⟩ := hs.slot p r hp
  rintro rfl
  simp [hlive, hfree] at hbit

/-- `reserve` marks its slot. -/
theorem reserve_bit (hs : Wf s) (hi : i < 10) (name : String) (j : Nat) :
    (s.reserve t i name).bm.bit j = (decide (j = i) || s.bm.bit j) := by
  have hlt : i < s.bm.numBits := hs.tableBits ▸ hi
  show ((s.bm.markBit i).markBit i).bit j = _
  rw [BitMap.bit_markBit (by simpa using hlt), BitMap.bit_markBit hlt]
  cases decide (j = i) <;> simp

/-- Reserving a free slot keeps the state well formed. -/
theorem reserve (hs : Wf s) {filename : Option String} (ht : t < s.nextTid)
    (hc : (s.thread t).control = .execChecks filename) (hi : i < 10) (hfree : s.bm.bit i = false) :
    Wf (s.reserve t i name) := by
  have hbit := hs.reserve_bit (t := t) hi name
  have hold : ∀ {r}, r < s.nextRef → (s.reserve t i name).heap r = s.heap r :=
    fun hr => reserve_heap s t i name (Nat.ne_of_lt hr)
  have hfin : ∀ u, ((s.reserve t i name).thread u).control = .finished ↔
      (s.thread u).control = .finished := by
    intro u
    rcases eq_or_ne u t with rfl | hu
    · simp [hc]
    · rw [reserve_thread s t i name hu]
  have hpcb : ∀ {p r}, s.pcb p = some r → (s.heap r).destroyed = false →
      (s.reserve t i name).pcb p = some r := by
    intro p r hp hlive
    rw [reserve_pcb, if_neg (hs.slot_ne_free hfree hp hlive), hp]
  have hsome : ∀ {p}, (s.pcb p).isSome → ((s.reserve t i name).pcb p).isSome := by
    intro p hp
    rw [reserve_pcb]
    split
    · rfl
    · exact hp
  refine { tableBits := hs.tableBits, frameBits := hs.frameBits, slot := ?slot, alive := ?alive,
           owns := ?owns, owner := ?owner, unborn := ?unborn, control := ?control,
           parent := ?parent, root := ?root, space := ?space }
  case slot =>
    intro p r hp
    rw [reserve_pcb] at hp
    split at hp
    · rename_i hpi
      cases hp
      refine ⟨by omega, by omega, Nat.lt_succ_self _, by simp [PCB.new, hpi], ?_⟩
      -- a new PCB is alive, and its slot has just been marked
      simp [hbit, PCB.new, hpi]
    · rename_i hpi
      obtain ⟨h0, h10, hr, hpid, hd⟩ := hs.slot p r hp
      have hne : p.toNat ≠ i := by omega
      refine ⟨h0, h10, Nat.lt_succ_of_lt hr, by rw [hold hr, hpid], ?_⟩
      simpa [hold hr, hbit, hne] using hd
  case alive =>
    intro r hr hlive
    rcases Nat.lt_succ_iff_lt_or_eq.mp hr with hlt | rfl
    · rw [hold hlt] at hlive ⊢
      exact hpcb (hs.alive r hlt hlive) hlive
    · simp [reserve_pcb, PCB.new]
  case owns =>
    intro u hu hrun
    obtain ⟨r, hr, hlive, hown⟩ := hs.owns u hu (by rwa [ne_eq, ← hfin])
    have hlt := (hs.slot _ _ hr).2.2.1
    refine ⟨r, by rw [reserve_processID]; exact hpcb hr hlive, by rwa [hold hlt], ?_⟩
    simpa [Owns, hold hlt] using hown
  case owner =>
    intro r u hr hthread
    rcases Nat.lt_succ_iff_lt_or_eq.mp hr with hlt | rfl
    · rw [hold hlt] at hthread ⊢
      rw [hfin, reserve_processID]
      exact hs.owner r u hlt hthread
    · simp [PCB.new] at hthread
  case unborn =>
    intro u hu
    rw [hfin]
    exact hs.unborn u hu
  case control =>
    intro u
    rcases eq_or_ne u t with rfl | hu
    · have hpos := hs.nextRef_pos
      rw [reserve_control]
      exact ⟨Nat.lt_succ_self _, Nat.ne_of_gt hpos, by simp [PCB.new]⟩
    · have hthread := reserve_thread s t i name hu
      rw [hthread]
      exact (hs.control u).mono (by rw [hthread]) (fun _ => by rw [hthread]) rfl
        (fun p => hsome) (Nat.le_succ _) (fun r hr => by rw [hold hr])
        (fun r hr _ _ => by rw [hold hr])
  case parent =>
    intro r hr hne
    rcases Nat.lt_succ_iff_lt_or_eq.mp hr with hlt | rfl
    · rw [hold hlt]
      exact hsome (hs.parent r hlt hne)
    · obtain ⟨r', hr', -, -⟩ := hs.owns t ht (by simp [hc])
      simpa using hsome (Option.isSome_iff_exists.mpr ⟨r', hr'⟩)
  case root =>
    obtain ⟨hslot, hthread, hpid, hrun, hpos⟩ := hs.root
    refine ⟨hpcb hslot hs.root_live, by rwa [hold hs.nextRef_pos], by simpa using hpid, ?_, hpos⟩
    rwa [ne_eq, hfin]
  case space =>
    intro u sp hsp
    exact hs.space u sp (by simpa using hsp)

/-- Forking the thread of a reserved slot keeps the state well formed. -/
theorem execFork (hs : Wf s) {pID : Int} (ht : t < s.nextTid)
    (hc : (s.thread t).control = .execFork r name pID) : Wf (s.execFork t r name pID).2 := by
  obtain ⟨hr, hne, hlive, hnone, hpid, hparent, hcreator⟩ :
    ControlOk s t (.execFork r name pID) := hc ▸ hs.control t
  have hheap := fun r' => execFork_heap s t name r r' pID hparent
  have hkept : ∀ {r'}, r' < s.nextRef → Kept s (s.execFork t r name pID).2 r' :=
    fun hr' => .execFork hr' hnone hparent
  have hdead : ∀ r', ((s.execFork t r name pID).2.heap r').destroyed =
      (s.heap r').destroyed := by
    intro r'
    rw [hheap]
    split <;> simp_all
  have hcaller := execFork_caller s t name r pID (Nat.ne_of_lt ht)
  have hpids : ∀ u, u < s.nextTid →
      ((s.execFork t r name pID).2.thread u).processID = (s.thread u).processID := by
    intro u hu
    rcases eq_or_ne u t with rfl | hut
    · rw [hcaller]
    · rw [execFork_thread s t name r pID (Nat.ne_of_lt hu) hut]
  have hfin : ∀ u, u < s.nextTid → (((s.execFork t r name pID).2.thread u).control = .finished ↔
      (s.thread u).control = .finished) := by
    intro u hu
    rcases eq_or_ne u t with rfl | hut
    · simp [hcaller, hc]
    · rw [execFork_thread s t name r pID (Nat.ne_of_lt hu) hut]
  refine { tableBits := hs.tableBits, frameBits := hs.frameBits, slot := ?slot, alive := ?alive,
           owns := ?owns, owner := ?owner, unborn := ?unborn, control := ?control,
           parent := ?parent, root := ?root, space := ?space }
  case slot =>
    intro p r' hp
    have hslot := hs.slot p r' hp
    rwa [(hkept hslot.2.2.1).pid, hdead]
  case alive =>
    intro r' hr' hlive'
    rw [hdead] at hlive'
    rw [(hkept hr').pid]
    exact hs.alive r' hr' hlive'
  case owns =>
    intro u hu hrun
    rcases Nat.lt_succ_iff_lt_or_eq.mp hu with hlt | rfl
    · obtain ⟨r', hr', hlive', hown⟩ := hs.owns u hlt (by rwa [ne_eq, ← hfin u hlt])
      refine ⟨r', by rw [hpids u hlt]; exact hr', by rw [hdead]; exact hlive', ?_⟩
      rcases hown with h0 | hthread
      · exact .inl h0
      -- the PCB that is given the new thread had none, so it is not the one of `u`
      · have hne' : r' ≠ r := by
          rintro rfl
          rw [hnone] at hthread
          cases hthread
        exact .inr (by rw [hheap, if_neg hne', hthread])
    · refine ⟨r, ?_, by rw [hdead]; exact hlive, .inr (by simp [hheap])⟩
      rw [execFork_child, ← hpid]
      exact hs.alive r hr hlive
  case owner =>
    intro r' u hr' hthread
    rw [hheap] at hthread
    split at hthread
    · rename_i heq
      subst heq
      cases hthread
      refine ⟨hne, Nat.ne_of_gt hs.root.2.2.2.2, Nat.lt_succ_self _, ?_, ?_⟩
      · rw [execFork_child, (hkept hr').pid, hpid]
      · rw [execFork_child, hdead, hlive]
        simp
    · obtain ⟨h0, h1, hlt, hp, hd⟩ := hs.owner r' u hr' hthread
      refine ⟨h0, h1, Nat.lt_succ_of_lt hlt, ?_, ?_⟩
      · rw [hpids u hlt, (hkept hr').pid, hp]
      · rw [hfin u hlt, hdead, hd]
  case unborn =>
    intro u hu
    have hgt : s.nextTid < u := hu
    rw [execFork_thread s t name r pID (Nat.ne_of_gt hgt)
      (Nat.ne_of_gt (Nat.lt_trans ht hgt))]
    exact hs.unborn u (Nat.le_of_lt hgt)
  case control =>
    intro u
    rcases eq_or_ne u s.nextTid with rfl | hnew
    · rw [execFork_child]
      exact ⟨by rw [execFork_child], hpid ▸ hs.pid_ne_zero hr hne hlive⟩
    · rcases eq_or_ne u t with rfl | hut
      · rw [hcaller]
        exact ⟨hr, by rw [hheap, if_pos rfl]; exact hcreator⟩
      · have hthread := execFork_thread s t name r pID hnew hut
        rw [hthread]
        refine (hs.control u).mono (by rw [hthread]) (fun _ => by rw [hthread]) rfl
          (fun p hp => hp) le_rfl (fun r' hr' => (hkept hr').creator) (fun r' _ _ hcr => ?_)
        -- a PCB has one creator, so two threads never fork for the same one
        have hne' : r' ≠ r := by
          rintro rfl
          exact hut (Option.some.inj (hcr.symm.trans hcreator))
        rw [hheap, if_neg hne']
  case parent =>
    intro r' hr' hne'
    rw [(hkept hr').parentID]
    exact hs.parent r' hr' hne'
  case root =>
    obtain ⟨hslot, hthread, hpid0, hrun, hpos⟩ := hs.root
    refine ⟨hslot, by rw [hheap, if_neg (Ne.symm hne), hthread], by rw [hpids 0 hpos, hpid0], ?_,
      Nat.succ_pos _⟩
    rwa [ne_eq, hfin 0 hpos]
  case space =>
    intro u sp hsp
    rcases eq_or_ne u s.nextTid with rfl | hnew
    · rw [execFork_child] at hsp
      cases hsp
    · rcases eq_or_ne u t with rfl | hut
      · rw [hcaller] at hsp
        exact hs.space u sp hsp
      · rw [execFork_thread s t name r pID hnew hut] at hsp
        exact hs.space u sp hsp

/-- The running process is the only one that its PCB belongs to. -/
theorem thread_unique (hs : Wf s) (hr : s.Runs t r) (htc : (s.thread t).control ≠ .finished)
    {r' : Ref} (hr' : r' < s.nextRef) (hthread : (s.heap r').thread = some t) : r' = r := by
  obtain ⟨-, -, -, -, hdead⟩ := hs.owner r' t hr' hthread
  have hlive : (s.heap r').destroyed = false := by
    cases hd : (s.heap r').destroyed with
    | false => rfl
    | true => exact absurd (hdead.mp hd) htc
  have hslot := (hs.runs_of_thread hr' hlive hthread).slot
  exact Option.some.inj (hslot.symm.trans hr.slot)

/-- Removing a process keeps the state well formed. -/
theorem removed (hs : Wf s) {bm : BitMap} (hr : s.Runs t r)
    (htc : (s.thread t).control ≠ .finished) (hw : (s.thread t).waiting = none)
    (hbm : bm.numBits = 256) : Wf (s.removed t r bm) := by
  have hlt := hs.runs_lt hr
  obtain ⟨hne, ht0, htlt, hpid, -⟩ := hs.owner r t hlt hr.thread
  obtain ⟨hp0, hp10, -, -, -⟩ := hs.slot _ _ hr.slot
  have hheap := fun r' => s.removed_heap t r r' bm
  have hkept : ∀ {r'}, r' < s.nextRef → Kept s (s.removed t r bm) r' := fun hr' => .removed hr'
  have hthreads : ∀ r', ((s.removed t r bm).heap r').thread = (s.heap r').thread := by
    intro r'
    rw [hheap]
    split <;> simp_all
  have hbit : ∀ j, (s.removed t r bm).bm.bit j =
      (!decide (j = (s.thread t).processID.toNat) && s.bm.bit j) :=
    BitMap.bit_clearBit (by rw [hs.tableBits]; omega)
  have hpids : ∀ u, ((s.removed t r bm).thread u).processID = (s.thread u).processID := by
    intro u
    rcases eq_or_ne u t with rfl | hut
    · rw [removed_thread_self]
    · rw [s.removed_thread t r bm hut]
  refine { tableBits := hs.tableBits, frameBits := hbm, slot := ?slot, alive := ?alive,
           owns := ?owns, owner := ?owner, unborn := ?unborn, control := ?control,
           parent := ?parent, root := ?root, space := ?space }
  case slot =>
    intro p r' hp
    obtain ⟨h0, h10, hr', hpid', hd⟩ := hs.slot p r' hp
    refine ⟨h0, h10, hr', by rw [(hkept hr').pid, hpid'], ?_⟩
    -- the bit is cleared and the PCB destroyed together; the pointer stays
    rw [hheap, hbit]
    split
    · rename_i heq
      have hpp : p = (s.thread t).processID := by rw [hpid, ← hpid', heq]
      simp [hpp]
    · rename_i hne'
      have hpp : p ≠ (s.thread t).processID := by
        rintro rfl
        exact hne' (Option.some.inj (hp.symm.trans hr.slot))
      have hnat : p.toNat ≠ (s.thread t).processID.toNat := by omega
      simpa [hnat] using hd
  case alive =>
    intro r' hr' hlive
    rw [hheap] at hlive
    rw [(hkept hr').pid]
    split at hlive
    · cases hlive
    · exact hs.alive r' hr' hlive
  case owns =>
    intro u hu hrun
    have hut : u ≠ t := by
      rintro rfl
      exact hrun (by rw [removed_thread_self])
    rw [s.removed_thread t r bm hut] at hrun ⊢
    obtain ⟨r', hslot, hlive, hown⟩ := hs.owns u hu hrun
    have hne' : r' ≠ r := by
      rintro rfl
      exact hut (hs.owns_unique hown (.inr hr.thread))
    refine ⟨r', hslot, by rw [hheap, if_neg hne', hlive], ?_⟩
    simpa only [Owns, hthreads] using hown
  case owner =>
    intro r' u hr' hthread
    rw [hthreads] at hthread
    obtain ⟨h0, h1, hu, hp, hd⟩ := hs.owner r' u hr' hthread
    refine ⟨h0, h1, hu, by rw [hpids, (hkept hr').pid, hp], ?_⟩
    rw [hheap]
    rcases eq_or_ne u t with rfl | hut
    · rw [if_pos (hs.thread_unique hr htc hr' hthread), removed_thread_self]
      simp
    · have hne' : r' ≠ r := by
        rintro rfl
        exact hut (Option.some.inj (hthread.symm.trans hr.thread))
      rw [if_neg hne', s.removed_thread t r bm hut, hd]
  case unborn =>
    intro u hu
    rw [s.removed_thread t r bm (Nat.ne_of_gt (Nat.lt_of_lt_of_le htlt hu))]
    exact hs.unborn u hu
  case control =>
    intro u
    rcases eq_or_ne u t with rfl | hut
    · rw [removed_thread_self]
      exact (congrArg Thread.waiting (removed_thread_self s u r bm)).trans hw
    · have hthread := s.removed_thread t r bm hut
      rw [hthread]
      refine (hs.control u).mono (by rw [hthread]) (fun _ => by rw [hthread])
        (hbm.trans hs.frameBits.symm) (fun p hp => hp) le_rfl (fun r' hr' => (hkept hr').creator)
        (fun r' _ hnone _ => ?_)
      have hne' : r' ≠ r := by
        rintro rfl
        rw [hr.thread] at hnone
        cases hnone
      rw [hheap, if_neg hne']
  case parent =>
    intro r' hr' hne'
    rw [(hkept hr').parentID]
    exact hs.parent r' hr' hne'
  case root =>
    obtain ⟨hslot, hthread, hpid0, hrun, hpos⟩ := hs.root
    refine ⟨hslot, by rw [hthreads, hthread], by rw [hpids, hpid0], ?_, hpos⟩
    rwa [s.removed_thread t r bm (Ne.symm ht0)]
  case space =>
    intro u sp hsp
    rcases eq_or_ne u t with rfl | hut
    · rw [removed_thread_self] at hsp
      cases hsp
    · rw [s.removed_thread t r bm hut] at hsp
      have hin := hs.space u sp hsp
      unfold FramesIn at hin ⊢
      rw [hs.frameBits] at hin
      show ∀ f ∈ _, 0 ≤ f ∧ f < (bm.numBits : Int)
      rwa [hbm]

end Wf

/-! ## Steps and runs -/

section Run

variable {s s' : State} {t : Tid} {i : Input} {events : List Event} {a : Act} {r : Ref} {u : Tid}

/-- Storing an exit code and counting down leaves the identities of the PCBs alone. -/
theorem exitStored_core (s : State) (r q r' : Ref) (ec : Int) :
    ((s.exitStored r q ec).heap r').core = (s.heap r').core :=
  s.exitStored_proj PCB.core r q (fun _ => rfl) (fun _ => rfl) r'

/-- Storing an exit code is quiet. -/
theorem quiet_exitStored (hs : Wf s) (hrun : (s.thread t).control ≠ .finished) (r q : Ref)
    (ec : Int) : Quiet t s (s.exitStored r q ec) :=
  ⟨rfl, rfl, rfl, rfl, rfl, fun r' => exitStored_core s r q r' ec, fun _ => rfl,
    fun _ _ => ⟨rfl, rfl, rfl⟩, hrun, hs.control t, hs.space t⟩

/-- What a move can do to the process table. -/
inductive TableMove (s : State) (t : Tid) : Input → State → Prop where
  | quiet {i : Input} {s' : State} (h : Quiet t s s') : TableMove s t i s'
  | same {i : Input} : TableMove s t i s
  | halt {i : Input} : TableMove s t i s.halt
  | reserve {name : String} {n : Nat} (hc : (s.thread t).control = .execChecks (some name))
      (hn : n < 10) (hfree : s.bm.bit n = false) (hslot : s.bm.findFreeSlot.1 = n)
      (hname : name ≠ (s.thread t).name) :
      TableMove s t (.opened true) (s.reserve t n name)
  | fork {name : String} {r : Ref} {pID : Int}
      (hc : (s.thread t).control = .execFork r name pID) :
      TableMove s t .go (s.execFork t r name pID).2
  | removed {i : Input} {s₁ : State} {r : Ref} {bm : BitMap} (hq : Quiet t s s₁)
      (hr : s₁.Runs t r) (hw : (s₁.thread t).waiting = none) (hbm : bm.numBits = 256) :
      TableMove s t i (s₁.removed t r bm)

/-- What each section does to the table. -/
theorem Move.tableMove (hs : Wf s) (ht : t < s.nextTid) (hw : (s.thread t).waiting = none)
    (hm : Move s t i events s') : TableMove s t i s' := by
  have hP : ∀ id c, ControlOk s t c → c ≠ .finished → TableMove s t i (s.P t id c).2 :=
    fun id c hok hrun => .quiet (quiet_P hs (fun _ => rfl) rfl hok hrun id)
  have hV : ∀ id c, ControlOk s t c → c ≠ .finished →
      TableMove s t i ((s.V t id).2.goto t c) :=
    fun id c hok hrun => .quiet (quiet_V hs (fun _ => rfl) rfl hok hrun id)
  cases hm with
  | stop => exact .halt
  | exitHalt => exact .halt
  | deleteAgain => exact .halt
  | boot => exact hP .addrLock (.allocate _) trivial (by simp)
  | start => exact hP .addrLock (.allocate _) trivial (by simp)
  | @allocate noffH =>
    refine .quiet (quiet_V hs (fun _ => rfl) (AddrSpace.allocate_numBits _ _) ?_ (by simp) _)
    show FramesIn s _
    intro f hf
    rw [AddrSpace.allocate_frames] at hf
    obtain ⟨n, hn, rfl⟩ := List.mem_map.mp hf
    have hlt := (BitMap.mem_clearBits.mp (List.mem_of_mem_take hn)).1
    omega
  | refuse => exact hV .addrLock .refused trivial (by simp)
  | fallThrough => exact hV .addrLock .dangling trivial (by simp)
  | @load sp hc =>
    have hok : FramesIn s sp := by simpa [hc, ControlOk] using hs.control t
    refine .quiet ⟨rfl, rfl, rfl, rfl, rfl, fun _ => rfl, ?_, ?_, ?_, ?_, ?_⟩
    · intro u
      rcases eq_or_ne u t with rfl | hu <;> simp [State.modifyThread, *]
    · intro u hu
      simp [State.modifyThread, hu]
    · simp [State.modifyThread]
    · simp [State.modifyThread, ControlOk]
    · intro sp' hsp'
      simp only [State.modifyThread, Function.update_self, Option.some.injEq] at hsp'
      exact hsp' ▸ hok
  | exec => exact hP .bmsem (.execChecks _) trivial (by simp)
  | execFails => exact hV .bmsem .user trivial (by simp)
  | reserve hc hi hfree hslot hname => exact .reserve hc hi hfree hslot hname
  | fork hc => exact .fork hc
  | @unlock r pID => exact hV (.mutex r) (.execDone pID) trivial (by simp)
  | execDone => exact hV .bmsem .user trivial (by simp)
  | joinMissing => exact .same
  | joinForeign => exact .same
  | @joinWait pc pID r hc hpc hp =>
    refine .quiet (quiet_P hs (fun r' => ?_) rfl ?_ (by simp) (.joinsem r))
    · exact s.modifyPcb_proj PCB.core r (f := fun p => p.recordJoin.incNumWait)
        (fun _ => rfl) r'
    · simp [ControlOk, hp]
  | joinAbandon =>
    refine .quiet ⟨rfl, rfl, rfl, rfl, rfl, fun _ => rfl, ?_, ?_, ?_, ?_, ?_⟩
    · intro u
      simp
    · intro u hu
      simp [hu]
    · simp
    · simp [ControlOk]
    · intro sp hsp
      exact hs.space t sp (by simpa using hsp)
  | @joinGrant pID r => exact hV (.exitsem r) .user trivial (by simp)
  | @exitSignal pc ec r q hc hpc h0 =>
    refine .quiet (quiet_V hs (fun r' => ?_) rfl ?_ (by simp) (.joinsem r))
    · exact (modifyPcb_proj PCB.core _ r (f := PCB.decNumWait) (fun _ => rfl) r').trans
        (exitStored_core s r q r' ec)
    · exact h0
  | @exitNow pc ec r q bm hc hpc h0 hr hq hjoin hbm =>
    obtain ⟨bm', hbm', hbits⟩ := hs.freed t
    have hquiet : Quiet t s (s.exitStored r q ec) := quiet_exitStored hs (by simp [hc]) r q ec
    have hruns : (s.exitStored r q ec).Runs t r :=
      ⟨hr.slot, (hquiet.destroyed r).trans hr.live, (hquiet.thread r).trans hr.thread⟩
    have heq : bm = bm' := Option.some.inj (hbm.symm.trans hbm')
    exact .removed hquiet hruns hw (heq ▸ hbits)
  | @exitWait ec r hc =>
    have hok : (s.thread t).processID ≠ 0 := by simpa [hc, ControlOk] using hs.control t
    exact hP (.exitsem r) (.removing ec) hok (by simp)
  | @remove ec r bm hc hr hbm =>
    obtain ⟨bm', hbm', hbits⟩ := hs.freed t
    have hquiet : Quiet t s s :=
      ⟨rfl, rfl, rfl, rfl, rfl, fun _ => rfl, fun _ => rfl, fun _ _ => ⟨rfl, rfl, rfl⟩,
        by simp [hc], hs.control t, hs.space t⟩
    have heq : bm = bm' := Option.some.inj (hbm.symm.trans hbm')
    exact .removed hquiet hr hw (heq ▸ hbits)

/-- Every effect on the table keeps the state well formed. -/
theorem TableMove.wf (hs : Wf s) (ht : t < s.nextTid) (htc : (s.thread t).control ≠ .finished)
    (h : TableMove s t i s') : Wf s' := by
  cases h with
  | quiet h => exact h.wf hs ht htc
  | same => exact hs
  | halt => exact hs.halt
  | reserve hc hn hfree => exact hs.reserve ht hc hn hfree
  | fork hc => exact hs.execFork ht hc
  | removed hq hr hw hbm => exact (hq.wf hs ht htc).removed hr hq.running hw hbm

/-- A thread that takes a step has not finished. -/
theorem Wf.running (hs : Wf s) (h : step s a = some (events, s')) :
    (s.thread a.thread).control ≠ .finished := by
  intro hfin
  have hw : (s.thread a.thread).waiting = none := by
    simpa [hfin, ControlOk] using hs.control a.thread
  unfold step at h
  split at h
  · simp [hw, hfin, State.resume] at h
  · cases h

/-- A step keeps the state well formed. -/
theorem Wf.step (hs : Wf s) (h : step s a = some (events, s')) : Wf s' := by
  have hrun := hs.running h
  obtain ⟨hready, ⟨id, hw, -, -, rfl⟩ | ⟨hw, hm⟩⟩ := hs.step_cases h
  · exact (quiet_P hs (fun _ => rfl) rfl (hs.control _) hrun id).wf hs hready.lt hrun
  · exact (hm.tableMove hs hready.lt hw).wf hs hready.lt hrun

/-- No section changes what a block is. -/
theorem TableMove.kept (hs : Wf s) (h : TableMove s t i s') (hr : r < s.nextRef) : Kept s s' r := by
  cases h with
  | quiet h => exact h.kept hr
  | same => exact .refl hr
  | halt => exact ⟨hr, rfl, rfl, rfl, fun _ h => h, id⟩
  | reserve => exact .reserve hr
  | @fork name r' pID hc =>
    obtain ⟨-, -, -, hnone, -, hparent, -⟩ : ControlOk s t (.execFork r' name pID) :=
      hc ▸ hs.control t
    exact .execFork hr hnone hparent
  | removed hq => exact (hq.kept hr).trans (.removed (hq.kept hr).lt)

/-- Other threads stay where they are. -/
theorem TableMove.others (h : TableMove s t i s') (hne : u ≠ t) (hu : u ≠ s.nextTid) :
    (s'.thread u).control = (s.thread u).control ∧
      (s'.thread u).waiting = (s.thread u).waiting ∧
      (s'.thread u).space = (s.thread u).space ∧
      (s'.thread u).processID = (s.thread u).processID := by
  have hquiet : ∀ {s₁}, Quiet t s s₁ → (s₁.thread u).control = (s.thread u).control ∧
      (s₁.thread u).waiting = (s.thread u).waiting ∧
      (s₁.thread u).space = (s.thread u).space ∧
      (s₁.thread u).processID = (s.thread u).processID := fun hq =>
    ⟨(hq.others u hne).1, (hq.others u hne).2.1, (hq.others u hne).2.2, hq.processID u⟩
  cases h with
  | quiet hq => exact hquiet hq
  | same => exact ⟨rfl, rfl, rfl, rfl⟩
  | halt => exact ⟨rfl, rfl, rfl, rfl⟩
  | reserve =>
    rw [reserve_thread _ _ _ _ hne]
    exact ⟨rfl, rfl, rfl, rfl⟩
  | fork =>
    rw [execFork_thread _ _ _ _ _ hu hne]
    exact ⟨rfl, rfl, rfl, rfl⟩
  | removed hq =>
    rw [removed_thread _ _ _ _ hne]
    exact hquiet hq

/-- A step leaves the other threads where they are. -/
theorem Wf.step_others (hs : Wf s) (h : Process.step s a = some (events, s')) (hne : u ≠ a.thread)
    (hu : u ≠ s.nextTid) :
    (s'.thread u).control = (s.thread u).control ∧
      (s'.thread u).waiting = (s.thread u).waiting ∧
      (s'.thread u).space = (s.thread u).space ∧
      (s'.thread u).processID = (s.thread u).processID := by
  obtain ⟨hready, ⟨id, hw, -, -, rfl⟩ | ⟨hw, hm⟩⟩ := hs.step_cases h
  · rw [P_thread, if_neg hne]
    exact ⟨rfl, rfl, rfl, rfl⟩
  · exact (hm.tableMove hs hready.lt hw).others hne hu

/-- A step keeps the old blocks. -/
theorem Wf.step_kept (hs : Wf s) (h : Process.step s a = some (events, s')) (hr : r < s.nextRef) :
    Kept s s' r := by
  obtain ⟨hready, ⟨id, hw, -, -, rfl⟩ | ⟨hw, hm⟩⟩ := hs.step_cases h
  · exact (quiet_P hs (fun _ => rfl) rfl (hs.control _) (hs.running h) id).kept hr
  · exact (hm.tableMove hs hready.lt hw).kept hs hr

/-- The initial state is well formed. -/
theorem initial_wf (rawTable rawFrames : Nat → BitVec 32) : Wf (initial rawTable rawFrames) := by
  have hbit : (initial rawTable rawFrames).bm.bit 0 = true := by
    show ((BitMap.new 10 rawTable).markBit 0).bit 0 = true
    rw [BitMap.bit_markBit (by simp)]
    rfl
  refine { tableBits := by simp [initial], frameBits := by simp [initial], slot := ?slot,
           alive := ?alive, owns := ?owns, owner := ?owner, unborn := ?unborn, control := ?control,
           parent := ?parent, root := ?root, space := ?space }
  case slot =>
    intro p r hp
    have hp0 : p = 0 ∧ r = 0 := by
      simp only [initial, Function.update_apply] at hp
      split at hp
      · rename_i h0
        exact ⟨h0, (Option.some.inj hp).symm⟩
      · cases hp
    obtain ⟨rfl, rfl⟩ := hp0
    refine ⟨le_rfl, by decide, Nat.one_pos, rfl, ?_⟩
    show false = !(initial rawTable rawFrames).bm.bit 0
    rw [hbit]
    rfl
  case alive =>
    intro r hr _
    obtain rfl : r = 0 := Nat.lt_one_iff.mp hr
    rfl
  case owns =>
    intro t ht _
    obtain rfl : t = 0 := Nat.lt_one_iff.mp ht
    exact ⟨0, rfl, rfl, .inl ⟨rfl, rfl⟩⟩
  case owner =>
    intro r t _ hthread
    cases hthread
  case unborn =>
    intro t ht
    exact if_neg (Nat.ne_of_gt ht)
  case control =>
    intro t
    rcases eq_or_ne t 0 with rfl | h0
    · trivial
    · have hfin : ((initial rawTable rawFrames).thread t).control = .finished := if_neg h0
      rw [hfin]
      rfl
  case parent =>
    intro r hr hne
    exact absurd (Nat.lt_one_iff.mp hr) hne
  case root =>
    exact ⟨rfl, rfl, rfl, by simp [initial], Nat.one_pos⟩
  case space =>
    intro t sp hsp
    cases hsp

/-- Every reachable state is well formed. -/
theorem run_wf {rawTable rawFrames : Nat → BitVec 32} {ok : State → Act → Prop}
    {trace : List Event} (h : Run step ok (initial rawTable rawFrames) trace s) : Wf s :=
  h.invariant (initial_wf _ _) fun _ _ _ _ hs _ hstep => hs.step hstep

end Run

end Nachos.Process
