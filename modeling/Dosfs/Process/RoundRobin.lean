import Dosfs.Foundation.RoundRobin
import Dosfs.Process.StackPages

/-!
# The timer

In any run of the scheduler a process alive is ready or running. As many ticks in
a row as there are processes give the processor to each of them once, in the
order of the slots from the current one on. After a tick the current process
runs, unless it is the only one and has yielded before: the search then comes
back to it and leaves it ready.
-/

namespace Dosfs

open Foundation Foundation.RoundRobin

variable {s : Scheduler} {i : Fin maxProcesses}

/-! ## The processes that can be given the processor -/

def Scheduler.runnableSlots (s : Scheduler) : Finset (Fin maxProcesses) :=
  Finset.univ.filter fun i => (s.processes i).runnable

/-- How far a slot is behind the one after the current process, around the table. -/
def Scheduler.turnDistance (s : Scheduler) (i : Fin maxProcesses) : Int :=
  (i - (s.currentProcess + 1)) % maxProcesses

/-- As many ticks as processes can be given the processor visit each of them once,
in the order of their slots from the current process on. -/
def TicksVisitEach (s : Scheduler) : Prop :=
  ∃ visited : List (Fin maxProcesses),
    (List.range s.runnableSlots.card).map (fun k => (schedulerTick^[k + 1] s).currentProcess) =
      visited.map (fun i : Fin maxProcesses => (i : Int)) ∧
    visited.Nodup ∧ (∀ i, i ∈ visited ↔ i ∈ s.runnableSlots) ∧
    visited.Pairwise fun i j => s.turnDistance i < s.turnDistance j

theorem Scheduler.AllRunnable.slots (hall : s.AllRunnable) : s.runnableSlots = s.alive := by
  ext i
  rw [runnableSlots, Finset.mem_filter]
  refine ⟨fun hi => ?_, fun hi => ⟨Finset.mem_univ i, hall i hi⟩⟩
  rw [mem_alive]
  intro hunused
  simp [Process.runnable, hunused] at hi

section

variable {σ : Type} {src : PageSource σ} {m : Machine σ}

theorem stepProcess_allRunnable (hinv : SchedulerInv s) (hall : s.AllRunnable) (op : ProcessOp) :
    (stepProcess src s m op).1.AllRunnable := by
  cases op with
  | create name entry =>
      change (processCreate src name entry s m).1.AllRunnable
      have hcreates := processCreate_creates src name entry s m
      generalize (processCreate src name entry s m).1 = s' at hcreates ⊢
      generalize (processCreate src name entry s m).2 = m' at hcreates
      cases hcreates with
      | refused => exact hall
      | noKernelStack slot proc hslot hproc => exact hall.store fun hused => absurd hproc hused
      | noUserStack slot proc hslot hproc => exact hall.store fun hused => absurd hproc hused
      | created slot proc hslot hproc =>
          exact hall.store fun _ => by simp [Process.runnable, hproc]
  | exit code =>
      change (processExit src code s m).1.AllRunnable
      rcases processExit_scheduler src code s m with ⟨-, heq⟩ | ⟨-, proc, hproc, heq⟩
      · rw [heq]
        exact hall
      · rw [heq]
        exact hall.store fun hused => absurd hproc hused
  | yield => exact hall.processYield
  | tick => exact hall.schedulerTick hinv

theorem runProcesses_allRunnable (hinv : SchedulerInv s) (hall : s.AllRunnable)
    (ops : List ProcessOp) : (runProcesses src ops (s, m)).1.AllRunnable := by
  induction ops generalizing s m with
  | nil => exact hall
  | cons op ops ih =>
      rw [runProcesses, List.foldl_cons]
      exact ih (stepProcess_inv src m hinv op) (stepProcess_allRunnable hinv hall op)

end

/-! ## A cycle of ticks -/

theorem slotAt_congr {a b : Int} (h : a % maxProcesses = b % maxProcesses) :
    slotAt a = slotAt b := by
  rw [slotAt, slotAt]
  exact Fin.ext (congrArg Int.toNat h)

theorem slotAt_period (a : Int) : slotAt (a + maxProcesses) = slotAt a :=
  slotAt_congr (Int.add_emod_right a maxProcesses)

theorem turnDistance_slotAt {offset : Nat} (hoffset : offset < maxProcesses) :
    s.turnDistance (slotAt (s.currentProcess + 1 + offset)) = offset := by
  simp only [Scheduler.turnDistance, slotAt, maxProcesses] at hoffset ⊢
  omega

/-- The processes alive, in the order of their next turns. -/
def Scheduler.queue (s : Scheduler) : List (Fin maxProcesses) :=
  tour slotAt (fun i => decide (i ∈ s.alive)) maxProcesses (s.currentProcess + 1)

theorem queue_pairwise (s : Scheduler) :
    s.queue.Pairwise fun i j => s.turnDistance i < s.turnDistance j := by
  refine List.Pairwise.filter _ (List.pairwise_map.2 ?_)
  refine List.pairwise_lt_range.imp_of_mem fun {a b} ha hb hlt => ?_
  rw [turnDistance_slotAt (List.mem_range.1 ha), turnDistance_slotAt (List.mem_range.1 hb)]
  exact_mod_cast hlt

theorem queue_nodup (s : Scheduler) : s.queue.Nodup := by
  refine (queue_pairwise s).imp fun hlt heq => ?_
  rw [heq] at hlt
  exact absurd hlt (Int.lt_irrefl _)

theorem mem_queue : i ∈ s.queue ↔ i ∈ s.alive := by
  rw [Scheduler.queue, tour, List.mem_filter, decide_eq_true_iff, and_iff_right_of_imp]
  intro _
  obtain ⟨offset, hoffset, hslot⟩ := exists_slotAt s.currentProcess i
  exact mem_line.2 ⟨offset, by simpa using hoffset, hslot⟩

theorem queue_length (s : Scheduler) : s.queue.length = s.alive.card := by
  rw [← List.toFinset_card_of_nodup (queue_nodup s)]
  congr 1
  ext i
  rw [List.mem_toFinset, mem_queue]

/-- A tick gives the processor to the first of the queue and moves it to the end. -/
theorem queue_tick {rest : List (Fin maxProcesses)} (hinv : SchedulerInv s)
    (hall : s.AllRunnable) (hqueue : s.queue = i :: rest) :
    (schedulerTick s).currentProcess = i ∧ (schedulerTick s).queue = rest ++ [i] := by
  have hsome : s.alive.Nonempty := ⟨i, mem_queue.1 (hqueue ▸ List.mem_cons_self)⟩
  obtain ⟨offset, hoffset, next, hnext, hslot, hbefore, hcurrent, -⟩ :=
    schedulerTick_turn hinv hall hsome
  obtain ⟨rest', hbegin, hend⟩ := @tour_next _ slotAt (fun i => decide (i ∈ s.alive)) maxProcesses
    (s.currentProcess + 1) slotAt_period offset hoffset (by rw [hslot]; exact decide_eq_true hnext)
    fun i hi => decide_eq_false (hbefore i hi)
  rw [hslot] at hbegin hend
  obtain ⟨rfl, rfl⟩ := List.cons.inj (hqueue.symm.trans hbegin)
  refine ⟨hcurrent, ?_⟩
  rw [← hend, Scheduler.queue, (schedulerTick_sameStacks hinv).alive, hcurrent, ← hslot]
  refine tour_congr fun k => slotAt_congr ?_
  simp only [slotAt, maxProcesses]
  omega

/-- In every run as many ticks as processes are alive visit each of them once, in
the order of their slots from the current process on. -/
theorem ticks_visit_each {σ : Type} (src : PageSource σ) (m : Machine σ) (ops : List ProcessOp) :
    TicksVisitEach (runProcesses src ops (schedulerInit, m)).1 := by
  have hinv := runProcesses_inv src m schedulerInit_inv ops
  have hall :=
    @runProcesses_allRunnable _ _ src m schedulerInit_inv schedulerInit_crowd.runnable ops
  generalize (runProcesses src ops (schedulerInit, m)).1 = s at hinv hall
  refine ⟨s.queue, ?_, queue_nodup s, fun i => ?_, queue_pairwise s⟩
  · rw [hall.slots, ← queue_length]
    refine turns_eq schedulerTick (fun s => SchedulerInv s ∧ s.AllRunnable) Scheduler.queue
      Scheduler.currentProcess _ (fun s i rest hinv hqueue => ?_) ⟨hinv, hall⟩
    obtain ⟨hturn, hrest⟩ := queue_tick hinv.1 hinv.2 hqueue
    exact ⟨⟨hinv.1.schedulerTick, hinv.2.schedulerTick hinv.1⟩, hturn, hrest⟩
  · rw [hall.slots, mem_queue]

/-! ## The process that a tick leaves running -/

/-- The current process runs, and the next tick counts its time slice. -/
def Dispatched (s : Scheduler) : Prop :=
  ∃ i : Fin maxProcesses, s.currentProcess = i ∧ (s.processes i).state = .running ∧
    ((schedulerTick s).processes i).timeSlices = ((s.processes i).timeSlices + 1) % 2 ^ 32

/-- The only process alive is current and has yielded since it was given the
processor. -/
def SoleYielded (s : Scheduler) : Prop :=
  ∃ i : Fin maxProcesses, s.alive = {i} ∧ s.currentProcess = i ∧ (s.processes i).state = .ready

theorem dispatched_of_running (hinv : SchedulerInv s) (hcurrent : s.currentProcess = i)
    (hrunning : (s.processes i).state = .running) : Dispatched s := by
  refine ⟨i, hcurrent, hrunning, ?_⟩
  have hcount : s.processCount ≠ 0 := by
    have hpos := Finset.card_pos.2 ⟨i, Scheduler.mem_alive.2 (by rw [hrunning]; decide)⟩
    rw [hinv.count]
    omega
  rw [@schedulerTick_field _ _ Process.timeSlices (fun _ _ => rfl) hcount, countSlice, hcurrent,
    slotAt_coe, if_pos ⟨Int.natCast_nonneg _, hrunning⟩, Scheduler.store_same]

theorem countSlice_of_ready (hcurrent : s.currentProcess = i)
    (hready : (s.processes i).state = .ready) : countSlice s = s := by
  rw [countSlice, hcurrent, slotAt_coe, if_neg fun h => by rw [hready] at h; cases h.2]

theorem not_dispatched_of_ready (hcurrent : s.currentProcess = i)
    (hready : (s.processes i).state = .ready) : ¬ Dispatched s := by
  rintro ⟨j, hj, hrunning, -⟩
  obtain rfl : i = j := Fin.ext (by exact_mod_cast hcurrent.symm.trans hj)
  rw [hready] at hrunning
  cases hrunning

/-- The search that comes back to the current process has met no other one. -/
theorem sole_of_full_round {offset : Nat} (hcurrent : s.currentProcess = i) (hi : i ∈ s.alive)
    (hoffset : offset < maxProcesses) (hslot : slotAt (s.currentProcess + 1 + offset) = i)
    (hbefore : ∀ k < offset, slotAt (s.currentProcess + 1 + k) ∉ s.alive) : s.alive = {i} := by
  have hlast : offset + 1 = maxProcesses := by
    have hdistance := @turnDistance_slotAt s _ hoffset
    have hlt := i.isLt
    rw [hslot] at hdistance
    simp only [Scheduler.turnDistance, maxProcesses, hcurrent] at hdistance hoffset hlt ⊢
    omega
  refine Finset.eq_singleton_iff_unique_mem.2 ⟨hi, fun j hj => ?_⟩
  obtain ⟨k, hk, hkslot⟩ := exists_slotAt s.currentProcess j
  have hnotBefore : ¬ k < offset := fun hlt => hbefore k hlt (hkslot ▸ hj)
  have hsame : k = offset := by
    have hkbound : k < maxProcesses := by simpa using hk
    omega
  rw [← hkslot, hsame, hslot]

/-- A tick leaves the current process running if and only if it is not the only one
alive, ready because it has yielded. -/
theorem tick_dispatches (hinv : SchedulerInv s) (hall : s.AllRunnable)
    (hsome : s.alive.Nonempty) : Dispatched (schedulerTick s) ↔ ¬ SoleYielded s := by
  obtain ⟨offset, hoffset, next, hnext, hslot, hbefore, hcurrent, hcases⟩ :=
    schedulerTick_turn hinv hall hsome
  rcases hcases with ⟨hsame, htick⟩ | ⟨hother, hrunning⟩
  · have hsole := sole_of_full_round hsame hnext hoffset hslot hbefore
    have hstate := hall next hnext
    rw [Process.runnable, Bool.or_eq_true, decide_eq_true_iff, decide_eq_true_iff] at hstate
    rcases hstate with hready | hrunning
    · rw [htick, countSlice_of_ready hsame hready]
      exact iff_of_false (not_dispatched_of_ready hsame hready)
        (not_not_intro ⟨next, hsole, hsame, hready⟩)
    · refine iff_of_true (dispatched_of_running hinv.schedulerTick hcurrent ?_) ?_
      · rw [htick, @countSlice_field _ Process.state (fun _ _ => rfl), hrunning]
      · rintro ⟨i, -, hi, hready⟩
        obtain rfl : i = next := Fin.ext (by exact_mod_cast hi.symm.trans hsame)
        rw [hrunning] at hready
        cases hready
  · refine iff_of_true (dispatched_of_running hinv.schedulerTick hcurrent hrunning) ?_
    rintro ⟨i, halive, hi, -⟩
    rw [halive, Finset.mem_singleton] at hnext
    exact hother (hnext ▸ hi)

/-- In every run, while a process is alive, a tick leaves the current process running
if and only if it is not the only one alive, ready because it has yielded. -/
theorem tick_leaves_running_iff {σ : Type} (src : PageSource σ) (m : Machine σ)
    (ops : List ProcessOp) (hsome : (runProcesses src ops (schedulerInit, m)).1.alive.Nonempty) :
    Dispatched (schedulerTick (runProcesses src ops (schedulerInit, m)).1) ↔
      ¬ SoleYielded (runProcesses src ops (schedulerInit, m)).1 :=
  tick_dispatches (runProcesses_inv src m schedulerInit_inv ops)
    (runProcesses_allRunnable schedulerInit_inv schedulerInit_crowd.runnable ops) hsome

theorem tick_leaves_running_iff_boot : ∃ s₀,
    bootSystem 0x180000 0x1000000 (fun _ _ => .zero) (fun _ => 0) = some s₀ ∧
      Dispatched (schedulerTick (runProcesses pmmSource [.create (CString.ofBuffer []) 0x100000]
        (schedulerInit, s₀.heap.pages)).1) := by
  obtain ⟨s₀, s, m, -, hboot, -, -, hcrowd, hcurrent, hrun⟩ := boot_process
  have hsame : (runProcesses pmmSource [.create (CString.ofBuffer []) 0x100000]
      (schedulerInit, s₀.heap.pages)).1 = s := congrArg Prod.fst (hrun [])
  refine ⟨s₀, hboot, ?_⟩
  rw [tick_leaves_running_iff pmmSource s₀.heap.pages [.create (CString.ofBuffer []) 0x100000]
    (hsame ▸ hcrowd.nonempty), hsame]
  rintro ⟨i, -, hi, -⟩
  rw [hcurrent] at hi
  exact absurd (Int.natCast_nonneg i) (by rw [← hi]; decide)

/-- A lone process that yields is passed over by the timer. -/
theorem Crowd.yield_stays_ready (hcrowd : Crowd 1 s) (hcurrent : 0 ≤ s.currentProcess)
    (i : Fin maxProcesses) : ((schedulerTick (processYield s)).processes i).state ≠ .running := by
  obtain ⟨hinv, hidle⟩ := hcrowd.scheduler.processYield
  have halive := (processYield_sameStacks hcrowd.scheduler).alive
  obtain ⟨sole, hsole⟩ := Finset.card_eq_one.1 hcrowd.alive
  obtain ⟨j, hj, hindex, -⟩ := hcrowd.scheduler.current_slot hcurrent
  have hindex' : (processYield s).currentProcess = j := by
    rw [processYield, if_pos hcurrent]
    exact hindex
  obtain ⟨-, -, next, hnext, -, -, -, ⟨-, htick⟩ | ⟨hother, -⟩⟩ :=
    schedulerTick_turn hinv hcrowd.runnable.processYield (halive ▸ hcrowd.nonempty)
  · rw [htick, @countSlice_field _ Process.state (fun _ _ => rfl)]
    exact hidle i
  · -- only the current process is alive, so the turn goes to no other one
    rw [halive] at hnext
    rw [hsole, Finset.mem_singleton] at hj hnext
    exact absurd (hindex'.trans (by rw [hj, hnext])) hother

/-- A process is created, given the processor and yields. Then a tick leaves no
process running. -/
theorem sole_process_stays_ready : ∃ s₀,
    bootSystem 0x180000 0x1000000 (fun _ _ => .zero) (fun _ => 0) = some s₀ ∧
      ∃ s, s = (runProcesses pmmSource
          [.create (CString.ofBuffer []) 0x100000, .tick, .yield]
          (schedulerInit, s₀.heap.pages)).1 ∧
        s.alive.Nonempty ∧ ∀ i, ((schedulerTick s).processes i).state ≠ .running := by
  obtain ⟨s₀, s, m, -, hboot, -, -, hcrowd, -, hrun⟩ := boot_process
  obtain ⟨hcrowd', hcurrent⟩ := hcrowd.tick
  refine ⟨s₀, hboot, _, rfl, ?_⟩
  rw [hrun]
  change (processYield (schedulerTick s)).alive.Nonempty ∧
    ∀ i, ((schedulerTick (processYield (schedulerTick s))).processes i).state ≠ .running
  rw [(processYield_sameStacks hcrowd'.scheduler).alive]
  exact ⟨hcrowd'.nonempty, hcrowd'.yield_stays_ready hcurrent⟩

end Dosfs
