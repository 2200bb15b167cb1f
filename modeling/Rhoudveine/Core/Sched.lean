import Rhoudveine.Lib.Linked
import Rhoudveine.Lib.Run

/-!
# The scheduler

The run queues of `sched.c`, as built with `CONFIG_SMP` and `CONFIG_SMT_SCHED`.  A task is named by
its place in `task_pool`.
-/

namespace Rhoudveine.Sched

/-! ## Tasks and CPUs -/

def taskReady : UInt32 := 1

def maxCpus : ℕ := 64

def maxTasks : ℕ := 256

/-- `task_t` without `stack` and `context`. -/
structure Task where
  id : UInt32
  state : UInt32
  cpuId : UInt32
  timeSlice : UInt64
  totalRuntime : UInt64
  next : Option ℕ
  name : List UInt8
  deriving DecidableEq, Repr

/-- The size of `name`. -/
def nameSize : ℕ := 64

/-- The bytes of a `task_t`; `name` is the last field. -/
def sizeofTask : ℕ := 120

inductive TaskPtr
  | pool (i : ℕ)
  | idle (cpu : ℕ)
  deriving DecidableEq, Repr

/-- `cpu_info_t` without `idle_time`. -/
structure CpuInfo where
  id : UInt32
  apicId : UInt32
  isBsp : Bool
  isSmt : Bool
  coreId : UInt32
  packageId : UInt32
  online : Bool
  current : Option TaskPtr
  runQueue : Option ℕ
  deriving DecidableEq, Repr

structure State where
  cpus : ℕ → CpuInfo
  cpuCount : ℕ
  taskPool : ℕ → Task
  nextTaskId : ℕ
  smtAware : Int32
  idleTasks : ℕ → Task

namespace State

def next (s : State) (t : ℕ) : Option ℕ := (s.taskPool t).next

def runQueue (s : State) (cpu : ℕ) : Option ℕ := (s.cpus cpu).runQueue

def current (s : State) (cpu : ℕ) : Option TaskPtr := (s.cpus cpu).current

/-- The CPU of a task, as a number. -/
def cpuOf (s : State) (t : ℕ) : ℕ := (s.taskPool t).cpuId.toNat

def task (s : State) : TaskPtr → Task
  | .pool t => s.taskPool t
  | .idle cpu => s.idleTasks cpu

def setTask (s : State) (p : TaskPtr) (task : Task) : State :=
  match p with
  | .pool t => { s with taskPool := Function.update s.taskPool t task }
  | .idle cpu => { s with idleTasks := Function.update s.idleTasks cpu task }

def setNext (s : State) (t : ℕ) (p : Option ℕ) : State :=
  s.setTask (.pool t) { s.taskPool t with next := p }

def setCurrent (s : State) (cpu : ℕ) (p : Option TaskPtr) : State :=
  { s with cpus := Function.update s.cpus cpu { s.cpus cpu with current := p } }

def setRunQueue (s : State) (cpu : ℕ) (p : Option ℕ) : State :=
  { s with cpus := Function.update s.cpus cpu { s.cpus cpu with runQueue := p } }

end State

/-! ## Start -/

/-- The bytes of `dest` after `src` and its NUL are copied there; what does not fit goes past it. -/
def schedStrcpy (dest src : List UInt8) : List UInt8 :=
  (src ++ [0]).take dest.length ++ dest.drop (src.length + 1)

def zeroTask : Task := ⟨0, 0, 0, 0, 0, none, List.replicate nameSize 0⟩

def zeroCpu : CpuInfo := ⟨0, 0, false, false, 0, 0, false, none, none⟩

/-- The variables at boot. -/
def boot : State := ⟨fun _ => zeroCpu, 0, fun _ => zeroTask, 0, 1, fun _ => zeroTask⟩

/-- `cpu_count`. -/
def detected (acpiCpuCount : Int32) : ℕ :=
  if 0 < acpiCpuCount then min acpiCpuCount.toInt.toNat maxCpus else 1

/-- One round of the loop of `sched_init` over the CPUs. -/
def initCpu (cpuCount i : ℕ) (apicId : UInt32) : CpuInfo where
  id := UInt32.ofNat i
  apicId := apicId
  isBsp := i = 0
  isSmt := apicId &&& 1 ≠ 0 ∧ 1 < cpuCount
  coreId := apicId >>> 1
  packageId := 0
  online := i = 0
  current := none
  runQueue := none

def initIdle (idle : Task) (i : ℕ) : Task :=
  { idle with
    id := 0xFFFF0000 ||| UInt32.ofNat i
    state := taskReady
    cpuId := UInt32.ofNat i
    name := schedStrcpy idle.name [105, 100, 108, 101] }

def schedInit (acpiCpuCount : Int32) (acpiCpuApicIds : ℕ → UInt32) (s : State) : State :=
  let cpuCount := detected acpiCpuCount
  { s with
    cpus := fun i => if i < cpuCount then initCpu cpuCount i (acpiCpuApicIds i) else zeroCpu
    taskPool := fun _ => zeroTask
    cpuCount := cpuCount
    idleTasks := fun i => if i < cpuCount then initIdle (s.idleTasks i) i else s.idleTasks i }

/-! ## Calls -/

/-- One CPU in the search for the least loaded; `none` if the count of its tasks takes more than
`rounds` rounds. -/
def lessLoaded (rounds : ℕ) (s : State) (best : ℕ × ℕ) (i : ℕ) : Option (ℕ × ℕ) :=
  if !(s.cpus i).online then some best
  else if s.smtAware ≠ 0 ∧ (s.cpus i).isSmt then some best
  else (Linked.count s.next rounds (s.runQueue i)).map fun load =>
    if load < best.2 then (i, load) else best

def targetCpu (rounds : ℕ) (s : State) : Option ℕ :=
  ((List.range s.cpuCount).foldlM (lessLoaded rounds s) (0, 0x7FFFFFFF)).map Prod.fst

/-- The pool with a new task.  A name that is too long for `name` goes on into the tasks behind,
which then hold `overrun`. -/
def newTask (s : State) (name : List UInt8) (overrun : ℕ → Task) (i : ℕ) : Task :=
  if i = s.nextTaskId then
    { s.taskPool i with
      id := UInt32.ofNat (i + 1)
      state := taskReady
      timeSlice := 10
      totalRuntime := 0
      name := schedStrcpy (s.taskPool i).name name }
  else if s.nextTaskId < i ∧ nameSize ≤ name.length then overrun i
  else s.taskPool i

def schedCreateTask (rounds : ℕ) (s : State) (name : List UInt8) (overrun : ℕ → Task) :
    Option (Option ℕ × State) :=
  if maxTasks ≤ s.nextTaskId then some (none, s)
  else
    let t := s.nextTaskId
    let s := { s with taskPool := newTask s name overrun, nextTaskId := t + 1 }
    match targetCpu rounds s with
    | none => none
    | some target =>
      let s := s.setTask (.pool t)
        { s.taskPool t with cpuId := UInt32.ofNat target, next := s.runQueue target }
      some (some t, s.setRunQueue target (some t))

/-- Round robin on CPU 0; `none` if the walk to the tail takes `rounds` rounds or more. -/
def schedSchedule (rounds : ℕ) (s : State) : Option State :=
  match s.runQueue 0 with
  | none => some (s.setCurrent 0 (some (.idle 0)))
  | some next =>
    if (s.taskPool next).state = taskReady then
      let rest := s.next next
      let s := ((s.setCurrent 0 (some (.pool next))).setRunQueue 0 rest).setNext next none
      match rest with
      | none => some (s.setRunQueue 0 (some next))
      | some head =>
        match Linked.advance s.next (fun _ => true) rounds head with
        | none => none
        | some tail => some (s.setNext tail (some next))
    else some s

def schedYield (rounds : ℕ) (s : State) : Option State := schedSchedule rounds s

/-- A tick of the timer for one task. -/
def tickTask (task : Task) : Task :=
  if 0 < task.timeSlice then
    let slice := task.timeSlice - 1
    { task with
      timeSlice := if slice = 0 then 10 else slice
      totalRuntime := task.totalRuntime + 1 }
  else task

def tickCpu (s : State) (i : ℕ) : State :=
  if !(s.cpus i).online then s
  else
    match s.current i with
    | none => s
    | some p => s.setTask p (tickTask (s.task p))

def schedTick (s : State) : State := (List.range s.cpuCount).foldl tickCpu s

def schedSetSmtAware (s : State) (enabled : Int32) : State := { s with smtAware := enabled }

inductive Call
  | create (name : List UInt8) (overrun : ℕ → Task)
  | schedule
  | yield
  | tick
  | setSmtAware (enabled : Int32)

/-- The name and its NUL end inside `task_pool`. -/
def Fits (s : State) (name : List UInt8) : Prop :=
  s.nextTaskId < maxTasks →
    s.nextTaskId * sizeofTask + (sizeofTask - nameSize) + name.length < maxTasks * sizeofTask

instance (s : State) (name : List UInt8) : Decidable (Fits s name) :=
  inferInstanceAs (Decidable (_ → _))

inductive Step (rounds : ℕ) : State → Call → State → Prop
  | create {s s' : State} {name : List UInt8} {overrun : ℕ → Task} {t : Option ℕ} :
      Fits s name → schedCreateTask rounds s name overrun = some (t, s') →
      Step rounds s (.create name overrun) s'
  | schedule {s s' : State} : schedSchedule rounds s = some s' → Step rounds s .schedule s'
  | yield {s s' : State} : schedYield rounds s = some s' → Step rounds s .yield s'
  | tick {s : State} : Step rounds s .tick (schedTick s)
  | setSmtAware {s : State} {enabled : Int32} :
      Step rounds s (.setSmtAware enabled) (schedSetSmtAware s enabled)

/-! ## What is to hold -/

/-- Every task created is in one queue, that of its CPU, and there once. -/
structure Queues (s : State) (queue : ℕ → List ℕ) : Prop where
  linked : ∀ cpu, Linked s.next (s.runQueue cpu) (queue cpu)
  once : ∀ t < s.nextTaskId, ∀ cpu, (queue cpu).count t = if cpu = s.cpuOf t then 1 else 0
  created : ∀ cpu, ∀ t ∈ queue cpu, t < s.nextTaskId
  inRange : ∀ t < s.nextTaskId, s.cpuOf t < s.cpuCount

/-- The tasks that `k` calls make current, one after the other. -/
def scheduleTimes (rounds : ℕ) : (k : ℕ) → State → Option (List (Option TaskPtr) × State)
  | 0, s => some ([], s)
  | k + 1, s =>
    match schedSchedule rounds s with
    | none => none
    | some s =>
      match scheduleTimes rounds k s with
      | none => none
      | some (currents, s') => some (s.current 0 :: currents, s')

/-- The queues, the ids and round robin. -/
structure Sound (rounds : ℕ) (s : State) : Prop where
  queues : ∃ queue, Queues s queue
  ids : ∀ t u, t < s.nextTaskId → u < s.nextTaskId →
    (s.taskPool t).id = (s.taskPool u).id → t = u
  creates : ∀ name overrun, Fits s name → ∃ out, schedCreateTask rounds s name overrun = some out
  schedules : ∃ s', schedSchedule rounds s = some s'
  turns : ∀ xs, Linked s.next (s.runQueue 0) xs → xs ≠ [] →
    ∃ s', scheduleTimes rounds xs.length s = some (xs.map fun t => some (.pool t), s') ∧
      Linked s'.next (s'.runQueue 0) xs

/-! ## The invariant -/

variable {s s' : State} {queue : ℕ → List ℕ} {rounds cpu t : ℕ} {xs ys : List ℕ}

structure Inv (s : State) (queue : ℕ → List ℕ) : Prop where
  bound : s.nextTaskId ≤ maxTasks
  cpus : 0 < s.cpuCount ∧ s.cpuCount ≤ maxCpus
  ids : ∀ t < s.nextTaskId, (s.taskPool t).id = UInt32.ofNat (t + 1)
  ready : ∀ t < s.nextTaskId, (s.taskPool t).state = taskReady
  inRange : ∀ t < s.nextTaskId, s.cpuOf t < s.cpuCount
  linked : ∀ cpu, Linked s.next (s.runQueue cpu) (queue cpu)
  mem_iff : ∀ cpu t, t ∈ queue cpu ↔ t < s.nextTaskId ∧ s.cpuOf t = cpu

theorem Inv.length_le (h : Inv s queue) (cpu : ℕ) : (queue cpu).length ≤ maxTasks := by
  have hsub : queue cpu ⊆ List.range s.nextTaskId := by
    intro t ht
    exact List.mem_range.mpr ((h.mem_iff cpu t).mp ht).1
  have hle := (List.subperm_of_subset (h.linked cpu).nodup hsub).length_le
  rw [List.length_range] at hle
  exact hle.trans h.bound

theorem Inv.queues (h : Inv s queue) : Queues s queue := by
  constructor
  · exact h.linked
  · intro t ht cpu
    rw [(h.linked cpu).nodup.count]
    apply if_congr _ rfl rfl
    rw [h.mem_iff]
    constructor
    · exact fun hmem => hmem.2.symm
    · exact fun hcpu => ⟨ht, hcpu.symm⟩
  · exact fun cpu t ht => ((h.mem_iff cpu t).mp ht).1
  · exact h.inRange

/-- The fields of a task that tell where it belongs. -/
structure SameTask (a b : Task) : Prop where
  id : a.id = b.id
  state : a.state = b.state
  cpuId : a.cpuId = b.cpuId

/-- What a call leaves alone that creates no task and changes at most the queue of `cpu`. -/
structure Spared (s s' : State) (cpu : ℕ) (xs : List ℕ) : Prop where
  cpuCount : s'.cpuCount = s.cpuCount
  nextTaskId : s'.nextTaskId = s.nextTaskId
  task : ∀ t < s.nextTaskId, SameTask (s'.taskPool t) (s.taskPool t)
  runQueue : ∀ i, i ≠ cpu → s'.runQueue i = s.runQueue i
  next : ∀ t < s.nextTaskId, t ∉ xs → s'.next t = s.next t

/-- The queue of one CPU in another order. -/
theorem Inv.requeue (h : Inv s queue) (hspared : Spared s s' cpu (queue cpu))
    (hys : Linked s'.next (s'.runQueue cpu) ys) (hperm : ys.Perm (queue cpu)) :
    Inv s' (Function.update queue cpu ys) := by
  have hcpu (t : ℕ) (ht : t < s.nextTaskId) : s'.cpuOf t = s.cpuOf t := by
    rw [State.cpuOf, (hspared.task t ht).cpuId]
    rfl
  constructor
  · rw [hspared.nextTaskId]
    exact h.bound
  · rw [hspared.cpuCount]
    exact h.cpus
  · rw [hspared.nextTaskId]
    intro t ht
    rw [(hspared.task t ht).id]
    exact h.ids t ht
  · rw [hspared.nextTaskId]
    intro t ht
    rw [(hspared.task t ht).state]
    exact h.ready t ht
  · rw [hspared.nextTaskId, hspared.cpuCount]
    intro t ht
    rw [hcpu t ht]
    exact h.inRange t ht
  · intro i
    by_cases hi : i = cpu
    · rw [hi, Function.update_self]
      exact hys
    · rw [Function.update_of_ne hi, hspared.runQueue i hi]
      apply (h.linked i).congr
      intro t ht
      obtain ⟨hcreated, hthis⟩ := (h.mem_iff i t).mp ht
      apply hspared.next t hcreated
      intro hother
      -- the task would be in two queues
      exact hi (hthis.symm.trans ((h.mem_iff cpu t).mp hother).2)
  · intro i t
    have hmem : t ∈ Function.update queue cpu ys i ↔ t ∈ queue i := by
      by_cases hi : i = cpu
      · rw [hi, Function.update_self]
        exact hperm.mem_iff
      · rw [Function.update_of_ne hi]
    rw [hmem, h.mem_iff, hspared.nextTaskId]
    apply and_congr_right
    intro ht
    rw [hcpu t ht]

/-- The queues stay as they are. -/
theorem Inv.congr (h : Inv s queue) (hspared : Spared s s' cpu [])
    (hqueue : s'.runQueue cpu = s.runQueue cpu) : Inv s' queue := by
  have hspared' : Spared s s' cpu (queue cpu) := by
    constructor
    · exact hspared.cpuCount
    · exact hspared.nextTaskId
    · exact hspared.task
    · exact hspared.runQueue
    · exact fun t ht _ => hspared.next t ht List.not_mem_nil
  have hlinked : Linked s'.next (s'.runQueue cpu) (queue cpu) := by
    rw [hqueue]
    apply (h.linked cpu).congr
    intro t ht
    exact hspared.next t ((h.mem_iff cpu t).mp ht).1 List.not_mem_nil
  have hinv := h.requeue hspared' hlinked (List.Perm.refl _)
  rw [Function.update_eq_self] at hinv
  exact hinv

/-! ## Fields after a call -/

theorem SameTask.refl (a : Task) : SameTask a a := ⟨rfl, rfl, rfl⟩

theorem SameTask.trans {a b c : Task} (h : SameTask a b) (h' : SameTask b c) : SameTask a c :=
  ⟨h.id.trans h'.id, h.state.trans h'.state, h.cpuId.trans h'.cpuId⟩

theorem setNext_taskPool (s : State) (x : ℕ) (p : Option ℕ) (t : ℕ) :
    (s.setNext x p).taskPool t =
      if t = x then { s.taskPool x with next := p } else s.taskPool t :=
  Function.update_apply ..

theorem setCurrent_cpus (s : State) (i : ℕ) (p : Option TaskPtr) (j : ℕ) :
    (s.setCurrent i p).cpus j = if j = i then { s.cpus i with current := p } else s.cpus j :=
  Function.update_apply ..

theorem setRunQueue_cpus (s : State) (i : ℕ) (p : Option ℕ) (j : ℕ) :
    (s.setRunQueue i p).cpus j = if j = i then { s.cpus i with runQueue := p } else s.cpus j :=
  Function.update_apply ..

theorem sameTask_setNext (s : State) (x : ℕ) (p : Option ℕ) (t : ℕ) :
    SameTask ((s.setNext x p).taskPool t) (s.taskPool t) := by
  rw [setNext_taskPool]
  split
  · rename_i ht
    rw [ht]
    exact ⟨rfl, rfl, rfl⟩
  · exact SameTask.refl _

@[simp] theorem setNext_next (s : State) (x : ℕ) (p : Option ℕ) :
    (s.setNext x p).next = Function.update s.next x p := by
  funext t
  rw [State.next, setNext_taskPool, Function.update_apply]
  split
  · rfl
  · rfl

@[simp] theorem setNext_runQueue (s : State) (x : ℕ) (p : Option ℕ) :
    (s.setNext x p).runQueue = s.runQueue := rfl

@[simp] theorem setNext_current (s : State) (x : ℕ) (p : Option ℕ) :
    (s.setNext x p).current = s.current := rfl

@[simp] theorem setCurrent_next (s : State) (i : ℕ) (p : Option TaskPtr) :
    (s.setCurrent i p).next = s.next := rfl

@[simp] theorem setCurrent_runQueue (s : State) (i : ℕ) (p : Option TaskPtr) :
    (s.setCurrent i p).runQueue = s.runQueue := by
  funext j
  rw [State.runQueue, setCurrent_cpus]
  split
  · rename_i hj
    rw [hj]
    rfl
  · rfl

@[simp] theorem setCurrent_current (s : State) (i : ℕ) (p : Option TaskPtr) :
    (s.setCurrent i p).current i = p := by
  rw [State.current, setCurrent_cpus, if_pos rfl]

@[simp] theorem setRunQueue_next (s : State) (i : ℕ) (p : Option ℕ) :
    (s.setRunQueue i p).next = s.next := rfl

@[simp] theorem setRunQueue_runQueue (s : State) (i : ℕ) (p : Option ℕ) :
    (s.setRunQueue i p).runQueue = Function.update s.runQueue i p := by
  funext j
  rw [State.runQueue, setRunQueue_cpus, Function.update_apply]
  split
  · rfl
  · rfl

@[simp] theorem setRunQueue_current (s : State) (i : ℕ) (p : Option ℕ) :
    (s.setRunQueue i p).current = s.current := by
  funext j
  rw [State.current, setRunQueue_cpus]
  split
  · rename_i hj
    rw [hj]
    rfl
  · rfl

/-! ## Round robin -/

theorem schedSchedule_idle (h : s.runQueue 0 = none) :
    schedSchedule rounds s = some (s.setCurrent 0 (some (.idle 0))) := by
  rw [schedSchedule, h]

/-- The first task runs and goes to the end of its queue. -/
theorem schedSchedule_cons (h : Inv s queue) (hrounds : maxTasks ≤ rounds)
    (hqueue : queue 0 = t :: xs) :
    ∃ s', schedSchedule rounds s = some s' ∧ s'.current 0 = some (.pool t) ∧
      Inv s' (Function.update queue 0 (xs ++ [t])) := by
  have hlinked := h.linked 0
  rw [hqueue] at hlinked
  obtain ⟨hhead, hrest⟩ := hlinked
  have hmem : t ∈ queue 0 := by
    rw [hqueue]
    exact List.mem_cons_self
  have hready : (s.taskPool t).state = taskReady := h.ready t ((h.mem_iff 0 t).mp hmem).1
  have hlength := h.length_le 0
  rw [hqueue, List.length_cons] at hlength
  rw [schedSchedule, hhead]
  dsimp only
  rw [if_pos hready]
  -- with one task in the queue it stays alone
  cases xs with
  | nil =>
    have hnone : s.next t = none := hrest
    rw [hnone]
    refine ⟨_, rfl, ?_, ?_⟩
    · simp
    · apply h.requeue
      · constructor
        · rfl
        · rfl
        · exact fun u _ => sameTask_setNext _ t none u
        · intro i hi
          simp [hi]
        · intro u _ hu
          have hut : u ≠ t := ne_of_mem_of_not_mem hmem hu |>.symm
          simp [hut]
      · simp [Linked]
      · rw [hqueue]
        exact List.Perm.refl _
  | cons c zs =>
    have hsome : s.next t = some c := hrest.1
    have ht : t ∉ c :: zs := (List.nodup_cons.mp (hqueue ▸ (h.linked 0).nodup)).1
    have hwalk : Linked (Function.update s.next t none) (some c) (c :: zs) := by
      rw [← hsome]
      exact hrest.update ht none
    rw [List.length_cons] at hlength
    -- the walk to the last task, behind which the first one is put
    obtain ⟨ys, d, hlist, hloop⟩ := Linked.advance_eq (fun _ => true) hwalk
      (show zs.length < rounds by omega)
    rw [List.takeWhile_eq_self_iff.mpr fun _ _ => rfl] at hlist
    rw [hsome]
    dsimp only
    rw [setNext_next, setRunQueue_next, setCurrent_next, hloop]
    refine ⟨_, rfl, ?_, ?_⟩
    · simp
    · have hd : d ∈ queue 0 := by
        rw [hqueue, hlist]
        simp
      apply h.requeue
      · constructor
        · rfl
        · rfl
        · intro u _
          exact (sameTask_setNext _ d (some t) u).trans (sameTask_setNext _ t none u)
        · intro i hi
          simp [hi]
        · intro u _ hu
          have hut : u ≠ t := (ne_of_mem_of_not_mem hmem hu).symm
          have hud : u ≠ d := (ne_of_mem_of_not_mem hd hu).symm
          simp [hut, hud]
      · have hall : Linked s.next (s.runQueue 0) (t :: ys ++ [d]) := by
          rw [List.cons_append, ← hlist, ← hqueue]
          exact h.linked 0
        have hrotate := hall.rotate
        rw [hsome] at hrotate
        simpa [hlist] using hrotate
      · rw [hqueue]
        exact List.perm_append_singleton t (c :: zs)

theorem schedSchedule_returns (h : Inv s queue) (hrounds : maxTasks ≤ rounds) :
    ∃ s' queue', schedSchedule rounds s = some s' ∧ Inv s' queue' := by
  cases hqueue : queue 0 with
  | nil =>
    have hnone : s.runQueue 0 = none := by
      have hhead := (h.linked 0).head
      rw [hqueue] at hhead
      exact hhead
    have hspared : Spared s (s.setCurrent 0 (some (.idle 0))) 0 [] := by
      constructor
      · rfl
      · rfl
      · exact fun _ _ => SameTask.refl _
      · intro i _
        simp
      · intro u _ _
        simp
    exact ⟨_, queue, schedSchedule_idle hnone, h.congr hspared (by simp)⟩
  | cons t xs =>
    obtain ⟨s', hs', -, hinv⟩ := schedSchedule_cons h hrounds hqueue
    exact ⟨s', _, hs', hinv⟩

/-- A turn for each of the tasks `xs` at the front. -/
theorem scheduleTimes_append (h : Inv s queue) (hrounds : maxTasks ≤ rounds)
    (hqueue : queue 0 = xs ++ ys) :
    ∃ s', scheduleTimes rounds xs.length s = some (xs.map fun t => some (.pool t), s') ∧
      Inv s' (Function.update queue 0 (ys ++ xs)) := by
  induction xs generalizing s queue ys with
  | nil =>
    refine ⟨s, rfl, ?_⟩
    have hself : Function.update queue 0 (ys ++ []) = queue := by
      rw [List.append_nil]
      exact Function.update_eq_self_iff.mpr hqueue.symm
    rw [hself]
    exact h
  | cons t xs ih =>
    obtain ⟨s₁, hs₁, hcurrent, hinv₁⟩ := schedSchedule_cons h hrounds hqueue
    have hnext : Function.update queue 0 (xs ++ ys ++ [t]) 0 = xs ++ (ys ++ [t]) := by simp
    obtain ⟨s', hs', hinv⟩ := ih hinv₁ hnext
    refine ⟨s', ?_, ?_⟩
    · rw [List.length_cons, scheduleTimes, hs₁]
      dsimp only
      rw [hs', hcurrent]
      rfl
    · rw [Function.update_idem] at hinv
      simpa using hinv

/-! ## New tasks -/

/-- One CPU in the search. -/
theorem lessLoaded_returns (h : Inv s queue) (hrounds : maxTasks ≤ rounds) (best : ℕ × ℕ) (i : ℕ) :
    ∃ best', lessLoaded rounds s best i = some best' ∧ (best'.1 = best.1 ∨ best'.1 = i) := by
  rw [lessLoaded]
  split
  · exact ⟨best, rfl, Or.inl rfl⟩
  · split
    · exact ⟨best, rfl, Or.inl rfl⟩
    · rw [Linked.count_eq (h.linked i) ((h.length_le i).trans hrounds), Option.map_some]
      split
      · exact ⟨_, rfl, Or.inr rfl⟩
      · exact ⟨_, rfl, Or.inl rfl⟩

theorem foldlM_lessLoaded (h : Inv s queue) (hrounds : maxTasks ≤ rounds) {n : ℕ} (is : List ℕ)
    (his : ∀ i ∈ is, i < n) (best : ℕ × ℕ) (hbest : best.1 < n) :
    ∃ best', is.foldlM (lessLoaded rounds s) best = some best' ∧ best'.1 < n := by
  induction is generalizing best with
  | nil => exact ⟨best, rfl, hbest⟩
  | cons i is ih =>
    obtain ⟨best₁, hone, hfst⟩ := lessLoaded_returns h hrounds best i
    have hlt : best₁.1 < n := by
      rcases hfst with hfst | hfst
      · rw [hfst]
        exact hbest
      · rw [hfst]
        exact his i List.mem_cons_self
    obtain ⟨best', hrest, hbest'⟩ := ih (fun j hj => his j (List.mem_cons_of_mem i hj)) best₁ hlt
    refine ⟨best', ?_, hbest'⟩
    rw [List.foldlM_cons, hone]
    exact hrest

/-- The search ends at a CPU that exists. -/
theorem targetCpu_returns (h : Inv s queue) (hrounds : maxTasks ≤ rounds) :
    ∃ target, targetCpu rounds s = some target ∧ target < s.cpuCount := by
  obtain ⟨best, hbest, hlt⟩ := foldlM_lessLoaded h hrounds (List.range s.cpuCount)
    (fun i hi => List.mem_range.mp hi) (0, 0x7FFFFFFF) h.cpus.1
  refine ⟨best.1, ?_, hlt⟩
  rw [targetCpu, hbest]
  rfl

theorem newTask_of_lt (s : State) (name : List UInt8) (overrun : ℕ → Task)
    (ht : t < s.nextTaskId) : newTask s name overrun t = s.taskPool t := by
  rw [newTask, if_neg ht.ne, if_neg fun hover => ht.not_gt hover.1]

/-- The tasks created so far are not touched by a new name. -/
theorem Inv.named (h : Inv s queue) (name : List UInt8) (overrun : ℕ → Task) :
    Inv { s with taskPool := newTask s name overrun } queue := by
  have hspared : Spared s { s with taskPool := newTask s name overrun } 0 [] := by
    constructor
    · rfl
    · rfl
    · intro t ht
      dsimp only
      rw [newTask_of_lt s name overrun ht]
      exact SameTask.refl _
    · exact fun _ _ => rfl
    · intro t ht _
      exact congrArg Task.next (newTask_of_lt s name overrun ht)
  exact h.congr hspared rfl

/-- The new task at the head of a queue. -/
def queuedTask (s : State) (t target : ℕ) : State :=
  ({ s with nextTaskId := t + 1 }.setTask (.pool t)
    { s.taskPool t with cpuId := UInt32.ofNat target, next := s.runQueue target }).setRunQueue
      target (some t)

theorem queuedTask_taskPool (s : State) (t target u : ℕ) :
    (queuedTask s t target).taskPool u =
      if u = t then
        { s.taskPool t with cpuId := UInt32.ofNat target, next := s.runQueue target }
      else s.taskPool u :=
  Function.update_apply ..

theorem queuedTask_next (s : State) (t target : ℕ) :
    (queuedTask s t target).next = Function.update s.next t (s.runQueue target) := by
  funext u
  rw [State.next, queuedTask_taskPool, Function.update_apply]
  split
  · rfl
  · rfl

theorem Inv.queuedTask {target : ℕ} (h : Inv s queue) (hbound : s.nextTaskId < maxTasks)
    (hid : (s.taskPool s.nextTaskId).id = UInt32.ofNat (s.nextTaskId + 1))
    (hready : (s.taskPool s.nextTaskId).state = taskReady) (htarget : target < s.cpuCount) :
    Inv (queuedTask s s.nextTaskId target)
      (Function.update queue target (s.nextTaskId :: queue target)) := by
  have hnew (cpu : ℕ) : s.nextTaskId ∉ queue cpu :=
    fun hmem => lt_irrefl _ ((h.mem_iff cpu _).mp hmem).1
  have hsmall : target < 2 ^ 32 := by
    have hcpus := h.cpus.2
    unfold maxCpus at hcpus
    omega
  have hcpu (u : ℕ) : (Sched.queuedTask s s.nextTaskId target).cpuOf u =
      if u = s.nextTaskId then target else s.cpuOf u := by
    rw [State.cpuOf, queuedTask_taskPool]
    split
    · exact UInt32.toNat_ofNat_of_lt' hsmall
    · rfl
  constructor
  · exact hbound
  · exact h.cpus
  · -- the id, the state and the CPU are those of the new task or the old ones
    intro u hu
    rw [queuedTask_taskPool]
    split
    · rename_i heq
      rw [heq]
      exact hid
    · exact h.ids u (lt_of_le_of_ne (Nat.le_of_lt_succ hu) (by assumption))
  · intro u hu
    rw [queuedTask_taskPool]
    split
    · exact hready
    · exact h.ready u (lt_of_le_of_ne (Nat.le_of_lt_succ hu) (by assumption))
  · intro u hu
    rw [hcpu]
    split
    · exact htarget
    · exact h.inRange u (lt_of_le_of_ne (Nat.le_of_lt_succ hu) (by assumption))
  · -- one queue gets a new head
    intro i
    have hqueue : (Sched.queuedTask s s.nextTaskId target).runQueue =
        Function.update s.runQueue target (some s.nextTaskId) := setRunQueue_runQueue ..
    rw [queuedTask_next, hqueue]
    by_cases hi : i = target
    · rw [hi, Function.update_self, Function.update_self]
      exact (h.linked target).push (hnew target)
    · rw [Function.update_of_ne hi, Function.update_of_ne hi]
      exact (h.linked i).update (hnew i) _
  · -- the new task is in that queue and in no other
    intro i u
    have hmem : u ∈ Function.update queue target (s.nextTaskId :: queue target) i ↔
        u = s.nextTaskId ∧ i = target ∨ u ∈ queue i := by
      by_cases hi : i = target
      · rw [hi, Function.update_self, List.mem_cons]
        simp
      · rw [Function.update_of_ne hi]
        simp [hi]
    have hsucc : u < (Sched.queuedTask s s.nextTaskId target).nextTaskId ↔
        u < s.nextTaskId ∨ u = s.nextTaskId := Nat.lt_succ_iff_lt_or_eq
    rw [hmem, hcpu, h.mem_iff, hsucc]
    by_cases hu : u = s.nextTaskId
    · simp [hu, eq_comm]
    · simp [hu]

theorem schedCreateTask_returns (h : Inv s queue) (hrounds : maxTasks ≤ rounds)
    (name : List UInt8) (overrun : ℕ → Task) :
    ∃ t s' queue', schedCreateTask rounds s name overrun = some (t, s') ∧ Inv s' queue' := by
  rw [schedCreateTask]
  split
  · exact ⟨none, s, queue, rfl, h⟩
  · rename_i hbound
    have hnamed := h.named name overrun
    obtain ⟨target, htarget, hlt⟩ := targetCpu_returns hnamed hrounds
    -- the search does not read `next_task_id`
    have hsearch : targetCpu rounds
        { s with taskPool := newTask s name overrun, nextTaskId := s.nextTaskId + 1 } =
          some target := htarget
    dsimp only
    rw [hsearch]
    have hself : newTask s name overrun s.nextTaskId =
        { s.taskPool s.nextTaskId with
          id := UInt32.ofNat (s.nextTaskId + 1)
          state := taskReady
          timeSlice := 10
          totalRuntime := 0
          name := schedStrcpy (s.taskPool s.nextTaskId).name name } := by
      rw [newTask, if_pos rfl]
    refine ⟨_, _, _, rfl, hnamed.queuedTask (not_le.mp hbound) ?_ ?_ hlt⟩
    · exact congrArg Task.id hself
    · exact congrArg Task.state hself

/-! ## Ticks -/

theorem setTask_taskPool (s : State) (x : ℕ) (task : Task) (u : ℕ) :
    (s.setTask (.pool x) task).taskPool u = if u = x then task else s.taskPool u :=
  Function.update_apply ..

theorem sameTask_tickTask (task : Task) :
    SameTask (tickTask task) task ∧ (tickTask task).next = task.next := by
  unfold tickTask
  split
  · exact ⟨⟨rfl, rfl, rfl⟩, rfl⟩
  · exact ⟨SameTask.refl task, rfl⟩

theorem spared_tickCpu (s : State) (i : ℕ) :
    Spared s (tickCpu s i) 0 [] ∧ (tickCpu s i).runQueue = s.runQueue := by
  have hrefl : Spared s s 0 [] :=
    ⟨rfl, rfl, fun _ _ => SameTask.refl _, fun _ _ => rfl, fun _ _ _ => rfl⟩
  unfold tickCpu
  split
  · exact ⟨hrefl, rfl⟩
  · split
    · exact ⟨hrefl, rfl⟩
    · rename_i p _
      cases p with
      | pool x =>
        obtain ⟨hsame, hnext⟩ := sameTask_tickTask (s.taskPool x)
        refine ⟨⟨rfl, rfl, ?_, fun _ _ => rfl, ?_⟩, rfl⟩
        · intro u _
          rw [setTask_taskPool]
          split
          · rename_i hu
            rw [hu]
            exact hsame
          · exact SameTask.refl _
        · intro u _ _
          rw [State.next, setTask_taskPool]
          split
          · rename_i hu
            rw [hu]
            exact hnext
          · rfl
      | idle x =>
        exact ⟨⟨rfl, rfl, fun _ _ => SameTask.refl _, fun _ _ => rfl, fun _ _ _ => rfl⟩, rfl⟩

theorem Inv.foldl_tickCpu (h : Inv s queue) (is : List ℕ) : Inv (is.foldl tickCpu s) queue := by
  induction is generalizing s with
  | nil => exact h
  | cons i is ih =>
    obtain ⟨hspared, hqueue⟩ := spared_tickCpu s i
    exact ih (h.congr hspared (congrFun hqueue 0))

/-! ## Runs -/

theorem schedInit_inv (acpiCpuCount : Int32) (acpiCpuApicIds : ℕ → UInt32) :
    Inv (schedInit acpiCpuCount acpiCpuApicIds boot) fun _ => [] := by
  have hcount : 0 < detected acpiCpuCount ∧ detected acpiCpuCount ≤ maxCpus := by
    unfold detected
    split
    · rename_i hpos
      have hint : 0 < acpiCpuCount.toInt := Int32.lt_iff_toInt_lt.mp hpos
      unfold maxCpus
      omega
    · decide
  have hqueue (cpu : ℕ) : (schedInit acpiCpuCount acpiCpuApicIds boot).runQueue cpu = none := by
    unfold State.runQueue schedInit
    dsimp only
    split
    · rfl
    · rfl
  constructor
  · exact Nat.zero_le _
  · exact hcount
  · exact fun t ht => absurd ht (Nat.not_lt_zero t)
  · exact fun t ht => absurd ht (Nat.not_lt_zero t)
  · exact fun t ht => absurd ht (Nat.not_lt_zero t)
  · intro cpu
    rw [hqueue]
    rfl
  · intro cpu t
    constructor
    · exact fun ht => absurd ht List.not_mem_nil
    · exact fun ht => absurd ht.1 (Nat.not_lt_zero t)

theorem Inv.step {call : Call} (h : Inv s queue) (hrounds : maxTasks ≤ rounds)
    (hstep : Step rounds s call s') : ∃ queue', Inv s' queue' := by
  cases hstep with
  | @create _ name overrun t _ hcreate =>
    obtain ⟨u, s₁, queue', hs₁, hinv⟩ := schedCreateTask_returns h hrounds name overrun
    rw [hcreate] at hs₁
    obtain ⟨-, rfl⟩ := Prod.mk.inj (Option.some.inj hs₁)
    exact ⟨queue', hinv⟩
  | schedule hschedule =>
    obtain ⟨s₁, queue', hs₁, hinv⟩ := schedSchedule_returns h hrounds
    rw [hschedule] at hs₁
    obtain rfl := Option.some.inj hs₁
    exact ⟨queue', hinv⟩
  | yield hyield =>
    obtain ⟨s₁, queue', hs₁, hinv⟩ := schedSchedule_returns h hrounds
    rw [← schedYield, hyield] at hs₁
    obtain rfl := Option.some.inj hs₁
    exact ⟨queue', hinv⟩
  | tick => exact ⟨queue, h.foldl_tickCpu _⟩
  | setSmtAware =>
    have hspared (enabled : Int32) : Spared s (schedSetSmtAware s enabled) 0 [] :=
      ⟨rfl, rfl, fun _ _ => SameTask.refl _, fun _ _ => rfl, fun _ _ _ => rfl⟩
    exact ⟨queue, h.congr (hspared _) rfl⟩

theorem Inv.sound (h : Inv s queue) (hrounds : maxTasks ≤ rounds) : Sound rounds s := by
  constructor
  · exact ⟨queue, h.queues⟩
  · intro t u ht hu heq
    rw [h.ids t ht, h.ids u hu] at heq
    have hbound := h.bound
    unfold maxTasks at hbound
    have hnat := congrArg UInt32.toNat heq
    rw [UInt32.toNat_ofNat_of_lt' (show t + 1 < 2 ^ 32 by omega),
      UInt32.toNat_ofNat_of_lt' (show u + 1 < 2 ^ 32 by omega)] at hnat
    exact Nat.succ.inj hnat
  · intro name overrun _
    obtain ⟨t, s', -, hs', -⟩ := schedCreateTask_returns h hrounds name overrun
    exact ⟨_, hs'⟩
  · obtain ⟨s', -, hs', -⟩ := schedSchedule_returns h hrounds
    exact ⟨s', hs'⟩
  · intro xs hxs _
    have hqueue : queue 0 = xs ++ [] := by
      rw [List.append_nil]
      exact (h.linked 0).unique hxs
    obtain ⟨s', hs', hinv⟩ := scheduleTimes_append h hrounds hqueue
    have hlinked := hinv.linked 0
    rw [Function.update_self, List.nil_append] at hlinked
    exact ⟨s', hs', hlinked⟩

/-- Whatever calls come after `sched_init`, the queues are sound and CPU 0 serves its tasks in
turn. -/
theorem queues_sound {acpiCpuCount : Int32} {acpiCpuApicIds : ℕ → UInt32} {calls : List Call}
    (hrounds : maxTasks ≤ rounds)
    (hrun : Run (Step rounds) (schedInit acpiCpuCount acpiCpuApicIds boot) calls s) :
    Sound rounds s := by
  have hinv : ∃ queue, Inv s queue := by
    apply hrun.invariant (P := fun s => ∃ queue, Inv s queue)
    · rintro s₁ call s₂ ⟨queue, h⟩ hstep
      exact h.step hrounds hstep
    · exact ⟨_, schedInit_inv acpiCpuCount acpiCpuApicIds⟩
  obtain ⟨queue, hinv⟩ := hinv
  exact hinv.sound hrounds

/-- Two tasks on one CPU. -/
theorem queues_sound_twoTasks : ∃ s, s.runQueue 0 = some 1 ∧ s.next 1 = some 0 ∧
    s.next 0 = none ∧ Sound 256 s := by
  have hrun : ∃ s, Run (Step 256) (schedInit 1 (fun _ => 0) boot)
      [.create [97] fun _ => zeroTask, .create [98] fun _ => zeroTask] s ∧
      s.runQueue 0 = some 1 ∧ s.next 1 = some 0 ∧ s.next 0 = none :=
    ⟨_, .cons (.create (by decide) rfl) (.cons (.create (by decide) rfl) (.nil _)), rfl, rfl, rfl⟩
  obtain ⟨s, hrun, hhead, hone, hzero⟩ := hrun
  exact ⟨s, hhead, hone, hzero, queues_sound (Nat.le_refl 256) hrun⟩

end Rhoudveine.Sched
