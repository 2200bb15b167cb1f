import Rhoudveine.Lib.Linked
import Rhoudveine.Lib.Run
import Rhoudveine.Lib.Stable

/-!
# The block layer

The request queues of `blk.c`.  A request is named by its address; the queues are threaded
through the `next` fields.  Kyber and BFQ call the functions of mq-deadline.
-/

namespace Rhoudveine.Blk

/-! ## Requests and schedulers -/

/-- The fields of `struct blk_request` that the schedulers use. -/
structure BlkRequest where
  read : Int32
  deadline : UInt64
  next : Option ℕ
  deriving DecidableEq, Repr

/-- The requests in memory, and the heads of the two queues. -/
structure State where
  requests : ℕ → BlkRequest
  readQueue : Option ℕ
  writeQueue : Option ℕ

/-- Any value but 0 is a read. -/
def BlkRequest.isRead (r : BlkRequest) : Bool := r.read ≠ 0

namespace State

def next (s : State) (req : ℕ) : Option ℕ := (s.requests req).next

def deadline (s : State) (req : ℕ) : UInt64 := (s.requests req).deadline

/-- The deadline as a number. -/
def due (s : State) (req : ℕ) : ℕ := (s.deadline req).toNat

def isRead (s : State) (req : ℕ) : Bool := (s.requests req).isRead

def queue (s : State) (read : Bool) : Option ℕ := if read then s.readQueue else s.writeQueue

def setQueue (s : State) (read : Bool) (p : Option ℕ) : State :=
  if read then { s with readQueue := p } else { s with writeQueue := p }

def setNext (s : State) (req : ℕ) (p : Option ℕ) : State :=
  { s with requests := Function.update s.requests req { s.requests req with next := p } }

end State

/-- Insertion by deadline; `none` if the loop takes `rounds` rounds or more. -/
def mqDeadlineAdd (rounds : ℕ) (s : State) (req : ℕ) : Option State :=
  let read := s.isRead req
  match s.queue read with
  | none => some ((s.setNext req none).setQueue read (some req))
  | some head =>
    if s.deadline req < s.deadline head then
      some ((s.setNext req (some head)).setQueue read (some req))
    else
      match Linked.advance s.next (fun n => s.deadline n ≤ s.deadline req) rounds head with
      | none => none
      | some curr => some ((s.setNext req (s.next curr)).setNext curr (some req))

/-- Reads before writes. -/
def mqDeadlineGetNext (s : State) : Option ℕ × State :=
  match s.readQueue with
  | some req => (some req, { s with readQueue := s.next req })
  | none =>
    match s.writeQueue with
    | some req => (some req, { s with writeQueue := s.next req })
    | none => (none, s)

def kyberAdd : (rounds : ℕ) → State → (req : ℕ) → Option State := mqDeadlineAdd

def kyberGetNext : State → Option ℕ × State := mqDeadlineGetNext

def bfqAdd : (rounds : ℕ) → State → (req : ℕ) → Option State := mqDeadlineAdd

def bfqGetNext : State → Option ℕ × State := mqDeadlineGetNext

/-- `struct iosched`. -/
structure Iosched where
  name : String
  addRequest : (rounds : ℕ) → State → (req : ℕ) → Option State
  getNext : State → Option ℕ × State

def mqDeadline : Iosched := ⟨"mq-deadline", mqDeadlineAdd, mqDeadlineGetNext⟩

def kyber : Iosched := ⟨"kyber", kyberAdd, kyberGetNext⟩

def bfq : Iosched := ⟨"bfq", bfqAdd, bfqGetNext⟩

/-- The schedulers that `blk_init` chooses from. -/
def schedulers : List Iosched := [mqDeadline, kyber, bfq]

/-- `current` is `current_scheduler`. -/
def blkSubmitRequest (current : Option Iosched) (rounds : ℕ) (s : State) (req : ℕ) :
    Option State :=
  match current with
  | some iosched => iosched.addRequest rounds s req
  | none => some s

def blkDispatch (current : Option Iosched) (s : State) : Option ℕ × State :=
  match current with
  | some iosched => iosched.getNext s
  | none => (none, s)

/-! ## Clients -/

inductive Call
  /-- Write the fields of a request and submit it. -/
  | submit (req : ℕ) (fields : BlkRequest)
  | dispatch

/-- The block layer with what its clients have done: the requests submitted and dispatched so far,
and those submitted but not dispatched, in the order of submission. -/
structure Client where
  blk : State
  submitted : List ℕ
  dispatched : List ℕ
  pending : List ℕ

/-- Before the first call; the memory of the requests holds anything. -/
def Client.start (requests : ℕ → BlkRequest) : Client := ⟨⟨requests, none, none⟩, [], [], []⟩

/-- The client writes the fields of the request. -/
def fill (s : State) (req : ℕ) (fields : BlkRequest) : State :=
  { s with requests := Function.update s.requests req fields }

/-- One call.  A request is not submitted again while it is queued. -/
inductive Client.Step (current : Option Iosched) (rounds : ℕ) : Client → Call → Client → Prop
  | submit {c : Client} {req : ℕ} {fields : BlkRequest} {s : State} :
      req ∉ c.pending →
      blkSubmitRequest current rounds (fill c.blk req fields) req = some s →
      Step current rounds c (.submit req fields)
        ⟨s, c.submitted ++ [req], c.dispatched, c.pending ++ [req]⟩
  | dispatched {c : Client} {req : ℕ} {s : State} :
      blkDispatch current c.blk = (some req, s) →
      Step current rounds c .dispatch
        ⟨s, c.submitted, c.dispatched ++ [req], c.pending.erase req⟩
  | empty {c : Client} {s : State} :
      blkDispatch current c.blk = (none, s) →
      Step current rounds c .dispatch ⟨s, c.submitted, c.dispatched, c.pending⟩

/-! ## What is to hold -/

/-- `req` is the one to dispatch among the pending requests. -/
structure ToDispatch (s : State) (pending : List ℕ) (req : ℕ) : Prop where
  mem : req ∈ pending
  reads_first : s.isRead req = false → ∀ x ∈ pending, s.isRead x = false
  earliest : ∀ x ∈ pending, s.isRead x = s.isRead req → x ≠ req →
    Before s.due pending req x

/-- Every request that was submitted is pending or has been dispatched, and the next call does
what it should. -/
structure Client.Fair (current : Option Iosched) (rounds : ℕ) (c : Client) : Prop where
  balance : c.submitted.Perm (c.dispatched ++ c.pending)
  submits : ∀ req fields, req ∉ c.pending → c.pending.length ≤ rounds →
    ∃ s, blkSubmitRequest current rounds (fill c.blk req fields) req = some s
  null_iff : (blkDispatch current c.blk).1 = none ↔ c.pending = []
  dispatch : ∀ req, (blkDispatch current c.blk).1 = some req → ToDispatch c.blk c.pending req

/-! ## The queues -/

/-- The queue of one direction holds the pending requests of that direction, by deadline. -/
structure Queued (s : State) (read : Bool) (pending xs : List ℕ) : Prop where
  linked : Linked s.next (s.queue read) xs
  mem_iff : ∀ x, x ∈ xs ↔ x ∈ pending ∧ s.isRead x = read
  ordered : xs.Pairwise (Before s.due pending)

/-- The invariant of the two queues. -/
structure Inv (s : State) (pending : List ℕ) : Prop where
  nodup : pending.Nodup
  queued : ∀ read, ∃ xs, Queued s read pending xs

variable {s s' : State} {pending xs : List ℕ} {req : ℕ} {read : Bool} {rounds : ℕ}

theorem setNext_requests (s : State) (req : ℕ) (p : Option ℕ) (x : ℕ) :
    (s.setNext req p).requests x =
      if x = req then { s.requests req with next := p } else s.requests x := by
  unfold State.setNext
  exact Function.update_apply ..

@[simp] theorem setNext_next (s : State) (req : ℕ) (p : Option ℕ) :
    (s.setNext req p).next = Function.update s.next req p := by
  funext x
  rw [State.next, setNext_requests, Function.update_apply]
  split
  · rfl
  · rfl

@[simp] theorem setNext_queue (s : State) (req : ℕ) (p : Option ℕ) (read : Bool) :
    (s.setNext req p).queue read = s.queue read := rfl

@[simp] theorem setNext_due (s : State) (req : ℕ) (p : Option ℕ) :
    (s.setNext req p).due = s.due := by
  funext x
  rw [State.due, State.deadline, setNext_requests]
  split
  · rename_i hx
    rw [hx]
    rfl
  · rfl

@[simp] theorem setNext_isRead (s : State) (req : ℕ) (p : Option ℕ) :
    (s.setNext req p).isRead = s.isRead := by
  funext x
  rw [State.isRead, setNext_requests]
  split
  · rename_i hx
    rw [hx]
    rfl
  · rfl

@[simp] theorem setQueue_next (s : State) (read : Bool) (p : Option ℕ) :
    (s.setQueue read p).next = s.next := by cases read <;> rfl

@[simp] theorem setQueue_due (s : State) (read : Bool) (p : Option ℕ) :
    (s.setQueue read p).due = s.due := by cases read <;> rfl

@[simp] theorem setQueue_isRead (s : State) (read : Bool) (p : Option ℕ) :
    (s.setQueue read p).isRead = s.isRead := by cases read <;> rfl

@[simp] theorem setQueue_self (s : State) (read : Bool) (p : Option ℕ) :
    (s.setQueue read p).queue read = p := by cases read <;> rfl

@[simp] theorem setQueue_other (s : State) (read : Bool) (p : Option ℕ) :
    (s.setQueue read p).queue (!read) = s.queue (!read) := by cases read <;> rfl

theorem Queued.congr (h : Queued s read pending xs) (hqueue : s'.queue read = s.queue read)
    (hnext : ∀ x ∈ xs, s'.next x = s.next x)
    (hkept : ∀ x ∈ pending, s'.isRead x = s.isRead x ∧ s'.due x = s.due x) :
    Queued s' read pending xs := by
  have hdue (x : ℕ) (hx : x ∈ xs) : s'.due x = s.due x := (hkept x ((h.mem_iff x).mp hx).1).2
  constructor
  · rw [hqueue]
    exact h.linked.congr hnext
  · intro x
    rw [h.mem_iff]
    apply and_congr_right
    intro hx
    rw [(hkept x hx).1]
  · apply h.ordered.imp_of_mem
    intro x y hx hy hxy
    unfold Before
    rw [hdue x hx, hdue y hy]
    exact hxy

/-- What an operation on the queue `xs` of one direction leaves alone. -/
structure Spared (s s' : State) (read : Bool) (req : ℕ) (xs : List ℕ) : Prop where
  due : s'.due = s.due
  isRead : s'.isRead = s.isRead
  other : s'.queue (!read) = s.queue (!read)
  next : ∀ x, x ≠ req → x ∉ xs → s'.next x = s.next x

/-- The queue `xs` with `req` in its place. -/
def insertion (s : State) (req : ℕ) (xs : List ℕ) : List ℕ :=
  (xs.takeWhile fun x => s.due x ≤ s.due req) ++ req :: xs.dropWhile fun x => s.due x ≤ s.due req

theorem mem_insertion (s : State) (req : ℕ) (xs : List ℕ) (x : ℕ) :
    x ∈ insertion s req xs ↔ x = req ∨ x ∈ xs := by
  have hsplit := List.takeWhile_append_dropWhile
    (p := fun x => decide (s.due x ≤ s.due req)) (l := xs)
  have hxs : x ∈ xs ↔ x ∈ (xs.takeWhile fun x => s.due x ≤ s.due req) ∨
      x ∈ xs.dropWhile fun x => s.due x ≤ s.due req := by
    rw [← List.mem_append, hsplit]
  rw [insertion, List.mem_append, List.mem_cons, hxs]
  tauto

theorem deadline_lt_iff (s : State) (x y : ℕ) : s.deadline x < s.deadline y ↔ s.due x < s.due y :=
  UInt64.lt_iff_toNat_lt

theorem deadline_le_iff (s : State) (x y : ℕ) : s.deadline x ≤ s.deadline y ↔ s.due x ≤ s.due y :=
  UInt64.le_iff_toNat_le

/-- Insertion by deadline into one queue. -/
theorem mqDeadlineAdd_linked (h : Linked s.next (s.queue (s.isRead req)) xs) (hreq : req ∉ xs)
    (hrounds : xs.length ≤ rounds) :
    ∃ s', mqDeadlineAdd rounds s req = some s' ∧
      Linked s'.next (s'.queue (s.isRead req)) (insertion s req xs) ∧
      Spared s s' (s.isRead req) req xs := by
  cases xs with
  | nil =>
    have hnull : s.queue (s.isRead req) = none := h
    rw [mqDeadlineAdd, hnull]
    refine ⟨_, rfl, ?_, ?_⟩
    · simpa [insertion] using Linked.push (Linked.nil_iff.mpr rfl : Linked s.next none []) hreq
    · constructor
      · simp
      · simp
      · simp
      · intro x hx _
        simp [hx]
  | cons head xs =>
    have hhead : s.queue (s.isRead req) = some head := h.1
    rw [mqDeadlineAdd, hhead]
    dsimp only
    by_cases hlt : s.deadline req < s.deadline head
    · have hnot : ¬ s.due head ≤ s.due req := by
        rw [deadline_lt_iff] at hlt
        omega
      have hfront : insertion s req (head :: xs) = req :: head :: xs := by
        rw [insertion, List.takeWhile_cons_of_neg (by simpa using hnot),
          List.dropWhile_cons_of_neg (by simpa using hnot)]
        rfl
      refine ⟨_, if_pos hlt, ?_, ?_⟩
      · rw [hhead] at h
        rw [hfront]
        simpa using h.push hreq
      · constructor
        · simp
        · simp
        · simp
        · intro x hx _
          simp [hx]
    · have hle : s.due head ≤ s.due req := by
        rw [deadline_lt_iff] at hlt
        omega
      have htest : (fun x => decide (s.deadline x ≤ s.deadline req)) =
          fun x => decide (s.due x ≤ s.due req) := by
        funext x
        exact decide_eq_decide.mpr (deadline_le_iff s x req)
      have hchain : Linked s.next (some head) (head :: xs) := ⟨rfl, h.2⟩
      obtain ⟨ys, curr, hlist, hloop⟩ := Linked.advance_eq
        (fun x => decide (s.due x ≤ s.due req)) hchain (show xs.length < rounds from hrounds)
      -- the list around the node where the loop stops
      have htake :
          (head :: xs).takeWhile (fun x => decide (s.due x ≤ s.due req)) = ys ++ [curr] := by
        rw [List.takeWhile_cons_of_pos (by simpa using hle)]
        exact hlist
      have hsplit := List.takeWhile_append_dropWhile
        (p := fun x => decide (s.due x ≤ s.due req)) (l := head :: xs)
      rw [htake, List.append_assoc, List.singleton_append] at hsplit
      rw [if_neg hlt, htest, hloop]
      refine ⟨_, rfl, ?_, ?_⟩
      · rw [← hsplit] at h hreq
        rw [insertion, htake, List.append_assoc, List.singleton_append]
        simpa using h.insert hreq
      · constructor
        · simp
        · simp
        · simp
        · intro x hx hnot
          have hcurr : x ≠ curr := by
            rintro rfl
            apply hnot
            rw [← hsplit]
            simp
          simp [hx, hcurr]

/-! ## The calls keep the queues -/

theorem Queued.length_le (h : Queued s read pending xs) : xs.length ≤ pending.length :=
  (List.subperm_of_subset h.linked.nodup fun x hx => ((h.mem_iff x).mp hx).1).length_le

/-- The queue of the other direction. -/
theorem Spared.queued {ys : List ℕ} (h : Spared s s' read req xs)
    (hys : Queued s (!read) pending ys) (hreq : req ∉ ys) (hxs : ∀ x ∈ ys, x ∉ xs) :
    Queued s' (!read) pending ys := by
  apply hys.congr h.other
  · intro x hx
    apply h.next x _ (hxs x hx)
    rintro rfl
    exact hreq hx
  · intro x _
    rw [h.isRead, h.due]
    exact ⟨rfl, rfl⟩

theorem mqDeadlineAdd_inv (h : Inv s pending) (hreq : req ∉ pending)
    (hrounds : pending.length ≤ rounds) :
    ∃ s', mqDeadlineAdd rounds s req = some s' ∧ Inv s' (pending ++ [req]) := by
  obtain ⟨xs, hxs⟩ := h.queued (s.isRead req)
  obtain ⟨ys, hys⟩ := h.queued (!s.isRead req)
  have hnew {zs : List ℕ} {read : Bool} (hzs : Queued s read pending zs) : req ∉ zs :=
    fun hmem => hreq ((hzs.mem_iff req).mp hmem).1
  obtain ⟨s', hadd, hlinked, hspared⟩ :=
    mqDeadlineAdd_linked hxs.linked (hnew hxs) (hxs.length_le.trans hrounds)
  -- a request is in the list of its own direction only
  have hcross (x : ℕ) (hx : x ∈ ys) : x ∉ xs := by
    intro hmem
    have hread := ((hxs.mem_iff x).mp hmem).2
    rw [((hys.mem_iff x).mp hx).2] at hread
    exact Bool.not_ne_self _ hread
  have hother := hspared.queued hys (hnew hys) hcross
  refine ⟨s', hadd, ?_, ?_⟩
  · exact List.Nodup.append h.nodup (List.nodup_singleton req) (by simpa using hreq)
  · -- the list of its direction has the request, in the order of the deadlines
    have hthis : Queued s' (s.isRead req) (pending ++ [req]) (insertion s req xs) := by
      constructor
      · exact hlinked
      · intro x
        rw [mem_insertion, hxs.mem_iff, hspared.isRead, List.mem_append, List.mem_singleton]
        constructor
        · rintro (rfl | ⟨hx, hread⟩)
          · exact ⟨Or.inr rfl, rfl⟩
          · exact ⟨Or.inl hx, hread⟩
        · rintro ⟨hx | rfl, hread⟩
          · exact Or.inr ⟨hx, hread⟩
          · exact Or.inl rfl
      · rw [hspared.due]
        exact Before.insert hxs.ordered (fun x hx => ((hxs.mem_iff x).mp hx).1) req
    -- the other list is as it was
    have hthat : Queued s' (!s.isRead req) (pending ++ [req]) ys := by
      constructor
      · exact hother.linked
      · intro x
        rw [hother.mem_iff, hspared.isRead, List.mem_append, List.mem_singleton]
        constructor
        · exact fun hx => ⟨Or.inl hx.1, hx.2⟩
        · rintro ⟨hx | rfl, hread⟩
          · exact ⟨hx, hread⟩
          · exact absurd hread.symm (Bool.not_ne_self _)
      · exact hother.ordered.imp fun hxy => hxy.append req
    intro read
    by_cases hread : read = s.isRead req
    · rw [hread]
      exact ⟨_, hthis⟩
    · rw [Bool.eq_not_of_ne hread]
      exact ⟨_, hthat⟩

/-- Filling in a request that is not pending. -/
theorem Inv.fill (h : Inv s pending) (hreq : req ∉ pending) (fields : BlkRequest) :
    Inv (fill s req fields) pending := by
  refine ⟨h.nodup, fun dir => ?_⟩
  obtain ⟨xs, hxs⟩ := h.queued dir
  have hkept (x : ℕ) (hx : x ∈ pending) :
      (Blk.fill s req fields).requests x = s.requests x := by
    apply Function.update_of_ne
    rintro rfl
    exact hreq hx
  refine ⟨xs, hxs.congr rfl ?_ ?_⟩
  · intro x hx
    rw [State.next, hkept x ((hxs.mem_iff x).mp hx).1]
    rfl
  · intro x hx
    rw [State.isRead, State.due, State.deadline, hkept x hx]
    exact ⟨rfl, rfl⟩

/-- Taking the first request off one queue. -/
theorem Queued.pop (h : Queued s read pending (req :: xs)) (hnodup : pending.Nodup) :
    Queued (s.setQueue read (s.next req)) read (pending.erase req) xs := by
  have hne := List.nodup_cons.mp h.linked.nodup
  constructor
  · simpa using h.linked.2
  · intro x
    rw [hnodup.mem_erase_iff, setQueue_isRead]
    have hmem := h.mem_iff x
    rw [List.mem_cons] at hmem
    constructor
    · intro hx
      obtain ⟨hpending, hread⟩ := hmem.mp (Or.inr hx)
      refine ⟨⟨?_, hpending⟩, hread⟩
      rintro rfl
      exact hne.1 hx
    · rintro ⟨⟨hx, hpending⟩, hread⟩
      exact (hmem.mpr ⟨hpending, hread⟩).resolve_left hx
  · rw [setQueue_due]
    exact Before.tail h.ordered h.linked.nodup

theorem Inv.pop (h : Inv s pending) (hxs : Queued s read pending (req :: xs)) :
    Inv (s.setQueue read (s.next req)) (pending.erase req) := by
  refine ⟨h.nodup.erase req, fun dir => ?_⟩
  by_cases hdir : dir = read
  · rw [hdir]
    exact ⟨xs, hxs.pop h.nodup⟩
  · obtain ⟨ys, hys⟩ := h.queued dir
    have hread : s.isRead req = read := ((hxs.mem_iff req).mp List.mem_cons_self).2
    have hreq (x : ℕ) (hx : x ∈ ys) : x ≠ req := by
      rintro rfl
      exact hdir (((hys.mem_iff x).mp hx).2.symm.trans hread)
    refine ⟨ys, ?_, ?_, ?_⟩
    · rw [Bool.eq_not_of_ne hdir, setQueue_next, setQueue_other, ← Bool.eq_not_of_ne hdir]
      exact hys.linked
    · intro x
      rw [hys.mem_iff, setQueue_isRead, h.nodup.mem_erase_iff]
      constructor
      · rintro ⟨hpending, hx⟩
        exact ⟨⟨hreq x ((hys.mem_iff x).mpr ⟨hpending, hx⟩), hpending⟩, hx⟩
      · exact fun hx => ⟨hx.1.2, hx.2⟩
    · rw [setQueue_due]
      apply hys.ordered.imp_of_mem
      exact fun hx hy hxy => hxy.erase (hreq _ hx) (hreq _ hy)

/-- The first request of a queue is the one to dispatch, if no read is behind a write. -/
theorem Queued.toDispatch (h : Queued s read pending (req :: xs))
    (hreads : read = false → ∀ x ∈ pending, s.isRead x = false) : ToDispatch s pending req := by
  obtain ⟨hpending, hread⟩ := (h.mem_iff req).mp List.mem_cons_self
  constructor
  · exact hpending
  · exact fun hfalse => hreads (hread.symm.trans hfalse)
  · intro x hx hsame hne
    have hmem := (h.mem_iff x).mpr ⟨hx, hsame.trans hread⟩
    exact (List.pairwise_cons.mp h.ordered).1 x ((List.mem_cons.mp hmem).resolve_left hne)

/-- What a dispatch does. -/
theorem mqDeadlineGetNext_cases (h : Inv s pending) :
    (pending = [] ∧ mqDeadlineGetNext s = (none, s)) ∨
      ∃ req s', mqDeadlineGetNext s = (some req, s') ∧ ToDispatch s pending req ∧
        Inv s' (pending.erase req) := by
  obtain ⟨rs, hrs⟩ := h.queued true
  obtain ⟨ws, hws⟩ := h.queued false
  have hread := hrs.linked.head
  have hwrite := hws.linked.head
  cases rs with
  | cons req rs =>
    have hreads : s.readQueue = some req := hread
    refine Or.inr ⟨req, _, ?_, hrs.toDispatch Bool.noConfusion, h.pop hrs⟩
    rw [mqDeadlineGetNext, hreads]
    rfl
  | nil =>
    have hreads : s.readQueue = none := hread
    have hnone (x : ℕ) (hx : x ∈ pending) : s.isRead x = false := by
      by_contra htrue
      exact List.not_mem_nil ((hrs.mem_iff x).mpr ⟨hx, Bool.eq_true_of_not_eq_false htrue⟩)
    cases ws with
    | cons req ws =>
      have hwrites : s.writeQueue = some req := hwrite
      refine Or.inr ⟨req, s.setQueue false (s.next req), ?_, hws.toDispatch fun _ => hnone,
        h.pop hws⟩
      unfold mqDeadlineGetNext
      split
      · rename_i hsome
        rw [hreads] at hsome
        cases hsome
      · rw [hwrites]
        rfl
    | nil =>
      have hwrites : s.writeQueue = none := hwrite
      refine Or.inl ⟨?_, ?_⟩
      · apply List.eq_nil_iff_forall_not_mem.mpr
        intro x hx
        exact List.not_mem_nil ((hws.mem_iff x).mpr ⟨hx, hnone x hx⟩)
      · rw [mqDeadlineGetNext, hreads, hwrites]

/-! ## Runs -/

variable {iosched : Iosched} {c c' : Client}

/-- The three schedulers are mq-deadline under different names. -/
theorem schedulers_same (h : iosched ∈ schedulers) :
    iosched.addRequest = mqDeadlineAdd ∧ iosched.getNext = mqDeadlineGetNext := by
  simp only [schedulers, List.mem_cons, List.not_mem_nil, or_false] at h
  rcases h with rfl | rfl | rfl
  · exact ⟨rfl, rfl⟩
  · exact ⟨rfl, rfl⟩
  · exact ⟨rfl, rfl⟩

theorem blkSubmitRequest_eq (h : iosched ∈ schedulers) (rounds : ℕ) (s : State) (req : ℕ) :
    blkSubmitRequest (some iosched) rounds s req = mqDeadlineAdd rounds s req :=
  congrFun₃ (schedulers_same h).1 rounds s req

theorem blkDispatch_eq (h : iosched ∈ schedulers) (s : State) :
    blkDispatch (some iosched) s = mqDeadlineGetNext s :=
  congrFun (schedulers_same h).2 s

/-- The queues hold what is pending, and nothing is lost. -/
structure Kept (c : Client) : Prop where
  inv : Inv c.blk c.pending
  balance : c.submitted.Perm (c.dispatched ++ c.pending)

theorem Kept.start (requests : ℕ → BlkRequest) : Kept (Client.start requests) := by
  constructor
  · refine ⟨List.nodup_nil, fun read => ⟨[], ?_, ?_, List.Pairwise.nil⟩⟩
    · cases read <;> rfl
    · intro x
      constructor
      · exact fun hx => absurd hx List.not_mem_nil
      · exact fun hx => absurd hx.1 List.not_mem_nil
  · exact List.Perm.nil

/-- A submission that returns has enough rounds: the loop is monotone in them. -/
theorem mqDeadlineAdd_mono {more : ℕ} (h : mqDeadlineAdd rounds s req = some s')
    (hmore : rounds ≤ more) : mqDeadlineAdd more s req = some s' := by
  unfold mqDeadlineAdd at h ⊢
  dsimp only at h ⊢
  cases hqueue : s.queue (s.isRead req) with
  | none =>
    rw [hqueue] at h
    exact h
  | some head =>
    rw [hqueue] at h
    dsimp only at h ⊢
    by_cases hlt : s.deadline req < s.deadline head
    · rw [if_pos hlt] at h ⊢
      exact h
    · rw [if_neg hlt] at h ⊢
      cases hloop : Linked.advance s.next (fun n => s.deadline n ≤ s.deadline req) rounds head with
      | none =>
        rw [hloop] at h
        cases h
      | some curr =>
        rw [hloop] at h
        rw [Linked.advance_mono _ hloop hmore]
        exact h

/-- One call. -/
theorem Kept.step {i : Call} (hiosched : iosched ∈ schedulers) (h : Kept c)
    (hstep : Client.Step (some iosched) rounds c i c') : Kept c' := by
  cases hstep with
  | @submit req fields s hreq hadd =>
    rw [blkSubmitRequest_eq hiosched] at hadd
    obtain ⟨s', hs', hinv⟩ :=
      mqDeadlineAdd_inv (h.inv.fill hreq fields) hreq (le_max_right rounds c.pending.length)
    rw [mqDeadlineAdd_mono hadd (le_max_left rounds c.pending.length)] at hs'
    obtain rfl := Option.some.inj hs'
    constructor
    · exact hinv
    · rw [← List.append_assoc]
      exact h.balance.append_right [req]
  | @dispatched req s hnext =>
    rw [blkDispatch_eq hiosched] at hnext
    rcases mqDeadlineGetNext_cases h.inv with ⟨-, hnone⟩ | ⟨x, s', hsome, hx, hinv⟩
    · rw [hnone] at hnext
      cases hnext
    · rw [hsome] at hnext
      obtain ⟨rfl, rfl⟩ := Prod.mk.inj hnext |>.imp_left Option.some.inj
      constructor
      · exact hinv
      · have hperm := List.perm_cons_erase hx.mem
        have hbalance := h.balance.trans (hperm.append_left c.dispatched)
        rw [List.append_assoc]
        exact hbalance
  | @empty s hnext =>
    rw [blkDispatch_eq hiosched] at hnext
    rcases mqDeadlineGetNext_cases h.inv with ⟨-, hnone⟩ | ⟨x, s', hsome, -, -⟩
    · rw [hnone] at hnext
      obtain ⟨-, rfl⟩ := Prod.mk.inj hnext
      exact h
    · rw [hsome] at hnext
      cases hnext

theorem Kept.fair (hiosched : iosched ∈ schedulers) (rounds : ℕ) (h : Kept c) :
    c.Fair (some iosched) rounds := by
  have hcases := mqDeadlineGetNext_cases h.inv
  rw [← blkDispatch_eq hiosched] at hcases
  constructor
  · exact h.balance
  · intro req fields hreq hrounds
    obtain ⟨s', hs', -⟩ := mqDeadlineAdd_inv (h.inv.fill hreq fields) hreq hrounds
    exact ⟨s', (blkSubmitRequest_eq hiosched ..).trans hs'⟩
  · rcases hcases with ⟨hpending, hnone⟩ | ⟨req, s', hsome, hreq, -⟩
    · rw [hnone]
      exact iff_of_true rfl hpending
    · rw [hsome]
      apply iff_of_false (Option.some_ne_none req)
      exact List.ne_nil_of_mem hreq.mem
  · intro req hreq
    rcases hcases with ⟨-, hnone⟩ | ⟨x, s', hsome, hx, -⟩
    · rw [hnone] at hreq
      cases hreq
    · rw [hsome] at hreq
      obtain rfl := Option.some.inj hreq
      exact hx

/-- Submissions and dispatches in any order: nothing is lost or dispatched twice, reads come before
writes, and each direction is served by deadline, ties in the order of submission. -/
theorem dispatch_fair (hiosched : iosched ∈ schedulers) {requests : ℕ → BlkRequest}
    {calls : List Call}
    (hrun : Run (Client.Step (some iosched) rounds) (Client.start requests) calls c) :
    c.Fair (some iosched) rounds := by
  have hkept : Kept c := hrun.invariant (fun _ _ _ h hstep => h.step hiosched hstep)
    (Kept.start requests)
  exact hkept.fair hiosched rounds

/-- A write and a read; the read goes first. -/
theorem dispatch_fair_writeRead :
    ∃ c : Client, c.dispatched = [2] ∧ c.pending = [1] ∧ c.Fair (some kyber) 1 := by
  let write : BlkRequest := ⟨0, 5, none⟩
  let read : BlkRequest := ⟨1, 9, none⟩
  have hrun : ∃ s, Run (Client.Step (some kyber) 1) (Client.start fun _ => write)
      [.submit 1 write, .submit 2 read, .dispatch] ⟨s, [1, 2], [2], [1]⟩ :=
    ⟨_, .cons (.submit (by decide) rfl) (.cons (.submit (by decide) rfl)
      (.cons (.dispatched rfl) (.nil _)))⟩
  obtain ⟨s, hrun⟩ := hrun
  exact ⟨_, rfl, rfl, dispatch_fair (by simp [schedulers]) hrun⟩

end Rhoudveine.Blk
