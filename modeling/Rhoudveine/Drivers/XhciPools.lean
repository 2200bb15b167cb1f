import Rhoudveine.Mm.LowFrames

/-!
# The memory of the xHCI driver

`xhci_init` takes its DMA structures from `pfa_alloc_low`, one frame at a time, and keeps the
address of the first frame of each pool.
-/

namespace Rhoudveine.Xhci
open Mm

/-! ## Allocation -/

/-- An allocation may fail; frames that were taken before it fails stay taken. -/
def Alloc (α : Type) : Type := Pfa → Option α × Pfa

namespace Alloc

variable {α β : Type}

def pure (a : α) : Alloc α := fun s => (some a, s)

def bind (x : Alloc α) (f : α → Alloc β) : Alloc β := fun s =>
  match x s with
  | (none, s) => (none, s)
  | (some a, s) => f a s

instance : Monad Alloc where
  pure := pure
  bind := bind

theorem bind_eq {x : Alloc α} {f : α → Alloc β} {s s' : Pfa} {a : α} (h : x s = (some a, s')) :
    (x >>= f) s = f a s' := by
  change bind x f s = f a s'
  rw [bind, h]

/-- A sequence that succeeds succeeds in both parts. -/
theorem of_bind {x : Alloc α} {f : α → Alloc β} {s s' : Pfa} {b : β}
    (h : (x >>= f) s = (some b, s')) : ∃ a t, x s = (some a, t) ∧ f a t = (some b, s') := by
  change bind x f s = (some b, s') at h
  unfold bind at h
  split at h
  · cases (Prod.mk.inj h).1
  · exact ⟨_, _, by assumption, h⟩

theorem pure_eq (a : α) (s : Pfa) : (Pure.pure a : Alloc α) s = (some a, s) := rfl

end Alloc

def physToVirt (hhdmOffset paddr : UInt64) : UInt64 := paddr + hhdmOffset

/-- `xhci_alloc_low` without the zeroing of the frame. -/
def xhciAllocLow : Alloc UInt64 := fun s =>
  let (phys, s) := pfaAllocLow s
  if phys = 0 then (none, s) else (some phys, s)

def xhciAllocPages : (pages : ℕ) → Alloc (List UInt64)
  | 0 => pure []
  | pages + 1 => do
    let phys ← xhciAllocLow
    let rest ← xhciAllocPages pages
    pure (phys :: rest)

/-- The pointer to a pool, and the frames that were obtained for it. -/
structure Pool where
  base : UInt64
  frames : List UInt64

/-- The pointer is to the first frame. -/
def xhciAllocPool (hhdmOffset : UInt64) (pages : ℕ) : Alloc Pool := do
  let first ← xhciAllocLow
  let rest ← xhciAllocPages (pages - 1)
  pure ⟨physToVirt hhdmOffset first, first :: rest⟩

structure Buffers where
  dcbaap : Pool
  cmdRing : Pool
  eventRing : Pool
  eventRingSegTable : Pool
  deviceContexts : Pool
  inputContexts : Pool
  epTransferRings : Pool
  kbdEp1Ring : Pool
  kbdReport : Pool
  descBuf : Pool
  scratchpad : List UInt64

def maxScratchpadBufs (hcsparams2 : UInt32) : ℕ :=
  let lo := (hcsparams2 >>> 21) &&& 0x1F
  let hi := (hcsparams2 >>> 27) &&& 0x1F
  ((hi <<< 5) ||| lo).toNat

/-- The array and its pages.  The driver goes on with fewer when this fails. -/
def xhciAllocScratchpad (hcsparams2 : UInt32) : Alloc (List UInt64) :=
  let bufs := maxScratchpadBufs hcsparams2
  if 0 < bufs then xhciAllocPages (min bufs 256 + 1) else pure []

/-- The allocations of `xhci_init`. -/
def xhciInit (hhdmOffset : UInt64) (hcsparams2 : UInt32) : Alloc Buffers := do
  let dcbaap ← xhciAllocPool hhdmOffset 1
  let cmdRing ← xhciAllocPool hhdmOffset 1
  let eventRing ← xhciAllocPool hhdmOffset 1
  let eventRingSegTable ← xhciAllocPool hhdmOffset 1
  let deviceContexts ← xhciAllocPool hhdmOffset 65
  let inputContexts ← xhciAllocPool hhdmOffset 67
  let epTransferRings ← xhciAllocPool hhdmOffset 33
  let kbdEp1Ring ← xhciAllocPool hhdmOffset 1
  let kbdReport ← xhciAllocPool hhdmOffset 1
  let descBuf ← xhciAllocPool hhdmOffset 1
  let scratchpad ← xhciAllocScratchpad hcsparams2
  pure ⟨dcbaap, cmdRing, eventRing, eventRingSegTable, deviceContexts, inputContexts,
    epTransferRings, kbdEp1Ring, kbdReport, descBuf, scratchpad⟩

/-! ## Slots -/

/-- One slot context and 31 endpoint contexts. -/
def sizeofDeviceContext : ℕ := 32 + 31 * 32

/-- One context more, rounded up by `aligned(64)`. -/
def sizeofInputContext : ℕ := (32 + 32 + 31 * 32 + 63) / 64 * 64

/-- 32 TRBs of 16 bytes. -/
def sizeofEpRing : ℕ := 32 * 16

theorem sizeofInputContext_eq : sizeofInputContext = 1088 := rfl

/-- The bytes of the element `slot` are in frames of the pool. -/
def Inside (hhdmOffset : UInt64) (pool : Pool) (size slot : ℕ) : Prop :=
  ∀ k < size, ∃ p ∈ pool.frames, ∃ i < 4096,
    pool.base + UInt64.ofNat (slot * size + k) = physToVirt hhdmOffset (p + UInt64.ofNat i)

structure SlotInside (hhdmOffset : UInt64) (b : Buffers) (slot : ℕ) : Prop where
  deviceContext : Inside hhdmOffset b.deviceContexts sizeofDeviceContext slot
  inputContext : Inside hhdmOffset b.inputContexts sizeofInputContext slot
  epRing : Inside hhdmOffset b.epTransferRings sizeofEpRing slot

/-- The pool starts at the free frame number `first`.  Each frame that the element reaches is free,
and one that is as far behind as the pool is long has a gap before it. -/
def Backed (s : Pfa) (first pages size slot : ℕ) : Prop :=
  ∀ q, slot * size / 4096 ≤ q → q ≤ (slot * size + (size - 1)) / 4096 →
    (lowFree s).getD first 0 + q ∈ lowFree s ∧
      (q = pages → ∃ i < q, (lowFree s).getD first 0 + i ∉ lowFree s)

structure SlotBacked (s : Pfa) (slot : ℕ) : Prop where
  deviceContext : Backed s 4 65 sizeofDeviceContext slot
  inputContext : Backed s 69 67 sizeofInputContext slot
  epRing : Backed s 136 33 sizeofEpRing slot

/-! ## The frames of a pool -/

variable {s s' : Pfa} {hhdmOffset : UInt64} {pages n : ℕ}

/-- The address of a frame. -/
def frame (i : ℕ) : UInt64 := UInt64.ofNat i * pageSize

theorem xhciAllocLow_eq {phys : UInt64} (h : xhciAllocLow s = (some phys, s')) :
    ∃ i, lowFree s = i :: lowFree s' ∧ phys = frame i := by
  rw [xhciAllocLow] at h
  split at h
  rename_i phys' t halloc
  split at h
  · cases (Prod.mk.inj h).1
  · rename_i hne
    obtain ⟨hphys, rfl⟩ := Prod.mk.inj h
    obtain rfl := Option.some.inj hphys
    rcases pfaAllocLow_lowFree s with ⟨-, hzero⟩ | ⟨i, is, hfree, hfst, hsnd⟩
    · rw [halloc] at hzero
      exact absurd (Prod.mk.inj hzero).1 hne
    · rw [halloc] at hfst hsnd
      exact ⟨i, by rw [hfree, hsnd], hfst⟩

/-- The frames are taken from the front of the free ones. -/
theorem xhciAllocPages_eq {frames : List UInt64} (h : xhciAllocPages pages s = (some frames, s')) :
    ∃ is, is.length = pages ∧ frames = is.map frame ∧ lowFree s = is ++ lowFree s' := by
  induction pages generalizing s frames with
  | zero =>
    rw [xhciAllocPages, Alloc.pure_eq] at h
    obtain ⟨hframes, rfl⟩ := Prod.mk.inj h
    exact ⟨[], rfl, (Option.some.inj hframes).symm, (List.nil_append _).symm⟩
  | succ pages ih =>
    obtain ⟨phys, t, hone, hrest⟩ := Alloc.of_bind h
    obtain ⟨rest, u, hpages, hpure⟩ := Alloc.of_bind hrest
    rw [Alloc.pure_eq] at hpure
    obtain ⟨hframes, rfl⟩ := Prod.mk.inj hpure
    obtain ⟨i, hfree, rfl⟩ := xhciAllocLow_eq hone
    obtain ⟨is, hlength, rfl, hfree'⟩ := ih hpages
    refine ⟨i :: is, ?_, ?_, ?_⟩
    · rw [List.length_cons, hlength]
    · exact (Option.some.inj hframes).symm
    · rw [hfree, hfree', List.cons_append]

/-- The frames of a pool are the next free ones; the pointer is to the first. -/
theorem xhciAllocPool_eq {pool : Pool} (hpages : 0 < pages)
    (h : xhciAllocPool hhdmOffset pages s = (some pool, s')) :
    ∃ i is, (i :: is).length = pages ∧ pool.frames = (i :: is).map frame ∧
      pool.base = physToVirt hhdmOffset (frame i) ∧ lowFree s = i :: is ++ lowFree s' := by
  obtain ⟨phys, t, hone, hrest⟩ := Alloc.of_bind h
  obtain ⟨rest, u, hmore, hpure⟩ := Alloc.of_bind hrest
  rw [Alloc.pure_eq] at hpure
  obtain ⟨hpool, rfl⟩ := Prod.mk.inj hpure
  obtain ⟨i, hfree, rfl⟩ := xhciAllocLow_eq hone
  obtain ⟨is, hlength, rfl, hfree'⟩ := xhciAllocPages_eq hmore
  obtain rfl := Option.some.inj hpool
  refine ⟨i, is, ?_, rfl, rfl, ?_⟩
  · rw [List.length_cons, hlength]
    omega
  · rw [hfree, hfree', List.cons_append]

/-! ## Elements and frames -/

theorem toNat_frame_add {i r : ℕ} (hi : i < maxPages) (hr : r < 2 ^ 40) :
    (frame i + UInt64.ofNat r).toNat = i * 4096 + r := by
  rw [maxPages_eq] at hi
  rw [frame, UInt64.toNat_add, toNat_mul_pageSize (by rwa [maxPages_eq]), UInt64.toNat_ofNat',
    Nat.mod_eq_of_lt (show r < 2 ^ 64 by omega)]
  omega

/-- A byte is in the frame that its distance from the first frame says. -/
theorem address_iff {i j off r : ℕ} (hi : i < maxPages) (hj : j < maxPages) (hoff : off < 2 ^ 40)
    (hr : r < 4096) :
    physToVirt hhdmOffset (frame i) + UInt64.ofNat off =
        physToVirt hhdmOffset (frame j + UInt64.ofNat r) ↔ i * 4096 + off = j * 4096 + r := by
  have hcomm : physToVirt hhdmOffset (frame i) + UInt64.ofNat off =
      frame i + UInt64.ofNat off + hhdmOffset := by
    rw [physToVirt, add_assoc, add_comm hhdmOffset, add_assoc]
  rw [hcomm, physToVirt, add_left_inj, ← UInt64.toNat_inj, toNat_frame_add hi hoff,
    toNat_frame_add hj (by omega)]

/-- The element is in the frames exactly when the frames between its ends are. -/
theorem inside_iff_frames {pool : Pool} {size slot i : ℕ} {is : List ℕ}
    (hframes : pool.frames = is.map frame) (hbase : pool.base = physToVirt hhdmOffset (frame i))
    (hi : i < maxPages) (his : ∀ j ∈ is, j < maxPages) (hsize : 0 < size)
    (hsmall : slot * size + size ≤ 2 ^ 40) :
    Inside hhdmOffset pool size slot ↔
      ∀ q, slot * size / 4096 ≤ q → q ≤ (slot * size + (size - 1)) / 4096 → i + q ∈ is := by
  unfold Inside
  rw [hframes, hbase]
  generalize slot * size = x at hsmall ⊢
  constructor
  · intro hinside q hlow hhigh
    -- the first byte of the element in this frame
    obtain ⟨p, hp, r, hr, heq⟩ := hinside (q * 4096 - x) (by omega)
    obtain ⟨j, hj, rfl⟩ := List.mem_map.mp hp
    rw [address_iff hi (his j hj) (by omega) hr] at heq
    have hj' : i + q = j := by omega
    rw [hj']
    exact hj
  · intro hall k hk
    refine ⟨frame (i + (x + k) / 4096), ?_, (x + k) % 4096, Nat.mod_lt _ (by norm_num), ?_⟩
    · apply List.mem_map_of_mem
      exact hall _ (by omega) (by omega)
    · rw [address_iff hi (his _ (hall _ (by omega) (by omega))) (by omega)
        (Nat.mod_lt _ (by norm_num))]
      omega

/-- A pool that was taken after `first` frames. -/
theorem inside_iff_backed {t u : Pfa} {pool : Pool} {pre : List ℕ} {size slot : ℕ}
    (hpre : lowFree s = pre ++ lowFree t) (hpages : 0 < pages)
    (h : xhciAllocPool hhdmOffset pages t = (some pool, u)) (hsize : 0 < size)
    (hend : (slot * size + (size - 1)) / 4096 ≤ pages) (hsmall : pages ≤ 100) :
    Inside hhdmOffset pool size slot ↔ Backed s pre.length pages size slot := by
  obtain ⟨i, is, hlength, hframes, hbase, hfree⟩ := xhciAllocPool_eq hpages h
  have hmax (j : ℕ) (hj : j ∈ i :: is) : j < maxPages := by
    have hmem : j ∈ lowFree t := by
      rw [hfree]
      exact List.mem_append_left _ hj
    exact (mem_lowFree.mp hmem).1
  have htake : (lowFree t).take pages = i :: is := by
    rw [hfree, ← hlength, List.take_left]
  have hfirst : (lowFree s).getD pre.length 0 = i := by
    rw [hpre, hfree, List.getD_append_right _ _ _ _ le_rfl, Nat.sub_self]
    rfl
  have hascending := lowFree_ascending t
  rw [hfree, List.cons_append] at hascending
  have hdrop : (lowFree s).drop pre.length = i :: (is ++ lowFree u) := by
    rw [hpre, List.drop_left, hfree]
    rfl
  have hmem (q : ℕ) : i + q ∈ i :: (is ++ lowFree u) ↔ i + q ∈ lowFree s := by
    rw [← hdrop]
    exact Ascending.mem_drop_iff (lowFree_ascending s) hdrop (Nat.le_add_right i q)
  rw [inside_iff_frames hframes hbase (hmax i List.mem_cons_self) hmax hsize (by omega)]
  unfold Backed
  rw [hfirst]
  apply forall_congr'
  intro q
  apply imp_congr_right
  intro _
  apply imp_congr_right
  intro hq
  rw [← htake, hfree, List.cons_append, Ascending.add_mem_take_iff hascending (by omega), hmem]
  simp only [hmem]

/-! ## All slots -/

/-- The pools of `xhci_init`, with the number of frames taken before each. -/
theorem xhciInit_pools {hcsparams2 : UInt32} {b : Buffers}
    (h : xhciInit hhdmOffset hcsparams2 s = (some b, s')) :
    (∃ pre t u, pre.length = 4 ∧ lowFree s = pre ++ lowFree t ∧
      xhciAllocPool hhdmOffset 65 t = (some b.deviceContexts, u)) ∧
    (∃ pre t u, pre.length = 69 ∧ lowFree s = pre ++ lowFree t ∧
      xhciAllocPool hhdmOffset 67 t = (some b.inputContexts, u)) ∧
    (∃ pre t u, pre.length = 136 ∧ lowFree s = pre ++ lowFree t ∧
      xhciAllocPool hhdmOffset 33 t = (some b.epTransferRings, u)) := by
  obtain ⟨p₁, s₁, h₁, h⟩ := Alloc.of_bind h
  obtain ⟨p₂, s₂, h₂, h⟩ := Alloc.of_bind h
  obtain ⟨p₃, s₃, h₃, h⟩ := Alloc.of_bind h
  obtain ⟨p₄, s₄, h₄, h⟩ := Alloc.of_bind h
  obtain ⟨p₅, s₅, h₅, h⟩ := Alloc.of_bind h
  obtain ⟨p₆, s₆, h₆, h⟩ := Alloc.of_bind h
  obtain ⟨p₇, s₇, h₇, h⟩ := Alloc.of_bind h
  obtain ⟨p₈, s₈, -, h⟩ := Alloc.of_bind h
  obtain ⟨p₉, s₉, -, h⟩ := Alloc.of_bind h
  obtain ⟨p₁₀, s₁₀, -, h⟩ := Alloc.of_bind h
  obtain ⟨scratchpad, s₁₁, -, h⟩ := Alloc.of_bind h
  rw [Alloc.pure_eq] at h
  obtain ⟨hb, -⟩ := Prod.mk.inj h
  obtain rfl := Option.some.inj hb
  obtain ⟨i₁, is₁, hl₁, -, -, hf₁⟩ := xhciAllocPool_eq one_pos h₁
  obtain ⟨i₂, is₂, hl₂, -, -, hf₂⟩ := xhciAllocPool_eq one_pos h₂
  obtain ⟨i₃, is₃, hl₃, -, -, hf₃⟩ := xhciAllocPool_eq one_pos h₃
  obtain ⟨i₄, is₄, hl₄, -, -, hf₄⟩ := xhciAllocPool_eq one_pos h₄
  obtain ⟨i₅, is₅, hl₅, -, -, hf₅⟩ := xhciAllocPool_eq (by norm_num) h₅
  obtain ⟨i₆, is₆, hl₆, -, -, hf₆⟩ := xhciAllocPool_eq (by norm_num) h₆
  have hfree₄ : lowFree s = ((i₁ :: is₁) ++ (i₂ :: is₂) ++ (i₃ :: is₃) ++ (i₄ :: is₄)) ++
      lowFree s₄ := by
    rw [hf₁, hf₂, hf₃, hf₄]
    simp only [List.append_assoc]
  have hlength₄ : ((i₁ :: is₁) ++ (i₂ :: is₂) ++ (i₃ :: is₃) ++ (i₄ :: is₄)).length = 4 := by
    rw [List.length_append, List.length_append, List.length_append]
    omega
  generalize (i₁ :: is₁) ++ (i₂ :: is₂) ++ (i₃ :: is₃) ++ (i₄ :: is₄) = pre at hfree₄ hlength₄
  refine ⟨⟨pre, s₄, s₅, hlength₄, hfree₄, h₅⟩, ⟨pre ++ (i₅ :: is₅), s₅, s₆, ?_, ?_, h₆⟩,
    ⟨pre ++ (i₅ :: is₅) ++ (i₆ :: is₆), s₆, s₇, ?_, ?_, h₇⟩⟩
  · rw [List.length_append, hlength₄, hl₅]
  · rw [hfree₄, hf₅, List.append_assoc]
  · rw [List.length_append, List.length_append, hlength₄, hl₅, hl₆]
  · rw [hfree₄, hf₅, hf₆, List.append_assoc, List.append_assoc]

theorem slotInside_iff {hcsparams2 : UInt32} {b : Buffers} {slot : ℕ}
    (h : xhciInit hhdmOffset hcsparams2 s = (some b, s')) (hslot : slot ≤ 255) :
    SlotInside hhdmOffset b slot ↔ SlotBacked s slot := by
  obtain ⟨⟨pre₁, t₁, u₁, hl₁, hf₁, ha₁⟩, ⟨pre₂, t₂, u₂, hl₂, hf₂, ha₂⟩,
    ⟨pre₃, t₃, u₃, hl₃, hf₃, ha₃⟩⟩ := xhciInit_pools h
  have hdevice := @inside_iff_backed s hhdmOffset 65 t₁ u₁ _ pre₁ sizeofDeviceContext slot hf₁
    (by norm_num) ha₁ (by decide) (by unfold sizeofDeviceContext; omega) (by norm_num)
  have hinput := @inside_iff_backed s hhdmOffset 67 t₂ u₂ _ pre₂ sizeofInputContext slot hf₂
    (by norm_num) ha₂ (by decide) (by rw [sizeofInputContext_eq]; omega) (by norm_num)
  have hring := @inside_iff_backed s hhdmOffset 33 t₃ u₃ _ pre₃ sizeofEpRing slot hf₃
    (by norm_num) ha₃ (by decide) (by unfold sizeofEpRing; omega) (by norm_num)
  rw [hl₁] at hdevice
  rw [hl₂] at hinput
  rw [hl₃] at hring
  constructor
  · exact fun hinside => ⟨hdevice.mp hinside.deviceContext, hinput.mp hinside.inputContext,
      hring.mp hinside.epRing⟩
  · exact fun hbacked => ⟨hdevice.mpr hbacked.deviceContext, hinput.mpr hbacked.inputContext,
      hring.mpr hbacked.epRing⟩

/-- The pool of input contexts is a frame short. -/
theorem not_all_backed (s : Pfa) : ¬ ∀ slot ≤ 255, SlotBacked s slot := by
  intro hall
  obtain ⟨i, hi, hgap⟩ := ((hall 255 le_rfl).inputContext 67 (by rw [sizeofInputContext_eq])
    (by rw [sizeofInputContext_eq])).2 rfl
  -- some slot has a byte in the frame that is missing
  have hslot := (hall (i * 4096 / 1088) (by omega)).inputContext i
    (by rw [sizeofInputContext_eq]; omega) (by rw [sizeofInputContext_eq]; omega)
  exact hgap hslot.1

/-! ## Enough frames -/

theorem xhciAllocLow_succeeds {i : ℕ} {is : List ℕ} (h : lowFree s = i :: is) (hi : i ≠ 0) :
    ∃ s', xhciAllocLow s = (some (frame i), s') ∧ lowFree s' = is := by
  have hmax : i < maxPages := by
    have hmem : i ∈ lowFree s := by
      rw [h]
      exact List.mem_cons_self
    exact (mem_lowFree.mp hmem).1
  have hne : frame i ≠ 0 := by
    intro hzero
    have hnat := congrArg UInt64.toNat hzero
    rw [frame, toNat_mul_pageSize hmax, UInt64.toNat_zero] at hnat
    omega
  rcases pfaAllocLow_lowFree s with ⟨hnil, -⟩ | ⟨j, js, hfree, hfst, hsnd⟩
  · rw [h] at hnil
    cases hnil
  · rw [h] at hfree
    obtain ⟨rfl, rfl⟩ := List.cons.inj hfree
    have hpair : pfaAllocLow s = (frame i, (pfaAllocLow s).2) := by
      rw [frame, ← hfst]
    refine ⟨(pfaAllocLow s).2, ?_, hsnd⟩
    rw [xhciAllocLow, hpair]
    exact if_neg hne

theorem xhciAllocPages_succeeds {is js : List ℕ} (h : lowFree s = is ++ js) (hpos : 0 ∉ is) :
    ∃ s', xhciAllocPages is.length s = (some (is.map frame), s') ∧ lowFree s' = js := by
  induction is generalizing s with
  | nil => exact ⟨s, rfl, h⟩
  | cons i is ih =>
    have hi : i ≠ 0 := by
      rintro rfl
      exact hpos List.mem_cons_self
    obtain ⟨t, hone, hfree⟩ := xhciAllocLow_succeeds h hi
    obtain ⟨u, hrest, hfree'⟩ := ih hfree fun hmem => hpos (List.mem_cons_of_mem i hmem)
    refine ⟨u, ?_, hfree'⟩
    rw [List.length_cons, xhciAllocPages, Alloc.bind_eq hone, Alloc.bind_eq hrest, Alloc.pure_eq,
      List.map_cons]

/-- There are `n` free frames, none of them frame 0. -/
structure HasFrames (s : Pfa) (n : ℕ) : Prop where
  le_length : n ≤ (lowFree s).length
  ne_zero : 0 ∉ lowFree s

theorem HasFrames.allocPages {pages n : ℕ} (h : HasFrames s (pages + n)) :
    ∃ frames s', xhciAllocPages pages s = (some frames, s') ∧ HasFrames s' n := by
  have hsplit := List.take_append_drop pages (lowFree s)
  have hlength : ((lowFree s).take pages).length = pages := by
    rw [List.length_take]
    have hle := h.le_length
    omega
  obtain ⟨s', halloc, hfree⟩ := xhciAllocPages_succeeds hsplit.symm
    fun hmem => h.ne_zero (List.mem_of_mem_take hmem)
  rw [hlength] at halloc
  refine ⟨_, s', halloc, ?_, ?_⟩
  · have hle := h.le_length
    rw [hfree, List.length_drop]
    omega
  · rw [hfree]
    exact fun hmem => h.ne_zero (List.mem_of_mem_drop hmem)

theorem HasFrames.allocPool {pages n : ℕ} (h : HasFrames s (pages + n)) (hpages : 0 < pages)
    (hhdmOffset : UInt64) :
    ∃ pool s', xhciAllocPool hhdmOffset pages s = (some pool, s') ∧ HasFrames s' n := by
  have hlength := h.le_length
  obtain ⟨i, is, hcons⟩ := List.exists_cons_of_ne_nil
    (List.ne_nil_of_length_pos (show 0 < (lowFree s).length by omega))
  have hi : i ≠ 0 := by
    rintro rfl
    apply h.ne_zero
    rw [hcons]
    exact List.mem_cons_self
  obtain ⟨t, hone, hfree⟩ := xhciAllocLow_succeeds hcons hi
  have ht : HasFrames t (pages - 1 + n) := by
    rw [hcons, List.length_cons] at hlength
    constructor
    · rw [hfree]
      omega
    · rw [hfree]
      intro hmem
      apply h.ne_zero
      rw [hcons]
      exact List.mem_cons_of_mem i hmem
  obtain ⟨rest, u, hrest, hu⟩ := ht.allocPages
  refine ⟨⟨physToVirt hhdmOffset (frame i), frame i :: rest⟩, u, ?_, hu⟩
  rw [xhciAllocPool, Alloc.bind_eq hone, Alloc.bind_eq hrest, Alloc.pure_eq]

/-- 429 free frames are enough for every controller. -/
theorem xhciInit_succeeds (h : HasFrames s 429) (hhdmOffset : UInt64) (hcsparams2 : UInt32) :
    ∃ b s', xhciInit hhdmOffset hcsparams2 s = (some b, s') := by
  obtain ⟨p₁, s₁, h₁, hs₁⟩ :=
    HasFrames.allocPool (show HasFrames s (1 + 428) from h) (by norm_num) hhdmOffset
  obtain ⟨p₂, s₂, h₂, hs₂⟩ :=
    HasFrames.allocPool (show HasFrames s₁ (1 + 427) from hs₁) (by norm_num) hhdmOffset
  obtain ⟨p₃, s₃, h₃, hs₃⟩ :=
    HasFrames.allocPool (show HasFrames s₂ (1 + 426) from hs₂) (by norm_num) hhdmOffset
  obtain ⟨p₄, s₄, h₄, hs₄⟩ :=
    HasFrames.allocPool (show HasFrames s₃ (1 + 425) from hs₃) (by norm_num) hhdmOffset
  obtain ⟨p₅, s₅, h₅, hs₅⟩ :=
    HasFrames.allocPool (show HasFrames s₄ (65 + 360) from hs₄) (by norm_num) hhdmOffset
  obtain ⟨p₆, s₆, h₆, hs₆⟩ :=
    HasFrames.allocPool (show HasFrames s₅ (67 + 293) from hs₅) (by norm_num) hhdmOffset
  obtain ⟨p₇, s₇, h₇, hs₇⟩ :=
    HasFrames.allocPool (show HasFrames s₆ (33 + 260) from hs₆) (by norm_num) hhdmOffset
  obtain ⟨p₈, s₈, h₈, hs₈⟩ :=
    HasFrames.allocPool (show HasFrames s₇ (1 + 259) from hs₇) (by norm_num) hhdmOffset
  obtain ⟨p₉, s₉, h₉, hs₉⟩ :=
    HasFrames.allocPool (show HasFrames s₈ (1 + 258) from hs₈) (by norm_num) hhdmOffset
  obtain ⟨p₁₀, s₁₀, h₁₀, hs₁₀⟩ :=
    HasFrames.allocPool (show HasFrames s₉ (1 + 257) from hs₉) (by norm_num) hhdmOffset
  have hscratchpad : ∃ frames s₁₁, xhciAllocScratchpad hcsparams2 s₁₀ = (some frames, s₁₁) := by
    by_cases hbufs : 0 < maxScratchpadBufs hcsparams2
    · have halloc : xhciAllocScratchpad hcsparams2 =
          xhciAllocPages (min (maxScratchpadBufs hcsparams2) 256 + 1) := if_pos hbufs
      have hsome : HasFrames s₁₀ (min (maxScratchpadBufs hcsparams2) 256 + 1 + 0) := by
        refine ⟨?_, hs₁₀.ne_zero⟩
        have hle := hs₁₀.le_length
        omega
      obtain ⟨frames, s₁₁, hpages, -⟩ := hsome.allocPages
      rw [halloc]
      exact ⟨frames, s₁₁, hpages⟩
    · have hpure : xhciAllocScratchpad hcsparams2 = pure [] := if_neg hbufs
      rw [hpure]
      exact ⟨[], s₁₀, rfl⟩
  obtain ⟨frames, s₁₁, hframes⟩ := hscratchpad
  refine ⟨⟨p₁, p₂, p₃, p₄, p₅, p₆, p₇, p₈, p₉, p₁₀, frames⟩, s₁₁, ?_⟩
  rw [xhciInit, Alloc.bind_eq h₁, Alloc.bind_eq h₂, Alloc.bind_eq h₃, Alloc.bind_eq h₄,
    Alloc.bind_eq h₅, Alloc.bind_eq h₆, Alloc.bind_eq h₇, Alloc.bind_eq h₈, Alloc.bind_eq h₉,
    Alloc.bind_eq h₁₀, Alloc.bind_eq hframes, Alloc.pure_eq]

/-- All low frames but frame 0 are free. -/
def emptyPfa : Pfa where
  bitmap := fun _ => 0xFF
  bitmapBase := 0x100000000
  freePagesCount := 0
  totalPagesCount := 0
  lowBitmap := fun i => if i = 0 then 1 else 0
  lowFreeCount := 2097151
  lowTotalCount := 2097151

theorem mem_lowFree_emptyPfa {i : ℕ} : i ∈ lowFree emptyPfa ↔ 0 < i ∧ i < maxPages := by
  have hbit : ByteBits.bit emptyPfa.lowBitmap i = decide (i = 0) := by
    have hbyte (j : ℕ) : emptyPfa.lowBitmap j = if j = 0 then 1 else 0 := rfl
    rw [ByteBits.bit, hbyte]
    by_cases hi : i < 8
    · interval_cases i <;> rfl
    · rw [if_neg (by omega), UInt8.toNat_zero, Nat.zero_testBit]
      simp only [false_eq_decide_iff]
      omega
  rw [mem_lowFree, hbit, decide_eq_false_iff_not]
  omega

theorem emptyPfa_hasFrames : HasFrames emptyPfa 429 := by
  constructor
  · have hsub : List.range' 1 429 ⊆ lowFree emptyPfa := by
      intro i hi
      rw [mem_lowFree_emptyPfa, maxPages_eq]
      have hrange := List.mem_range'_1.mp hi
      omega
    have hle := (List.subperm_of_subset (List.nodup_range' ..) hsub).length_le
    rwa [List.length_range'] at hle
  · rw [mem_lowFree_emptyPfa]
    omega

/-- A slot is inside its pools exactly when the frames from the start of each pool on that it
reaches are free beforehand, and the pool has a gap where the slot is in the 68th frame of the
input contexts; this never holds for all slots. -/
theorem slots_inside_iff {hcsparams2 : UInt32} {b : Buffers}
    (h : xhciInit hhdmOffset hcsparams2 s = (some b, s')) :
    (∀ slot ≤ 255, (SlotInside hhdmOffset b slot ↔ SlotBacked s slot)) ∧
      ¬ ∀ slot ≤ 255, SlotInside hhdmOffset b slot := by
  refine ⟨fun slot hslot => slotInside_iff h hslot, fun hall => not_all_backed s ?_⟩
  exact fun slot hslot => (slotInside_iff h hslot).mp (hall slot hslot)

theorem slots_inside_iff_emptyPfa :
    ∃ b s', xhciInit 0 0 emptyPfa = (some b, s') ∧
      (SlotInside 0 b 7 ↔ SlotBacked emptyPfa 7) ∧ ¬ ∀ slot ≤ 255, SlotInside 0 b slot := by
  obtain ⟨b, s', h⟩ := xhciInit_succeeds emptyPfa_hasFrames 0 0
  exact ⟨b, s', h, (slots_inside_iff h).1 7 (by norm_num), (slots_inside_iff h).2⟩

/-- The last slot of an empty machine: its input context ends in the next pool. -/
theorem lastSlot_outside :
    ∃ b s', xhciInit 0 0 emptyPfa = (some b, s') ∧ ¬ SlotInside 0 b 255 := by
  obtain ⟨b, s', h⟩ := xhciInit_succeeds emptyPfa_hasFrames 0 0
  refine ⟨b, s', h, fun hinside => ?_⟩
  have hbacked := ((slotInside_iff h le_rfl).mp hinside).inputContext
  obtain ⟨hlast, hgap⟩ := hbacked 67 (by rw [sizeofInputContext_eq]) (by rw [sizeofInputContext_eq])
  obtain ⟨i, hi, hnot⟩ := hgap rfl
  have hfirst : (lowFree emptyPfa).getD 69 0 ∈ lowFree emptyPfa := by
    have hlength := emptyPfa_hasFrames.le_length
    rw [List.getD_eq_getElem _ _ (show 69 < (lowFree emptyPfa).length by omega)]
    exact List.getElem_mem _
  rw [mem_lowFree_emptyPfa] at hlast hnot hfirst
  omega

end Rhoudveine.Xhci
