import Rhoudveine.Shell.Notebook

/-!
# The shell over ramfs is the notebook

Each command that uses the files opens descriptor 3, and closes it again.  What it prints is what
the notebook says, and the state after it shows the notebook after it.
-/

namespace Rhoudveine.Shell
open Fs Lookup Walk
open Fs.Joint (ramfsChildren)

variable {answers : ℕ → UInt64} {made made' : Pages} {v v' : Vfs} {n k : ℕ} {comps : List Str}
  {flags : UInt32}

/-! ## The open descriptor -/

/-- What the descriptor is while a command reads or writes. -/
def openAt (n : ℕ) (flags : UInt32) (offset : ℕ) : FileDescriptor :=
  ⟨some n, UInt64.ofNat offset, flags, 1⟩

@[simp] theorem setFd_setFd (v : Vfs) (fd : ℕ) (file file' : FileDescriptor) :
    (v.setFd fd file).setFd fd file' = v.setFd fd file' := by
  simp [Vfs.setFd]

theorem ofInt_length (m : ℕ) : UInt64.ofInt (m : ℤ) = UInt64.ofNat m := by
  apply UInt64.toNat_inj.mp
  rw [UInt64.ofInt, UInt64.toNat_ofNat', UInt64.toNat_ofNat']
  omega

theorem ramfsRead_setFd (v : Vfs) (fd : ℕ) (file : FileDescriptor) (node : Option ℕ)
    (offset : UInt64) (size : UInt32) :
    ramfsRead (v.setFd fd file) node offset size = ramfsRead v node offset size := rfl

theorem liveFd_openAt : liveFd (v.setFd 3 (openAt n flags k)) 3 = some (3, openAt n flags k) := by
  have hself : (v.setFd 3 (openAt n flags k)).gFds 3 = openAt n flags k := by simp [Vfs.setFd]
  apply liveFd_eq_some.mpr
  refine ⟨by decide, by decide, ?_, rfl, hself.symm⟩
  change ((v.setFd 3 (openAt n flags k)).gFds 3).refcount ≠ 0
  rw [hself]
  exact one_ne_zero

theorem vfsClose_openAt :
    vfsClose (v.setFd 3 (openAt n flags k)) 3 =
      (0, v.setFd 3 ⟨none, UInt64.ofNat k, flags, 0⟩) := by
  unfold vfsClose
  rw [liveFd_openAt]
  dsimp only
  rw [setFd_setFd]
  rfl

namespace Shows

theorem openNode_eq (h : Shows answers made v) (n : ℕ) (hflags : flags &&& oAppend = 0) :
    openNode v n flags = (3, v.setFd 3 (openAt n flags 0)) := by
  unfold openNode
  rw [h.freeFd_eq]
  dsimp only
  rw [if_neg (not_not.mpr hflags)]
  rfl

theorem open_found (h : Shows answers made v) (hcomps : ∀ x ∈ comps, Component x)
    (hindex : made.index comps = some n) (hflags : flags &&& oAppend = 0) :
    vfsOpen v (absolute comps) flags = some (3, v.setFd 3 (openAt n flags 0)) := by
  unfold vfsOpen
  rw [h.resolve hcomps, hindex]
  exact congrArg some (h.openNode_eq n hflags)

theorem open_missing (h : Shows answers made v) (hcomps : ∀ x ∈ comps, Component x)
    (hindex : made.index comps = none) : vfsOpen v (absolute comps) 0 = some (-1, v) := by
  unfold vfsOpen
  rw [h.resolve hcomps, hindex]
  exact if_pos rfl

/-! ## Lists -/

theorem readdir_openAt (h : Shows answers made v) (hdir : (v.ramfsNodePool n).isDir)
    (flags : UInt32) (hk : k ≤ 64) :
    vfsReaddir (v.setFd 3 (openAt n flags k)) 3 =
      match (ramfsChildren v n)[k]? with
      | none => (-1, none, v.setFd 3 (openAt n flags k))
      | some c => (0, some (direntOf v c), v.setFd 3 (openAt n flags (k + 1))) := by
  have hops := h.tree.ops n (h.tree.dir_lt n hdir)
  have hread (index : UInt32) : ramfsReaddir (v.setFd 3 (openAt n flags k)) n index =
      (ramfsChildren v n)[index.toNat]? := Joint.ramfsReaddir_eq h.tidy hdir index
  have hindex : (openAt n flags k).offset.toUInt32.toNat = k := by
    have hlt : k < UInt64.size := lt_of_le_of_lt hk (by decide)
    rw [UInt64.toNat_toUInt32, openAt, UInt64.toNat_ofNat_of_lt' hlt]
    omega
  have hnext : (⟨some n, (openAt n flags k).offset + 1, (openAt n flags k).flags,
      (openAt n flags k).refcount⟩ : FileDescriptor) = openAt n flags (k + 1) := by
    simp [openAt]
  have hnode : (openAt n flags k).node = some n := rfl
  have hpool : (v.setFd 3 (openAt n flags k)).ramfsNodePool = v.ramfsNodePool := rfl
  unfold vfsReaddir
  rw [liveFd_openAt]
  simp only [hnode, hpool, hops, Option.bind_some, Option.map_some, hread, hindex]
  cases (ramfsChildren v n)[k]? with
  | none => rfl
  | some c =>
    dsimp only
    rw [hnext, setFd_setFd]
    rfl

/-- From the entry `k` on. -/
theorem listLoop_openAt (h : Shows answers made v) (hdir : (v.ramfsNodePool n).isDir)
    (flags : UInt32) : ∀ fuel k : ℕ, k ≤ (ramfsChildren v n).length → (ramfsChildren v n).length - k < fuel →
      ∃ last, listLoop fuel (v.setFd 3 (openAt n flags k)) 3 =
        some (((ramfsChildren v n).drop k).flatMap fun c => entryLine (direntOf v c),
          v.setFd 3 (openAt n flags last)) := by
  have hmax := Joint.length_ramfsChildren_le h.tidy hdir
  intro fuel
  induction fuel with
  | zero =>
    intro k _ hfuel
    exact absurd hfuel (Nat.not_lt_zero _)
  | succ fuel ih =>
    intro k hk hfuel
    have hread := h.readdir_openAt hdir flags (hk.trans hmax)
    rw [listLoop, hread]
    rcases hk.lt_or_eq with hlt | hend
    · rw [List.getElem?_eq_getElem hlt]
      change ∃ last, (listLoop fuel (v.setFd 3 (openAt n flags (k + 1))) 3).map _ = _
      obtain ⟨last, hrest⟩ := ih (k + 1) hlt (by omega)
      refine ⟨last, ?_⟩
      rw [hrest, List.drop_eq_getElem_cons hlt, List.flatMap_cons]
      rfl
    · rw [List.getElem?_eq_none hend.ge]
      refine ⟨k, ?_⟩
      rw [hend, List.drop_length]
      rfl

/-- The children of a directory are its entries in their order. -/
theorem children_eq (h : Shows answers made v) (hindex : made.index comps = some n)
    (hdir : (v.ramfsNodePool n).isDir) :
    ramfsChildren v n =
      (made.zipIdx.filter fun x => x.1.1 ≠ [] ∧ x.1.1.dropLast = comps).map fun x => x.2 + 1 := by
  obtain ⟨roots, hf⟩ := h.tidy.forest
  have hsorted : ((made.zipIdx.filter fun x => x.1.1 ≠ [] ∧ x.1.1.dropLast = comps).map
      fun x => x.2 + 1).Pairwise (· < ·) := by
    rw [List.pairwise_map]
    apply List.Pairwise.filter
    have hrange : (made.zipIdx.map Prod.snd).Pairwise (· < ·) := by
      rw [List.zipIdx_map_snd]
      exact List.pairwise_lt_range'
    rw [List.pairwise_map] at hrange
    exact hrange.imp Nat.succ_lt_succ
  refine (Joint.ramfsChildren_sorted v n).eq_of_mem_iff hsorted fun c => ?_
  rw [Joint.mem_ramfsChildren hf hdir, h.child, List.mem_map]
  constructor
  · rintro ⟨i, e, rfl, hi, hd⟩
    refine ⟨(e, i), List.mem_filter.mpr ⟨List.mem_zipIdx_iff_getElem?.mpr hi, ?_⟩, rfl⟩
    rw [decide_eq_true_iff]
    exact ⟨(h.placed e (List.mem_of_getElem? hi)).1, Pages.index_inj hd hindex⟩
  · rintro ⟨⟨e, i⟩, hmem, rfl⟩
    obtain ⟨hi, hparent⟩ := List.mem_filter.mp hmem
    obtain ⟨-, rfl⟩ := of_decide_eq_true hparent
    exact ⟨i, e, rfl, List.mem_zipIdx_iff_getElem?.mp hi, hindex⟩

theorem entryLine_eq (h : Shows answers made v) {i : ℕ} {e : List Str × Entry}
    (hi : made[i]? = some e) :
    entryLine (direntOf v (i + 1)) =
      e.1.getLast?.getD [] ++ (if e.2 = .dir then [slash] else []) ++ newline := by
  have hdir : e.2.flags &&& 2 ≠ 0 ↔ e.2 = .dir := Entry.flags_isDir e.2
  simp only [entryLine, direntOf, h.name i e hi, h.flags i e hi, hdir]

theorem listing_eq (h : Shows answers made v) (hindex : made.index comps = some n)
    (hdir : (v.ramfsNodePool n).isDir) :
    ((ramfsChildren v n).flatMap fun c => entryLine (direntOf v c)) = made.listing comps := by
  have hfst : made = made.zipIdx.map Prod.fst := (List.zipIdx_map_fst 0 made).symm
  rw [h.children_eq hindex hdir, List.flatMap_map]
  conv_rhs => rw [Pages.listing, hfst, List.filter_map, List.flatMap_map]
  apply List.flatMap_congr
  rintro ⟨e, i⟩ hmem
  exact h.entryLine_eq (List.mem_zipIdx_iff_getElem?.mp (List.mem_filter.mp hmem).1)

/-! ## Texts -/

theorem size_eq (h : Shows answers made v) {text : Str} (he : made.entry n = some (.file text)) :
    (v.ramfsNodePool n).size.toNat = text.length := by
  have hsize := h.agrees.size n (h.isFile he)
  simp only [Pages.contents, he, ofText] at hsize
  exact hsize

theorem read_openAt (h : Shows answers made v) {text : Str}
    (he : made.entry n = some (.file text)) (flags : UInt32) (hk : k ≤ text.length) :
    vfsRead (v.setFd 3 (openAt n flags k)) 3 512 =
      some (((min 512 (text.length - k) : ℕ) : ℤ), (text.drop k).take 512,
        v.setFd 3 (openAt n flags (k + min 512 (text.length - k)))) := by
  have hfile := h.isFile he
  have hsize := h.size_eq he
  have hle : text.length ≤ maxFilePages * 4096 := hsize ▸ h.agrees.size_le hfile
  have hoffset : (openAt n flags k).offset.toNat = k := by
    have hlt : k < UInt64.size :=
      lt_of_le_of_lt (hk.trans hle) (by decide)
    exact UInt64.toNat_ofNat_of_lt' hlt
  obtain ⟨buffer, hread, hlen, hbytes⟩ :=
    ramfsRead_holds h.agrees.blocks hfile.1 (openAt n flags k).offset 512
  dsimp only at hread hlen hbytes
  rw [hoffset, hsize] at hlen
  rw [hoffset] at hbytes
  have h512 : (512 : UInt32).toNat = 512 := rfl
  rw [h512] at hlen
  have hbuffer : buffer = (text.drop k).take 512 := by
    apply List.ext_getElem?
    intro i
    by_cases hi : i < buffer.length
    · have hpos : k + i < text.length := by omega
      have hbyte : (made.contents n).byte (k + i) = some text[k + i] := by
        simp only [Pages.contents, he, ofText]
        exact List.getElem?_eq_getElem hpos
      rw [hbytes i hi _ (h.agrees.bytes n (k + i) _ hbyte), List.getElem?_take_of_lt (by omega),
        List.getElem?_drop, List.getElem?_eq_getElem hpos]
    · rw [List.getElem?_eq_none (not_lt.mp hi), List.getElem?_eq_none]
      rw [List.length_take, List.length_drop]
      omega
  have hnode : (openAt n flags k).node = some n := rfl
  have hpool : (v.setFd 3 (openAt n flags k)).ramfsNodePool = v.ramfsNodePool := rfl
  have hread' : ramfsRead (v.setFd 3 (openAt n flags k)) (some n) (openAt n flags k).offset 512 =
      some ((buffer.length : ℤ), buffer) := (ramfsRead_setFd ..).trans hread
  have hadvance : advance (openAt n flags k) buffer.length =
      openAt n flags (k + buffer.length) := by
    unfold advance
    split
    · simp [openAt, ofInt_length]
    · have hzero : buffer.length = 0 := by omega
      rw [hzero]
      rfl
  have hcount : (512 : UInt64).toUInt32 = 512 := by decide
  unfold vfsRead
  rw [liveFd_openAt]
  simp only [hnode, hpool, hfile.2, Option.bind_some, hcount, hread', hadvance, setFd_setFd]
  rw [← hlen, ← hbuffer]

/-- From the byte `k` on. -/
theorem dumpLoop_openAt (h : Shows answers made v) {text : Str}
    (he : made.entry n = some (.file text)) (flags : UInt32) :
    ∀ fuel k : ℕ, k ≤ text.length → text.length - k + 512 ≤ 512 * fuel →
      ∃ last, dumpLoop fuel (v.setFd 3 (openAt n flags k)) 3 =
        some (text.drop k, v.setFd 3 (openAt n flags last)) := by
  intro fuel
  induction fuel with
  | zero =>
    intro k _ hfuel
    omega
  | succ fuel ih =>
    intro k hk hfuel
    rw [dumpLoop, h.read_openAt he flags hk, Option.bind_some]
    dsimp only
    rcases hk.lt_or_eq with hlt | rfl
    · rw [if_pos (by omega)]
      obtain ⟨last, hrest⟩ :=
        ih (k + min 512 (text.length - k)) (by omega) (by omega)
      refine ⟨last, ?_⟩
      rw [hrest, Option.map_some]
      have hsplit : (text.drop k).take 512 ++ text.drop (k + min 512 (text.length - k)) =
          text.drop k := by
        rw [← List.drop_drop, ← List.length_drop, Nat.min_comm]
        have hdrop : (text.drop k).drop (min (text.drop k).length 512) =
            (text.drop k).drop 512 := by
          rcases Nat.le_total (text.drop k).length 512 with hshort | hlong
          · rw [Nat.min_eq_left hshort, List.drop_length, List.drop_eq_nil_of_le hshort]
          · rw [Nat.min_eq_right hlong]
        rw [hdrop, List.take_append_drop]
      rw [hsplit]
    · rw [if_neg (by simp)]
      refine ⟨text.length + min 512 (text.length - text.length), ?_⟩
      rw [List.drop_length]

/-- A directory has no bytes to read. -/
theorem read_dir (h : Shows answers made v) (hdir : (v.ramfsNodePool n).isDir) :
    vfsRead (v.setFd 3 (openAt n flags k)) 3 512 =
      some (-1, [], v.setFd 3 (openAt n flags k)) := by
  have hops := h.tree.ops n (h.tree.dir_lt n hdir)
  have hnode : (openAt n flags k).node = some n := rfl
  have hpool : (v.setFd 3 (openAt n flags k)).ramfsNodePool = v.ramfsNodePool := rfl
  have hread (count : UInt32) :
      ramfsRead (v.setFd 3 (openAt n flags k)) (some n) (openAt n flags k).offset count =
        some (-1, []) := by
    rw [ramfsRead_setFd]
    exact if_pos hdir
  unfold vfsRead
  rw [liveFd_openAt]
  simp only [hnode, hpool, hops, Option.bind_some, hread]
  simp [advance]

end Shows

/-! ## Writes -/

theorem vfsWrite_allocs {fd : ℤ} {i : ℕ} {file : FileDescriptor} {buffer : ℕ → UInt8}
    {count : UInt64} {r : ℤ} (hlive : liveFd v fd = some (i, file))
    (hlast : endPage file.offset count.toUInt32 = 0)
    (hw : vfsWrite answers v fd buffer count = some (r, v')) : v'.allocs ≤ v.allocs + 1 := by
  unfold vfsWrite at hw
  rw [hlive] at hw
  dsimp only at hw
  split at hw
  · obtain ⟨-, rfl⟩ := Prod.mk.inj (Option.some.inj hw)
    exact Nat.le_succ _
  · split at hw
    · cases hw
    · rename_i hwrite
      obtain ⟨-, rfl⟩ := Prod.mk.inj (Option.some.inj hw)
      have hle := ramfsWrite_allocs hlast hwrite
      exact hle

theorem vfsClose_allocs (v : Vfs) (fd : ℤ) : (vfsClose v fd).2.allocs = v.allocs := by
  unfold vfsClose
  split <;> rfl

/-- A write through descriptor 3 that ends in the first page. -/
theorem write_agrees (hfresh : FreshAnswers answers) {f : Files} {offset : ℕ}
    (h : Agrees answers ⟨v, f⟩) (hfd : f.fds 3 = some (n, offset)) (data : ℕ → UInt8)
    {count : UInt64} (hpos : 1 ≤ count.toNat) (hfit : offset + count.toNat ≤ 4096)
    (hpage : answers v.allocs ≠ 0) :
    ∃ r v', vfsWrite answers v 3 data count = some (r, v') ∧
      Agrees answers ⟨v', ⟨Function.update f.contents n
        ((f.contents n).write offset count.toNat data),
        Function.update f.fds 3 (some (n, offset + count.toNat))⟩⟩ ∧
      v'.allocs ≤ v.allocs + 1 := by
  rcases h.fd_cases 3 with ⟨-, hnone⟩ | ⟨file, m, hlive, -, -, -, -, -, hfile⟩
  · rw [hfd] at hnone
    cases hnone
  · obtain ⟨-, hoffset⟩ := Prod.mk.inj (Option.some.inj (hfd.symm.trans hfile))
    have hcount : count.toUInt32.toNat = count.toNat := by
      rw [UInt64.toNat_toUInt32]
      omega
    have hlast : endPage file.offset count.toUInt32 = 0 := by
      apply endPage_first
      · omega
      · rw [← hoffset, hcount]
        exact hfit
    have hallocs {r : ℤ} {v' : Vfs} (hw : vfsWrite answers v 3 data count = some (r, v')) :
        v'.allocs ≤ v.allocs + 1 := vfsWrite_allocs hlive hlast hw
    have hlimit : WithinLimits ⟨v, f⟩ (.write 3 data count) := by
      intro m o hm
      obtain ⟨-, rfl⟩ := Prod.mk.inj (Option.some.inj (hfd.symm.trans hm))
      exact ⟨hpos, hfit.trans (by decide)⟩
    have hnever : NeverFails answers ⟨v, f⟩ (.write 3 data count) := by
      intro reply t hcall j hj hlt
      obtain ⟨⟨r, t'⟩, hw, heq⟩ := Option.map_eq_some_iff.mp hcall
      obtain ⟨-, rfl⟩ := Prod.mk.inj heq
      have hle := hallocs hw
      obtain rfl : j = v.allocs := by
        dsimp only at hj hlt hle
        omega
      exact hpage
    obtain ⟨reply, v', hcall, -, hagrees⟩ := h.write_ok hfresh hlimit hnever
    obtain ⟨⟨r, t⟩, hw, heq⟩ := Option.map_eq_some_iff.mp hcall
    obtain ⟨-, rfl⟩ := Prod.mk.inj heq
    refine ⟨r, t, hw, ?_, hallocs hw⟩
    simp only [Files.next, hfd] at hagrees
    exact hagrees

namespace Shows

/-- A text and a line end over the start of a file. -/
theorem write_text (hfresh : FreshAnswers answers) (h : Shows answers made v) {old text : Str}
    (hindex : made.index comps = some n) (he : made.entry n = some (.file old))
    (htext : text ≠ []) (hlen : text.length ≤ 127)
    (hpages : ∀ j ≤ v.allocs + 1, answers j ≠ 0) :
    ∃ r₁ v₁ r₂ v₂, vfsWrite answers (v.setFd 3 (openAt n writeFlags 0)) 3
        (fun i => text.getD i 0) (UInt64.ofNat text.length) = some (r₁, v₁) ∧
      vfsWrite answers v₁ 3 (fun i => newline.getD i 0) 1 = some (r₂, v₂) ∧
      Shows answers (made.write comps text) (vfsClose v₂ 3).2 ∧
      (vfsClose v₂ 3).2.allocs ≤ v.allocs + 2 := by
  have hfile := h.isFile he
  obtain ⟨i, rfl⟩ : ∃ i, n = i + 1 := by
    cases n with
    | zero => cases he
    | succ i => exact ⟨i, rfl⟩
  have hcount : (UInt64.ofNat text.length).toNat = text.length :=
    UInt64.toNat_ofNat_of_lt' (lt_of_le_of_lt hlen (by decide))
  have hpos : 1 ≤ text.length := List.length_pos_iff.mpr htext
  have husable : Usable v (openAt (i + 1) writeFlags 0) := ⟨rfl, Nat.zero_le _, i + 1, rfl, hfile⟩
  have hopen : Agrees answers ⟨v.setFd 3 (openAt (i + 1) writeFlags 0),
      ⟨made.contents, Function.update (fun _ => none) 3 (some (i + 1, 0))⟩⟩ :=
    h.agrees.setFd (show (0 : ℤ) ≤ 3 by decide) (by decide) fun _ => husable
  have hfirst : 1 ≤ (UInt64.ofNat text.length).toNat := by omega
  obtain ⟨r₁, v₁, hw₁, hagrees₁, hallocs₁⟩ := write_agrees hfresh hopen (n := i + 1) (by simp; rfl)
    (fun i => text.getD i 0) hfirst (by omega) (hpages _ (Nat.le_succ _))
  have hfit : 0 + (UInt64.ofNat text.length).toNat + (1 : UInt64).toNat ≤ 4096 := by
    rw [hcount, show (1 : UInt64).toNat = 1 from rfl]
    omega
  obtain ⟨r₂, v₂, hw₂, hagrees₂, hallocs₂⟩ := write_agrees hfresh hagrees₁ (n := i + 1)
    (by simp) (fun i => newline.getD i 0) (show 1 ≤ (1 : UInt64).toNat by decide) hfit
    (hpages _ hallocs₁)
  refine ⟨r₁, v₁, r₂, v₂, hw₁, hw₂, ?_, ?_⟩
  · obtain ⟨reply, t, hclose, -, hagrees⟩ := hagrees₂.close_ok 3
    obtain ⟨-, rfl⟩ := Prod.mk.inj (Option.some.inj hclose)
    have htree := (sameTree_setFd v 3 (openAt (i + 1) writeFlags 0)).trans
      ((vfsWrite_sameTree hw₁).trans ((vfsWrite_sameTree hw₂).trans (vfsClose_sameTree v₂ 3)))
    have hopened : SameEntries v (v.setFd 3 (openAt (i + 1) writeFlags 0)) := .of_pool rfl rfl rfl
    have hentries : SameEntries v (vfsClose v₂ 3).2 :=
      hopened.trans ((SameEntries.vfsWrite hw₁).trans ((SameEntries.vfsWrite hw₂).trans (.vfsClose v₂ 3)))
    refine h.same htree hentries (Pages.map_fst_write made comps text) ?_ ?_
    · intro j e hj
      rw [Pages.getElem?_write hindex] at hj
      split at hj
      · obtain ⟨e₀, he₀, rfl⟩ := Option.map_eq_some_iff.mp hj
        refine ⟨e₀, he₀, ?_⟩
        cases e₀.2 <;> rfl
      · exact ⟨e, hj, rfl⟩
    · rw [Pages.contents_write hindex he, ← write_ofText]
      have hold : made.contents (i + 1) = ofText old := by
        simp only [Pages.contents, he]
      have hone : (1 : UInt64).toNat = 1 := rfl
      simp only [Files.next, hcount, hone, Function.update_self, Function.update_idem, hold]
        at hagrees
      rw [Function.update_eq_self_iff.mpr rfl] at hagrees
      exact hagrees
  · rw [vfsClose_allocs]
    change v₁.allocs ≤ v.allocs + 1 at hallocs₁
    omega

/-! ## New entries -/

/-- What `vfs_create` and `vfs_mkdir` do with the path of a new entry. -/
theorem createAt_takes (h : Shows answers made v) {init : List Str} {name : Str} (e : Entry)
    (op : Vfs → ℕ → Str → ℤ × Vfs)
    (hop : ∀ s parent name, op s parent name = ramfsCreate s parent name e.flags)
    (hinit : ∀ x ∈ init, Component x) (hname : slash ∉ name) (hshort : name.length ≤ 31)
    (hlen : (absolute (init ++ [name])).length ≤ 255) (he : e = .dir ∨ e = .file []) :
    (made.Takes (init ++ [name]) → ∃ v', createAt op v (absolute (init ++ [name])) = some (0, v') ∧
        Shows answers (made ++ [(init ++ [name], e)]) v' ∧ v'.allocs = v.allocs) ∧
      (¬ made.Takes (init ++ [name]) →
        createAt op v (absolute (init ++ [name])) = some (-1, v)) := by
  unfold Pages.Takes createAt
  rw [List.dropLast_concat, Pages.find_eq, vfsDirname_absolute hname hlen,
    vfsBasename_absolute init hname, h.resolve hinit]
  cases hp : made.index init with
  | none => exact ⟨fun htakes => (by cases htakes.1), fun _ => rfl⟩
  | some p =>
    have hops := h.tree.ops p (h.count ▸ Pages.index_lt hp)
    simp only [Resolved.ofPointer, hops, hop, Option.bind_some]
    constructor
    · rintro ⟨hdir, hroom⟩
      obtain ⟨v', hmade, hshows, hallocs⟩ := h.create hp hdir hshort hroom he
      exact ⟨v', congrArg some hmade, hshows, hallocs⟩
    · intro hnot
      apply congrArg some
      by_cases hdir : made.entry p = some .dir
      · have hfull : ¬ made.length + 1 < 64 := fun hroom => hnot ⟨hdir, hroom⟩
        exact ramfsCreate_full (h.count ▸ not_lt.mp hfull) p name e.flags
      · -- a file takes no entries
        obtain ⟨e', he'⟩ := Pages.entry_of_index hp
        have hfile : ¬ (v.ramfsNodePool p).isDir := by
          rw [h.isDir_iff he']
          rintro rfl
          exact hdir he'
        unfold ramfsCreate
        exact if_pos hfile

end Shows

/-! ## The commands -/

structure Matches (answers : ℕ → UInt64) (b : Notebook) (s : Session) : Prop where
  cwd : s.gCwd = absolute b.cwd
  proper : ∀ x ∈ b.cwd, Proper x
  not_zero : 0 ∉ s.gCwd
  shows : Shows answers b.made s.vfs

def FileCommand.path : FileCommand → Str
  | .write filename _ => filename
  | .mkdir path | .cdl path | .dump path => path
  | .cd target => target

/-- The path and the names in it are not too long, and a text that is written is not empty. -/
structure FileCommand.Plain (b : Notebook) (c : FileCommand) : Prop where
  fits : Fits (absolute b.cwd) c.path
  short : ∀ x ∈ goTo b.cwd c.path, x.length ≤ 31
  text : ∀ filename, c ≠ .write filename []

/-- What a line can hold. -/
structure FileCommand.Typed (c : FileCommand) : Prop where
  not_zero : 0 ∉ c.path
  text : ∀ filename text, c = .write filename text → text.length ≤ 127

/-- A command prints what the notebook says, and leaves its next state. -/
def Follows (answers : ℕ → UInt64) (allocs : ℕ) (out : Option (Str × Session))
    (expected : Str × Notebook) : Prop :=
  ∃ s, out = some (expected.1, s) ∧ Matches answers expected.2 s ∧ s.vfs.allocs ≤ allocs + 2

variable {b : Notebook} {s : Session} {path : Str} {stack : ℕ → UInt8} {fuel : ℕ}

structure Leads (stack : ℕ → UInt8) (s : Session) (path : Str) (comps : List Str) : Prop where
  dest_eq : (resolvePath stack s.gCwd path).dest = absolute comps
  proper : ∀ x ∈ comps, Proper x
  component : ∀ x ∈ comps, Component x
  length_le : (absolute comps).length ≤ 127

namespace Matches

theorem leads (h : Matches answers b s) (hzero : 0 ∉ path) (hfits : Fits (absolute b.cwd) path)
    (hshort : ∀ x ∈ goTo b.cwd path, x.length ≤ 31) (stack : ℕ → UInt8) :
    Leads stack s path (goTo b.cwd path) := by
  have hnames : ∀ x ∈ b.cwd, x ≠ [] ∧ slash ∉ x := fun x hx =>
    ⟨(h.proper x hx).nonempty, (h.proper x hx).no_slash⟩
  have hstart : Shell.start s.gCwd path = if path.head? = some slash then [] else b.cwd := by
    unfold Shell.start
    rw [h.cwd, components_absolute hnames]
  have hgoTo : (components (meant s.gCwd path)).foldl enter [] = goTo b.cwd path := by
    rw [components_meant, List.foldl_append, hstart, goTo]
    split
    · rfl
    · rw [foldl_enter_proper h.proper, List.nil_append]
  have hproper : ∀ x ∈ goTo b.cwd path, Proper x := by
    rw [← hgoTo]
    exact proper_foldl_enter (fun y hy => absurd hy List.not_mem_nil) fun x hx => mem_components hx
  refine ⟨?_, hproper, fun x hx => ?_, ?_⟩
  · rw [resolvePath_fits stack ⟨b.cwd, h.proper, h.cwd⟩ h.not_zero hzero (h.cwd ▸ hfits), normalise,
      hgoTo]
  · exact ⟨(hproper x hx).nonempty, (hproper x hx).no_slash, hshort x hx⟩
  · have hall := hfits.2 _ (List.prefix_refl _)
    rw [← h.cwd, hgoTo] at hall
    exact hall

theorem next (h : Matches answers b s) {made : Pages} {v : Vfs} (hv : Shows answers made v) :
    Matches answers { b with made := made } { s with vfs := v } :=
  ⟨h.cwd, h.proper, h.not_zero, hv⟩

end Matches

/-- After the close of descriptor 3. -/
theorem Shows.afterClose (h : Shows answers made v) (n : ℕ) (flags : UInt32) (k : ℕ) :
    Shows answers made (vfsClose (v.setFd 3 (openAt n flags k)) 3).2 := by
  rw [vfsClose_openAt]
  exact h.closed rfl

theorem Matches.afterClose (h : Matches answers b s) (n : ℕ) (flags : UInt32) (k : ℕ) :
    Matches answers b { s with vfs := (vfsClose (s.vfs.setFd 3 (openAt n flags k)) 3).2 } ∧
      (vfsClose (s.vfs.setFd 3 (openAt n flags k)) 3).2.allocs ≤ s.vfs.allocs + 2 := by
  refine ⟨h.next (h.shows.afterClose n flags k), ?_⟩
  rw [vfsClose_allocs]
  exact Nat.le_add_right _ _

theorem cd_follows (h : Matches answers b s) {comps : List Str} (hl : Leads stack s path comps) :
    Follows answers s.vfs.allocs (cd stack s path)
      (if (b.made.find comps).isSome then (cdDone (absolute comps), { b with cwd := comps })
        else (cdFailed (absolute comps), b)) := by
  have hzero := zero_not_mem_dest stack s.gCwd path
  unfold Follows cd
  dsimp only
  rw [Pages.isSome_find, hl.dest_eq]
  rw [hl.dest_eq] at hzero
  cases hindex : b.made.index comps with
  | none =>
    rw [h.shows.open_missing hl.component hindex]
    exact ⟨s, rfl, h, Nat.le_add_right _ _⟩
  | some n =>
    rw [h.shows.open_found hl.component hindex (by decide)]
    refine ⟨⟨absolute comps, (vfsClose (s.vfs.setFd 3 (openAt n 0 0)) 3).2⟩, rfl, ?_, ?_⟩
    · exact ⟨rfl, hl.proper, hzero, h.shows.afterClose n 0 0⟩
    · rw [vfsClose_allocs]
      exact Nat.le_add_right _ _

theorem readdir_file (hfile : IsFile v n) :
    vfsReaddir (v.setFd 3 (openAt n flags k)) 3 = (-1, none, v.setFd 3 (openAt n flags k)) := by
  have hnode : (openAt n flags k).node = some n := rfl
  have hpool : (v.setFd 3 (openAt n flags k)).ramfsNodePool = v.ramfsNodePool := rfl
  have hread (index : UInt32) : ramfsReaddir (v.setFd 3 (openAt n flags k)) n index = none :=
    if_pos hfile.1
  unfold vfsReaddir
  rw [liveFd_openAt]
  simp only [hnode, hpool, hfile.2, Option.bind_some, Option.map_some, hread]

theorem cdl_follows (h : Matches answers b s) {comps : List Str} (hl : Leads stack s path comps)
    (hfuel : 65 ≤ fuel) :
    Follows answers s.vfs.allocs (cdl fuel stack s path)
      (match b.made.find comps with
      | none => (listFailed (absolute comps), b)
      | some .dir => (b.made.listing comps, b)
      | some (.file _) => ([], b)) := by
  unfold Follows cdl
  dsimp only
  rw [hl.dest_eq, Pages.find_eq]
  cases hindex : b.made.index comps with
  | none =>
    rw [h.shows.open_missing hl.component hindex]
    exact ⟨s, rfl, h, Nat.le_add_right _ _⟩
  | some n =>
    rw [h.shows.open_found hl.component hindex (by decide), Option.bind_some, Option.bind_some,
      if_neg (by simp)]
    obtain ⟨e, he⟩ := Pages.entry_of_index hindex
    rw [he]
    cases e with
    | dir =>
      have hdir := (h.shows.isDir_iff he).mpr rfl
      have hmax := Joint.length_ramfsChildren_le h.shows.tidy hdir
      rw [ramfsMaxChildren] at hmax
      obtain ⟨last, hloop⟩ := h.shows.listLoop_openAt hdir 0 fuel 0 (Nat.zero_le _)
        (by omega)
      rw [List.drop_zero, h.shows.listing_eq hindex hdir] at hloop
      dsimp only
      rw [hloop]
      exact ⟨_, rfl, h.afterClose n 0 last⟩
    | file text =>
      obtain ⟨fuel, rfl⟩ : ∃ k, fuel = k + 1 := ⟨fuel - 1, by omega⟩
      dsimp only
      rw [listLoop, readdir_file (h.shows.isFile he)]
      exact ⟨_, rfl, h.afterClose n 0 0⟩

theorem dump_follows (h : Matches answers b s) {comps : List Str} (hl : Leads stack s path comps)
    (hfuel : 1025 ≤ fuel) :
    Follows answers s.vfs.allocs (dump fuel stack s path)
      (match b.made.find comps with
      | none => (dumpFailed (absolute comps), b)
      | some .dir => (newline, b)
      | some (.file text) => (text ++ newline, b)) := by
  unfold Follows dump
  dsimp only
  rw [hl.dest_eq, Pages.find_eq]
  cases hindex : b.made.index comps with
  | none =>
    rw [h.shows.open_missing hl.component hindex]
    exact ⟨s, rfl, h, Nat.le_add_right _ _⟩
  | some n =>
    rw [h.shows.open_found hl.component hindex (by decide), Option.bind_some, Option.bind_some,
      if_neg (by simp)]
    obtain ⟨e, he⟩ := Pages.entry_of_index hindex
    rw [he]
    cases e with
    | dir =>
      obtain ⟨fuel, rfl⟩ : ∃ k, fuel = k + 1 := ⟨fuel - 1, by omega⟩
      dsimp only
      rw [dumpLoop, h.shows.read_dir ((h.shows.isDir_iff he).mpr rfl), Option.bind_some,
        if_neg (by simp)]
      exact ⟨_, rfl, h.afterClose n 0 0⟩
    | file text =>
      have hsize := h.shows.size_eq he
      have hle := h.shows.agrees.size_le (h.shows.isFile he)
      dsimp only at hle
      rw [hsize, maxFilePages] at hle
      obtain ⟨last, hloop⟩ := h.shows.dumpLoop_openAt he 0 fuel 0 (Nat.zero_le _)
        (by omega)
      rw [List.drop_zero] at hloop
      dsimp only
      rw [hloop]
      exact ⟨_, rfl, h.afterClose n 0 last⟩

/-- The path of a place, and its last name. -/
theorem Leads.place (hl : Leads stack s path comps) :
    absolute (place comps) = absolute comps ∧ ∃ init name, place comps = init ++ [name] ∧
      (∀ x ∈ init, Component x) ∧ slash ∉ name ∧ name.length ≤ 31 := by
  unfold Shell.place
  rcases List.eq_nil_or_concat comps with rfl | ⟨init, name, rfl⟩
  · refine ⟨rfl, [], [], rfl, fun x hx => absurd hx List.not_mem_nil, List.not_mem_nil, ?_⟩
    exact Nat.zero_le _
  · rw [List.concat_eq_append] at hl ⊢
    have hlast := hl.component name (by simp)
    rw [if_neg (by simp)]
    refine ⟨rfl, init, name, rfl, fun x hx => hl.component x (by simp [hx]), hlast.no_slash, ?_⟩
    exact hlast.length_le

theorem mkdir_follows (h : Matches answers b s) {comps : List Str}
    (hl : Leads stack s path comps) :
    Follows answers s.vfs.allocs (mkdir stack s path)
      (if b.made.Takes (place comps) then
        (mkdirText true, { b with made := b.made ++ [(place comps, .dir)] })
      else (mkdirText false, b)) := by
  obtain ⟨hpath, init, name, hplace, hinit, hname, hshort⟩ := hl.place
  have hlen := hl.length_le
  unfold Follows mkdir vfsMkdir
  rw [hl.dest_eq, ← hpath, hplace]
  rw [← hpath, hplace] at hlen
  obtain ⟨htakes, hrefused⟩ := h.shows.createAt_takes .dir ramfsMkdirOp
    (fun _ _ _ => rfl) hinit hname hshort (hlen.trans (by decide)) (Or.inl rfl)
  by_cases ht : b.made.Takes (init ++ [name])
  · obtain ⟨v', hmade, hshows, hallocs⟩ := htakes ht
    rw [if_pos ht, hmade]
    exact ⟨_, rfl, h.next hshows, hallocs.le.trans (Nat.le_add_right _ _)⟩
  · rw [if_neg ht, hrefused ht]
    exact ⟨s, rfl, h, Nat.le_add_right _ _⟩

theorem Shows.write_dir (h : Shows answers made v) (hdir : (v.ramfsNodePool n).isDir)
    (buffer : ℕ → UInt8) (count : UInt64) :
    vfsWrite answers (v.setFd 3 (openAt n flags k)) 3 buffer count =
      some (-1, v.setFd 3 (openAt n flags k)) := by
  have hops := h.tree.ops n (h.tree.dir_lt n hdir)
  have hnode : (openAt n flags k).node = some n := rfl
  have hpool : (v.setFd 3 (openAt n flags k)).ramfsNodePool = v.ramfsNodePool := rfl
  have hwrite (offset : UInt64) (size : UInt32) :
      ramfsWrite answers (v.setFd 3 (openAt n flags k)) (some n) offset size buffer =
        some (-1, v.setFd 3 (openAt n flags k)) := if_pos hdir
  unfold vfsWrite
  rw [liveFd_openAt]
  simp only [hnode, hpool, hops, Option.bind_some, hwrite]
  simp [advance]

/-- The node behind the path of a file that is written, and the notebook with it. -/
theorem Shows.open_created (h : Shows answers made v) (hcomps : ∀ x ∈ comps, Component x)
    (hlen : (absolute comps).length ≤ 255) (hnone : made.index comps = none) :
    (made.Takes comps → ∃ v', vfsOpen v (absolute comps) writeFlags =
          some (3, v'.setFd 3 (openAt (made.length + 1) writeFlags 0)) ∧
        Shows answers (made ++ [(comps, .file [])]) v' ∧ v'.allocs = v.allocs) ∧
      (¬ made.Takes comps → vfsOpen v (absolute comps) writeFlags = some (-1, v)) := by
  obtain ⟨init, name, rfl⟩ : ∃ init name, comps = init ++ [name] := by
    rcases List.eq_nil_or_concat comps with rfl | ⟨init, name, rfl⟩
    · rw [Pages.index_nil] at hnone
      cases hnone
    · exact ⟨init, name, List.concat_eq_append⟩
  have hlast := hcomps name (by simp)
  obtain ⟨htakes, hrefused⟩ := h.createAt_takes (.file [])
    (fun s parent name => ramfsCreate s parent name vfsFile) (fun _ _ _ => rfl)
    (fun x hx => hcomps x (by simp [hx])) hlast.no_slash hlast.length_le hlen (Or.inr rfl)
  unfold vfsOpen vfsCreate
  rw [h.resolve hcomps, hnone]
  simp only [Resolved.ofPointer]
  rw [if_neg (by decide)]
  constructor
  · intro ht
    obtain ⟨v', hmade, hshows, hallocs⟩ := htakes ht
    have hindex : Pages.index (made ++ [(init ++ [name], .file [])]) (init ++ [name]) =
        some (made.length + 1) := by
      rw [Pages.index_append, hnone, Option.none_or, if_pos rfl]
    refine ⟨v', ?_, hshows, hallocs⟩
    rw [hmade]
    dsimp only
    rw [if_neg (by simp), hshows.resolve hcomps, hindex]
    exact congrArg some (hshows.openNode_eq _ (by decide))
  · intro ht
    rw [hrefused ht]
    rfl

theorem write_follows (hfresh : FreshAnswers answers) (h : Matches answers b s) {comps : List Str}
    {text : Str} (hl : Leads stack s path comps) (htext : text ≠ []) (hlen : text.length ≤ 127)
    (hpages : ∀ j ≤ s.vfs.allocs + 1, answers j ≠ 0) :
    Follows answers s.vfs.allocs (write answers stack s path text)
      (match b.made.find comps with
      | some (.file _) => (wroteText (absolute comps), { b with made := b.made.write comps text })
      | some .dir => (wroteText (absolute comps), b)
      | none =>
        if b.made.Takes comps then
          (wroteText (absolute comps),
            { b with made := Pages.write (b.made ++ [(comps, .file [])]) comps text })
        else (writeFailed (absolute comps), b)) := by
  unfold Follows write
  dsimp only
  rw [hl.dest_eq, Pages.find_eq]
  cases hindex : b.made.index comps with
  | none =>
    obtain ⟨htakes, hrefused⟩ :=
      h.shows.open_created hl.component (hl.length_le.trans (by decide)) hindex
    rw [Option.bind_none]
    dsimp only
    by_cases ht : b.made.Takes comps
    · obtain ⟨v', hopen, hshows, hallocs⟩ := htakes ht
      have hnew : Pages.index (b.made ++ [(comps, .file [])]) comps = some (b.made.length + 1) := by
        rw [Pages.index_append, hindex, Option.none_or, if_pos rfl]
      have hentry : Pages.entry (b.made ++ [(comps, .file [])]) (b.made.length + 1) =
          some (.file []) := by
        rw [Pages.entry, List.getElem?_concat_length]
        rfl
      obtain ⟨r₁, v₁, r₂, v₂, hw₁, hw₂, hafter, hle⟩ :=
        hshows.write_text hfresh hnew hentry htext hlen (hallocs ▸ hpages)
      rw [if_pos ht, hopen, Option.bind_some, if_neg (by simp), hw₁, Option.bind_some, hw₂]
      exact ⟨_, rfl, h.next hafter, hallocs ▸ hle⟩
    · rw [if_neg ht, hrefused ht]
      exact ⟨s, rfl, h, Nat.le_add_right _ _⟩
  | some n =>
    rw [h.shows.open_found hl.component hindex (by decide), Option.bind_some, Option.bind_some,
      if_neg (by simp)]
    obtain ⟨e, he⟩ := Pages.entry_of_index hindex
    rw [he]
    cases e with
    | dir =>
      have hdir := (h.shows.isDir_iff he).mpr rfl
      dsimp only
      rw [h.shows.write_dir hdir, Option.bind_some, h.shows.write_dir hdir]
      exact ⟨_, rfl, h.afterClose n writeFlags 0⟩
    | file old =>
      obtain ⟨r₁, v₁, r₂, v₂, hw₁, hw₂, hafter, hle⟩ :=
        h.shows.write_text hfresh hindex he htext hlen hpages
      dsimp only
      rw [hw₁, Option.bind_some, hw₂]
      exact ⟨_, rfl, h.next hafter, hle⟩

theorem fileCommand_follows (hfresh : FreshAnswers answers) (hfuel : 1025 ≤ fuel) (m : Machine)
    (h : Matches answers b s) {c : FileCommand} (htyped : c.Typed) (hplain : c.Plain b)
    (hpages : ∀ j ≤ s.vfs.allocs + 1, answers j ≠ 0) :
    Follows answers s.vfs.allocs (fileCommand answers fuel m s c) (b.perform c) := by
  have hl := h.leads htyped.not_zero hplain.fits hplain.short m.stack
  cases c with
  | write filename text =>
    have htext : text ≠ [] := by
      rintro rfl
      exact hplain.text filename rfl
    exact write_follows hfresh h hl htext (htyped.text filename text rfl) hpages
  | mkdir path => exact mkdir_follows h hl
  | cdl path => exact cdl_follows h hl (by omega)
  | dump path => exact dump_follows h hl hfuel
  | cd target => exact cd_follows h hl

end Rhoudveine.Shell
