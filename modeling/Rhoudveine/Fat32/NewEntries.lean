import Rhoudveine.Fat32.NewRecords
import Rhoudveine.Fat32.Places

/-!
# The records of a directory after a creation

What `fat32_create_entry` leaves in a directory that has free entries at its end only.
-/

namespace Rhoudveine.Fat32
open Fs Mm

variable {dev : Device} {st st' t u : Volume} {c d target first : UInt32}
  {chain ws zs : List UInt32} {name : Str} {attr : UInt8} {page : UInt64}

/-! ## Writing the records -/

theorem writeRecords_above {rs : List Record} {i : ℕ} {buf buf' : ℕ → UInt8}
    (h : writeRecords page rs i buf st = (buf', st')) {j : ℕ} (hj : i + rs.length ≤ j) :
    (recordAt buf' j).Same (recordAt buf j) := by
  induction rs generalizing i buf st with
  | nil =>
    obtain ⟨rfl, -⟩ := Prod.mk.inj h
    exact .refl _
  | cons r rs ih =>
    rw [List.length_cons] at hj
    exact (ih h (by omega)).trans (recordAt_setRecord_of_ne buf r (by omega))

section cluster

variable {rs : List Record} {start : ℕ} {buf buf' : ℕ → UInt8}

/-- The records of a cluster that has been read, changed and written. -/
theorem clusterRecords_written (hmounted : Mounted st.fs) (hfs : st'.fs = st.fs)
    (hread : ∀ i < 512 * st.fs.bs.sectorsPerCluster.toNat,
      buf i = st.disk (clusterStart st.fs c + i))
    (hrecords : writeRecords page rs start buf t = (buf', u))
    (hdisk : ∀ a, st'.disk a = if clusterStart st.fs c ≤ a ∧
        a < clusterStart st.fs c + 512 * st.fs.bs.sectorsPerCluster.toNat then
      buf' (a - clusterStart st.fs c) else st.disk a)
    (hfits : start + rs.length ≤ st.fs.bs.entriesPerCluster.toNat ∨ start = 0) :
    List.Forall₂ Record.Same (clusterRecords st' c) ((clusterRecords st c).take start ++
      (rs.take st.fs.bs.entriesPerCluster.toNat ++
        (clusterRecords st c).drop (start + rs.length))) := by
  obtain ⟨-, hbelow, hat⟩ := writeRecords_same hrecords
  have hentries := hmounted.toNat_entriesPerCluster
  have hlen := length_clusterRecords st c
  have hlen' := length_clusterRecords st' c
  rw [hfs] at hlen'
  have hbefore : ((clusterRecords st c).take start).length = start := by
    rw [List.length_take]
    omega
  apply List.forall₂_iff_get.mpr
  refine ⟨?_, fun i hi hi' => ?_⟩
  · rw [List.length_append, List.length_append, hbefore, List.length_take, List.length_drop]
    omega
  · have hlt : i < 16 * st.fs.bs.sectorsPerCluster.toNat := by omega
    have hi₀ : i < (clusterRecords st c).length := by omega
    have hold : (recordAt buf i).Same (clusterRecords st c)[i] := by
      rw [getElem_clusterRecords]
      exact fun k hk => hread (32 * i + k) (by omega)
    have hnew : (clusterRecords st' c)[i].Same (recordAt buf' i) := by
      rw [getElem_clusterRecords, hfs]
      exact recordAt_written hdisk hlt
    simp only [List.get_eq_getElem]
    refine hnew.trans ?_
    rcases Nat.lt_or_ge i start with hbefore' | hge
    · rw [List.getElem_append_left (by omega), List.getElem_take]
      exact (hbelow i hbefore').trans hold
    · rcases Nat.lt_or_ge i (start + rs.length) with hin | hbehind
      · have hindex : i - start < rs.length := by omega
        have hrecord := hat _ _ (List.getElem?_eq_getElem hindex)
        rw [Nat.add_sub_cancel' hge] at hrecord
        rw [List.getElem_append_right (by omega)]
        rw [List.getElem_append_left (by rw [hbefore, List.length_take]; omega), List.getElem_take]
        simpa only [hbefore] using hrecord
      · have hlast := (writeRecords_above hrecords hbehind).trans hold
        rw [List.getElem_append_right (by omega)]
        rw [List.getElem_append_right (by rw [hbefore, List.length_take]; omega), List.getElem_drop]
        have hindex : start + rs.length + (i - ((clusterRecords st c).take start).length -
            (rs.take st.fs.bs.entriesPerCluster.toNat).length) = i := by
          rw [hbefore, List.length_take]
          omega
        simpa only [hindex] using hlast

/-- The records of a directory one of whose clusters is changed. -/
theorem dirRecords_written {new : List Record} {n : ℕ} (hmounted : Mounted st.fs)
    (hbefore : SameClusters st st' ws) (hbehind : SameClusters st st' zs)
    (hfits : start + n ≤ st.fs.bs.entriesPerCluster.toNat ∨ start = 0 ∧ zs = [])
    (hcluster : List.Forall₂ Record.Same (clusterRecords st' c) ((clusterRecords st c).take start ++
      (new ++ (clusterRecords st c).drop (start + n)))) :
    List.Forall₂ Record.Same (dirRecords st' (ws ++ c :: zs))
      ((dirRecords st (ws ++ c :: zs)).take
          (ws.length * st.fs.bs.entriesPerCluster.toNat + start) ++
        (new ++ (dirRecords st (ws ++ c :: zs)).drop
          (ws.length * st.fs.bs.entriesPerCluster.toNat + start + n))) := by
  have hlen := length_clusterRecords st c
  have htake : (dirRecords st (ws ++ c :: zs)).take
      (ws.length * st.fs.bs.entriesPerCluster.toNat + start) =
        dirRecords st ws ++ (clusterRecords st c).take start := by
    rw [dirRecords_middle, ← length_dirRecords, List.take_length_add_append,
      List.take_append_of_le_length (by omega)]
  have hdrop : (dirRecords st (ws ++ c :: zs)).drop
      (ws.length * st.fs.bs.entriesPerCluster.toNat + start + n) =
        (clusterRecords st c).drop (start + n) ++ dirRecords st zs := by
    rw [dirRecords_middle, ← length_dirRecords, Nat.add_assoc, List.drop_length_add_append]
    rcases hfits with hle | ⟨-, rfl⟩
    · exact List.drop_append_of_le_length (by omega)
    · exact (congrArg _ (List.append_nil _)).trans (List.append_nil _).symm
  rw [htake, hdrop, dirRecords_middle, List.append_assoc, ← List.append_assoc new,
    ← List.append_assoc ((clusterRecords st c).take start)]
  exact List.rel_append (hbefore.records hmounted)
    (List.rel_append hcluster (hbehind.records hmounted))

end cluster

/-! ## Filling the place -/

/-- A new directory lies outside the directories in use. -/
theorem makeDirectory_clusters (hok : ∀ n, dev.ok n = true) (hformat : Formatted st.fs)
    (hchain : DirChain st first chain) {dir : NodeData} (h : makeDirectory dev st dir = (d, st'))
    (hd : d ≠ 0) : DirChain st' first chain ∧ SameClusters st st' chain := by
  unfold makeDirectory at h
  generalize hout : fat32AllocCluster dev st = out at h
  obtain ⟨r, t⟩ := out
  dsimp only [Volume.alloc] at h
  split at h
  · obtain ⟨rfl, -⟩ := Prod.mk.inj h
    exact absurd rfl hd
  · rename_i hr
    have hmarked := fat32AllocCluster_marked hout hr
    have hclusters := fat32AllocCluster_clusters hformat hout hr hchain.onVolume
    have hnotin : ∀ c ∈ chain, c ≠ r := by
      rintro c hc rfl
      exact hchain.link_ne_zero hc hmarked.free
    have hchain' : DirChain t first chain := by
      apply hchain.congr hmarked.fs
      intro c hc
      rw [fatLink_setWord hmarked.fatCache, if_neg (hnotin c hc)]
    generalize hbuf : setRecord (setRecord (fun i => if i < 4096 then 0 else
      dev.leftover (pfaAlloc t.pfa).1 i) 0 (shortRecord (padded 11 [dot]) attrDirectory r)) 1
        (shortRecord (padded 11 [dot, dot]) attrDirectory
          (if dir.firstCluster = t.fs.rootDirCluster then 0 else dir.firstCluster)) = buf at h
    obtain ⟨u, hwrite, hfs, hcache, hdisk⟩ :=
      @fat32WriteCluster_ok dev (Volume.touch { t with pfa := (pfaAlloc t.pfa).2 }
        (pfaAlloc t.pfa).1 0 4096) hok r (pfaAlloc t.pfa).1 buf
    rw [hwrite] at h
    obtain ⟨rfl, rfl⟩ := Prod.mk.inj h
    have hmounted : Mounted t.fs := by
      rw [hmarked.fs]
      exact hformat.mounted
    have hnew : OnVolume t.fs r := by
      rw [hmarked.fs]
      exact hmarked.onVolume
    have hlinks : DirChain u first chain := by
      apply hchain'.congr hfs
      intro c _
      rw [fatLink, fatLink, hcache]
      rfl
    have hwritten : SameClusters t u chain :=
      sameClusters_of_write hmounted hnew (fun c hc => ⟨hchain'.onVolume c hc, hnotin c hc⟩) hfs
        hdisk
    have hfree : SameVolume u (u.free (pfaAlloc t.pfa).1) := ⟨rfl, rfl, rfl⟩
    exact ⟨hlinks.same hfree, (hclusters.trans hwritten).trans (hfree.sameClusters chain)⟩

/-- The records of the name take the place of those that were there. -/
theorem fillEntry_records (hok : ∀ n, dev.ok n = true) (hformat : Formatted st.fs) {start : ℕ}
    (hchain : DirChain st first (ws ++ target :: zs))
    (hfits : start + (1 + lfnEntries name) ≤ st.fs.bs.entriesPerCluster.toNat ∨
      start = 0 ∧ zs = []) {dir : NodeData} {buf : ℕ → UInt8}
    (h : fillEntry dev st dir name attr page target start buf = (0, st')) :
    ∃ d, DirChain st' first (ws ++ target :: zs) ∧ st'.fs = st.fs ∧
      List.Forall₂ Record.Same (dirRecords st' (ws ++ target :: zs))
        ((dirRecords st (ws ++ target :: zs)).take
            (ws.length * st.fs.bs.entriesPerCluster.toNat + start) ++
          ((entryRecords name attr d).take st.fs.bs.entriesPerCluster.toNat ++
            (dirRecords st (ws ++ target :: zs)).drop
              (ws.length * st.fs.bs.entriesPerCluster.toNat + start + (1 + lfnEntries name)))) := by
  unfold fillEntry at h
  -- a directory gets its first cluster before anything is written to this one
  obtain ⟨d, t, hmake, hchain', hclusters⟩ : ∃ d t,
      (if attr &&& attrDirectory ≠ 0 then makeDirectory dev st dir else (0, st)) = (d, t) ∧
        (¬ (attr &&& attrDirectory ≠ 0 ∧ d = 0) → DirChain t first (ws ++ target :: zs)) ∧
        (¬ (attr &&& attrDirectory ≠ 0 ∧ d = 0) → SameClusters st t (ws ++ target :: zs)) := by
    by_cases hdirectory : attr &&& attrDirectory ≠ 0
    · rw [if_pos hdirectory]
      generalize hout : makeDirectory dev st dir = out
      obtain ⟨d, t⟩ := out
      have hall (hd : ¬ (attr &&& attrDirectory ≠ 0 ∧ d = 0)) :=
        makeDirectory_clusters hok hformat hchain hout fun hzero => hd ⟨hdirectory, hzero⟩
      exact ⟨d, t, rfl, fun hd => (hall hd).1, fun hd => (hall hd).2⟩
    · rw [if_neg hdirectory]
      exact ⟨0, st, rfl, fun _ => hchain, fun _ => (SameVolume.refl st).sameClusters _⟩
  rw [hmake] at h
  dsimp only at h
  split at h
  · cases h
  · rename_i hd
    have hchain' := hchain' hd
    have hclusters := hclusters hd
    have hmounted : Mounted t.fs := by
      rw [hclusters.fs]
      exact hformat.mounted
    obtain ⟨old, u, hread, hsame, -, hold⟩ := @fat32ReadCluster_ok dev t hok target page buf
    rw [hread] at h
    dsimp only at h
    generalize hrecords : writeRecords page (entryRecords name attr d) start old u = out at h
    obtain ⟨new, v⟩ := out
    dsimp only at h
    have hboth := hsame.trans (writeRecords_same hrecords).1
    obtain ⟨w, hwrite, hfs, hcache, hdisk⟩ := @fat32WriteCluster_ok dev v hok target page new
    rw [hwrite] at h
    obtain ⟨-, rfl⟩ := Prod.mk.inj h
    rw [hboth.fs, hboth.disk] at hdisk
    have hfs' : w.fs = t.fs := hfs.trans hboth.fs
    have hlinks : DirChain w first (ws ++ target :: zs) := by
      apply hchain'.congr hfs'
      intro c _
      rw [fatLink, fatLink, hcache, hboth.fatCache]
    have htarget := hchain'.onVolume target (List.mem_append_right ws List.mem_cons_self)
    have hothers (chain : List UInt32) (hsub : ∀ c ∈ chain, c ∈ ws ++ target :: zs ∧ c ≠ target) :
        SameClusters t w chain :=
      sameClusters_of_write hmounted htarget
        (fun c hc => ⟨hchain'.onVolume c (hsub c hc).1, (hsub c hc).2⟩) hfs' hdisk
    obtain ⟨-, hnodup, hdisjoint⟩ := List.nodup_append'.mp hchain'.nodup
    have hbefore : SameClusters t w ws := hothers ws fun c hc =>
      ⟨List.mem_append_left _ hc, by rintro rfl; exact hdisjoint hc List.mem_cons_self⟩
    have hbehind : SameClusters t w zs := hothers zs fun c hc =>
      ⟨List.mem_append_right ws (List.mem_cons_of_mem target hc),
        by rintro rfl; exact (List.nodup_cons.mp hnodup).1 hc⟩
    have hlen := length_entryRecords name attr d
    rw [← hclusters.fs] at hfits
    have hcluster := clusterRecords_written hmounted hfs' hold hrecords hdisk
      (hfits.imp (fun hle => by rwa [hlen]) And.left)
    rw [hlen] at hcluster
    have hwritten := dirRecords_written hmounted hbefore hbehind hfits hcluster
    have hstays := hclusters.records hformat.mounted
    rw [hclusters.fs] at hwritten
    have hfree : SameVolume w (w.free page) := ⟨rfl, rfl, rfl⟩
    refine ⟨d, hlinks.same hfree, hfs'.trans hclusters.fs, ?_⟩
    rw [dirRecords_same hfree]
    exact same_trans hwritten (List.rel_append (List.forall₂_take _ hstays)
      (List.rel_append (same_refl _) (List.forall₂_drop _ hstays)))

/-! ## The call -/

section call

variable {parent : Node} {dir : NodeData} {used free gap new rest : List Record} {entries fuel : ℕ}
  {chain' : List UInt32}

/-- A directory has got new records behind the used ones and a gap. -/
structure Entered (st st' : Volume) (first : UInt32) (chain chain' : List UInt32)
    (used gap new rest : List Record) : Prop where
  fs : st'.fs = st.fs
  links : DirChain st' first chain'
  length : chain'.length ≤ chain.length + 1
  records : List.Forall₂ Record.Same (dirRecords st' chain') (used ++ (gap ++ (new ++ rest)))
  gap : ∀ r ∈ gap, r 0 = 0
  rest : ∀ r ∈ rest.head?, r 0 = 0

theorem fat32CreateEntry_entered (hok : ∀ n, dev.ok n = true) (hformat : Formatted st.fs)
    (hdata : parent.data = some dir) (hchain : DirChain st dir.firstCluster chain)
    (hrecords : dirRecords st chain = used ++ free) (hused : ∀ r ∈ used, r 0 ≠ 0)
    (hfree : ∀ r ∈ free, r 0 = 0) (hentries : st.fs.bs.entriesPerCluster.toNat = entries)
    (hfew : 1 + lfnEntries name < 128)
    (h : fat32CreateEntry dev fuel st parent name attr = some (0, st')) :
    ∃ d chain' gap rest, Entered st st' dir.firstCluster chain chain' used gap
        ((entryRecords name attr d).take entries) rest ∧
      (gap = [] ∧ 1 + lfnEntries name ≤ entries ↔
        used.length % entries + (1 + lfnEntries name) ≤ entries) := by
  unfold fat32CreateEntry at h
  rw [hdata] at h
  dsimp only [Volume.alloc] at h
  split at h
  · cases h
  · split at h
    · cases h
    · cases h
    · rename_i target start buf u htarget
      have halloc : SameVolume st { st with pfa := (pfaAlloc st.pfa).2 } := ⟨rfl, rfl, rfl⟩
      cases chain with
      | nil =>
        have hend : dir.firstCluster ≥ endOfChain := hchain.isChain
        cases fuel with
        | zero => cases htarget
        | succ fuel =>
          rw [findTarget, if_pos hend] at htarget
          cases htarget
      | cons c ys =>
        obtain rfl : c = dir.firstCluster := hchain.isChain.2.1
        rw [← List.nil_append (dir.firstCluster :: ys)] at hchain hrecords
        obtain ⟨place, chain', hspot, hle, hiff⟩ := findTarget_spot hok hformat
          (Nat.add_pos_left one_pos _) hfew hchain hrecords hused hfree hentries
          (fun hlt => absurd hlt (by simp)) halloc htarget
        obtain ⟨ws, zs, rfl, hplace, hfits⟩ := hspot.target
        obtain ⟨d, hlinks, hfs, hwritten⟩ := fillEntry_records hok (by rwa [hspot.fs]) hspot.links
          (by rwa [hspot.fs]) (Option.some.inj h)
        rw [hspot.fs, ← hplace, hentries] at hwritten
        rw [List.nil_append] at hrecords
        have hlen := congrArg List.length hrecords
        have hroom := hspot.place_le
        rw [List.length_append] at hlen
        rw [List.nil_append] at hroom
        have htake : (dirRecords st (dir.firstCluster :: ys)).take place =
            used ++ free.take (place - used.length) := by
          rw [hrecords, List.take_append, List.take_of_length_le hle]
        have hbefore := hspot.before
        rw [List.nil_append, htake] at hbefore
        refine ⟨d, ws ++ target :: zs, free.take (place - used.length), _,
          ⟨hfs.trans hspot.fs, hlinks, hspot.length, ?_,
            fun r hr => hfree r (List.mem_of_mem_take hr), hspot.behind⟩, ?_⟩
        · rw [← List.append_assoc]
          exact same_trans hwritten (List.rel_append hbefore (same_refl _))
        · rw [← hiff]
          apply and_congr_left'
          rw [← List.length_eq_zero_iff, List.length_take]
          omega

end call

end Rhoudveine.Fat32
