import Rhoudveine.Tar.Rootfs

/-!
# The paths of members

What `rootfs_extract_callback` makes of the name of a member.
-/

namespace Rhoudveine.Tar
open Fs hiding Holds

variable {answers : ℕ → UInt64}

/-! ## The path of a member -/

/-- No path of a well-formed entry starts with the component `.`. -/
theorem no_leading_dot {x : Str} (hx : Component x) (hdot : x ≠ str ".") {p q : Str}
    (h : x ++ p = 0x2E :: q) : q ≠ [] ∧ q.head? ≠ some slash := by
  obtain ⟨c, x', rfl⟩ := List.exists_cons_of_ne_nil hx.nonempty
  obtain ⟨rfl, rfl⟩ := List.cons.inj h
  obtain ⟨c', x'', rfl⟩ := List.exists_cons_of_ne_nil
    (show x' ≠ [] by rintro rfl; exact hdot rfl)
  constructor
  · exact List.cons_ne_nil _ _
  · intro hhead
    obtain rfl : c' = slash := Option.some.inj hhead
    exact hx.no_slash (List.mem_cons_of_mem _ List.mem_cons_self)

namespace Entry.WellFormed

variable {e : Entry} (h : e.WellFormed)
include h

theorem comps_concat (hne : e.comps ≠ []) :
    ∃ init x, e.comps = init ++ [x] ∧ (∀ y ∈ init, Component y) ∧ Component x := by
  obtain ⟨init, x, heq⟩ := List.eq_nil_or_concat e.comps |>.resolve_left hne
  rw [List.concat_eq_append] at heq
  refine ⟨init, x, heq, fun y hy => h.component y ?_, h.component x ?_⟩
  · exact heq ▸ List.mem_append_left _ hy
  · exact heq ▸ List.mem_append_right _ List.mem_cons_self

/-- The callback works on the absolute path of the member. -/
theorem abspath_name (hne : e.comps ≠ []) :
    ¬ (e.name = [] ∨ e.name = str "." ∨ e.name = str "./") ∧
      abspath (if e.name.take 2 = str "./" then e.name.drop 2 else e.name) =
        absolute e.comps ++ if e.trailing then [slash] else [] := by
  have hlen := h.name_length
  obtain ⟨x, xs, hcomps⟩ := List.exists_cons_of_ne_nil hne
  have hx := h.component x (hcomps ▸ List.mem_cons_self)
  have hdot := h.no_dot x (hcomps ▸ List.mem_cons_self)
  have hhead : ((absolute e.comps).tail ++ if e.trailing then [slash] else []).head? ≠
      some slash := by
    obtain ⟨c, x', rfl⟩ := List.exists_cons_of_ne_nil hx.nonempty
    rw [hcomps]
    intro heq
    obtain rfl : c = slash := Option.some.inj heq
    exact hx.no_slash List.mem_cons_self
  have hfirst : (absolute e.comps).tail ++ (if e.trailing then [slash] else []) =
      x ++ (xs.flatMap (slash :: ·) ++ if e.trailing then [slash] else []) := by
    rw [hcomps, absolute, if_neg (List.cons_ne_nil x xs), List.flatMap_cons, List.cons_append,
      List.tail_cons, List.append_assoc]
  have hpos : ((absolute e.comps).tail ++ if e.trailing then [slash] else []) ≠ [] := by
    rw [hfirst]
    exact List.append_ne_nil_of_left_ne_nil hx.nonempty _
  have hpath : absolute e.comps ++ (if e.trailing then [slash] else []) =
      slash :: ((absolute e.comps).tail ++ if e.trailing then [slash] else []) := by
    rw [← List.cons_append, ← absolute_eq_cons]
  have hname : e.name = e.lead.bytes ++ ((absolute e.comps).tail ++
      if e.trailing then [slash] else []) := by
    rw [Entry.name, List.append_assoc]
  rw [hpath]
  rw [hname] at hlen ⊢
  generalize (absolute e.comps).tail ++ (if e.trailing then [slash] else []) = p at *
  rw [List.length_append] at hlen
  generalize e.lead = lead at hlen
  cases lead with
  | bare =>
    -- a path whose first component has a leading dot is no `./`
    have hstart (q : Str) (hq : p = 0x2E :: q) : q ≠ [] ∧ q.head? ≠ some slash :=
      no_leading_dot hx hdot (hfirst.symm.trans hq)
    have htake : ¬ p.take 2 = str "./" := by
      intro heq
      obtain ⟨c, q, rfl⟩ := List.exists_cons_of_ne_nil hpos
      cases q with
      | nil => cases heq
      | cons c' q =>
        change [c, c'] = [0x2E, slash] at heq
        obtain ⟨rfl, hc'⟩ := List.cons.inj heq
        obtain rfl := List.singleton_inj.mp hc'
        exact (hstart _ rfl).2 rfl
    change ¬ (p = [] ∨ p = str "." ∨ p = str "./") ∧
      abspath (if p.take 2 = str "./" then p.drop 2 else p) = slash :: p
    rw [if_neg htake, abspath, if_neg hhead, List.take_of_length_le (by omega)]
    refine ⟨?_, rfl⟩
    rintro (hp | hp | hp)
    · exact hpos hp
    · exact (hstart _ hp).1 rfl
    · exact (hstart _ hp).2 rfl
  | dot =>
    -- the lead is cut off
    change ¬ (str "./" ++ p = [] ∨ str "./" ++ p = str "." ∨ str "./" ++ p = str "./") ∧
      abspath (if (str "./" ++ p).take 2 = str "./" then (str "./" ++ p).drop 2
        else str "./" ++ p) = slash :: p
    have htake : (str "./" ++ p).take 2 = str "./" := rfl
    have hdrop : (str "./" ++ p).drop 2 = p := rfl
    rw [if_pos htake, hdrop, abspath, if_neg hhead, List.take_of_length_le (by omega)]
    refine ⟨?_, rfl⟩
    rintro (hp | hp | hp)
    · cases hp
    · cases hp
    · exact hpos (List.append_right_eq_self.mp hp)
  | root =>
    -- the path is absolute already
    change ¬ (slash :: p = [] ∨ slash :: p = str "." ∨ slash :: p = str "./") ∧
      abspath (if (slash :: p).take 2 = str "./" then (slash :: p).drop 2 else slash :: p) =
        slash :: p
    have htake : ¬ (slash :: p).take 2 = str "./" := by
      intro heq
      exact absurd (List.cons.inj heq).1 (by decide)
    change (str "/").length + p.length < 100 at hlen
    have hone : (str "/").length = 1 := rfl
    rw [if_neg htake, abspath, List.head?_cons, if_pos rfl,
      List.take_of_length_le (by rw [List.length_cons]; omega)]
    refine ⟨?_, rfl⟩
    rintro (hp | hp | hp)
    · cases hp
    · exact absurd (List.cons.inj hp).1 (by decide)
    · exact absurd (List.cons.inj hp).1 (by decide)

theorem length_absolute : (absolute e.comps).length ≤ 100 := by
  have hlen := h.name_length
  rw [Entry.name, List.length_append, List.length_append] at hlen
  rw [absolute_eq_cons, List.length_cons]
  omega

/-- The entry `./` of the root is skipped. -/
theorem callback_root (hroot : e.comps = []) (size : UInt64) (st : Vfs × ExtractContext) :
    rootfsExtractCallback answers e.name none size st = some st := by
  obtain ⟨-, htrailing⟩ := h.root_dir hroot
  have hname : e.name = e.lead.bytes := by
    rw [Entry.name, hroot, htrailing]
    exact (List.append_nil _).trans (List.append_nil _)
  have hpos := h.valid.name_pos
  change e.name ≠ [] at hpos
  rw [hname] at hpos ⊢
  generalize e.lead = lead at hpos
  cases lead with
  | bare => exact absurd rfl hpos
  | dot => exact if_pos (Or.inr (Or.inr rfl))
  | root => rfl

/-- A directory is made at its path. -/
theorem callback_dir {init : List Str} {x : Str} (hcomps : e.comps = init ++ [x]) (size : UInt64)
    (st : Vfs × ExtractContext) :
    rootfsExtractCallback answers e.name none size st =
      (vfsMkdir st.1 (absolute e.comps)).map fun made =>
        (made.2, if made.1 = 0 then { st.2 with dirCount := st.2.dirCount + 1 } else st.2) := by
  have hne : e.comps ≠ [] := by
    rw [hcomps]
    simp
  obtain ⟨hskip, hpath⟩ := h.abspath_name hne
  have hlen := h.length_absolute
  have hx := h.component x (hcomps ▸ List.mem_append_right _ List.mem_cons_self)
  have hlast : (absolute e.comps).getLast? ≠ some slash := hcomps ▸ getLast_absolute hx
  have hdirname : (if ((absolute e.comps ++ if e.trailing then [slash] else []).take 255).getLast? =
        some slash
      then ((absolute e.comps ++ if e.trailing then [slash] else []).take 255).dropLast
      else (absolute e.comps ++ if e.trailing then [slash] else []).take 255) =
        absolute e.comps := by
    by_cases htrailing : e.trailing = true
    · rw [if_pos htrailing, List.take_of_length_le
        (by rw [List.length_append, List.length_singleton]; omega), List.getLast?_concat, if_pos rfl,
        List.dropLast_concat]
    · rw [if_neg htrailing, List.append_nil, List.take_of_length_le (by omega), if_neg hlast]
  have hcons := absolute_eq_cons e.comps
  have hplace : ¬ (absolute e.comps = [] ∨ absolute e.comps = str "." ∨
      absolute e.comps = str "/") := by
    rintro (heq | heq | heq)
    · rw [heq] at hcons
      cases hcons
    · rw [heq] at hcons
      exact absurd (List.cons.inj hcons).1 (by decide)
    · rw [heq] at hlast
      exact hlast rfl
  rw [rootfsExtractCallback, if_neg hskip]
  dsimp only
  rw [hpath, extractDirectory]
  dsimp only
  rw [hdirname, if_neg hplace]

/-- A file is written at its path. -/
theorem callback_file {flag0 : Bool} {content : List UInt8} (hkind : e.kind = .file flag0 content)
    (data : ℕ → UInt8) (size : UInt64) (st : Vfs × ExtractContext) :
    rootfsExtractCallback answers e.name (some data) size st =
      extractFile answers (absolute e.comps) data size st := by
  have hne : e.comps ≠ [] := by
    intro hroot
    have hdir := (h.root_dir hroot).1
    rw [hkind] at hdir
    cases hdir
  have htrailing : ¬ e.trailing = true := by
    intro htrue
    have hdir := h.trailing_dir htrue
    rw [hkind] at hdir
    cases hdir
  obtain ⟨hskip, hpath⟩ := h.abspath_name hne
  rw [rootfsExtractCallback, if_neg hskip]
  dsimp only
  rw [hpath, if_neg htrailing, List.append_nil]

end Entry.WellFormed

/-- The directory of a file in the root is there already. -/
theorem makeParent_root {x : Str} (hx : Component x) (hlen : (absolute [x]).length ≤ 100) (s : Vfs) :
    makeParent (absolute [x]) s = some s := by
  have hlast := lastSlash_absolute [] hx.no_slash
  rw [List.nil_append] at hlast
  rw [makeParent, List.take_of_length_le (by omega), hlast]
  rfl

theorem makeParent_nested {init : List Str} {y x : Str} (hx : Component x)
    (hlen : (absolute (init ++ [y] ++ [x])).length ≤ 100) (s : Vfs) :
    makeParent (absolute (init ++ [y] ++ [x])) s =
      (vfsMkdir s (absolute (init ++ [y]))).map Prod.snd := by
  have hlast := lastSlash_absolute (init ++ [y]) hx.no_slash
  have hpos : ((init ++ [y]).flatMap (slash :: ·)).length ≠ 0 := by
    rw [List.flatMap_append, List.length_append]
    simp
  have htake : (absolute (init ++ [y] ++ [x])).take ((init ++ [y]).flatMap (slash :: ·)).length =
      absolute (init ++ [y]) := by
    rw [absolute_concat, List.take_left, absolute, if_neg (by simp)]
  rw [makeParent, List.take_of_length_le (by omega), hlast]
  dsimp only
  rw [if_neg hpos, htake]

end Rhoudveine.Tar
