import Rhoudveine.Shell.ResolvePath

/-!
# The end of the path buffer

Only one of the places where `resolve_path` writes looks at the size of `temp`.  When the others
stay inside, and when what does not fit makes no difference.
-/

namespace Rhoudveine.Shell
open Fs Lookup

/-! ## What is lost -/

/-- The path in the buffer, the components that found no room at all and are still missing, and
whether the last component is cut. -/
structure Kept where
  path : Str
  lost : ℕ
  cut : Bool
  deriving DecidableEq

/-- One component; `none` if there is no room for the slash and the terminator. -/
def Kept.read (s : Kept) (x : Str) : Option Kept :=
  if x = dot then some s
  else if x = dotdot then
    -- at the root, `..` stands for a component that was never there
    some ⟨popPath s.path, if s.path = [slash] then s.lost - 1 else s.lost, false⟩
  else if 127 < (separated s.path).length then none
  else if (separated s.path).length = 127 then some ⟨separated s.path, s.lost + 1, false⟩
  else
    some ⟨appendPath s.path x, s.lost, 127 < (separated s.path).length + x.length⟩

/-- The base path fits, every component finds room for its slash and its terminator, and in the
end none of them is missing or cut. -/
def NothingLost (cwd input : Str) : Prop :=
  (basePath cwd input).length ≤ 127 ∧
    ∃ path, (components input).foldlM Kept.read ⟨basePath cwd input, 0, false⟩ =
      some ⟨path, 0, false⟩

/-! ## The path without a limit -/

def endlessSegment (w x : Str) : Str :=
  if x = dot then w else if x = dotdot then popPath w else separated w ++ x

/-- What `dest` would be if `temp` had no end. -/
def endlessPath (cwd input : Str) : Str :=
  cleanupPath ((components input).foldl endlessSegment (basePath cwd input))

/-- Every write is inside the arrays, and the path is not another one than what was meant. -/
def Safe (stack : ℕ → UInt8) (cwd input : Str) : Prop :=
  (∀ i ∈ (resolvePath stack cwd input).tempWrites, i < 128) ∧
    (∀ i ∈ (resolvePath stack cwd input).destWrites, i < 128) ∧
      ((resolvePath stack cwd input).dest = endlessPath cwd input ∨
        (resolvePath stack cwd input).dest = normalise (meant cwd input))

/-! ## The writes -/

variable {s s' : Kept} {u w x : Str}

/-- A component that is put behind the others finds room for its slash. -/
def Room (w x : Str) : Prop := x ≠ dot → x ≠ dotdot → (separated w).length ≤ 127

theorem length_appendPath (h : (separated w).length ≤ 127) :
    (appendPath w x).length ≤ 127 := by
  simp only [appendPath, List.length_append, List.length_take]
  omega

theorem prefix_popPath (w : Str) : popPath w <+: w := by
  unfold popPath
  split_ifs
  · exact (List.rdropWhile_prefix _ _).trans (List.dropLast_prefix w)
  · exact List.prefix_rfl

theorem length_segmentPath (hw : w.length ≤ 127) (h : Room w x) :
    (segmentPath w x).length ≤ 127 := by
  unfold segmentPath
  split_ifs with hdot hdotdot
  · exact hw
  · exact (prefix_popPath w).length_le.trans hw
  · exact length_appendPath (h hdot hdotdot)

theorem Kept.path_read (h : s.read x = some s') : s'.path = segmentPath s.path x := by
  unfold Kept.read at h
  unfold segmentPath
  split_ifs at h ⊢ with hdot hdotdot hroot hlong hfull
  all_goals obtain rfl := Option.some.inj h
  · rfl
  · rfl
  · rfl
  · dsimp only
    rw [appendPath, hfull, Nat.sub_self, List.take_zero, List.append_nil]
  · rfl

theorem Kept.isSome_read : (s.read x).isSome ↔ Room s.path x := by
  unfold Kept.read Room
  split_ifs with hdot hdotdot hroot hlong hfull
  · simp [hdot]
  · simp [hdotdot]
  · simp [hdotdot]
  · simp [hdot, hdotdot, hlong]
  · simp [hdot, hdotdot, hfull]
  · simp [hdot, hdotdot, le_of_not_gt hlong]

/-- A path that does not lose its room stays inside. -/
theorem length_foldl_segmentPath {comps : List Str} (hs : s.path.length ≤ 127)
    (h : (comps.foldlM Kept.read s).isSome) : (comps.foldl segmentPath s.path).length ≤ 127 := by
  induction comps generalizing s with
  | nil => exact hs
  | cons x comps ih =>
    rw [List.foldlM_cons] at h
    cases hnext : s.read x with
    | none => simp [hnext] at h
    | some s' =>
      rw [hnext] at h
      have hroom := Kept.isSome_read.mp (Option.isSome_of_eq_some hnext)
      have hpath := Kept.path_read hnext
      rw [List.foldl_cons, ← hpath]
      exact ih (hpath ▸ length_segmentPath hs hroom) h

namespace Buffer

/-- Every write was inside `temp`. -/
def Inside (b : Buffer) : Prop := ∀ i ∈ b.written, i < 128

variable {b : Buffer} {c : UInt8} {i n : ℕ}

@[simp] theorem inside_put : (b.put i c).Inside ↔ b.Inside ∧ i < 128 := by
  simp [Inside, put, or_imp, forall_and]

@[simp] theorem inside_push : (b.push c).Inside ↔ b.Inside ∧ b.tLen < 128 := by
  simp [Inside, push, put, or_imp, forall_and]

@[simp] theorem inside_terminate : b.terminate.Inside ↔ b.Inside ∧ b.tLen < 128 := by
  simp [terminate]

theorem inside_foldl_push (s : Str) (h : b.tLen + s.length ≤ 128) :
    (s.foldl push b).Inside ↔ b.Inside := by
  induction s generalizing b with
  | nil => exact Iff.rfl
  | cons c s ih =>
    rw [List.length_cons] at h
    rw [List.foldl_cons, ih (by change b.tLen + 1 + s.length ≤ 128; omega), inside_push]
    exact and_iff_left (by omega)

theorem inside_foldl_pushInside (s : Str) : (s.foldl pushInside b).Inside ↔ b.Inside := by
  induction s generalizing b with
  | nil => exact Iff.rfl
  | cons c s ih =>
    rw [List.foldl_cons, ih, pushInside]
    split_ifs
    · rw [inside_push]
      exact and_iff_left (by omega)
    · exact Iff.rfl

theorem tLen_append : (b.append x).tLen = (appendPath b.text x).length := by
  rw [← text_append, length_text]

/-- Appending needs room for the slash and the terminator. -/
theorem inside_append (h : b.tLen ≤ 127) :
    (b.append x).Inside ↔ b.Inside ∧ (separated b.text).length ≤ 127 := by
  have hseparate : b.separate.Inside ↔ b.Inside := by
    rw [separate]
    split_ifs
    · rw [inside_push]
      exact and_iff_left (by omega)
    · exact Iff.rfl
  have hlen : (x.foldl pushInside b.separate).tLen = (appendPath b.text x).length := tLen_append
  rw [append, inside_terminate, inside_foldl_pushInside, hseparate, hlen]
  apply and_congr_right'
  constructor
  · intro hroom
    simp only [appendPath, List.length_append] at hroom
    omega
  · intro hroom
    have := @length_appendPath _ x hroom
    omega

theorem backToSlash_le (temp : ℕ → UInt8) (n : ℕ) : backToSlash temp n ≤ n := by
  induction n with
  | zero => exact le_rfl
  | succ n ih =>
    rw [backToSlash]
    split_ifs
    · exact le_rfl
    · exact ih.trans (Nat.le_succ n)

theorem inside_pop (h : b.tLen ≤ 127) : b.pop.Inside ↔ b.Inside := by
  have hback := backToSlash_le b.temp (b.tLen - 1)
  rw [pop]
  split_ifs
  · rw [inside_terminate]
    exact and_iff_left (by change backToSlash b.temp (b.tLen - 1) < 128; omega)
  · exact Iff.rfl

theorem inside_segment (h : b.tLen ≤ 127) :
    (b.segment x).Inside ↔ b.Inside ∧ Room b.text x := by
  rw [segment, Room]
  split_ifs with hdot hdotdot
  · simp [hdot]
  · simp [hdotdot, inside_pop h]
  · simp [hdot, hdotdot, inside_append h]

theorem tLen_segment (h : b.tLen ≤ 127) (hroom : Room b.text x) : (b.segment x).tLen ≤ 127 := by
  rw [← length_text, text_segment]
  exact length_segmentPath (by rwa [length_text]) hroom

theorem inside_base (hb : b.written = []) (hlen : b.tLen = 0) {cwd : Str} (hcwd : cwd.length ≤ 127)
    (input : Str) : (b.base cwd input).Inside ↔ (basePath cwd input).length ≤ 127 := by
  have hstart : b.Inside := by simp [Inside, hb]
  rw [← text_base hlen cwd input, length_text, base]
  split_ifs
  · simp [Inside, put, hb]
  · have hcopied : (cwd.foldl push b).Inside := (inside_foldl_push cwd (by omega)).mpr hstart
    have htLen : (cwd.foldl push b).tLen = cwd.length := by
      rw [← length_text, text_foldl_push, List.length_append, length_text, hlen, Nat.zero_add]
    generalize cwd.foldl push b = b' at hcopied htLen
    dsimp only
    rw [inside_terminate]
    change _ ↔ (if b'.tLen = 0 ∨ b'.temp (b'.tLen - 1) ≠ slash then b'.push slash else b').tLen ≤ 127
    split_ifs
    · rw [inside_push]
      change (_ ∧ _) ∧ b'.tLen + 1 < 128 ↔ b'.tLen + 1 ≤ 127
      simp only [hcopied, true_and]
      omega
    · simp only [hcopied, true_and]
      omega

theorem Inside.of_cleanup (h : b.cleanup.Inside) : b.Inside := by
  unfold cleanup at h
  split_ifs at h
  · exact (inside_put.mp h).1
  · exact (inside_put.mp (inside_put.mp h).1).1
  · exact (inside_terminate.mp h).1

theorem inside_cleanup (h : b.tLen ≤ 127) : b.cleanup.Inside ↔ b.Inside := by
  rw [cleanup]
  split_ifs
  · rw [inside_put]
    exact and_iff_left (by omega)
  · simp
  · rw [inside_terminate]
    exact and_iff_left (by omega)

/-- A write outside is never undone. -/
theorem Inside.of_segment (h : (b.segment x).Inside) : b.Inside := by
  unfold segment at h
  split_ifs at h
  · exact h
  · unfold pop at h
    split_ifs at h
    · exact (inside_terminate.mp h).1
    · exact h
  · have happend := (inside_foldl_pushInside x).mp (inside_terminate.mp h).1
    unfold separate at happend
    split_ifs at happend
    · exact (inside_push.mp happend).1
    · exact happend

theorem Inside.of_foldl {comps : List Str} (h : (comps.foldl segment b).Inside) : b.Inside := by
  induction comps generalizing b with
  | nil => exact h
  | cons x comps ih => exact (ih h).of_segment

/-- The writes stay inside exactly while there is room. -/
theorem inside_foldl_segment {comps : List Str} {s : Kept} (hs : s.path = b.text)
    (h : b.tLen ≤ 127) :
    (comps.foldl segment b).Inside ↔ b.Inside ∧ (comps.foldlM Kept.read s).isSome := by
  induction comps generalizing b s with
  | nil => simp
  | cons x comps ih =>
    have hread := @Kept.isSome_read s x
    rw [hs] at hread
    rw [List.foldl_cons, List.foldlM_cons]
    cases hnext : s.read x with
    | none =>
      rw [hnext] at hread
      have hnoroom : ¬ Room b.text x := fun hroom => by simpa using hread.mpr hroom
      have hout : ¬ (comps.foldl segment (b.segment x)).Inside := fun hin =>
        hnoroom ((inside_segment h).mp hin.of_foldl).2
      simp [hout]
    | some s' =>
      rw [hnext] at hread
      have hroom : Room b.text x := hread.mp rfl
      have hpath : s'.path = (b.segment x).text := by rw [Kept.path_read hnext, hs, text_segment]
      rw [ih hpath (tLen_segment h hroom), inside_segment h]
      simp [hroom]

end Buffer


/-! ## Slashes -/

variable {rest : Str}

@[simp] theorem head?_separated (w : Str) : (separated w).head? = w.head? := by
  unfold separated
  split_ifs with h
  · exact List.head?_append_of_ne_nil _ (List.ne_nil_of_length_pos (by omega))
  · rfl

theorem separated_of_slash (h : w.getLast? = some slash) : separated w = w := by
  simp [separated, h]

theorem separated_concat (hlen : 1 < w.length) (h : w.getLast? ≠ some slash) :
    separated w = w ++ [slash] := by
  simp [separated, hlen, h]

@[simp] theorem separated_separated (w : Str) : separated (separated w) = separated w := by
  by_cases h : 1 < w.length ∧ w.getLast? ≠ some slash
  · rw [separated_concat h.1 h.2]
    exact separated_of_slash List.getLast?_concat
  · rw [show separated w = w from if_neg h]
    exact if_neg h

/-- A component behind a path gets the next slash. -/
theorem separated_append (hw : w ≠ []) (hx : x ≠ [] ∧ slash ∉ x) :
    separated (w ++ x) = w ++ x ++ [slash] := by
  apply separated_concat
  · have hwlen := List.length_pos_iff.mpr hw
    have hxlen := List.length_pos_iff.mpr hx.1
    rw [List.length_append]
    omega
  · rw [List.getLast?_append_of_ne_nil _ hx.1]
    exact fun hlast => hx.2 (List.mem_of_getLast? hlast)

theorem count_separated_append (hw : w ≠ []) (hx : x ≠ [] ∧ slash ∉ x) :
    (separated (w ++ x)).count slash = w.count slash + 1 := by
  rw [separated_append hw hx, List.count_append, List.count_append,
    List.count_eq_zero_of_not_mem hx.2]
  rfl

theorem count_of_ne {c : UInt8} (hc : c ≠ slash) : [c].count slash = 0 :=
  List.count_eq_zero_of_not_mem fun h => hc (List.mem_singleton.mp h).symm

theorem count_separated (hlen : 1 < w.length) :
    (separated w).count slash = w.dropLast.count slash + 1 := by
  obtain ⟨init, c, rfl⟩ := (List.eq_nil_or_concat' w).resolve_left
    (List.ne_nil_of_length_pos (by omega))
  rw [List.dropLast_concat]
  by_cases hc : c = slash
  · rw [separated_of_slash (by rw [List.getLast?_concat, hc]), hc, List.count_append]
    rfl
  · rw [separated_concat hlen (by simpa using hc), List.count_append, List.count_append,
      count_of_ne hc]
    rfl

theorem count_rdropWhile (w : Str) : (w.rdropWhile (· ≠ slash)).count slash = w.count slash := by
  induction w using List.reverseRecOn with
  | nil => rfl
  | append_singleton w c ih =>
    by_cases hc : c = slash
    · rw [List.rdropWhile_concat_neg _ _ _ (by simpa using hc)]
    · rw [List.rdropWhile_concat_pos _ _ _ (by simpa using hc), ih, List.count_append,
        count_of_ne hc, Nat.add_zero]

theorem getLast?_rdropWhile (h : slash ∈ w) :
    (w.rdropWhile (· ≠ slash)).getLast? = some slash := by
  induction w using List.reverseRecOn with
  | nil => cases h
  | append_singleton w c ih =>
    by_cases hc : c = slash
    · rw [List.rdropWhile_concat_neg _ _ _ (by simpa using hc), hc, List.getLast?_concat]
    · rw [List.rdropWhile_concat_pos _ _ _ (by simpa using hc)]
      exact ih (by simpa [Ne.symm hc] using h)

theorem head?_of_popPath (h : (popPath w).head? = some slash) : w.head? = some slash := by
  obtain ⟨t, ht⟩ := prefix_popPath w
  rw [← ht, List.head?_append, h]
  rfl

/-- `..` takes one slash away from an absolute path. -/
theorem popPath_absolute (hw : w.head? = some slash) (hlen : 1 < w.length) :
    (popPath w).head? = some slash ∧ (popPath w).getLast? = some slash ∧
      (separated w).count slash = (separated (popPath w)).count slash + 1 := by
  have hmem : slash ∈ w.dropLast := by
    obtain ⟨v, rfl⟩ := List.head?_eq_some_iff.mp hw
    rw [List.dropLast_cons_of_ne_nil (List.ne_nil_of_length_pos (by simpa using hlen))]
    exact List.mem_cons_self
  have hlast : (popPath w).getLast? = some slash := by
    rw [popPath, if_pos hlen]
    exact getLast?_rdropWhile hmem
  refine ⟨?_, hlast, ?_⟩
  · obtain ⟨t, ht⟩ := prefix_popPath w
    have hne : popPath w ≠ [] := fun h => by simp [h] at hlast
    rwa [← ht, List.head?_append_of_ne_nil _ hne] at hw
  · rw [separated_of_slash hlast, count_separated hlen, popPath, if_pos hlen, count_rdropWhile]

theorem rdropWhile_append (hrest : slash ∉ rest) :
    (w ++ rest).rdropWhile (· ≠ slash) = w.rdropWhile (· ≠ slash) := by
  induction rest using List.reverseRecOn with
  | nil => rw [List.append_nil]
  | append_singleton rest c ih =>
    have hc : c ≠ slash := fun hc => hrest (by simp [hc])
    rw [← List.append_assoc, List.rdropWhile_concat_pos _ _ _ (by simpa using hc)]
    exact ih fun hmem => hrest (List.mem_append_left _ hmem)

/-- What stands behind the cut goes with the rest of the component. -/
theorem popPath_append (hlen : 1 < w.length) (hw : w.getLast? ≠ some slash)
    (hrest : rest ≠ [] ∧ slash ∉ rest) : popPath (w ++ rest) = popPath w := by
  obtain ⟨init, c, rfl⟩ := (List.eq_nil_or_concat' w).resolve_left
    (List.ne_nil_of_length_pos (by omega))
  have hc : slash ∉ [c] := fun h => hw (by rw [← List.mem_singleton.mp h, List.getLast?_concat])
  have hlong : 1 < (init ++ [c] ++ rest).length := by
    rw [List.length_append]
    omega
  have hdrop : slash ∉ rest.dropLast := fun h => hrest.2 (List.dropLast_subset _ h)
  rw [popPath, popPath, if_pos hlong, if_pos hlen, List.dropLast_append_of_ne_nil hrest.1,
    List.dropLast_concat, rdropWhile_append hdrop, rdropWhile_append hc]

/-! ## The path and the one without a limit -/

/-- Where the path is behind `u`, the one without a limit. -/
structure Behind (s : Kept) (u : Str) : Prop where
  same : s.lost = 0 → s.cut = false → u = s.path
  rest : s.lost = 0 → s.cut = true → ∃ rest, rest ≠ [] ∧ slash ∉ rest ∧ u = s.path ++ rest
  full : s.cut = true → s.path.length = 127 ∧ s.path.getLast? ≠ some slash
  depth : s.path.head? = some slash → u.head? = some slash ∧
    (separated u).count slash = (separated s.path).count slash + s.lost

theorem eq_root (hhead : w.head? = some slash) (hlast : w.getLast? = some slash)
    (hcount : w.count slash ≤ 1) : w = [slash] := by
  obtain ⟨v, rfl⟩ := List.head?_eq_some_iff.mp hhead
  by_cases hv : v = []
  · rw [hv]
  · rw [List.getLast?_cons_of_ne_nil hv] at hlast
    have hmem := List.count_pos_iff.mpr (List.mem_of_getLast? hlast)
    rw [List.count_cons_self] at hcount
    omega

theorem one_lt_length (h : 1 < (separated w).count slash) : 1 < w.length := by
  by_contra hshort
  rw [show separated w = w from if_neg fun hw => hshort hw.1] at h
  exact hshort (h.trans_le List.count_le_length)

theorem Behind.pop_root (h : Behind s u) (hroot : s.path = [slash]) :
    Behind ⟨[slash], s.lost - 1, false⟩ (popPath u) := by
  have hcut : s.cut = false := by
    by_contra hcut
    have hfull := (h.full (by simpa using hcut)).1
    simp [hroot] at hfull
  cases hlost : s.lost with
  | zero =>
    rw [h.same hlost hcut, hroot]
    exact ⟨fun _ _ => rfl, by simp, by simp, fun _ => ⟨rfl, rfl⟩⟩
  | succ lost =>
    obtain ⟨habsolute, hdepth⟩ := h.depth (by rw [hroot]; rfl)
    have hone : (separated s.path).count slash = 1 := by rw [hroot]; rfl
    obtain ⟨hhead, hlast, hcount⟩ := popPath_absolute habsolute (one_lt_length (by omega))
    have hrest : (separated (popPath u)).count slash = 1 + lost := by omega
    refine ⟨fun hnone _ => ?_, by simp, by simp, fun _ => ⟨hhead, hrest⟩⟩
    -- as many slashes as the root has
    dsimp only at hnone ⊢
    rw [separated_of_slash hlast] at hrest
    exact eq_root hhead hlast (by omega)

/-- `..`, in the buffer and without a limit. -/
theorem Behind.pop (h : Behind s u) :
    Behind ⟨popPath s.path, if s.path = [slash] then s.lost - 1 else s.lost, false⟩ (popPath u) := by
  by_cases hroot : s.path = [slash]
  · rw [if_pos hroot, hroot]
    exact h.pop_root hroot
  · rw [if_neg hroot]
    refine ⟨fun hlost _ => ?_, by simp, by simp, fun hhead => ?_⟩
    · cases hcut : s.cut with
      | false => rw [h.same hlost hcut]
      | true =>
        obtain ⟨rest, hne, hno, hu⟩ := h.rest hlost hcut
        obtain ⟨hlen, hlast⟩ := h.full hcut
        rw [hu]
        exact popPath_append (by omega) hlast ⟨hne, hno⟩
    · have hpath := head?_of_popPath hhead
      have hlen : 1 < s.path.length := by
        obtain ⟨v, hv⟩ := List.head?_eq_some_iff.mp hpath
        rw [hv] at hroot ⊢
        have hpos := List.length_pos_iff.mpr fun hnil : v = [] => hroot (by rw [hnil])
        rw [List.length_cons]
        omega
      obtain ⟨-, hlast, hcount⟩ := popPath_absolute hpath hlen
      have hpos : 0 < (separated (popPath s.path)).count slash := by
        rw [separated_of_slash hlast]
        exact List.count_pos_iff.mpr (List.mem_of_getLast? hlast)
      obtain ⟨habsolute, hdepth⟩ := h.depth hpath
      obtain ⟨huhead, -, hucount⟩ := popPath_absolute habsolute (one_lt_length (by omega))
      refine ⟨huhead, ?_⟩
      dsimp only
      omega

theorem Behind.not_cut (h : Behind s u) (hroom : (separated s.path).length ≤ 127) :
    s.cut = false := by
  by_contra hcut
  obtain ⟨hlen, hlast⟩ := h.full (by simpa using hcut)
  rw [separated_concat (by omega) hlast, List.length_append, hlen] at hroom
  exact absurd hroom (by decide)

/-- A component, in the buffer and without a limit. -/
theorem Behind.append (h : Behind s u) (hx : x ≠ [] ∧ slash ∉ x)
    (hroom : (separated s.path).length < 127) :
    Behind ⟨appendPath s.path x, s.lost, 127 < (separated s.path).length + x.length⟩
      (separated u ++ x) := by
  have hcut := h.not_cut hroom.le
  have hxlen := List.length_pos_iff.mpr hx.1
  have hy : x.take (127 - (separated s.path).length) ≠ [] ∧
      slash ∉ x.take (127 - (separated s.path).length) := by
    refine ⟨List.ne_nil_of_length_pos ?_, fun hmem => hx.2 (List.mem_of_mem_take hmem)⟩
    rw [List.length_take]
    omega
  rw [appendPath]
  constructor
  · intro hlost hwhole
    have hfits : (separated s.path).length + x.length ≤ 127 := by simpa using hwhole
    dsimp only
    rw [h.same hlost hcut, List.take_of_length_le (by omega)]
  · intro hlost hlong
    have hlonger : 127 < (separated s.path).length + x.length := by simpa using hlong
    refine ⟨x.drop (127 - (separated s.path).length), List.ne_nil_of_length_pos ?_,
      fun hmem => hx.2 (List.mem_of_mem_drop hmem), ?_⟩
    · rw [List.length_drop]
      omega
    · dsimp only
      rw [h.same hlost hcut, List.append_assoc, List.take_append_drop]
  · intro hlong
    have hlonger : 127 < (separated s.path).length + x.length := by simpa using hlong
    dsimp only
    rw [List.length_append, List.length_take, List.getLast?_append_of_ne_nil _ hy.1]
    exact ⟨by omega, fun hlast => hy.2 (List.mem_of_getLast? hlast)⟩
  · intro hhead
    dsimp only at hhead ⊢
    have hpath : separated s.path ≠ [] := fun hnil => by
      rw [hnil, List.nil_append] at hhead
      exact hy.2 (hnil ▸ List.mem_of_head? hhead)
    rw [List.head?_append_of_ne_nil _ hpath, head?_separated] at hhead
    obtain ⟨habsolute, hdepth⟩ := h.depth hhead
    have hne : separated u ≠ [] := fun hnil => by
      rw [← head?_separated, hnil] at habsolute
      cases habsolute
    rw [List.head?_append_of_ne_nil _ hne, head?_separated, count_separated_append hne hx,
      count_separated_append hpath hy]
    exact ⟨habsolute, by omega⟩

/-- A component that finds no room. -/
theorem Behind.lose (h : Behind s u) (hx : x ≠ [] ∧ slash ∉ x) :
    Behind ⟨separated s.path, s.lost + 1, false⟩ (separated u ++ x) := by
  refine ⟨by simp, by simp, by simp, fun hhead => ?_⟩
  dsimp only at hhead ⊢
  rw [head?_separated] at hhead
  obtain ⟨habsolute, hdepth⟩ := h.depth hhead
  have hne : separated u ≠ [] := fun hnil => by
    rw [← head?_separated, hnil] at habsolute
    cases habsolute
  rw [List.head?_append_of_ne_nil _ hne, head?_separated, count_separated_append hne hx,
    separated_separated]
  exact ⟨habsolute, by omega⟩

theorem Behind.read (h : Behind s u) (hx : x ≠ [] ∧ slash ∉ x) (hread : s.read x = some s') :
    Behind s' (endlessSegment u x) := by
  unfold Kept.read at hread
  unfold endlessSegment
  by_cases hdot : x = dot
  · rw [if_pos hdot] at hread ⊢
    exact Option.some.inj hread ▸ h
  rw [if_neg hdot] at hread ⊢
  by_cases hdotdot : x = dotdot
  · rw [if_pos hdotdot] at hread ⊢
    exact Option.some.inj hread ▸ h.pop
  rw [if_neg hdotdot] at hread ⊢
  split_ifs at hread with hlong hfull
  · exact Option.some.inj hread ▸ h.lose hx
  · exact Option.some.inj hread ▸ h.append hx (by omega)

/-- The whole run. -/
theorem Behind.foldlM {comps : List Str} (h : Behind s u)
    (hcomps : ∀ x ∈ comps, x ≠ [] ∧ slash ∉ x) (hread : comps.foldlM Kept.read s = some s') :
    s'.path = comps.foldl segmentPath s.path ∧ Behind s' (comps.foldl endlessSegment u) := by
  induction comps generalizing s u with
  | nil =>
    obtain rfl := Option.some.inj hread
    exact ⟨rfl, h⟩
  | cons x comps ih =>
    rw [List.foldlM_cons] at hread
    cases hnext : s.read x with
    | none => simp [hnext] at hread
    | some s₁ =>
      rw [hnext] at hread
      have hx := hcomps x List.mem_cons_self
      have hrest := ih (h.read hx hnext) (fun y hy => hcomps y (List.mem_cons_of_mem _ hy)) hread
      rw [Kept.path_read hnext] at hrest
      exact hrest

theorem behind_start (w : Str) : Behind ⟨w, 0, false⟩ w :=
  ⟨fun _ _ => rfl, by simp, by simp, fun hhead => ⟨hhead, rfl⟩⟩

/-! ## The call -/

variable {stack : ℕ → UInt8} {cwd input : Str}

/-- The components as `Kept.read` sees them. -/
def keptPath (cwd input : Str) : Option Kept :=
  (components input).foldlM Kept.read ⟨basePath cwd input, 0, false⟩

theorem tempWrites_inside (hcwd : cwd.length ≤ 127) :
    (∀ i ∈ (resolvePath stack cwd input).tempWrites, i < 128) ↔
      (basePath cwd input).length ≤ 127 ∧ (keptPath cwd input).isSome := by
  rw [resolvePath]
  dsimp only
  rw [Buffer.segments_eq le_rfl, components_tail]
  change Buffer.Inside _ ↔ _
  have hbase := @Buffer.inside_base ⟨stack, 0, []⟩ rfl rfl cwd hcwd input
  have htext := @Buffer.text_base ⟨stack, 0, []⟩ rfl cwd input
  generalize Buffer.base ⟨stack, 0, []⟩ cwd input = b at hbase htext
  rw [← hbase]
  constructor
  · intro hin
    have hfold := hin.of_cleanup
    have hbin := hfold.of_foldl
    have htLen : b.tLen ≤ 127 := by
      rw [← Buffer.length_text, htext]
      exact hbase.mp hbin
    exact ⟨hbin, ((Buffer.inside_foldl_segment htext.symm htLen).mp hfold).2⟩
  · rintro ⟨hbin, hkept⟩
    have htLen : b.tLen ≤ 127 := by
      rw [← Buffer.length_text, htext]
      exact hbase.mp hbin
    have hlen := @length_foldl_segmentPath ⟨basePath cwd input, 0, false⟩ _ (hbase.mp hbin) hkept
    rw [← htext, ← Buffer.text_foldl_segment, Buffer.length_text] at hlen
    rw [Buffer.inside_cleanup hlen]
    exact (Buffer.inside_foldl_segment htext.symm htLen).mpr ⟨hbin, hkept⟩

theorem length_cleanupPath (hw : w.length ≤ 127) : (cleanupPath w).length ≤ 127 := by
  unfold cleanupPath
  split_ifs
  · rw [List.length_dropLast]
    omega
  · decide
  · exact hw

/-! ## Normalised paths -/

variable {comps : List Str}

/-- Whatever is cut, the path is that of some components. -/
theorem Holds.segment (h : Holds w comps) (hx : x ≠ [] ∧ slash ∉ x) :
    ∃ comps', Holds (segmentPath w x) comps' := by
  unfold segmentPath
  split_ifs
  · exact ⟨_, h⟩
  · exact ⟨_, h.pop⟩
  · rw [appendPath, h.separated_eq]
    by_cases hnone : x.take (127 - (directory comps).length) = []
    · rw [hnone, List.append_nil]
      exact ⟨comps, holds_directory h.names⟩
    · exact ⟨_, holds_concat h.names ⟨hnone, fun hmem => hx.2 (List.mem_of_mem_take hmem)⟩⟩

theorem Holds.foldl_segment {read : List Str} (h : Holds w comps)
    (hread : ∀ x ∈ read, x ≠ [] ∧ slash ∉ x) : ∃ comps', Holds (read.foldl segmentPath w) comps' := by
  induction read generalizing w comps with
  | nil => exact ⟨comps, h⟩
  | cons x read ih =>
    obtain ⟨comps', hstep⟩ := h.segment (hread x List.mem_cons_self)
    exact ih hstep fun y hy => hread y (List.mem_cons_of_mem _ hy)

/-- Without a limit, the path is the lexical one. -/
theorem Holds.foldl_endless {read : List Str} (h : Holds w comps)
    (hread : ∀ x ∈ read, x ≠ [] ∧ slash ∉ x) :
    Holds (read.foldl endlessSegment w) (read.foldl enter comps) := by
  induction read generalizing w comps with
  | nil => exact h
  | cons x read ih =>
    have hx := hread x List.mem_cons_self
    have hstep : Holds (endlessSegment w x) (enter comps x) := by
      unfold endlessSegment enter
      split_ifs
      · exact h
      · exact h.pop
      · rw [h.separated_eq]
        exact holds_concat h.names hx
    exact ih hstep fun y hy => hread y (List.mem_cons_of_mem _ hy)

theorem holds_endless (h : IsNormal cwd) (input : Str) :
    Holds ((components input).foldl endlessSegment (basePath cwd input))
      ((components input).foldl enter (start cwd input)) :=
  (holds_base h input).foldl_endless fun _ hx => mem_components hx

theorem endlessPath_eq (h : IsNormal cwd) (input : Str) :
    endlessPath cwd input = normalise (meant cwd input) := by
  have hstart := @foldl_enter_proper [] _ (proper_start h input)
  rw [endlessPath, (holds_endless h input).cleanup, normalise, components_meant,
    List.foldl_append, hstart, List.nil_append]

/-- A path that is behind, or cut, is another one. -/
theorem Behind.eq_of_cleanup {comps' : List Str} (h : Behind s u) (hpath : Holds s.path comps)
    (hu : Holds u comps') (heq : cleanupPath s.path = cleanupPath u) :
    s.lost = 0 ∧ s.cut = false := by
  rw [hpath.cleanup, hu.cleanup] at heq
  have hcomps := congrArg components heq
  rw [components_absolute hpath.names, components_absolute hu.names] at hcomps
  have hsame : separated u = separated s.path := by
    rw [hpath.separated_eq, hu.separated_eq, hcomps]
  have hhead : s.path.head? = some slash := by
    rw [← head?_separated, hpath.separated_eq]
    rfl
  have hlost : s.lost = 0 := by
    have hdepth := (h.depth hhead).2
    rw [hsame] at hdepth
    omega
  refine ⟨hlost, ?_⟩
  by_contra hcut
  have hcut : s.cut = true := by simpa using hcut
  obtain ⟨rest, hne, hno, hrest⟩ := h.rest hlost hcut
  obtain ⟨hlen, hlast⟩ := h.full hcut
  rw [hrest, separated_append (List.ne_nil_of_length_pos (by omega)) ⟨hne, hno⟩,
    separated_concat (by omega) hlast] at hsame
  have hboth := congrArg List.length hsame
  simp only [List.length_append] at hboth
  exact hne (List.eq_nil_of_length_eq_zero (by omega))

theorem safe_of_nothingLost (stack : ℕ → UInt8) (hcwd : cwd.length ≤ 127) (hcwd₀ : 0 ∉ cwd)
    (hinput₀ : 0 ∉ input) (h : NothingLost cwd input) : Safe stack cwd input := by
  obtain ⟨hbase, path, hkept⟩ := h
  have hsome : (keptPath cwd input).isSome := Option.isSome_of_eq_some hkept
  have hlen := @length_foldl_segmentPath ⟨basePath cwd input, 0, false⟩ _ hbase hsome
  have hdest := dest_resolvePath stack hcwd₀ hinput₀
  obtain ⟨hpath, hbehind⟩ := (behind_start _).foldlM (fun x hx => mem_components hx) hkept
  refine ⟨(tempWrites_inside hcwd).mpr ⟨hbase, hsome⟩, fun i hi => ?_, .inl ?_⟩
  · have hshort := length_cleanupPath hlen
    rw [← hdest] at hshort
    have hindex : i < (resolvePath stack cwd input).dest.length + 1 := List.mem_range.mp hi
    omega
  · rw [hdest, endlessPath, hbehind.same rfl rfl, ← hpath]

/-- From a normalised path, what is lost shows. -/
theorem nothingLost_of_safe (stack : ℕ → UInt8) (hcwd : cwd.length ≤ 127) (hcwd₀ : 0 ∉ cwd)
    (hinput₀ : 0 ∉ input) (hnormal : IsNormal cwd) (h : Safe stack cwd input) :
    NothingLost cwd input := by
  obtain ⟨htemp, -, hdest⟩ := h
  obtain ⟨hbase, hkept⟩ := (tempWrites_inside hcwd).mp htemp
  obtain ⟨s, hs⟩ := Option.isSome_iff_exists.mp hkept
  obtain ⟨hpath, hbehind⟩ := (behind_start _).foldlM (fun x hx => mem_components hx) hs
  obtain ⟨comps, hholds⟩ := (holds_base hnormal input).foldl_segment
    fun x hx => @mem_components input x hx
  have heq : cleanupPath s.path =
      cleanupPath ((components input).foldl endlessSegment (basePath cwd input)) := by
    rw [hpath, ← dest_resolvePath stack hcwd₀ hinput₀]
    exact hdest.elim id fun hdest => hdest.trans (endlessPath_eq hnormal input).symm
  obtain ⟨hlost, hcut⟩ := hbehind.eq_of_cleanup (hpath ▸ hholds) (holds_endless hnormal input) heq
  exact ⟨hbase, s.path, hs.trans (by rw [← hlost, ← hcut])⟩

/-- A call is safe if nothing is lost, and from a normalised path only then. -/
theorem safe_iff_nothingLost (stack : ℕ → UInt8) (hcwd : cwd.length ≤ 127) (hcwd₀ : 0 ∉ cwd)
    (hinput₀ : 0 ∉ input) :
    (NothingLost cwd input → Safe stack cwd input) ∧
      (IsNormal cwd → (Safe stack cwd input ↔ NothingLost cwd input)) := by
  have hsafe := safe_of_nothingLost stack hcwd hcwd₀ hinput₀
  exact ⟨hsafe, fun hnormal =>
    ⟨nothingLost_of_safe stack hcwd hcwd₀ hinput₀ hnormal, hsafe⟩⟩

theorem safe_iff_nothingLost_up : Safe (fun _ => 0) (str "/a") (str "../b") :=
  have hnormal : IsNormal (str "/a") := ⟨[str "a"], fun x hx => by
    rw [List.mem_singleton.mp hx]
    exact ⟨by decide, by decide, by decide, by decide⟩, by decide⟩
  ((safe_iff_nothingLost (fun _ => 0) (by decide) (by decide) (by decide)).2 hnormal).mpr
    ⟨by decide, str "/b", by decide⟩

/-- A name that is cut, and the slash and the terminator behind 127 characters. -/
theorem long_path_not_safe :
    ¬ Safe (fun _ => 0) (slash :: List.replicate 60 0x61) (List.replicate 100 0x62) ∧
      ¬ Safe (fun _ => 0) (slash :: List.replicate 126 0x61) [] := by
  constructor
  · rintro ⟨-, -, hdest⟩
    revert hdest
    decide +kernel
  · rintro ⟨htemp, -, -⟩
    exact absurd (htemp 128 (by decide +kernel)) (by decide)

end Rhoudveine.Shell
