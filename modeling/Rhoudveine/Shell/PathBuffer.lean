import Rhoudveine.Fs.Components

/-!
# The path buffer of the shell

`resolve_path` of `init/main.c`: it edits a path in the array `temp` and copies it to `dest`.  The
code on the array, and the strings that it makes of each other.
-/

namespace Rhoudveine.Shell
open Fs

/-! ## The code -/

def dot : Str := [0x2E]

def dotdot : Str := [0x2E, 0x2E]

/-- `temp` with whatever was on the stack, `t_len`, and the indices of `temp` that have been
written. -/
structure Buffer where
  temp : ℕ → UInt8
  tLen : ℕ
  written : List ℕ

namespace Buffer

def put (b : Buffer) (i : ℕ) (c : UInt8) : Buffer :=
  { b with temp := Function.update b.temp i c, written := b.written ++ [i] }

/-- `temp[t_len++] = c`. -/
def push (b : Buffer) (c : UInt8) : Buffer := { b.put b.tLen c with tLen := b.tLen + 1 }

/-- `temp[t_len] = '\0'`. -/
def terminate (b : Buffer) : Buffer := b.put b.tLen 0

/-- `while (t_len > 0 && temp[t_len - 1] != '/') t_len--;`. -/
def backToSlash (temp : ℕ → UInt8) : (tLen : ℕ) → ℕ
  | 0 => 0
  | n + 1 => if temp n = slash then n + 1 else backToSlash temp n

/-- `..`. -/
def pop (b : Buffer) : Buffer :=
  if 1 < b.tLen then { b with tLen := backToSlash b.temp (b.tLen - 1) }.terminate else b

/-- A slash, if there is none before the next component. -/
def separate (b : Buffer) : Buffer :=
  if 1 < b.tLen ∧ b.temp (b.tLen - 1) ≠ slash then b.push slash else b

/-- The only place that looks at the size of the array. -/
def pushInside (b : Buffer) (c : UInt8) : Buffer := if b.tLen < 127 then b.push c else b

def append (b : Buffer) (segment : Str) : Buffer := (segment.foldl pushInside b.separate).terminate

def segment (b : Buffer) (segment : Str) : Buffer :=
  if segment = dot then b else if segment = dotdot then b.pop else b.append segment

/-- 1. Base path. -/
def base (b : Buffer) (cwd input : Str) : Buffer :=
  if input.head? = some slash then { (b.put 0 slash).put 1 0 with tLen := 1 }
  else
    let b := cwd.foldl push b
    (if b.tLen = 0 ∨ b.temp (b.tLen - 1) ≠ slash then b.push slash else b).terminate

/-- 2. Process input segments. -/
def segments : (rounds : ℕ) → (p : Str) → Buffer → Buffer
  | 0, _, b => b
  | rounds + 1, p, b =>
    let p := p.dropWhile (· = slash)
    if p = [] then b
    else segments rounds (p.dropWhile (· ≠ slash)) (b.segment (p.takeWhile (· ≠ slash)))

/-- 3. Cleanup. -/
def cleanup (b : Buffer) : Buffer :=
  if 1 < b.tLen ∧ b.temp (b.tLen - 1) = slash then b.put (b.tLen - 1) 0
  else if b.tLen = 0 then (b.put 0 slash).put 1 0
  else b.terminate

/-- The string in `temp`. -/
def output (b : Buffer) : Str := ((List.range (b.tLen + 2)).map b.temp).takeWhile (· ≠ 0)

end Buffer

/-- What `resolve_path` leaves in `dest`, and the indices that it writes. -/
structure Resolved where
  dest : Str
  tempWrites : List ℕ
  destWrites : List ℕ

def resolvePath (stack : ℕ → UInt8) (cwd input : Str) : Resolved :=
  let p := if input.head? = some slash then input.tail else input
  let b := (Buffer.segments p.length p (Buffer.base ⟨stack, 0, []⟩ cwd input)).cleanup
  ⟨b.output, b.written, List.range (b.output.length + 1)⟩

/-! ## The strings -/

/-- The path with a slash before the next component. -/
def separated (w : Str) : Str :=
  if 1 < w.length ∧ w.getLast? ≠ some slash then w ++ [slash] else w

/-- The last component goes, and the slash before it stays. -/
def popPath (w : Str) : Str :=
  if 1 < w.length then w.dropLast.rdropWhile (· ≠ slash) else w

def appendPath (w segment : Str) : Str :=
  separated w ++ segment.take (127 - (separated w).length)

def segmentPath (w segment : Str) : Str :=
  if segment = dot then w else if segment = dotdot then popPath w else appendPath w segment

def basePath (cwd input : Str) : Str :=
  if input.head? = some slash then [slash]
  else if cwd.getLast? = some slash then cwd else cwd ++ [slash]

def cleanupPath (w : Str) : Str :=
  if 1 < w.length ∧ w.getLast? = some slash then w.dropLast else if w = [] then [slash] else w

/-! ## What is in the array -/

namespace Buffer

/-- The path in the array. -/
def text (b : Buffer) : Str := (List.range b.tLen).map b.temp

variable {b : Buffer} {c : UInt8} {p : Str} {i n : ℕ}

@[simp] theorem length_text : b.text.length = b.tLen := by simp [text]

theorem temp_put_of_ne (h : i ≠ n) : (b.put n c).temp i = b.temp i :=
  Function.update_of_ne h _ _

theorem text_congr {b' : Buffer} (hlen : b'.tLen = b.tLen) (h : ∀ i < b.tLen, b'.temp i = b.temp i) :
    b'.text = b.text := by
  unfold text
  rw [hlen]
  exact List.map_congr_left fun i hi => h i (List.mem_range.mp hi)

theorem text_push : (b.push c).text = b.text ++ [c] := by
  have hold : (List.range b.tLen).map (Function.update b.temp b.tLen c) = b.text := by
    apply List.map_congr_left
    intro i hi
    exact Function.update_of_ne (List.mem_range.mp hi).ne _ _
  simp [text, push, put, List.range_succ] at hold ⊢
  exact fun i hi => Function.update_of_ne hi.ne _ _

theorem text_terminate : b.terminate.text = b.text :=
  text_congr rfl fun _ hi => Function.update_of_ne hi.ne _ _

/-- The byte before the end. -/
theorem temp_last (h : 0 < b.tLen) : b.text.getLast? = some (b.temp (b.tLen - 1)) := by
  rw [List.getLast?_eq_getElem?, length_text, text, List.getElem?_map, List.getElem?_range (by omega)]
  rfl

theorem text_foldl_push (s : Str) : (s.foldl push b).text = b.text ++ s := by
  induction s generalizing b with
  | nil => simp
  | cons c s ih => rw [List.foldl_cons, ih, text_push, List.append_assoc, List.singleton_append]

theorem text_separate : b.separate.text = separated b.text := by
  unfold separate separated
  rw [length_text]
  by_cases hlen : 1 < b.tLen
  · have hlast := @temp_last b (by omega)
    by_cases hslash : b.temp (b.tLen - 1) = slash
    · simp [hlast, hslash]
    · simp [hlast, hslash, hlen, text_push]
  · rw [if_neg fun h => hlen h.1, if_neg fun h => hlen h.1]

theorem text_foldl_pushInside (s : Str) :
    (s.foldl pushInside b).text = b.text ++ s.take (127 - b.tLen) := by
  induction s generalizing b with
  | nil => simp
  | cons c s ih =>
    rw [List.foldl_cons, ih]
    unfold pushInside
    split_ifs with hroom
    · obtain ⟨k, hk⟩ : ∃ k, 127 - b.tLen = k + 1 := ⟨126 - b.tLen, by omega⟩
      have hrest : 127 - (b.push c).tLen = k := by
        change 127 - (b.tLen + 1) = k
        omega
      rw [text_push, hrest, hk, List.take_succ_cons, List.append_assoc, List.singleton_append]
    · have hfull : 127 - b.tLen = 0 := by omega
      rw [hfull, List.take_zero, List.take_zero]

theorem text_append (s : Str) : (b.append s).text = appendPath b.text s := by
  rw [append, text_terminate, text_foldl_pushInside, text_separate, appendPath, ← text_separate,
    length_text]

theorem take_text (h : n ≤ b.tLen) : b.text.take n = (List.range n).map b.temp := by
  rw [text, ← List.map_take, List.take_range, min_eq_left h]

theorem text_backToSlash (temp : ℕ → UInt8) (n : ℕ) :
    (List.range (backToSlash temp n)).map temp =
      ((List.range n).map temp).rdropWhile (· ≠ slash) := by
  induction n with
  | zero => rfl
  | succ n ih =>
    rw [List.range_succ, List.map_append, List.map_singleton, backToSlash]
    split_ifs with hslash
    · rw [List.rdropWhile_concat_neg _ _ _ (by simpa using hslash), List.range_succ,
        List.map_append, List.map_singleton]
    · rw [List.rdropWhile_concat_pos _ _ _ (by simpa using hslash), ih]

theorem text_pop : b.pop.text = popPath b.text := by
  unfold pop popPath
  rw [length_text]
  split_ifs with hlen
  · rw [text_terminate, List.dropLast_eq_take, length_text, take_text (by omega)]
    exact text_backToSlash b.temp (b.tLen - 1)
  · rfl

theorem text_segment (s : Str) : (b.segment s).text = segmentPath b.text s := by
  unfold segment segmentPath
  split_ifs
  · rfl
  · exact text_pop
  · exact text_append s

theorem text_base (hb : b.tLen = 0) (cwd input : Str) :
    (b.base cwd input).text = basePath cwd input := by
  have hempty : b.text = [] := by simp [text, hb]
  unfold base basePath
  by_cases habsolute : input.head? = some slash
  · rw [if_pos habsolute, if_pos habsolute]
    rfl
  · rw [if_neg habsolute, if_neg habsolute]
    dsimp only
    rw [text_terminate]
    have hcwd : (cwd.foldl push b).text = cwd := by rw [text_foldl_push, hempty, List.nil_append]
    generalize cwd.foldl push b = b' at hcwd
    subst hcwd
    by_cases hlen : b'.tLen = 0
    · have hnil : b'.text = [] := by simp [text, hlen]
      simp [hlen, text_push, hnil]
    · have hlast := @temp_last b' (by omega)
      by_cases hslash : b'.temp (b'.tLen - 1) = slash
      · simp [hlen, hlast, hslash]
      · simp [hlast, hslash, text_push]

/-- The loop takes one component after the other. -/
theorem segments_eq (hrounds : p.length ≤ n) :
    segments n p b = (Lookup.components p).foldl segment b := by
  induction n generalizing p b with
  | zero =>
    obtain rfl : p = [] := List.eq_nil_of_length_eq_zero (by omega)
    rfl
  | succ n ih =>
    rw [segments, ← Lookup.components_dropWhile]
    have hhead := List.head?_dropWhile_not (fun c => decide (c = slash)) p
    have hshort := (List.dropWhile_suffix (p := fun c => decide (c = slash)) (l := p)).length_le
    generalize p.dropWhile (· = slash) = q at hhead hshort
    cases q with
    | nil => rfl
    | cons c q =>
      have hc : c ≠ slash := by simpa using hhead
      rw [if_neg (List.cons_ne_nil _ _), Lookup.components_takeWhile hc, List.foldl_cons]
      apply ih
      rw [List.dropWhile_cons_of_pos (by simpa using hc)]
      have hrest := (List.dropWhile_suffix (p := fun d => decide (d ≠ slash)) (l := q)).length_le
      simp only [List.length_cons] at hshort
      omega

theorem text_foldl_segment (comps : List Str) (b : Buffer) :
    (comps.foldl segment b).text = comps.foldl segmentPath b.text := by
  induction comps generalizing b with
  | nil => rfl
  | cons s comps ih => rw [List.foldl_cons, List.foldl_cons, ih, text_segment]

theorem text_segments (hrounds : p.length ≤ n) :
    (segments n p b).text = (Lookup.components p).foldl segmentPath b.text := by
  rw [segments_eq hrounds]
  exact text_foldl_segment (Lookup.components p) b

/-- The string ends at the first zero byte. -/
theorem output_eq (hn : n < b.tLen + 2) (hzero : b.temp n = 0) (h : ∀ i < n, b.temp i ≠ 0) :
    b.output = (List.range n).map b.temp := by
  obtain ⟨k, hk⟩ := Nat.exists_eq_add_of_lt hn
  have hsplit : List.range (b.tLen + 2) = List.range n ++ n :: (List.range k).map (n + 1 + ·) := by
    rw [hk, show n + k + 1 = n + 1 + k by omega, List.range_add, List.range_succ,
      List.append_assoc, List.singleton_append]
  rw [output, hsplit, List.map_append, List.takeWhile_append_of_pos, List.map_cons,
    List.takeWhile_cons_of_neg (by simpa using hzero), List.append_nil]
  intro c hc
  obtain ⟨i, hi, rfl⟩ := List.mem_map.mp hc
  simpa using h i (List.mem_range.mp hi)

/-- A path without a zero byte is put out whole. -/
theorem output_cleanup (h : 0 ∉ b.text) : b.cleanup.output = cleanupPath b.text := by
  have hbytes : ∀ i < b.tLen, b.temp i ≠ 0 := fun i hi hzero =>
    h (List.mem_map.mpr ⟨i, List.mem_range.mpr hi, hzero⟩)
  unfold cleanup cleanupPath
  rw [length_text]
  by_cases hlen : b.tLen = 0
  · have hnil : b.text = [] := by simp [text, hlen]
    rw [if_neg (by omega), if_pos hlen, if_neg (by omega), if_pos hnil]
    exact output_eq (n := 1) (by simp [put]) (by simp [put])
      (by simp [put, slash])
  · have hne : b.text ≠ [] := List.ne_nil_of_length_pos (by rw [length_text]; omega)
    have hlast := @temp_last b (by omega)
    by_cases htrailing : 1 < b.tLen ∧ b.temp (b.tLen - 1) = slash
    · rw [if_pos htrailing, if_pos ⟨htrailing.1, by rw [hlast, htrailing.2]⟩,
        List.dropLast_eq_take, length_text, take_text (by omega)]
      rw [@output_eq _ (b.tLen - 1) (by change b.tLen - 1 < b.tLen + 2; omega) (by simp [put])]
      · exact List.map_congr_left fun i hi =>
          Function.update_of_ne (List.mem_range.mp hi).ne _ _
      · intro i hi
        rw [temp_put_of_ne hi.ne]
        exact hbytes i (by omega)
    · rw [if_neg htrailing, if_neg hlen, if_neg, if_neg hne]
      · rw [@output_eq _ b.tLen (by change b.tLen < b.tLen + 2; omega) (by simp [terminate, put])]
        · exact text_terminate
        · intro i hi
          rw [terminate, temp_put_of_ne hi.ne]
          exact hbytes i hi
      · rw [hlast]
        simpa using htrailing

end Buffer

/-! ## The string in `dest` -/

variable {w x p cwd input : Str} {c : UInt8}

theorem mem_segmentPath (h : c ∈ segmentPath w x) : c ∈ w ∨ c = slash ∨ c ∈ x := by
  unfold segmentPath at h
  split_ifs at h
  · exact .inl h
  · unfold popPath at h
    split_ifs at h
    · exact .inl (List.dropLast_subset _ ((List.rdropWhile_prefix _ _).subset h))
    · exact .inl h
  · rcases List.mem_append.mp h with h | h
    · unfold separated at h
      split_ifs at h
      · rcases List.mem_append.mp h with h | h
        · exact .inl h
        · exact .inr (.inl (List.mem_singleton.mp h))
      · exact .inl h
    · exact .inr (.inr (List.mem_of_mem_take h))

theorem mem_basePath (h : c ∈ basePath cwd input) : c ∈ cwd ∨ c = slash := by
  unfold basePath at h
  split_ifs at h
  · exact .inr (List.mem_singleton.mp h)
  · exact .inl h
  · simpa using h

theorem zero_not_mem_foldl (hw : 0 ∉ w) (hp : 0 ∉ p) :
    0 ∉ (Lookup.components p).foldl segmentPath w := by
  have hnames : ∀ x ∈ Lookup.components p, 0 ∉ x := fun x hx h =>
    hp (Lookup.components_subset hx h)
  generalize Lookup.components p = comps at hnames
  induction comps generalizing w with
  | nil => exact hw
  | cons x comps ih =>
    apply ih
    · intro h
      rcases mem_segmentPath h with h | h | h
      · exact hw h
      · cases h
      · exact hnames x List.mem_cons_self h
    · intro y hy
      exact hnames y (List.mem_cons_of_mem _ hy)

theorem components_tail (input : Str) :
    Lookup.components (if input.head? = some slash then input.tail else input) =
      Lookup.components input := by
  split_ifs with habsolute
  · obtain ⟨p, rfl⟩ : ∃ p, input = slash :: p := List.head?_eq_some_iff.mp habsolute
    rw [Lookup.components_cons_slash, List.tail_cons]
  · rfl

/-- What `resolve_path` leaves in `dest`, of strings alone. -/
theorem dest_resolvePath (stack : ℕ → UInt8) (hcwd : 0 ∉ cwd) (hinput : 0 ∉ input) :
    (resolvePath stack cwd input).dest =
      cleanupPath ((Lookup.components input).foldl segmentPath (basePath cwd input)) := by
  have hbase : 0 ∉ basePath cwd input := fun h => by
    rcases mem_basePath h with h | h
    · exact hcwd h
    · cases h
  have hzero := zero_not_mem_foldl hbase hinput
  rw [resolvePath]
  dsimp only
  have hcomps := components_tail input
  generalize (if input.head? = some slash then input.tail else input) = p at hcomps
  have htext := @Buffer.text_segments (Buffer.base ⟨stack, 0, []⟩ cwd input) p p.length le_rfl
  rw [Buffer.text_base rfl, hcomps] at htext
  rw [Buffer.output_cleanup (by rw [htext]; exact hzero), htext]

theorem zero_not_mem_dest (stack : ℕ → UInt8) (cwd input : Str) :
    0 ∉ (resolvePath stack cwd input).dest := fun h => by
  simpa using List.mem_takeWhile_imp h

end Rhoudveine.Shell
