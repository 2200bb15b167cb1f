import Rhoudveine.Fs.State

/-!
# The configuration menu

`menuconfig.c`: the items of a Kconfig file, their dependencies, and the main loop over the keys up
to the configuration that Enter saves.
-/

namespace Rhoudveine.Menuconfig
open Fs

/-! ## The code -/

/-- The fields of `ConfigItem` that the loop uses. -/
structure ConfigItem where
  name : Str
  value : Bool
  dependency : Str
  deriving DecidableEq, Repr

def isSpace (c : UInt8) : Bool := c = 0x20 || (0x09 ≤ c && c ≤ 0x0D)

/-- `load_config` on one line of the file, as `fgets` returns it. -/
def loadLine (items : List ConfigItem) (line : Str) : List ConfigItem :=
  let p := (line.takeWhile (· ≠ 0)).dropWhile isSpace
  if p = [] ∨ p.head? = some 0x23 then items
  else
    let name := p.takeWhile (· ≠ 0x3D)
    match p.dropWhile (· ≠ 0x3D) with
    | [] => items
    | _ :: val =>
      items.map fun item =>
        if item.name = name then { item with value := (val.dropWhile isSpace).head? = some 0x79 }
        else item

def loadConfig (lines : List Str) (items : List ConfigItem) : List ConfigItem :=
  lines.foldl loadLine items

/-- What `save_config` writes: a line `name=y` or `name=n` for each item. -/
def saveConfig (items : List ConfigItem) : List (Str × Bool) :=
  items.map fun item => (item.name, item.value)

/-- The item that the loop of `is_visible` finds for an item with a dependency. -/
def dependsOn (items : List ConfigItem) (index : ℕ) : Option ℕ :=
  match items[index]? with
  | none => none
  | some item =>
    if item.dependency = [] then none
    else items.findIdx? fun d => d.name = item.dependency

def valueAt (items : List ConfigItem) (index : ℕ) : Bool := (items[index]?.map (·.value)).getD false

def isVisible (items : List ConfigItem) (index : ℕ) : Bool :=
  match dependsOn items index with
  | none => true
  | some i => valueAt items i

def setValue (items : List ConfigItem) (index : ℕ) (value : Bool) : List ConfigItem :=
  items.modify index fun item => { item with value := value }

/-- The rounds of `validate_dependencies` for the items below `count`. -/
def validateBelow (items : List ConfigItem) (count : ℕ) : List ConfigItem :=
  (List.range count).foldl
    (fun items i => if isVisible items i then items else setValue items i false) items

def validateDependencies (items : List ConfigItem) : List ConfigItem :=
  validateBelow items items.length

structure Menu where
  items : List ConfigItem
  selected : ℕ

/-- Space. -/
def Menu.toggle (m : Menu) : Menu :=
  if isVisible m.items m.selected then
    { m with items := setValue m.items m.selected (!valueAt m.items m.selected) }
  else m

/-- The two bytes behind an escape. -/
def Menu.move (m : Menu) (seq0 seq1 : UInt8) : Menu :=
  if seq0 = 0x5B then
    if seq1 = 0x41 then { m with selected := m.selected - 1 }
    else if seq1 = 0x42 then
      if m.selected + 1 < m.items.length then { m with selected := m.selected + 1 } else m
    else m
  else m

def Menu.validated (m : Menu) : Menu := { m with items := validateDependencies m.items }

/-- How a round of the loop ends: it leaves the loop, it saves, or it goes on with the keys behind
those that it has read. -/
inductive Round
  | quit
  | save
  | go (m : Menu) (keys : List UInt8)

/-- The keys of a round; one that finds no key waits and saves nothing. -/
def Menu.round (m : Menu) : List UInt8 → Round
  | [] => .quit
  | c :: keys =>
    if c = 0x71 then .quit
    else if c = 10 then .save
    else if c = 0x20 then .go m.toggle keys
    else if c = 27 then
      match keys with
      | seq0 :: seq1 :: keys => .go (m.move seq0 seq1) keys
      | _ => .quit
    else .go m keys

/-- The menu at the beginning of the round in which Enter saves. -/
def lastHead : (rounds : ℕ) → Menu → List UInt8 → Option Menu
  | 0, _, _ => none
  | rounds + 1, m, keys =>
    match m.validated.round keys with
    | .quit => none
    | .save => some m
    | .go m' keys' => lastHead rounds m' keys'

/-- `main`, with the items that `parse_kconfig` finds. -/
def beforeSave (kconfig : List ConfigItem) (lines : List Str) (keys : List UInt8) : Option Menu :=
  lastHead (keys.length + 1) ⟨loadConfig lines kconfig, 0⟩ keys

/-- The configuration that it saves. -/
def menuconfig (kconfig : List ConfigItem) (lines : List Str) (keys : List UInt8) :
    Option (List (Str × Bool)) :=
  (beforeSave kconfig lines keys).map fun m => saveConfig m.validated.items

/-! ## Closed configurations -/

/-- No item is on that depends on an item which is off. -/
def Closed (kconfig : List ConfigItem) (saved : List (Str × Bool)) : Prop :=
  ∀ i j, dependsOn kconfig i = some j → (saved[i]?.map (·.2)) = some true →
    (saved[j]?.map (·.2)) ≠ some false

/-- The item is on and is turned off when the dependencies are validated in the order of the items:
what it depends on is off, or comes before it and is turned off too. -/
inductive Falls (items : List ConfigItem) : ℕ → Prop
  | off {i j : ℕ} : valueAt items i = true → dependsOn items i = some j →
    valueAt items j = false → Falls items i
  | after {i j : ℕ} : valueAt items i = true → dependsOn items i = some j → j < i →
    Falls items j → Falls items i

/-- No item that stays on depends on a later one that is turned off. -/
def Settled (items : List ConfigItem) : Prop :=
  ∀ i j, dependsOn items i = some j → i < j → valueAt items i = true → ¬ Falls items i →
    ¬ Falls items j

/-! ## Names and dependencies stay -/

variable {items items' : List ConfigItem} {i j k : ℕ} {value : Bool} {m m' : Menu}
  {keys keys' : List UInt8} {rounds : ℕ}

def shape (items : List ConfigItem) : List (Str × Str) :=
  items.map fun item => (item.name, item.dependency)

/-- The values do not matter to the dependencies. -/
theorem dependsOn_congr (h : shape items = shape items') (i : ℕ) :
    dependsOn items i = dependsOn items' i := by
  have hfind : ∀ name, items.findIdx? (fun d => d.name = name) =
      items'.findIdx? fun d => d.name = name := by
    intro name
    have hmap := congrArg (List.findIdx? fun d => decide (d.1 = name)) h
    rw [shape, shape, List.findIdx?_map, List.findIdx?_map] at hmap
    exact hmap
  have hget := congrArg (·[i]?) h
  simp only [shape, List.getElem?_map] at hget
  unfold dependsOn
  cases hitem : items[i]? with
  | none =>
    cases hitem' : items'[i]? with
    | none => rfl
    | some item' => simp [hitem, hitem'] at hget
  | some item =>
    cases hitem' : items'[i]? with
    | none => simp [hitem, hitem'] at hget
    | some item' =>
      simp only [hitem, hitem', Option.map_some, Option.some.injEq, Prod.mk.injEq] at hget
      simp only [hget.2, hfind]

theorem shape_setValue : shape (setValue items k value) = shape items := by
  apply List.ext_getElem?
  intro i
  simp only [shape, setValue, List.getElem?_map, List.getElem?_modify]
  cases items[i]? with
  | none => rfl
  | some item => split_ifs <;> rfl

theorem valueAt_setValue (hk : k < items.length) :
    valueAt (setValue items k value) i = if i = k then value else valueAt items i := by
  simp only [valueAt, setValue, List.getElem?_modify]
  by_cases hi : i = k
  · subst hi
    simp [List.getElem?_eq_getElem hk]
  · simp [hi, Ne.symm hi]

theorem shape_loadLine (line : Str) : shape (loadLine items line) = shape items := by
  unfold loadLine
  dsimp only
  split_ifs
  · rfl
  · split
    · rfl
    · simp only [shape, List.map_map]
      apply List.map_congr_left
      intro item _
      dsimp only [Function.comp]
      split_ifs <;> rfl

theorem shape_loadConfig (lines : List Str) : shape (loadConfig lines items) = shape items := by
  induction lines generalizing items with
  | nil => rfl
  | cons line lines ih => exact ih.trans (shape_loadLine line)

theorem shape_validateBelow (count : ℕ) : shape (validateBelow items count) = shape items := by
  unfold validateBelow
  induction List.range count generalizing items with
  | nil => rfl
  | cons i indices ih =>
    rw [List.foldl_cons, ih]
    split_ifs
    · rfl
    · exact shape_setValue

theorem shape_toggle : shape m.toggle.items = shape m.items := by
  unfold Menu.toggle
  split_ifs
  · exact shape_setValue
  · rfl

theorem items_move (seq0 seq1 : UInt8) : (m.move seq0 seq1).items = m.items := by
  unfold Menu.move
  split_ifs <;> rfl

/-- A round that goes on leaves names and dependencies, and has read a key. -/
theorem round_go (h : m.round keys = .go m' keys') :
    shape m'.items = shape m.items ∧ keys'.length < keys.length := by
  cases keys with
  | nil => cases h
  | cons c keys =>
    unfold Menu.round at h
    dsimp only at h
    split_ifs at h
    · obtain ⟨rfl, rfl⟩ := Round.go.inj h
      exact ⟨shape_toggle, Nat.lt_succ_self _⟩
    · split at h
      · obtain ⟨rfl, rfl⟩ := Round.go.inj h
        refine ⟨congrArg shape (items_move _ _), ?_⟩
        simp only [List.length_cons]
        omega
      · cases h
    · obtain ⟨rfl, rfl⟩ := Round.go.inj h
      exact ⟨rfl, Nat.lt_succ_self _⟩

theorem shape_lastHead (h : lastHead rounds m keys = some m') : shape m'.items = shape m.items := by
  induction rounds generalizing m keys with
  | zero => cases h
  | succ rounds ih =>
    rw [lastHead] at h
    cases hround : m.validated.round keys with
    | quit => simp [hround] at h
    | save =>
      simp only [hround, Option.some.injEq] at h
      rw [h]
    | go next rest =>
      simp only [hround] at h
      exact (ih h).trans ((round_go hround).1.trans (shape_validateBelow _))

/-- Every round reads a key, so that there are at most as many rounds as keys and one more. -/
theorem lastHead_enough {rounds' : ℕ} (h : keys.length < rounds) (h' : keys.length < rounds') :
    lastHead rounds m keys = lastHead rounds' m keys := by
  induction rounds generalizing m keys rounds' with
  | zero => omega
  | succ rounds ih =>
    obtain ⟨rounds', rfl⟩ := Nat.exists_eq_succ_of_ne_zero (by omega : rounds' ≠ 0)
    rw [lastHead, lastHead]
    cases hround : m.validated.round keys with
    | quit => rfl
    | save => rfl
    | go next rest =>
      have hless := (round_go hround).2
      exact ih (by omega) (by omega)

/-! ## One pass -/

theorem validateBelow_succ (items : List ConfigItem) (count : ℕ) :
    validateBelow items (count + 1) =
      if isVisible (validateBelow items count) count then validateBelow items count
      else setValue (validateBelow items count) count false := by
  unfold validateBelow
  rw [List.range_succ, List.foldl_append, List.foldl_cons, List.foldl_nil]

theorem length_validateBelow (count : ℕ) : (validateBelow items count).length = items.length := by
  have hshape := congrArg List.length (@shape_validateBelow items count)
  rwa [shape, shape, List.length_map, List.length_map] at hshape

/-- An item falls exactly when it is on and, when its turn comes, what it depends on is off. -/
theorem falls_iff : Falls items i ↔ valueAt items i = true ∧ ∃ j, dependsOn items i = some j ∧
    ¬ (valueAt items j = true ∧ ¬ (j < i ∧ Falls items j)) := by
  constructor
  · intro h
    cases h with
    | off hon hdep hoff => exact ⟨hon, _, hdep, fun hand => by simp [hoff] at hand⟩
    | after hon hdep hlt hfalls => exact ⟨hon, _, hdep, fun hand => hand.2 ⟨hlt, hfalls⟩⟩
  · rintro ⟨hon, j, hdep, hnot⟩
    by_cases hj : valueAt items j = true
    · obtain ⟨hlt, hfalls⟩ := not_not.mp fun h => hnot ⟨hj, h⟩
      exact Falls.after hon hdep hlt hfalls
    · exact Falls.off hon hdep (Bool.eq_false_of_not_eq_true hj)

/-- The rounds so far have turned off the items that fall. -/
theorem valueAt_validateBelow {count : ℕ} (hcount : count ≤ items.length) (i : ℕ) :
    valueAt (validateBelow items count) i = true ↔
      valueAt items i = true ∧ ¬ (i < count ∧ Falls items i) := by
  induction count generalizing i with
  | zero => simp [validateBelow]
  | succ count ih =>
    have ih := fun i => ih (by omega) i
    have hdep : dependsOn (validateBelow items count) count = dependsOn items count :=
      dependsOn_congr (shape_validateBelow count) count
    have hlater : i ≠ count → (i < count + 1 ∧ Falls items i ↔ i < count ∧ Falls items i) :=
      fun hne => and_congr_left fun _ => ⟨fun h => by omega, fun h => by omega⟩
    rw [validateBelow_succ]
    have hturn : valueAt items count = true →
        (isVisible (validateBelow items count) count = true ↔ ¬ Falls items count) := by
      intro hon
      rw [falls_iff, isVisible, hdep]
      cases hd : dependsOn items count with
      | none => simp
      | some j => simp [ih, hon]
    by_cases hvisible : isVisible (validateBelow items count) count = true
    · rw [if_pos hvisible, ih]
      by_cases hi : i = count
      · subst hi
        refine and_congr_right fun hon => ?_
        simp [hturn hon |>.mp hvisible]
      · rw [hlater hi]
    · rw [if_neg hvisible, valueAt_setValue (by rw [length_validateBelow]; omega)]
      by_cases hi : i = count
      · subst hi
        rw [if_pos rfl]
        refine iff_of_false Bool.false_ne_true fun hand => hand.2 ⟨Nat.lt_succ_self _, ?_⟩
        exact not_not.mp fun hnot => hvisible ((hturn hand.1).mpr hnot)
      · rw [if_neg hi, ih, hlater hi]

theorem valueAt_of_length_le (h : items.length ≤ i) : valueAt items i = false := by
  simp [valueAt, List.getElem?_eq_none h]

/-- A pass turns off the items that fall. -/
theorem valueAt_validateDependencies (i : ℕ) : valueAt (validateDependencies items) i = true ↔
    valueAt items i = true ∧ ¬ Falls items i := by
  rw [validateDependencies, valueAt_validateBelow le_rfl]
  refine and_congr_right fun hon => not_congr (and_iff_right ?_)
  by_contra hle
  rw [valueAt_of_length_le (not_lt.mp hle)] at hon
  cases hon

theorem getElem?_saveConfig (i : ℕ) :
    (saveConfig items)[i]?.map (·.2) = items[i]?.map (·.value) := by
  simp [saveConfig, Function.comp_def]

theorem dependsOn_lt (h : dependsOn items i = some j) : j < items.length := by
  unfold dependsOn at h
  cases hitem : items[i]? with
  | none => simp [hitem] at h
  | some item =>
    simp only [hitem] at h
    split_ifs at h
    exact (List.findIdx?_eq_some_iff_getElem.mp h).1

theorem closed_congr {saved : List (Str × Bool)} (h : shape items = shape items') :
    Closed items saved ↔ Closed items' saved := by
  unfold Closed
  simp only [dependsOn_congr h]

theorem closed_saveConfig : Closed items (saveConfig items) ↔
    ∀ i j, dependsOn items i = some j → valueAt items i = true → valueAt items j = true := by
  refine forall₂_congr fun i j => forall_congr' fun hdep => imp_congr ?_ ?_
  · rw [getElem?_saveConfig, valueAt]
    cases items[i]? with
    | none => simp
    | some item => simp
  · rw [getElem?_saveConfig, valueAt, List.getElem?_eq_getElem (dependsOn_lt hdep)]
    simp

/-- After a pass an item that is on can only depend on a later item which has just fallen. -/
theorem closed_validateDependencies : Closed items (saveConfig (validateDependencies items)) ↔
    Settled items := by
  rw [← closed_congr (shape_validateBelow items.length), ← validateDependencies, closed_saveConfig]
  have hdep : ∀ i, dependsOn (validateDependencies items) i = dependsOn items i :=
    dependsOn_congr (shape_validateBelow items.length)
  simp only [hdep, valueAt_validateDependencies]
  constructor
  · intro hclosed i j hij _ hon hstays
    exact (hclosed i j hij ⟨hon, hstays⟩).2
  · rintro hsettled i j hij ⟨hon, hstays⟩
    have hj : valueAt items j = true := by
      by_contra hoff
      exact hstays (Falls.off hon hij (Bool.eq_false_of_not_eq_true hoff))
    refine ⟨hj, fun hfalls => ?_⟩
    rcases lt_trichotomy i j with hlt | rfl | hgt
    · exact hsettled i j hij hlt hon hstays hfalls
    · exact hstays hfalls
    · exact hstays (Falls.after hon hij hgt hfalls)

/-- With every dependency before the items that depend on it, one pass settles everything. -/
theorem settled_of_ordered (h : ∀ i j, dependsOn items i = some j → j < i) : Settled items :=
  fun i j hij hlt => absurd (h i j hij) (by omega)

/-- The configuration that Enter saves is closed exactly when, in the pass before it, no item that
stays on depends on a later one that is turned off. -/
theorem saved_closed_iff (kconfig : List ConfigItem) (lines : List Str) (keys : List UInt8) :
    (∀ saved ∈ menuconfig kconfig lines keys, Closed kconfig saved) ↔
      ∀ m ∈ beforeSave kconfig lines keys, Settled m.items := by
  unfold menuconfig
  cases hbefore : beforeSave kconfig lines keys with
  | none => simp
  | some m =>
    have hshape : shape kconfig = shape m.items :=
      ((shape_lastHead hbefore).trans (shape_loadConfig lines)).symm
    simp only [Option.map_some, Option.mem_some_iff, forall_eq']
    rw [closed_congr hshape]
    exact closed_validateDependencies

/-- The first item depends on the second one and the second one on the third. -/
def chain : List ConfigItem :=
  [⟨str "A", true, str "B"⟩, ⟨str "B", true, str "C"⟩, ⟨str "C", true, []⟩]

/-- The third item is turned off, and Enter follows at once. -/
theorem chain_not_closed :
    ¬ ∀ (kconfig : List ConfigItem) (lines : List Str) (keys : List UInt8),
      ∀ saved ∈ menuconfig kconfig lines keys, Closed kconfig saved := by
  intro hall
  have hclosed := hall chain [] [27, 0x5B, 0x42, 27, 0x5B, 0x42, 0x20, 10]
    [(str "A", true), (str "B", false), (str "C", false)] (by decide +kernel)
  exact hclosed 0 1 (by decide +kernel) rfl rfl

end Rhoudveine.Menuconfig
