import Rhoudveine.Lib.Run

/-!
# A cursor over a growing list

A list that only grows at its end is read through an index.  Every element is reported once and
in order, however reads and growth alternate.
-/

namespace Rhoudveine.Cursor

variable {σ α : Type*} {listing : σ → List α} {cursor : σ → ℕ} {s s' : σ}

/-- A read, with what it returned, or growth. -/
inductive Step (listing : σ → List α) (cursor : σ → ℕ) (s : σ) : Option (Option α) → σ → Prop
  | read {a : α} {s' : σ} : (listing s)[cursor s]? = some a → listing s' = listing s →
      cursor s' = cursor s + 1 → Step listing cursor s (some (some a)) s'
  | exhausted {s' : σ} : (listing s)[cursor s]? = none → listing s' = listing s →
      cursor s' = cursor s → Step listing cursor s (some none) s'
  | grow {s' : σ} : listing s <+: listing s' → cursor s' = cursor s →
      Step listing cursor s none s'

/-- What the reads returned. -/
def reports (events : List (Option (Option α))) : List α := events.filterMap Option.join

/-- What was read before a step and what it reports is what was read after it. -/
theorem Step.reports {event : Option (Option α)} (h : Step listing cursor s event s')
    (hle : cursor s ≤ (listing s).length) :
    (listing s).take (cursor s) ++ reports [event] = (listing s').take (cursor s') ∧
      cursor s' ≤ (listing s').length ∧ listing s <+: listing s' := by
  cases h with
  | @read a _ hget hlist hcur =>
    obtain ⟨hlt, heq⟩ := List.getElem?_eq_some_iff.mp hget
    refine ⟨?_, ?_, ?_⟩
    · rw [hlist, hcur, List.take_add_one, hget]
      rfl
    · rw [hlist, hcur]
      exact hlt
    · rw [hlist]
  | exhausted hget hlist hcur =>
    rw [hlist, hcur]
    exact ⟨List.append_nil _, hle, List.prefix_rfl⟩
  | grow hgrow hcur =>
    obtain ⟨more, hmore⟩ := hgrow
    refine ⟨?_, ?_, ⟨more, hmore⟩⟩
    · rw [hcur, ← hmore, List.take_append_of_le_length hle]
      exact List.append_nil _
    · rw [hcur, ← hmore, List.length_append]
      omega

theorem run_reports {events : List (Option (Option α))}
    (hrun : Run (Step listing cursor) s events s') (hle : cursor s ≤ (listing s).length) :
    (listing s).take (cursor s) ++ reports events = (listing s').take (cursor s') ∧
      cursor s' ≤ (listing s').length ∧ listing s <+: listing s' := by
  induction hrun with
  | nil s => exact ⟨List.append_nil _, hle, List.prefix_rfl⟩
  | @cons s t u event events hstep _ ih =>
    obtain ⟨hfirst, hle', hgrow⟩ := hstep.reports hle
    obtain ⟨hrest, hle'', hgrow'⟩ := ih hle'
    have hcons : reports (event :: events) = reports [event] ++ reports events :=
      List.filterMap_append (l := [event])
    exact ⟨by rw [hcons, ← List.append_assoc, hfirst, hrest], hle'', hgrow.trans hgrow'⟩

/-- From the start of the list on, the reports are its beginning, as far as the cursor. -/
theorem run_reports_from_start {events : List (Option (Option α))}
    (hrun : Run (Step listing cursor) s events s') (hstart : cursor s = 0) :
    reports events = (listing s').take (cursor s') ∧ (reports events).length = cursor s' ∧
      listing s <+: listing s' := by
  obtain ⟨hreports, hle, hgrow⟩ := run_reports hrun (hstart ▸ Nat.zero_le _)
  rw [hstart, List.take_zero, List.nil_append] at hreports
  exact ⟨hreports, by rw [hreports, List.length_take_of_le hle], hgrow⟩

end Rhoudveine.Cursor
