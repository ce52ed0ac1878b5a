import Mathlib

/-!
# The moments of a sliding window

A log of moments is cut down as time goes on: each new one is appended, and the
oldest are dropped up to the first that the window still covers. `Keeps` says
that such a log answers for the whole history: at every later moment the window
holds the same of both. A push keeps it, and leaves exactly the moments the
window covers.

The moments never go back. Without that the first moment covered would hide
older ones behind it, and the log would hold too many.
-/

namespace Tape.Window

/-- The history with one more moment, no earlier than the others. -/
theorem pairwise_concat {α : Type*} [LE α] {times : List α} {now : α}
    (h : times.Pairwise (· ≤ ·)) (hnow : ∀ time ∈ times, time ≤ now) :
    (times ++ [now]).Pairwise (· ≤ ·) := by
  rw [List.pairwise_append]
  refine ⟨h, List.pairwise_singleton _ _, fun time htime last hlast => ?_⟩
  rw [List.mem_singleton.mp hlast]
  exact hnow time htime

variable {α : Type*} [AddCommGroup α] [LinearOrder α]

/-- The moments less than a window's width before now. -/
def recent (width now : α) (times : List α) : List α :=
  times.filter fun time => now - time < width

/-- A moment appended, and the oldest dropped that the window no longer covers. -/
def push (width now : α) (times : List α) : List α :=
  (times ++ [now]).dropWhile fun time => now - time ≥ width

@[simp] theorem recent_append (width now : α) (xs ys : List α) :
    recent width now (xs ++ ys) = recent width now xs ++ recent width now ys :=
  List.filter_append xs ys

/-- A log holds what any later window covers of a history. -/
structure Keeps (width : α) (kept times : List α) : Prop where
  ordered : times.Pairwise (· ≤ ·)
  latest : kept <:+ times
  covers : ∀ now, (∀ time ∈ times, time ≤ now) → recent width now kept = recent width now times

theorem keeps_nil (width : α) : Keeps width [] [] where
  ordered := .nil
  latest := List.suffix_rfl
  covers _ _ := rfl

variable [IsOrderedAddMonoid α] {width now later : α} {times kept : List α}

/-- What a window covers no more it never covers again. -/
theorem recent_recent (h : now ≤ later) (times : List α) :
    recent width later (recent width now times) = recent width later times := by
  rw [recent, recent, recent, List.filter_filter]
  refine List.filter_congr fun time _ => ?_
  have hlater : later - time < width → now - time < width :=
    (sub_le_sub_right h time).trans_lt
  simpa using hlater

/-- In order, the moments behind the first one covered are covered too. -/
theorem dropWhile_eq_recent (h : times.Pairwise (· ≤ ·)) :
    times.dropWhile (fun time => now - time ≥ width) = recent width now times := by
  induction times with
  | nil => rfl
  | cons time rest ih =>
      obtain ⟨hfirst, hrest⟩ := List.pairwise_cons.mp h
      rw [List.dropWhile_cons, recent, List.filter_cons]
      by_cases hcovered : now - time < width
      · have hall : ∀ t ∈ rest, now - t < width :=
          fun t ht => (sub_le_sub_left (hfirst t ht) now).trans_lt hcovered
        rw [if_neg (by simpa using hcovered), if_pos (by simpa using hcovered),
          List.filter_eq_self.mpr (by simpa using hall)]
      · rw [if_pos (by simpa using hcovered), if_neg (by simpa using hcovered)]
        exact ih hrest

/-- A push leaves what the window covers of the whole history. -/
theorem Keeps.push_eq (h : Keeps width kept times) (hnow : ∀ time ∈ times, time ≤ now) :
    push width now kept = recent width now (times ++ [now]) := by
  have hordered : (kept ++ [now]).Pairwise (· ≤ ·) :=
    pairwise_concat (h.ordered.sublist h.latest.sublist) fun t ht => hnow t (h.latest.subset ht)
  rw [push, dropWhile_eq_recent hordered, recent_append, recent_append, h.covers now hnow]

theorem Keeps.push (h : Keeps width kept times) (hnow : ∀ time ∈ times, time ≤ now) :
    Keeps width (push width now kept) (times ++ [now]) where
  ordered := pairwise_concat h.ordered hnow
  latest := by
    obtain ⟨older, holder⟩ := h.latest
    refine (List.dropWhile_suffix _).trans ⟨older, ?_⟩
    rw [← List.append_assoc, holder]
  covers := by
    intro later hlater
    have hle : now ≤ later := hlater now (by simp)
    rw [h.push_eq hnow, recent_recent hle]

end Tape.Window
