import Mathlib.Algebra.Ring.Int.Defs
import Mathlib.Data.List.Forall2

/-!
# Touchscreen samples

What the layers of tslib pass on, and strokes: a pen that goes down, moves and is
lifted. A sample with pressure 0 says that the pen is up.
-/

namespace N32905.Tslib

structure Timeval where
  tv_sec : BitVec 32
  tv_usec : BitVec 32
  deriving DecidableEq, Repr

/-- `struct ts_sample`. `x` and `y` are signed, the pressure is not. -/
structure Sample where
  x : BitVec 32
  y : BitVec 32
  pressure : BitVec 32
  tv : Timeval
  deriving DecidableEq, Repr

def Sample.Pressed (s : Sample) : Prop := s.pressure ≠ 0

instance (s : Sample) : Decidable s.Pressed := inferInstanceAs (Decidable (_ ≠ _))

/-- Samples with the pen down, and the one that says it was lifted. -/
structure Stroke where
  presses : List Sample
  release : Sample
  presses_ne : presses ≠ []
  pressed : ∀ s ∈ presses, s.Pressed
  released : ¬ release.Pressed

def Stroke.samples (st : Stroke) : List Sample := st.presses ++ [st.release]

/-- A stream of whole strokes and, at the end, of one still going on. -/
structure Strokes where
  done : List Stroke
  current : List Sample
  pressed : ∀ s ∈ current, s.Pressed

def Strokes.samples (ss : Strokes) : List Sample := ss.done.flatMap Stroke.samples ++ ss.current

namespace Strokes

def start : Strokes := ⟨[], [], by simp⟩

def press (ss : Strokes) (s : Sample) (hs : s.Pressed) : Strokes where
  done := ss.done
  current := ss.current ++ [s]
  pressed := by
    intro t ht
    rcases List.mem_append.1 ht with ht | ht
    · exact ss.pressed t ht
    · rw [List.mem_singleton.1 ht]
      exact hs

def lift (ss : Strokes) (r : Sample) (hr : ¬ r.Pressed) (hne : ss.current ≠ []) : Strokes where
  done := ss.done ++ [⟨ss.current, r, hne, ss.pressed, hr⟩]
  current := []
  pressed := by simp

variable (ss : Strokes) {s : Sample}

@[simp] theorem samples_start : start.samples = [] := rfl

@[simp] theorem samples_press (hs : s.Pressed) : (ss.press s hs).samples = ss.samples ++ [s] := by
  simp [samples, press]

@[simp] theorem samples_lift (hs : ¬ s.Pressed) (hne : ss.current ≠ []) :
    (ss.lift s hs hne).samples = ss.samples ++ [s] := by
  simp [samples, lift, Stroke.samples]

theorem current_of_getLast? {ss : Strokes} {r : Sample} (h : ss.samples.getLast? = some r)
    (hr : ¬ r.Pressed) : ss.current = [] := by
  by_contra hne
  obtain ⟨last, hlast⟩ := Option.isSome_iff_exists.1 (List.getLast?_isSome.2 hne)
  rw [samples, List.getLast?_append, hlast, Option.some_or, Option.some.injEq] at h
  exact hr (h ▸ ss.pressed last (List.mem_of_getLast? hlast))

theorem length_done : ss.done.length = (ss.samples.filter fun s => decide ¬ s.Pressed).length := by
  have hcur : ss.current.filter (fun s => decide ¬ s.Pressed) = [] := by
    rw [List.filter_eq_nil_iff]
    intro s hs
    simpa using ss.pressed s hs
  have hst : ∀ st : Stroke, (st.samples.filter fun s => decide ¬ s.Pressed).length = 1 := by
    intro st
    have hpresses : st.presses.filter (fun s => decide ¬ s.Pressed) = [] := by
      rw [List.filter_eq_nil_iff]
      intro s hs
      simpa using st.pressed s hs
    rw [Stroke.samples, List.filter_append, hpresses, List.filter_cons_of_pos (by simpa using st.released)]
    rfl
  rw [samples, List.filter_append, hcur, List.append_nil]
  induction ss.done with
  | nil => rfl
  | cons st sts ih =>
    rw [List.flatMap_cons, List.filter_append, List.length_append, ← ih, hst, List.length_cons,
      Nat.add_comm]

end Strokes

/-- A short stroke as a device gives it. -/
def tap : Stroke where
  presses := [⟨100, 50, 40, ⟨0, 0⟩⟩, ⟨102, 51, 60, ⟨0, 10⟩⟩, ⟨102, 50, 55, ⟨0, 20⟩⟩]
  release := ⟨0, 0, 0, ⟨0, 30⟩⟩
  presses_ne := by decide
  pressed := by decide
  released := by decide

end N32905.Tslib
