import Mathlib.Data.List.Forall2
import Mathlib.Tactic.Common

/-!
# Streams through filters

A filter turns one input into any number of outputs and keeps a state. A reader
is asked for up to `n` values at a time. `Drives` says which requests a reader on top
of another one makes and that it puts out what a filter makes of everything it reads,
however the requests cut the stream; `flush` is what it still holds back.
-/

namespace N32905.Lib

variable {σ σ' τ μ ρ α β γ κ κ' : Type*}

/-! ## Filters -/

/-- A filter's state after the inputs, and all it put out. -/
def feed (f : σ → α → σ × List β) (s : σ) : List α → σ × List β
  | [] => (s, [])
  | x :: xs => ((feed f (f s x).1 xs).1, (f s x).2 ++ (feed f (f s x).1 xs).2)

section Feed
variable {f : σ → α → σ × List β} {s : σ}

@[simp] theorem feed_nil : feed f s [] = (s, []) := rfl

@[simp] theorem feed_cons (x : α) (xs : List α) : feed f s (x :: xs) =
    ((feed f (f s x).1 xs).1, (f s x).2 ++ (feed f (f s x).1 xs).2) := rfl

theorem feed_append (xs ys : List α) : feed f s (xs ++ ys) =
    ((feed f (feed f s xs).1 ys).1, (feed f s xs).2 ++ (feed f (feed f s xs).1 ys).2) := by
  induction xs generalizing s with
  | nil => simp
  | cons x xs ih => simp [ih]

/-- Where no input gives more than one output, no list gives more than it has. -/
theorem length_feed_le (h : ∀ s x, (f s x).2.length ≤ 1) (xs : List α) :
    (feed f s xs).2.length ≤ xs.length := by
  induction xs generalizing s with
  | nil => exact Nat.le_refl 0
  | cons x xs ih =>
    have := h s x
    have := ih (s := (f s x).1)
    rw [feed_cons, List.length_append, List.length_cons]
    omega

/-- Where each input gives one output, a list gives as many as it has. -/
theorem length_feed_eq (h : ∀ s x, (f s x).2.length = 1) (xs : List α) :
    (feed f s xs).2.length = xs.length := by
  induction xs generalizing s with
  | nil => rfl
  | cons x xs ih =>
    rw [feed_cons, List.length_append, ih, h, List.length_cons, Nat.add_comm]

/-- **A stream in segments**: where every segment takes an idle state to an idle one, the
outputs come in segments as well. -/
theorem feed_segments {I : σ → Prop} {P : κ → Prop} {R : κ → κ' → Prop} {seg : κ → List α}
    {seg' : κ' → List β}
    (h : ∀ s k, I s → P k → ∃ k', (feed f s (seg k)).2 = seg' k' ∧ R k k' ∧ I (feed f s (seg k)).1)
    (hs : I s) (ks : List κ) (hks : ∀ k ∈ ks, P k) : ∃ ks', (feed f s (ks.flatMap seg)).2 = ks'.flatMap seg' ∧
      List.Forall₂ R ks ks' ∧ I (feed f s (ks.flatMap seg)).1 := by
  induction ks generalizing s with
  | nil => exact ⟨[], rfl, .nil, hs⟩
  | cons k ks ih =>
    obtain ⟨k', hout, hR, hidle⟩ := h s k hs (hks k (by simp))
    obtain ⟨ks', houts, hRs, hidles⟩ := ih hidle fun k hk => hks k (by simp [hk])
    refine ⟨k' :: ks', ?_, .cons hR hRs, ?_⟩
    · rw [List.flatMap_cons, feed_append, List.flatMap_cons, hout, houts]
    · rw [List.flatMap_cons, feed_append]
      exact hidles

def pipe (f : σ → α → σ × List β) (g : σ' → β → σ' × List γ) (s : σ × σ') (x : α) :
    (σ × σ') × List γ :=
  (((f s.1 x).1, (feed g s.2 (f s.1 x).2).1), (feed g s.2 (f s.1 x).2).2)

theorem feed_pipe (g : σ' → β → σ' × List γ) (s' : σ') (xs : List α) :
    feed (pipe f g) (s, s') xs = (((feed f s xs).1, (feed g s' (feed f s xs).2).1),
      (feed g s' (feed f s xs).2).2) := by
  induction xs generalizing s s' with
  | nil => rfl
  | cons x xs ih => simp [ih, pipe, feed_append]

end Feed

/-! ## Readers -/

/-- Asked for up to `n` values a source gives some; `none` is a read that failed. -/
abbrev Reader (ρ α : Type*) := ρ → Nat → ρ × Option (List α)

/-- Never more than asked for. -/
def Honest (rd : Reader ρ α) : Prop := ∀ r n xs, (rd r n).2 = some xs → xs.length ≤ n

/-- The source that gives what is queued, in order. -/
def queued : Reader (List α) α := fun xs n => (xs.drop n, some (xs.take n))

theorem honest_queued : Honest (queued (α := α)) := by
  intro xs n ys hys
  cases hys
  exact List.length_take_le n xs

/-- All that a sequence of requests got. -/
def pulled (rd : Reader ρ α) (r : ρ) : List Nat → ρ × List α
  | [] => (r, [])
  | n :: ns => ((pulled rd (rd r n).1 ns).1, (rd r n).2.getD [] ++ (pulled rd (rd r n).1 ns).2)

section Pulled
variable {rd : Reader ρ α} {r : ρ}

@[simp] theorem pulled_nil : pulled rd r [] = (r, []) := rfl

@[simp] theorem pulled_cons (n : Nat) (ns : List Nat) : pulled rd r (n :: ns) =
    ((pulled rd (rd r n).1 ns).1, (rd r n).2.getD [] ++ (pulled rd (rd r n).1 ns).2) := rfl

theorem pulled_append (ns ms : List Nat) : pulled rd r (ns ++ ms) =
    ((pulled rd (pulled rd r ns).1 ms).1,
      (pulled rd r ns).2 ++ (pulled rd (pulled rd r ns).1 ms).2) := by
  induction ns generalizing r with
  | nil => simp
  | cons n ns ih => simp [ih]

theorem pulled_queued (xs : List α) (ns : List Nat) :
    (pulled queued xs ns).2 ++ (pulled queued xs ns).1 = xs := by
  induction ns generalizing xs with
  | nil => rfl
  | cons n ns ih =>
    rw [pulled_cons, List.append_assoc, ih]
    exact List.take_append_drop n xs

end Pulled

/-- From the state `t` to `t'` the outputs `out` are what `f` makes of the values `xs`, but
for what is held back before and after. -/
structure Filtered (f : σ → α → σ × List β) (flush : τ → σ × List β) (t t' : τ) (xs : List α)
    (out : List β) : Prop where
  state : (flush t').1 = (feed f (flush t).1 xs).1
  out : out ++ (flush t').2 = (flush t).2 ++ (feed f (flush t).1 xs).2

section Filtered
variable {f : σ → α → σ × List β} {flush : τ → σ × List β} {t t' t'' : τ} {xs ys : List α}
  {out out' : List β}

theorem Filtered.refl : Filtered f flush t t [] [] := ⟨rfl, by simp⟩

theorem Filtered.trans (h : Filtered f flush t t' xs out) (h' : Filtered f flush t' t'' ys out') :
    Filtered f flush t t'' (xs ++ ys) (out ++ out') := by
  refine ⟨?_, ?_⟩
  · rw [h'.state, h.state, feed_append]
  · rw [List.append_assoc, h'.out, ← List.append_assoc, h.out, h.state, feed_append,
      List.append_assoc]

end Filtered

/-! ## Readers on readers -/

/-- What a reader asks the one below it for when it is asked for `n` values. -/
abbrev Asks := Nat → List Nat → Prop

def passOn : Asks := fun n ms => ms = [n]

def oneByOne : Asks := fun _ ms => ∀ m ∈ ms, m = 1

def asksBoth (ask ask' : Asks) : Asks :=
  fun n ms => ∃ ls mss, ask n ls ∧ List.Forall₂ ask' ls mss ∧ ms = mss.flatten

section Asks
variable {ask : Asks} {n : Nat} {ms ns : List Nat} {mss : List (List Nat)}

theorem flatten_passOn (h : List.Forall₂ passOn ns mss) : mss.flatten = ns := by
  induction h with
  | nil => rfl
  | cons hone _ ih => rw [List.flatten_cons, ih, hone, List.singleton_append]

theorem flatten_oneByOne (h : List.Forall₂ oneByOne ns mss) : ∀ m ∈ mss.flatten, m = 1 := by
  induction h with
  | nil => simp
  | cons hone _ ih =>
    rw [List.flatten_cons]
    exact List.forall_mem_append.2 ⟨hone, ih⟩

theorem ask_of_passOn_right (h : asksBoth ask passOn n ms) : ask n ms := by
  obtain ⟨ls, mss, hls, hmss, rfl⟩ := h
  rwa [flatten_passOn hmss]

end Asks

/-- `rd` reads `next`, whose state is `below` its own, by the requests `ask`, and filters
by `f`. -/
def Drives (ask : Asks) (rd : Reader τ β) (next : Reader ρ α) (f : σ → α → σ × List β)
    (below : τ → ρ) (flush : τ → σ × List β) : Prop :=
  ∀ t n, ∃ ms, ask n ms ∧ below (rd t n).1 = (pulled next (below t) ms).1 ∧
    Filtered f flush t (rd t n).1 (pulled next (below t) ms).2 ((rd t n).2.getD [])

/-- A call gives as many values as it is asked for, or it ends with a request for one more that
gets none. -/
def Persistent (rd : Reader τ β) (next : Reader ρ α) (below : τ → ρ) : Prop :=
  ∀ t n, ((rd t n).2.getD []).length = n ∨ ∃ ms, (∀ m ∈ ms, m = 1) ∧
    (next (pulled next (below t) ms).1 1).2.getD [] = [] ∧
    below (rd t n).1 = (next (pulled next (below t) ms).1 1).1

section Drives
variable {ask ask' : Asks} {rd : Reader τ γ} {mid : Reader μ β} {next : Reader ρ α}
  {f : σ → α → σ × List β} {g : σ' → β → σ' × List γ} {below : τ → μ} {below' : μ → ρ}
  {flush : τ → σ' × List γ} {flush' : μ → σ × List β}

/-- **Any sequence of requests** filters what is read for it. -/
theorem Drives.run (h : Drives ask rd mid g below flush) (t : τ) (ns : List Nat) :
    ∃ mss, List.Forall₂ ask ns mss ∧
      below (pulled rd t ns).1 = (pulled mid (below t) mss.flatten).1 ∧
      Filtered g flush t (pulled rd t ns).1 (pulled mid (below t) mss.flatten).2
        (pulled rd t ns).2 := by
  induction ns generalizing t with
  | nil => exact ⟨[], .nil, rfl, .refl⟩
  | cons n ns ih =>
    obtain ⟨ms, hask, hbelow, hstep⟩ := h t n
    obtain ⟨mss, hasks, hbelow', hrun⟩ := ih (rd t n).1
    rw [hbelow] at hbelow' hrun
    refine ⟨ms :: mss, .cons hask hasks, ?_, ?_⟩
    · rw [List.flatten_cons, pulled_append]
      exact hbelow'
    · rw [List.flatten_cons, pulled_append]
      exact hstep.trans hrun

/-- What two readers hold back, the lower one's passed through the upper one. -/
def flushBoth (g : σ' → β → σ' × List γ) (below : τ → μ) (flush : τ → σ' × List γ)
    (flush' : μ → σ × List β) (t : τ) : (σ × σ') × List γ :=
  (((flush' (below t)).1, (feed g (flush t).1 (flush' (below t)).2).1),
    (flush t).2 ++ (feed g (flush t).1 (flush' (below t)).2).2)

/-- **Readers compose** as their filters do. -/
theorem Drives.trans (h : Drives ask rd mid g below flush)
    (h' : Drives ask' mid next f below' flush') :
    Drives (asksBoth ask ask') rd next (pipe f g) (below' ∘ below)
      (flushBoth g below flush flush') := by
  intro t n
  obtain ⟨ms, hask, hbelow, htop⟩ := h t n
  obtain ⟨mss, hasks, hbelow', hmid⟩ := h'.run (below t) ms
  rw [← hbelow] at hbelow' hmid
  have hfed : feed g (flush (rd t n).1).1 (flush' (below (rd t n).1)).2 =
      ((feed g (flush t).1 ((pulled mid (below t) ms).2 ++ (flush' (below (rd t n).1)).2)).1,
        (feed g (feed g (flush t).1 (pulled mid (below t) ms).2).1
          (flush' (below (rd t n).1)).2).2) := by
    rw [htop.state, feed_append]
  refine ⟨mss.flatten, ⟨ms, mss, hask, hasks, rfl⟩, hbelow', ?_, ?_⟩
  · simp only [flushBoth, feed_pipe, Function.comp_apply, hfed, hmid.state, hmid.out, feed_append]
  · have hout := congrArg (fun l => (flush t).2 ++ (feed g (flush t).1 l).2) hmid.out
    simp only [feed_append, ← List.append_assoc] at hout
    simp only [flushBoth, feed_pipe, Function.comp_apply, hfed, ← List.append_assoc, htop.out]
    exact hout

end Drives

end N32905.Lib
