import Mathlib.Data.List.Basic
import Mathlib.Tactic.Choose

/-!
# Operator precedence

An expression is read from left to right with a stack of operators and one of operands.
An operator waits on its stack until one comes that does not bind tighter. Applying an
operator is any computation on the operands. `run_derives` says that reading what the
grammar of precedences derives from a tree computes the tree, its leaves and nodes from
left to right (`evalOn`).
-/

namespace N32905.Lib.Precedence

variable {α ω σ : Type}

/-! ## Operators and tokens -/

inductive Fixity
  | bin
  | pre
  | post
  deriving DecidableEq

/-- Operators by precedence. A symbol can be one operator behind an operand and another where an
operand is due. -/
structure OpTable (ω σ : Type) where
  prec : ω → Nat
  right : Nat → Bool
  fixity : ω → Fixity
  classify : Bool → σ → ω
  /-- the precedence from which operators take one operand -/
  unary : Nat
  bin_lt : ∀ o, fixity o = .bin → prec o < unary
  unary_le : ∀ o, fixity o ≠ .bin → unary ≤ prec o

inductive Token (α σ : Type)
  | operand (a : α)
  | sym (s : σ)
  | lparen
  | rparen
  deriving DecidableEq

def Token.isOperand : Token α σ → Bool
  | .operand _ => true
  | _ => false

/-- The stacks, `none` for an open parenthesis, and whether the last token ends an operand. -/
structure Stacks (ω α : Type) where
  ops : List (Option ω)
  nums : List α
  ended : Bool

/-! ## The two stacks -/

/-- `top` is applied before `new` is pushed. -/
def OpTable.Yields (T : OpTable ω σ) (new top : ω) : Prop :=
  ¬ T.prec top < T.prec new ∧ ¬ (T.prec top = T.prec new ∧ T.right (T.prec new) = true)

instance (T : OpTable ω σ) (new top : ω) : Decidable (T.Yields new top) :=
  inferInstanceAs (Decidable (_ ∧ _))

section Machine
variable {m : Type → Type} [Monad m] (T : OpTable ω σ) (apply : ω → List α → m (List α))
  (fail : m (Stacks ω α))

def applyAll : List ω → List α → m (List α)
  | [], ns => pure ns
  | o :: os, ns => apply o ns >>= applyAll os

def shift (new : ω) : List (Option ω) → List α → m (List (Option ω) × List α)
  | some top :: s, ns =>
    if T.Yields new top then apply top ns >>= shift new s else pure (some top :: s, ns)
  | s, ns => pure (s, ns)

def close : List (Option ω) → List α → m (Stacks ω α)
  | some top :: s, ns => apply top ns >>= close s
  | none :: s, ns => pure ⟨s, ns, true⟩
  | [], _ => fail

def step (st : Stacks ω α) : Token α σ → m (Stacks ω α)
  | .operand a => pure { st with nums := a :: st.nums, ended := true }
  | .lparen => pure { st with ops := none :: st.ops, ended := false }
  | .rparen => if st.ended then close apply fail st.ops st.nums else fail
  | .sym s =>
    match T.fixity (T.classify st.ended s) with
    | .bin =>
      if st.ended then do
        let (ops, ns) ← shift T apply (T.classify st.ended s) st.ops st.nums
        pure ⟨some (T.classify st.ended s) :: ops, ns, false⟩
      else fail
    | .pre => pure ⟨some (T.classify st.ended s) :: st.ops, st.nums, false⟩
    | .post => pure ⟨some (T.classify st.ended s) :: st.ops, st.nums, true⟩

def run (ts : List (Token α σ)) (st : Stacks ω α) : m (Stacks ω α) :=
  ts.foldlM (step T apply fail) st

end Machine

/-! ## Trees -/

inductive Tree (α ω : Type)
  | leaf (a : α)
  | un (o : ω) (t : Tree α ω)
  | bin (o : ω) (l r : Tree α ω)

/-- The tree on top of the operands `ns`. -/
def evalOn {m : Type → Type} [Monad m] (apply : ω → List α → m (List α)) :
    Tree α ω → List α → m (List α)
  | .leaf a, ns => pure (a :: ns)
  | .un o t, ns => evalOn apply t ns >>= apply o
  | .bin o l r, ns => evalOn apply l ns >>= evalOn apply r >>= apply o

/-- The grammar: `p` is the least precedence outside of parentheses. -/
inductive Derives (T : OpTable ω σ) : Nat → Tree α ω → List (Token α σ) → Prop
  | leaf (p : Nat) (a : α) : Derives T p (.leaf a) [.operand a]
  | paren (p : Nat) {t : Tree α ω} {ts : List (Token α σ)} (h : Derives T 0 t ts) :
      Derives T p t (.lparen :: ts ++ [.rparen])
  | pre {o : ω} {s : σ} {t : Tree α ω} {ts : List (Token α σ)} (hs : T.classify false s = o)
      (ho : T.fixity o = .pre) (h : Derives T T.unary t ts) :
      Derives T T.unary (.un o t) (.sym s :: ts)
  | post {o : ω} {s : σ} {t : Tree α ω} {ts : List (Token α σ)} (hs : T.classify true s = o)
      (ho : T.fixity o = .post) (h : Derives T (T.unary + 2) t ts) :
      Derives T (T.unary + 1) (.un o t) (ts ++ [.sym s])
  | left {o : ω} {s : σ} {l r : Tree α ω} {ts us : List (Token α σ)}
      (hs : T.classify true s = o) (ho : T.fixity o = .bin) (hr : T.right (T.prec o) = false)
      (hl : Derives T (T.prec o) l ts) (hu : Derives T (T.prec o + 1) r us) :
      Derives T (T.prec o) (.bin o l r) (ts ++ .sym s :: us)
  | right {o : ω} {s : σ} {l r : Tree α ω} {ts us : List (Token α σ)}
      (hs : T.classify true s = o) (ho : T.fixity o = .bin) (hr : T.right (T.prec o) = true)
      (hl : Derives T (T.prec o + 1) l ts) (hu : Derives T (T.prec o) r us) :
      Derives T (T.prec o) (.bin o l r) (ts ++ .sym s :: us)
  | weaken {p q : Nat} {t : Tree α ω} {ts : List (Token α σ)} (hpq : p ≤ q)
      (h : Derives T q t ts) : Derives T p t ts

theorem Derives.length_operands {T : OpTable ω σ} {p : Nat} {t : Tree α ω} {ts : List (Token α σ)}
    (h : Derives T p t ts) :
    0 < ts.countP Token.isOperand ∧ 2 * ts.countP Token.isOperand ≤ ts.length + 1 := by
  induction h with
  | leaf => simp [Token.isOperand]
  | paren _ _ ih | pre _ _ _ ih | post _ _ _ ih | left _ _ _ _ _ ih ih' | right _ _ _ _ _ ih ih' =>
    simp only [List.countP_append, List.countP_cons, List.countP_nil, Token.isOperand,
      List.length_append, List.length_cons, List.length_nil, List.cons_append]
    grind
  | weaken _ _ ih => exact ih

/-! ## Reading a tree -/

/-- No operator of an expression of the level `p` makes room below it. -/
def Blocks (T : OpTable ω σ) (s : List (Option ω)) (p : Nat) : Prop :=
  ∀ new top, T.fixity new = .bin → p ≤ T.prec new → s.head? = some (some top) → ¬ T.Yields new top

section Blocks
variable {T : OpTable ω σ} {s : List (Option ω)} {p q : Nat} {o : ω}

theorem Blocks.mono (h : Blocks T s p) (hpq : p ≤ q) : Blocks T s q :=
  fun new top hnew hq => h new top hnew (Nat.le_trans hpq hq)

theorem blocks_paren : Blocks T (none :: s) p := by
  intro new top _ _ htop
  cases htop

theorem blocks_unary : Blocks T s T.unary :=
  fun new _ hnew hle _ => absurd (T.bin_lt new hnew) (Nat.not_lt.2 hle)

theorem blocks_left : Blocks T (some o :: s) (T.prec o + 1) := by
  intro new top _ hlt htop hy
  cases htop
  exact hy.1 hlt

theorem blocks_right (hr : T.right (T.prec o) = true) : Blocks T (some o :: s) (T.prec o) := by
  intro new top _ hle htop hy
  cases htop
  have heq := Nat.le_antisymm hle (Nat.not_lt.1 hy.1)
  exact hy.2 ⟨heq, heq ▸ hr⟩

/-- What an expression of the level `p` leaves on the stack. -/
def Waits (T : OpTable ω σ) (p : Nat) (os : List ω) : Prop :=
  ∀ o ∈ os, p ≤ T.prec o ∨ T.unary ≤ T.prec o

theorem Waits.yields {os : List ω} {new : ω} (h : Waits T p os) (hnew : T.fixity new = .bin)
    (hp : T.prec new < p ∨ T.prec new = p ∧ T.right p = false) : ∀ o ∈ os, T.Yields new o := by
  intro o ho
  have hlt := T.bin_lt new hnew
  have hle := h o ho
  rcases hp with hp | ⟨hp, hr⟩
  · exact ⟨by omega, fun heq => by omega⟩
  · refine ⟨by omega, fun heq => ?_⟩
    rw [hp, hr] at heq
    exact Bool.false_ne_true heq.2

end Blocks

section Reading
variable {m : Type → Type} [Monad m] [LawfulMonad m] {T : OpTable ω σ}
  {apply : ω → List α → m (List α)} {fail : m (Stacks ω α)} {os : List ω} {s : List (Option ω)}
  {ns : List α}

theorem applyAll_append (os os' : List ω) (ns : List α) :
    applyAll apply (os ++ os') ns = applyAll apply os ns >>= applyAll apply os' := by
  induction os generalizing ns with
  | nil => simp [applyAll]
  | cons o os ih =>
    simp only [List.cons_append, applyAll, bind_assoc]
    congr 1
    funext ns
    exact ih ns

theorem applyAll_concat (o : ω) (ns : List α) :
    applyAll apply (os ++ [o]) ns = applyAll apply os ns >>= apply o := by
  rw [applyAll_append]
  congr 1
  funext ns
  simp [applyAll]

theorem close_append (os : List ω) (s : List (Option ω)) (ns : List α) :
    close apply fail (os.map some ++ none :: s) ns =
      (fun ns => ⟨s, ns, true⟩) <$> applyAll apply os ns := by
  induction os generalizing ns with
  | nil => simp [close, applyAll]
  | cons o os ih =>
    simp only [List.map_cons, List.cons_append, close, applyAll, map_bind]
    congr 1
    funext ns
    exact ih ns

theorem shift_append {new : ω} (hos : ∀ o ∈ os, T.Yields new o) (hnew : T.fixity new = .bin)
    (hs : Blocks T s (T.prec new)) (ns : List α) :
    shift T apply new (os.map some ++ s) ns = (fun ns => (s, ns)) <$> applyAll apply os ns := by
  induction os generalizing ns with
  | nil =>
    rw [List.map_nil, List.nil_append, applyAll, map_pure]
    unfold shift
    split
    · rw [if_neg (hs new _ hnew (Nat.le_refl _) rfl)]
    · rfl
  | cons o os ih =>
    have ih := ih fun o ho => hos o (List.mem_cons_of_mem _ ho)
    simp only [List.map_cons, List.cons_append, shift, applyAll, map_bind,
      if_pos (hos o List.mem_cons_self)]
    congr 1
    funext ns
    exact ih ns

omit [LawfulMonad m] in
theorem run_cons (t : Token α σ) (ts : List (Token α σ)) (st : Stacks ω α) :
    run T apply fail (t :: ts) st = step T apply fail st t >>= run T apply fail ts :=
  List.foldlM_cons

theorem run_append (ts us : List (Token α σ)) (st : Stacks ω α) :
    run T apply fail (ts ++ us) st = run T apply fail ts st >>= run T apply fail us :=
  List.foldlM_append

omit [LawfulMonad m] in
theorem step_sym_bin {st : Stacks ω α} {o : ω} {y : σ} (hy : T.classify true y = o)
    (ho : T.fixity o = .bin) (hst : st.ended = true) : step T apply fail st (.sym y) =
      (do let (ops, ns) ← shift T apply o st.ops st.nums
          pure ⟨some o :: ops, ns, false⟩) := by
  simp only [step, hst, hy, ho, if_true]

variable (apply fail) in
/-- Reading `ts` leaves the operators `os` to be applied, whatever the operands, and applying them
gives the tree. -/
structure Reads (T : OpTable ω σ) (p : Nat) (t : Tree α ω) (ts : List (Token α σ)) (os : List ω) :
    Prop where
  waits : Waits T p os
  primary : T.unary + 2 ≤ p → os = []
  run : ∀ s ns, Blocks T s p → ∃ x : m (List α),
    run T apply fail ts ⟨s, ns, false⟩ = (fun ms => ⟨os.map some ++ s, ms, true⟩) <$> x ∧
      x >>= applyAll apply os = evalOn apply t ns

variable {p q : Nat} {t l r : Tree α ω} {ts us : List (Token α σ)} {o : ω} {y : σ} {os' : List ω}

theorem Reads.leaf (a : α) : Reads apply fail T p (.leaf a) [.operand a] [] where
  waits _ ho := absurd ho List.not_mem_nil
  primary _ := rfl
  run s ns _ := ⟨pure (a :: ns), by simp [Precedence.run, step], by simp [applyAll, evalOn]⟩

theorem Reads.paren (h : Reads apply fail T 0 t ts os) :
    Reads apply fail T p t (.lparen :: ts ++ [.rparen]) [] where
  waits _ ho := absurd ho List.not_mem_nil
  primary _ := rfl
  run s ns _ := by
    obtain ⟨x, hx, heval⟩ := h.run (none :: s) ns blocks_paren
    refine ⟨evalOn apply t ns, ?_, by simp [applyAll]⟩
    rw [List.cons_append, run_cons, step, pure_bind, run_append, hx, ← heval, map_bind, bind_map_left]
    congr 1
    funext ms
    rw [run_cons, step, if_pos rfl, close_append]
    simp [Precedence.run]

theorem Reads.pre (hy : T.classify false y = o) (ho : T.fixity o = .pre)
    (h : Reads apply fail T T.unary t ts os) :
    Reads apply fail T T.unary (.un o t) (.sym y :: ts) (os ++ [o]) where
  waits q hq := .inr (by
    rcases List.mem_append.1 hq with hq | hq
    · exact (h.waits q hq).elim id id
    · rw [List.mem_singleton.1 hq]
      exact T.unary_le o (by simp [ho]))
  primary hle := by omega
  run s ns _ := by
    obtain ⟨x, hx, heval⟩ := h.run (some o :: s) ns blocks_unary
    refine ⟨x, ?_, ?_⟩
    · rw [run_cons]
      simp only [step, hy, ho, pure_bind, hx]
      simp
    · rw [evalOn, ← heval, bind_assoc]
      congr 1
      funext ms
      exact applyAll_concat o ms

theorem Reads.post (hy : T.classify true y = o) (ho : T.fixity o = .post)
    (h : Reads apply fail T (T.unary + 2) t ts os) :
    Reads apply fail T (T.unary + 1) (.un o t) (ts ++ [.sym y]) [o] where
  waits q hq := .inr (by
    rw [List.mem_singleton.1 hq]
    exact T.unary_le o (by simp [ho]))
  primary hle := by omega
  run s ns hs := by
    have hblocks : Blocks T s (T.unary + 2) := blocks_unary.mono (Nat.le_add_right _ 2)
    obtain ⟨x, hx, heval⟩ := h.run s ns hblocks
    rw [h.primary (Nat.le_refl _)] at hx heval
    refine ⟨x, ?_, ?_⟩
    · rw [run_append, hx, bind_map_left, ← bind_pure_comp]
      congr 1
      funext ms
      rw [run_cons]
      simp [Precedence.run, step, hy, ho]
    · rw [evalOn, ← heval, bind_assoc]
      congr 1
      funext ms
      simp [applyAll]

/-- Both operands of an operator: what waits of the left one is applied when the operator comes. -/
theorem Reads.bin {lp rp : Nat} (hy : T.classify true y = o) (ho : T.fixity o = .bin)
    (hlp : T.prec o < lp ∨ T.prec o = lp ∧ T.right lp = false) (hrp : T.prec o ≤ rp)
    (hright : ∀ s, Blocks T (some o :: s) rp) (hl : Reads apply fail T lp l ts os)
    (hr : Reads apply fail T rp r us os') :
    Reads apply fail T (T.prec o) (.bin o l r) (ts ++ .sym y :: us) (os' ++ [o]) where
  waits q hq := by
    rcases List.mem_append.1 hq with hq | hq
    · exact (hr.waits q hq).imp_left (Nat.le_trans hrp)
    · rw [List.mem_singleton.1 hq]
      exact .inl (Nat.le_refl _)
  primary hle := by
    have := T.bin_lt o ho
    omega
  run s ns hs := by
    have hlp' : T.prec o ≤ lp := hlp.elim Nat.le_of_lt fun h => Nat.le_of_eq h.1
    obtain ⟨x, hx, hevall⟩ := hl.run s ns (hs.mono hlp')
    choose z hz hevalr using fun nl => hr.run (some o :: s) nl (hright s)
    refine ⟨evalOn apply l ns >>= z, ?_, ?_⟩
    · rw [run_append, hx, ← hevall, bind_assoc, map_bind, bind_map_left]
      congr 1
      funext ms
      rw [run_cons, step_sym_bin hy ho rfl,
        shift_append (hl.waits.yields ho hlp) ho hs, bind_map_left, map_bind, bind_assoc]
      congr 1
      funext nl
      rw [pure_bind, hz]
      simp
    · rw [evalOn, bind_assoc, bind_assoc]
      congr 1
      funext nl
      rw [← hevalr, bind_assoc]
      congr 1
      funext ms
      exact applyAll_concat o ms

omit [LawfulMonad m] in
theorem Reads.weaken (hpq : p ≤ q) (h : Reads apply fail T q t ts os) :
    Reads apply fail T p t ts os where
  waits o ho := (h.waits o ho).imp_left (Nat.le_trans hpq)
  primary hle := h.primary (Nat.le_trans hle hpq)
  run s ns hs := h.run s ns (hs.mono hpq)

/-- **Reading what the grammar derives.** -/
theorem reads_of_derives (h : Derives T p t ts) : ∃ os, Reads apply fail T p t ts os := by
  induction h with
  | leaf p a => exact ⟨_, .leaf a⟩
  | paren p _ ih =>
    obtain ⟨os, ih⟩ := ih
    exact ⟨_, ih.paren⟩
  | pre hy ho _ ih =>
    obtain ⟨os, ih⟩ := ih
    exact ⟨_, ih.pre hy ho⟩
  | post hy ho _ ih =>
    obtain ⟨os, ih⟩ := ih
    exact ⟨_, ih.post hy ho⟩
  | left hy ho hr _ _ ihl ihr =>
    obtain ⟨os, ihl⟩ := ihl
    obtain ⟨os', ihr⟩ := ihr
    exact ⟨_, .bin hy ho (.inr ⟨rfl, hr⟩) (Nat.le_succ _) (fun _ => blocks_left) ihl ihr⟩
  | right hy ho hr _ _ ihl ihr =>
    obtain ⟨os, ihl⟩ := ihl
    obtain ⟨os', ihr⟩ := ihr
    exact ⟨_, .bin hy ho (.inl (Nat.lt_succ_self _)) (Nat.le_refl _) (fun _ => blocks_right hr) ihl ihr⟩
  | weaken hpq _ ih =>
    obtain ⟨os, ih⟩ := ih
    exact ⟨os, ih.weaken hpq⟩

/-- **A whole expression**, with a parenthesis around it, is its tree. -/
theorem run_of_derives (h : Derives T 0 t ts) (ns : List α) :
    run T apply fail (ts ++ [.rparen]) ⟨[none], ns, false⟩ =
      (fun ms => ⟨[], ms, true⟩) <$> evalOn apply t ns := by
  obtain ⟨os, hreads⟩ : ∃ os, Reads apply fail T 0 t ts os := reads_of_derives h
  obtain ⟨x, hx, heval⟩ := hreads.run [none] ns blocks_paren
  rw [run_append, hx, ← heval, map_bind, bind_map_left]
  congr 1
  funext ms
  rw [run_cons, step, if_pos rfl, close_append]
  simp [run]

end Reading

end N32905.Lib.Precedence
