import N32905.Busybox.ArithSafe

/-!
# Variables in arithmetic

A variable stands for an expression, in which there are variables again. Evaluation ends all the
same, though it assigns to variables itself: what it stores are numbers. And what it has
stored it reads back.
-/

namespace N32905.Busybox

open N32905.Lib

/-! ## Nested texts -/

section Ends
variable {σ : Type} (sh : Shell σ) {st st' : σ} {chain names : List Name} {x : Name}

/-- The variable is not being looked up, and it stands for more than a number. -/
def Nests (chain : List Name) (st : σ) (x : Name) : Prop :=
  x ∉ chain ∧ ∃ p, sh.value st x = some p ∧ ∀ v, p ≠ arithTFmt v

open Classical in
/-- How many of the names can still be looked up one inside of the other. -/
noncomputable def nests (names chain : List Name) (st : σ) : Nat :=
  names.countP fun x => decide (Nests sh chain st x)

open Classical in
theorem nests_le (h : ∀ x, Nests sh chain st' x → Nests sh chain st x) :
    nests sh names chain st' ≤ nests sh names chain st :=
  List.countP_mono_left fun x _ hx => decide_eq_true (h x (of_decide_eq_true hx))

open Classical in
theorem nests_lt (hmem : x ∈ names) (hx : Nests sh chain st x) :
    nests sh names (x :: chain) st < nests sh names chain st := by
  have hle : ∀ names : List Name, nests sh names (x :: chain) st ≤ nests sh names chain st :=
    fun names => List.countP_mono_left fun y _ hy => by
      rw [decide_eq_true_eq] at hy ⊢
      exact ⟨fun h => hy.1 (List.mem_cons_of_mem _ h), hy.2⟩
  obtain ⟨l₁, l₂, rfl⟩ := List.append_of_mem hmem
  have hnot : ¬ Nests sh (x :: chain) st x := fun h => h.1 List.mem_cons_self
  have h₁ := hle l₁
  have h₂ := hle l₂
  simp only [nests, List.countP_append] at h₁ h₂ ⊢
  rw [List.countP_cons_of_neg (by simpa using hnot), List.countP_cons_of_pos (by simpa using hx)]
  omega

/-- All that stand for more than a number are among the names, and fewer than `n` of them can
still be looked up. -/
def Within (names chain : List Name) (n : Nat) (st : σ) : Prop :=
  (∀ x, Nests sh [] st x → x ∈ names) ∧ nests sh names chain st + 2 ≤ n

theorem invariant_within {J : σ → Prop} (hJ : Invariant sh.toMathHooks J fun e => e ≠ .depth)
    (names chain : List Name) (n : Nat) :
    Invariant sh.toMathHooks (fun st => J st ∧ Within sh names chain n st) fun e => e ≠ .depth := by
  have hwithin : ∀ {st st' : σ}, (∀ y p, sh.value st' y = some p →
      sh.value st y = some p ∨ ∃ v, p = arithTFmt v) →
      Within sh names chain n st → Within sh names chain n st' := by
    intro st st' hvalue hst
    have hnests : ∀ chain y, Nests sh chain st' y → Nests sh chain st y := by
      rintro chain y ⟨hy, p, hp, hno⟩
      rcases hvalue y p hp with hp | ⟨v, rfl⟩
      · exact ⟨hy, p, hp, hno⟩
      · exact absurd rfl (hno v)
    exact ⟨fun y hy => hst.1 y (hnests [] y hy),
      Nat.le_trans (Nat.add_le_add_right (nests_le sh (hnests chain)) 2) hst.2⟩
  exact { hJ with
    lookupvar := fun x hst =>
      ⟨hJ.lookupvar x hst.1, hwithin (fun _ _ => sh.value_lookupvar) hst.2⟩
    setvar := fun hst hset =>
      ⟨hJ.setvar hst.1 hset, hwithin (fun _ _ => sh.value_setvar hset) hst.2⟩ }

theorem keeps_depth (names : List Name) {depth : Nat} (chain : List Name) (s : List Char)
    {J : σ → Prop} (hJ : Invariant sh.toMathHooks J fun e => e ≠ .depth)
    (hdepth : ∀ st, J st → Within sh names chain depth st) :
    Keeps J (fun _ => True) (fun e => e ≠ .depth) (arith sh.toMathHooks depth chain s) := by
  induction depth generalizing chain s J with
  | zero => exact fun st hst => absurd (hdepth st hst).2 (Nat.not_succ_le_zero _)
  | succ depth ih =>
    refine keeps_arith hJ (keeps_varValue hJ (by decide) fun st x p hst hp hx => ?_)
      (.inl (by decide))
    have hst' := hJ.lookupvar x hst
    obtain ⟨hnames, hle⟩ := hdepth _ hst'
    by_cases hstored : ∃ v, p = arithTFmt v
    · obtain ⟨v, rfl⟩ := hstored
      obtain ⟨depth, rfl⟩ := Nat.exists_eq_add_of_le' (Nat.le_of_add_le_add_right
        (Nat.le_trans (Nat.le_add_left 2 _) hle))
      rw [arith_arithTFmt]
      exact ⟨J, hst', fun _ h => h, keeps_pure trivial⟩
    · -- the text of `x` is looked up for the last time
      have htext : sh.value (sh.lookupvar x st).2 x = some p := by rw [sh.lookupvar_value, hp]
      have hno : ∀ v, p ≠ arithTFmt v := fun v hv => hstored ⟨v, hv⟩
      have hlt := nests_lt sh (hnames x ⟨List.not_mem_nil, p, htext, hno⟩) ⟨hx, p, htext, hno⟩
      exact ⟨_, ⟨hst', hnames, by omega⟩, fun _ h => h.1,
        ih (x :: chain) p (invariant_within sh hJ names (x :: chain) depth) fun _ h => h.2⟩

/-- **Evaluation ends**: no texts are nested deeper than there are variables. -/
theorem arith_ends (names : List Name) (hnames : ∀ x p, sh.value st x = some p → x ∈ names)
    (s : List Char) :
    ((arith sh.toMathHooks (names.length + 2) [] s).run.run st).1 ≠ .error .depth := by
  have htrue : Invariant sh.toMathHooks (fun _ => True) fun e => e ≠ .depth :=
    { invariant_true with
      unspecified := by decide
      divideByZero := by decide
      exponentLess := by decide
      raised := by decide
      undefined := by decide }
  have hstart : Within sh names [] (names.length + 2) st :=
    ⟨fun x hx => hx.2.elim fun p hp => hnames x p hp.1,
      Nat.add_le_add_right List.countP_le_length 2⟩
  have hkeeps := keeps_depth sh names [] s (invariant_within sh htrue names [] (names.length + 2))
    fun _ h => h.2
  intro heq
  have hres := (hkeeps st ⟨trivial, hstart⟩).2
  rw [heq] at hres
  exact hres rfl

end Ends

/-- `x` stands for `y`, and `y` for `x`. -/
theorem arith_ends_loop :
    ((arith hush.toMathHooks 4 [] ['x']).run.run
      [⟨['x'], ['y'], false⟩, ⟨['y'], ['x'], false⟩]).1 ≠ .error .depth := by
  refine arith_ends hush [['x'], ['y']] (fun x p hp => ?_) _
  obtain ⟨cur, hcur, -⟩ := Option.map_eq_some_iff.1 hp
  obtain ⟨hmem, rfl⟩ := mem_of_getLocalVar hcur
  exact List.mem_map_of_mem hmem

/-! ## Reading back -/

section Back
variable {σ : Type}

section Keeps
variable {hooks : MathHooks σ} {I : σ → Prop} (hI : Invariant hooks I fun _ => True) (depth : Nat)
  (chain : List Name)
include hI

theorem keeps_force (a : Operand) : Keeps I (fun _ => True) (fun _ => True)
    (a.force (varValue hooks (arith hooks depth) chain)) := by
  cases a with
  | num v => exact keeps_pure trivial
  | var x =>
    exact keeps_varValue hI trivial (fun s x p hs _ _ =>
      ⟨I, hI.lookupvar x hs, fun _ h => h, keeps_arith_of hI depth (x :: chain) p⟩) x

theorem keeps_store (a : Operand) (z : ArithT) : Keeps I (fun _ => True) (fun _ => True)
    (a.store (varStore hooks chain) z) := by
  cases a with
  | num v => exact keeps_throw trivial
  | var x => exact keeps_setvar hI x z

theorem keeps_binary (op : BinaryOp) (x y : ArithT) : Keeps I (fun _ => True) (fun _ => True)
    (op.eval x y : ArithM σ ArithT) := by
  rw [← binaryRez_binary]
  exact keeps_binaryRez hI op.token x y

theorem keeps_assign (op : AssignOp) (a : Operand) (y : ArithT) :
    Keeps I (fun _ => True) (fun _ => True)
      (op.eval (a.force (varValue hooks (arith hooks depth) chain)) y) := by
  unfold AssignOp.eval
  split
  · exact keeps_pure trivial
  · exact (keeps_force hI depth chain a).bind fun x _ => keeps_binary hI _ x y

theorem keeps_eval (e : Expr) : Keeps I (fun _ => True) (fun _ => True)
    (e.eval (varValue hooks (arith hooks depth) chain) (varStore hooks chain)) := by
  have hforce := keeps_force hI depth chain
  have hstore := keeps_store hI chain
  induction e with
  | num v => exact keeps_pure trivial
  | var x => exact keeps_pure trivial
  | unary op e ih => exact ih.bind fun a _ => (hforce a).bind fun v _ => keeps_pure trivial
  | step op e ih =>
    exact ih.bind fun a _ => (hforce a).bind fun v _ => (hstore a _).bind fun _ _ => keeps_pure trivial
  | binary op l r ihl ihr =>
    exact ihl.bind fun a _ => ihr.bind fun b _ => (hforce b).bind fun y _ => (hforce a).bind fun x _ =>
      (keeps_binary hI op x y).bind fun z _ => keeps_pure trivial
  | assign op l r ihl ihr =>
    exact ihl.bind fun a _ => ihr.bind fun b _ => (hforce b).bind fun y _ =>
      (keeps_assign hI depth chain op a y).bind fun z _ => (hstore a z).bind fun _ _ =>
        keeps_pure trivial
  | cond c a b ihc iha ihb =>
    exact ihc.bind fun c _ => iha.bind fun a _ => ihb.bind fun b _ => (hforce b).bind fun y _ =>
      (hforce a).bind fun x _ => (hforce c).bind fun v _ => keeps_pure trivial

end Keeps

variable (sh : Shell σ) {x : Name}

theorem invariant_plain (x : Name) :
    Invariant sh.toMathHooks (fun st => sh.Plain st x) fun _ => True where
  lookupvar y h := sh.plain_lookedup y h
  setvar h hset := sh.plain_set hset h
  unspecified := trivial
  divideByZero := trivial
  exponentLess := trivial
  raised := trivial
  undefined := trivial

theorem lexemes_name (hx : endofname x = (x, [])) (hne : x ≠ []) :
    lexemes x.length x = ([.operand (varCell x)], true) := by
  obtain ⟨c, s, rfl⟩ := List.exists_cons_of_ne_nil hne
  exact lexemes_of_spells (.name hx hne .nil) (Nat.le_refl _)

theorem arith_name (hooks : MathHooks σ) (depth : Nat) (hx : endofname x = (x, [])) (hne : x ≠ []) :
    arith hooks (depth + 1) [] x = varValue hooks (arith hooks depth) [] x := by
  have hderives : Precedence.Derives arithTable 0 (Expr.var x).tree [.operand (varCell x)] :=
    .leaf _ _
  rw [arith_of_derives depth [] (lexemes_name hx hne) hderives, Expr.value, Expr.eval, pure_bind,
    Operand.force]

theorem store_varValue (depth : Nat) (chain : List Name) (v : ArithT) {st : σ}
    (hplain : sh.Plain st x) : (do
      varStore sh.toMathHooks chain x v
      let w ← varValue sh.toMathHooks (arith sh.toMathHooks (depth + 1)) [] x
      pure (v, w) : ArithM σ (ArithT × ArithT)).run.run st = (do
      varStore sh.toMathHooks chain x v
      pure (v, v) : ArithM σ (ArithT × ArithT)).run.run st := by
  rw [run_bind_eq, run_bind_eq]
  cases hchain : chain.contains x with
  | true =>
    have hthrow : (varStore sh.toMathHooks chain x v).run.run st = (.error .undefined, st) := by
      rw [varStore, setvar, hchain, if_pos rfl]
      rfl
    rw [hthrow]
  | false =>
    obtain ⟨st', hset, hvalue⟩ := sh.plain_setvar hplain (arithTFmt v)
    have hstore : (varStore sh.toMathHooks chain x v).run.run st = (.ok (), st') := by
      rw [varStore, run_setvar hchain, hset]
    have hsame := sh.plain_lookupvar (sh.plain_set hset hplain)
    have htext : (sh.lookupvar x st').1 = some (arithTFmt v) := by
      rw [← sh.lookupvar_value, hsame, hvalue]
    have hget : (lookupvar sh.toMathHooks x).run.run st' = (.ok (some (arithTFmt v)), st') :=
      Prod.ext (congrArg Except.ok htext) hsame
    rw [hstore]
    dsimp only
    rw [run_bind_eq, varValue, run_bind_eq, hget]
    dsimp only [Option.elim_some]
    rw [if_neg (by simp), arith_arithTFmt]
    rfl

/-- **An assigned variable reads back** as the value of the assignment. -/
theorem assigned_reads_back (depth : Nat) (chain : List Name) (op : AssignOp) {s : List Char}
    {ts : List Lexeme} {e : Expr} (hs : Spells s (.name x :: .symbol op.symbol :: ts))
    (he : Written 2 e ts) {st : σ} (hplain : sh.Plain st x) : (do
      let v ← arith sh.toMathHooks (depth + 1) chain s
      let w ← arith sh.toMathHooks (depth + 2) [] x
      pure (v, w) : ArithM σ (ArithT × ArithT)).run.run st = (do
      let v ← arith sh.toMathHooks (depth + 1) chain s
      pure (v, v) : ArithM σ (ArithT × ArithT)).run.run st := by
  obtain ⟨hx, hne⟩ := hs.name_eq List.mem_cons_self
  have hI := invariant_plain sh x
  have hset : Written 0 (.assign op (.var x) e) (.name x :: .symbol op.symbol :: ts) :=
    .weaken (Nat.zero_le 2) (.assign op (.var 3 x) he)
  rw [arith_of_derives depth chain (lexemes_of_spells hs (Nat.le_refl _)) (derives_of_written hset),
    arith_name sh.toMathHooks (depth + 1) hx hne]
  simp only [Expr.value, Expr.eval, bind_assoc, pure_bind, Operand.store]
  refine (keeps_eval hI depth chain e).run_congr (fun b st hplain => ?_) hplain
  refine (keeps_force hI depth chain b).run_congr (fun y st hplain => ?_) hplain
  refine (keeps_assign hI depth chain op (.var x) y).run_congr (fun z st hplain => ?_) hplain
  exact store_varValue sh depth chain z hplain

end Back

/-- `x -= 3`, and `x`, in ash. -/
theorem assigned_reads_back_minus :
    let r := (do
      let v ← arith ash.toMathHooks 2 [] ['x', '-', '=', '3']
      let w ← arith ash.toMathHooks 3 [] ['x']
      pure (v, w) : ArithM AshSt (ArithT × ArithT)).run.run
        ⟨[⟨['x'], some ['5'], false, false, none⟩], 1, 1⟩
    r.1 = .ok (2, 2) ∧ r.2 = ⟨[⟨['x'], some ['2'], false, false, none⟩], 1, 1⟩ := by
  have hs : Spells ['x', '-', '=', '3'] [.name ['x'], .symbol AssignOp.sub.symbol, .num 3] :=
    .name rfl (by decide) (@Spells.symbol ['-', '='] _ _ (by decide) (by decide)
      (.num rfl rfl .nil))
  have hplain : ash.Plain ⟨[⟨['x'], some ['5'], false, false, none⟩], 1, 1⟩ ['x'] := by
    refine ⟨rfl, by decide, fun vp hvp => ?_⟩
    cases hvp
    exact ⟨rfl, rfl, rfl⟩
  rw [assigned_reads_back ash 1 [] .sub hs (.num 2 3) hplain]
  decide +kernel

end N32905.Busybox
