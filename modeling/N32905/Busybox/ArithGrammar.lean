import N32905.Busybox.ArithParse
import N32905.Busybox.Shells

/-!
# Reading what is written

The table of `math.c` has the symbols of expressions in an order in which the first that fits is
the longest, and its precedences and associativities are those of the grammar. So `arith` finds
in a text the expression that is written there.
-/

namespace N32905.Busybox

open N32905.Lib

/-! ## Symbols -/

theorem mem_symbols_iff (cs : List Char) : cs ∈ symbols ↔ cs ∈ opTokens.map Prod.fst := by
  have hsub : ∀ cs ∈ symbols, cs ∈ opTokens.map Prod.fst := by decide
  have hsup : ∀ cs ∈ opTokens.map Prod.fst, cs ∈ symbols := by decide
  exact ⟨hsub cs, hsup cs⟩

theorem opTokens_pairwise : opTokens.Pairwise fun t u => ¬ t.1 <+: u.1 := by decide

theorem find?_longest {t : List Char × Operator} {s : List Char} (ht : t ∈ opTokens)
    (hlong : ∀ ds ∈ symbols, ds <+: t.1 ++ s → ds.length ≤ t.1.length) :
    opTokens.find? (fun u => u.1.isPrefixOf (t.1 ++ s)) = some t := by
  have hfits : t.1 <+: t.1 ++ s := List.prefix_append _ _
  cases hfind : opTokens.find? fun u => u.1.isPrefixOf (t.1 ++ s) with
  | none => exact absurd (List.isPrefixOf_iff_prefix.2 hfits) (List.find?_eq_none.1 hfind t ht)
  | some u =>
    obtain ⟨hu, before, behind, hsplit, hbefore⟩ := List.find?_eq_some_iff_append.1 hfind
    have hu : u.1 <+: t.1 ++ s := List.isPrefixOf_iff_prefix.1 hu
    have humem : u.1 ∈ symbols := (mem_symbols_iff _).2
      (List.mem_map_of_mem (List.mem_of_find?_eq_some hfind))
    have hprefix : u.1 <+: t.1 := List.prefix_of_prefix_length_le hu hfits (hlong _ humem hu)
    have hpair := opTokens_pairwise
    rw [hsplit] at ht hpair
    rcases List.mem_append.1 ht with ht | ht
    · have hno := hbefore t ht
      rw [List.isPrefixOf_iff_prefix.2 hfits] at hno
      cases hno
    · rcases List.mem_cons.1 ht with rfl | ht
      · rfl
      · have hcons := (List.pairwise_append.1 hpair).2.1
        exact absurd hprefix (List.rel_of_pairwise_cons hcons ht)

/-! ## Tokens -/

def tok : Lexeme → Tok
  | .num v => .operand (numCell v)
  | .name x => .operand (varCell x)
  | .symbol cs => (opTokens.lookup cs).elim .lparen tokenOf

theorem tok_symbol {t : List Char × Operator} (ht : t ∈ opTokens) :
    tok (.symbol t.1) = tokenOf t.2 := by
  have hlookup : ∀ t ∈ opTokens, opTokens.lookup t.1 = some t.2 := by decide
  rw [tok, hlookup t ht, Option.elim_some]

theorem of_isDigit {c : Char} (h : c.isDigit = true) :
    arithIsspace c = false ∧ isName c = false ∧ c ≠ '-' ∧ c ≠ '=' := by
  simp only [Char.isDigit, Bool.and_eq_true, decide_eq_true_eq] at h
  obtain ⟨h0, h9⟩ : 48 ≤ c.toNat ∧ c.toNat ≤ 57 := h
  have hne : ∀ d : Char, (d.toNat < 48 ∨ 57 < d.toNat) → c ≠ d := fun d hd heq => by
    subst heq
    omega
  have hletter : ¬ c.isAlpha = true := by
    intro h
    rcases Bool.or_eq_true_iff.1 h with h | h
    · have hupper : 65 ≤ c.toNat ∧ c.toNat ≤ 90 := of_decide_eq_true h
      omega
    · have hlower : 97 ≤ c.toNat := of_decide_eq_true (Bool.and_eq_true_iff.1 h).1
      omega
  refine ⟨?_, ?_, hne '-' (by decide), hne '=' (by decide)⟩
  · simp [arithIsspace, hne ' ' (by decide), hne '\n' (by decide), hne '\t' (by decide)]
  · simp [isName, hletter, hne '_' (by decide)]

theorem endofname_of_not {c : Char} {s : List Char} (h : isName c = false) :
    (endofname (c :: s)).1 = [] := by
  simp [endofname, h]

theorem isName_of_endofname {c : Char} {s : List Char} (h : (endofname (c :: s)).1 ≠ []) :
    isName c = true ∧ arithIsspace c = false := by
  have hname : isName c = true := by
    cases hc : isName c with
    | true => rfl
    | false => exact absurd (endofname_of_not hc) h
  refine ⟨hname, Bool.eq_false_iff.2 fun hspace => ?_⟩
  simp only [arithIsspace, Bool.or_eq_true, beq_iff_eq] at hspace
  rcases hspace with (rfl | rfl) | rfl <;> exact absurd hname (by decide)

theorem head_symbols {c : Char} {cs : List Char} (h : c :: cs ∈ symbols) :
    arithIsspace c = false ∧ isName c = false ∧ c.isDigit = false := by
  have hall : (symbols.all fun cs => cs.all fun c =>
      !(arithIsspace c || isName c || c.isDigit)) = true := by decide
  have hc := List.all_eq_true.1 (List.all_eq_true.1 hall _ h) c List.mem_cons_self
  simpa [and_assoc] using hc

/-- **The tokens of a text** are those it is spelled with. -/
theorem lexemes_of_spells {s : List Char} {ts : List Lexeme} (h : Spells s ts) {n : Nat}
    (hn : s.length ≤ n) : lexemes n s = (ts.map tok, true) := by
  induction h generalizing n with
  | nil =>
    rw [lexemes]
    rfl
  | @space c s ts hc _ ih =>
    obtain ⟨n, rfl⟩ := Nat.exists_eq_add_of_le' (Nat.lt_of_lt_of_le (Nat.succ_pos _) hn)
    have hspace : arithIsspace c = true := by
      rcases hc with rfl | rfl | rfl <;> rfl
    rw [lexemes, if_pos hspace, ih (Nat.le_of_succ_le_succ hn)]
  | @name c s rest x ts hx hne _ ih =>
    obtain ⟨n, rfl⟩ := Nat.exists_eq_add_of_le' (Nat.lt_of_lt_of_le (Nat.succ_pos _) hn)
    have hname : (endofname (c :: s)).1 ≠ [] := by rwa [hx]
    have hle := length_endofname hname
    rw [hx] at hle
    have hrest := ih (Nat.le_trans hle (Nat.le_of_succ_le_succ hn))
    have hspace := (isName_of_endofname hname).2
    simp [lexemes, hspace, hx, hne, hrest, tok]
  | @num c s rest v ts hc hv _ ih =>
    obtain ⟨n, rfl⟩ := Nat.exists_eq_add_of_le' (Nat.lt_of_lt_of_le (Nat.succ_pos _) hn)
    have hle := length_strtoull hc s
    rw [hv] at hle
    have hrest := ih (Nat.le_trans hle (Nat.le_of_succ_le_succ hn))
    obtain ⟨hspace, hname, -, -⟩ := of_isDigit hc
    simp [lexemes, hspace, endofname_of_not hname, hc, hv, hrest, tok]
  | @symbol cs s ts hcs hlong _ ih =>
    obtain ⟨t, ht, rfl⟩ := List.mem_map.1 ((mem_symbols_iff cs).1 hcs)
    have hfind := find?_longest ht hlong
    have htok := tok_symbol ht
    obtain ⟨c, cs, hcons⟩ := List.exists_cons_of_ne_nil (opTokens_ne ht)
    rw [hcons] at hcs hn hfind htok ⊢
    obtain ⟨n, rfl⟩ := Nat.exists_eq_add_of_le' (Nat.lt_of_lt_of_le (Nat.succ_pos _) hn)
    obtain ⟨hspace, hname, hdigit⟩ := head_symbols hcs
    have hle : s.length ≤ n := by
      simp only [List.length_append, List.length_cons] at hn
      omega
    have hdrop : (c :: (cs ++ s)).drop t.1.length = s := by
      rw [hcons]
      exact List.drop_left
    rw [List.cons_append] at hfind ⊢
    simp [lexemes, hspace, endofname_of_not hname, hdigit, hfind, hdrop, ih hle, htok]

/-! ## Levels -/

/-- Behind an operand the symbol is the operator `o` of the source, with two operands, at the level
`p`, which groups from the right or from the left. -/
def Infix (cs : List Char) (o : Operator) (p : Nat) (right : Bool) : Prop :=
  ∃ y, tok (.symbol cs) = .sym y ∧ arithTable.classify true y = o ∧ arithTable.fixity o = .bin ∧
    arithTable.prec o = p ∧ arithTable.right p = right

theorem infix_left (op : BinaryOp) (hop : op ≠ .exponent) :
    Infix op.symbol op.token op.level false := by
  cases op <;> first | exact absurd rfl hop | exact ⟨_, rfl, rfl, rfl, rfl, rfl⟩

theorem infix_exponent : Infix ['*', '*'] .EXPONENT 15 true := ⟨_, rfl, rfl, rfl, rfl, rfl⟩

theorem infix_assign (op : AssignOp) : Infix op.symbol op.token 2 true := by
  cases op <;> exact ⟨_, rfl, rfl, rfl, rfl, rfl⟩

theorem infix_conditional : Infix ['?'] .CONDITIONAL 4 true := ⟨_, rfl, rfl, rfl, rfl, rfl⟩

theorem infix_conditional_sep : Infix [':'] .CONDITIONAL_SEP 4 true := ⟨_, rfl, rfl, rfl, rfl, rfl⟩

section Derives
variable {cs : List Char} {o : Operator} {p : Nat} {l r : Precedence.Tree VNT Operator}
  {ts us : List Lexeme}

theorem derives_left (h : Infix cs o p false)
    (hl : Precedence.Derives arithTable p l (ts.map tok))
    (hr : Precedence.Derives arithTable (p + 1) r (us.map tok)) :
    Precedence.Derives arithTable p (.bin o l r) ((ts ++ .symbol cs :: us).map tok) := by
  obtain ⟨y, hy, hclass, hbin, rfl, hassoc⟩ := h
  rw [List.map_append, List.map_cons, hy]
  exact .left hclass hbin hassoc hl hr

theorem derives_right (h : Infix cs o p true)
    (hl : Precedence.Derives arithTable (p + 1) l (ts.map tok))
    (hr : Precedence.Derives arithTable p r (us.map tok)) :
    Precedence.Derives arithTable p (.bin o l r) ((ts ++ .symbol cs :: us).map tok) := by
  obtain ⟨y, hy, hclass, hbin, rfl, hassoc⟩ := h
  rw [List.map_append, List.map_cons, hy]
  exact .right hclass hbin hassoc hl hr

end Derives

theorem derives_of_written {p : Nat} {e : Expr} {ts : List Lexeme} (h : Written p e ts) :
    Precedence.Derives arithTable p e.tree (ts.map tok) := by
  induction h with
  | num p v => exact .leaf p _
  | var p x => exact .leaf p _
  | paren p _ ih =>
    rw [List.map_append, List.map_cons]
    exact .paren p ih
  | unary op _ ih => cases op <;> exact .pre rfl rfl ih
  | @pre op _ _ hop _ ih =>
    cases op with
    | preInc => exact .pre rfl rfl ih
    | preDec => exact .pre rfl rfl ih
    | postInc => cases hop
    | postDec => cases hop
  | @post op _ _ hop _ ih =>
    rw [List.map_append]
    cases op with
    | preInc => cases hop
    | preDec => cases hop
    | postInc => exact .post rfl rfl ih
    | postDec => exact .post rfl rfl ih
  | left hop _ _ ihl ihr => exact derives_left (infix_left _ hop) ihl ihr
  | exponent _ _ ihl ihr => exact derives_right infix_exponent ihl ihr
  | assign op _ _ ihl ihr => exact derives_right (infix_assign op) ihl ihr
  | cond _ _ _ ihc iha ihb =>
    exact derives_right infix_conditional ihc (derives_right infix_conditional_sep iha ihb)
  | weaken hpq _ ih => exact .weaken hpq ih

/-- **Arithmetic**: a text in which an expression is written is worth what the expression is,
whatever the shell does with its variables. -/
theorem arith_eq_value {σ : Type} (hooks : MathHooks σ) (depth : Nat) (chain : List Name)
    {s : List Char} {ts : List Lexeme} {e : Expr} (hs : Spells s ts) (he : Written 0 e ts) :
    arith hooks (depth + 1) chain s =
      e.value (varValue hooks (arith hooks depth) chain) (varStore hooks chain) :=
  arith_of_derives depth chain (lexemes_of_spells hs (Nat.le_refl _)) (derives_of_written he)

/-- `x = -y * 2` in hush: the sign binds tighter, and the assignment is done last. -/
theorem arith_eq_value_assign :
    let r := (arith hush.toMathHooks 2 [] ['x', '=', '-', 'y', '*', '2']).run.run
      [⟨['y'], ['3'], false⟩]
    r.1 = .ok (-6) ∧ r.2 = [⟨['y'], ['3'], false⟩, ⟨['x'], ['-', '6'], false⟩] := by
  have hs : Spells ['x', '=', '-', 'y', '*', '2']
      [.name ['x'], .symbol ['='], .symbol ['-'], .name ['y'], .symbol ['*'], .num 2] :=
    .name rfl (by decide) (@Spells.symbol ['='] _ _ (by decide) (by decide)
      (@Spells.symbol ['-'] _ _ (by decide) (by decide) (.name rfl (by decide)
        (@Spells.symbol ['*'] _ _ (by decide) (by decide) (.num rfl rfl .nil)))))
  have he : Written 0 (.assign .set (.var ['x']) (.binary .mul (.unary .minus (.var ['y'])) (.num 2)))
      [.name ['x'], .symbol ['='], .symbol ['-'], .name ['y'], .symbol ['*'], .num 2] :=
    .weaken (Nat.zero_le 2) (.assign .set (.var 3 _) (.weaken (by decide : 2 ≤ 14)
      (@Written.left .mul _ _ [.symbol ['-'], .name ['y']] _ (by simp)
        (.weaken (by decide : 14 ≤ 16) (.unary .minus (.var 16 _))) (.num 15 _))))
  rw [arith_eq_value hush.toMathHooks 1 [] hs he]
  decide +kernel

end N32905.Busybox
