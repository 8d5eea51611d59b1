import Mathlib.Data.List.TakeWhile
import Mathlib.Data.Nat.Digits.Lemmas
import N32905.Busybox.ArithGrammar
import N32905.Busybox.Shells

/-!
# Arithmetic on any text

Whatever the text is, evaluation stays within its two arrays where numbers and names are as few
as the arrays were made for. What arithmetic stores in a variable stands for itself.
-/

namespace N32905.Busybox

open N32905.Lib

/-! ## The loop keeps an invariant -/

/-- Within `a` numbers and `b` operators. -/
def Popped.Within (a b : Nat) : Popped → Prop
  | .closed stack numstack | .stays stack numstack => numstack.length ≤ a ∧ stack.length ≤ b

def ArithSt.Within (a b : Nat) (st : ArithSt) : Prop :=
  st.numstack.length ≤ a ∧ st.stack.length ≤ b

section Keeps
variable {σ : Type} {hooks : MathHooks σ} {I : σ → Prop} {E : Errcode → Prop} {chain : List Name}
  {datasizes : Nat} {lookup : VNT → ArithM σ VNT} {a b : Nat} {st : ArithSt}

theorem keeps_popStack (hI : Invariant hooks I E) (hlookup : ∀ t, Keeps I (fun _ => True) E (lookup t))
    (op : Operator) (stack : List Operator) (ns : List VNT) :
    Keeps I (Popped.Within ns.length stack.length) E (popStack hooks chain lookup op stack ns) := by
  induction stack generalizing ns with
  | nil => exact keeps_pure ⟨Nat.le_refl _, Nat.le_refl _⟩
  | cons top stack ih =>
    have happly : Keeps I (Popped.Within ns.length (top :: stack).length) E
        (arithApply hooks chain lookup top ns >>= popStack hooks chain lookup op stack) := by
      refine (keeps_arithApply hI hlookup top ns).bind fun ms hms => ?_
      refine (ih ms).mono fun p hp => ?_
      cases p <;> exact ⟨Nat.le_trans hp.1 hms, Nat.le_succ_of_le hp.2⟩
    rw [popStack]
    split
    · split
      · exact keeps_pure ⟨Nat.le_refl _, Nat.le_succ _⟩
      · exact happly
    · dsimp only
      split
      · exact keeps_pure ⟨Nat.le_refl _, Nat.le_refl _⟩
      · split
        · exact keeps_pure ⟨Nat.le_refl _, Nat.le_refl _⟩
        · exact happly

theorem keeps_pushOp (op : Operator) {stack : List Operator} {ns : List VNT}
    (hns : ns.length ≤ a) (hstack : stack.length ≤ b) (hb : b < datasizes) :
    Keeps I (ArithSt.Within a (b + 1)) E (pushOp datasizes op stack ns : ArithM σ ArithSt) := by
  rw [pushOp, if_pos (Nat.lt_of_le_of_lt hstack hb)]
  exact keeps_pure ⟨hns, Nat.succ_le_succ hstack⟩

theorem keeps_readOp (hI : Invariant hooks I E) (hlookup : ∀ t, Keeps I (fun _ => True) E (lookup t))
    (op : Operator) (h : st.Within a b) (hb : b < datasizes) :
    Keeps I (ArithSt.Within a (b + 1)) E (readOp hooks chain datasizes lookup op st) := by
  rw [readOp]
  generalize (if st.lasttok = .POST_INC ∨ st.lasttok = .POST_DEC then Operator.NUM
    else st.lasttok) = lasttok
  split
  · split
    · refine (keeps_popStack hI hlookup _ st.stack st.numstack).bind fun p hp => ?_
      cases p with
      | closed stack ns =>
        exact keeps_pure ⟨Nat.le_trans hp.1 h.1, Nat.le_trans hp.2 (Nat.le_succ_of_le h.2)⟩
      | stays stack ns =>
        dsimp only
        split
        · exact keeps_throw hI.unspecified
        · exact keeps_pushOp _ (Nat.le_trans hp.1 h.1) (Nat.le_trans hp.2 h.2) hb
    · exact keeps_throw hI.unspecified
  · exact keeps_pushOp _ h.1 h.2 hb

/-- A number or a name takes a place, for which there is one or the error may come up. -/
theorem keeps_readToken (hI : Invariant hooks I E) (hlookup : ∀ t, Keeps I (fun _ => True) E (lookup t))
    (t : Tok) (h : st.Within a b)
    (ha : E .overrun ∨ a + (if t.isOperand then 1 else 0) ≤ datasizes / 2) (hb : b < datasizes) :
    Keeps I (ArithSt.Within (a + if t.isOperand then 1 else 0) (b + 1)) E
      (readToken hooks chain datasizes lookup st t) := by
  cases t with
  | operand v =>
    rw [readToken, pushNum]
    by_cases hfull : st.numstack.length < datasizes / 2
    · rw [if_pos hfull]
      exact keeps_pure ⟨Nat.succ_le_succ h.1, Nat.le_succ_of_le h.2⟩
    · rw [if_neg hfull]
      refine keeps_throw (ha.resolve_right fun hroom => ?_)
      exact hfull (Nat.lt_of_le_of_lt h.1 hroom)
  | lparen => exact keeps_readOp hI hlookup _ h hb
  | rparen => exact keeps_readOp hI hlookup _ h hb
  | sym op => exact keeps_readOp hI hlookup _ h hb

variable (chain) in
theorem keeps_readTokens (hI : Invariant hooks I E) (hlookup : ∀ t, Keeps I (fun _ => True) E (lookup t))
    (ts : List Tok) (h : st.Within a b)
    (ha : E .overrun ∨ a + ts.countP Precedence.Token.isOperand ≤ datasizes / 2)
    (hb : b + ts.length ≤ datasizes) :
    Keeps I (ArithSt.Within (a + ts.countP Precedence.Token.isOperand) (b + ts.length)) E
      (ts.foldlM (readToken hooks chain datasizes lookup) st) := by
  induction ts generalizing a b st with
  | nil => exact keeps_pure h
  | cons t ts ih =>
    rw [List.countP_cons, List.length_cons] at *
    rw [List.foldlM_cons]
    have ha' : E .overrun ∨ a + (if t.isOperand then 1 else 0) ≤ datasizes / 2 :=
      ha.imp_right fun ha => by omega
    refine (keeps_readToken hI hlookup t h ha' (by omega)).bind fun st h => ?_
    refine (ih h (ha.imp_right fun ha => by omega) (by omega)).mono fun st h => ?_
    exact ⟨Nat.le_trans h.1 (by omega), Nat.le_trans h.2 (by omega)⟩

end Keeps

def operands (s : List Char) : Nat := (lexemes s.length s).1.countP Precedence.Token.isOperand

/-! ## Looking up -/

section Keeps
variable {σ : Type} {hooks : MathHooks σ} {I : σ → Prop} {E : Errcode → Prop}

/-- Looking a variable up keeps `I`, if evaluating its text does in some narrower invariant. -/
theorem keeps_varValue {arith : List Name → List Char → ArithM σ ArithT} {chain : List Name}
    (hI : Invariant hooks I E) (hloop : E .recursionLoop)
    (harith : ∀ s x p, I s → (hooks.lookupvar x s).1 = some p → x ∉ chain →
      ∃ J : σ → Prop, J (hooks.lookupvar x s).2 ∧ (∀ s, J s → I s) ∧
        Keeps J (fun _ => True) E (arith (x :: chain) p)) (x : Name) :
    Keeps I (fun _ => True) E (varValue hooks arith chain x) := by
  intro s hs
  have hs' := hI.lookupvar x hs
  have hget : (lookupvar hooks x).run.run s =
      (.ok (hooks.lookupvar x s).1, (hooks.lookupvar x s).2) := rfl
  rw [varValue, run_bind_eq, hget]
  dsimp only
  cases hp : (hooks.lookupvar x s).1 with
  | none => exact ⟨hs', trivial⟩
  | some p =>
    dsimp only [Option.elim_some]
    split
    case isTrue => exact ⟨hs', hloop⟩
    case isFalse hchain =>
      obtain ⟨J, hJ, hJI, hkeeps⟩ := harith s x p hs hp (by simpa using hchain)
      exact (hkeeps _ hJ).imp_left (hJI _)

theorem keeps_arithLookupVal {arith : List Name → List Char → ArithM σ ArithT} {chain : List Name}
    (hvalue : ∀ x, Keeps I (fun _ => True) E (varValue hooks arith chain x)) (t : VNT) :
    Keeps I (fun _ => True) E (arithLookupVal hooks arith chain t) := by
  cases hvar : t.var with
  | none =>
    rw [arithLookupVal, hvar]
    exact keeps_pure trivial
  | some x =>
    rw [arithLookupVal_some hvar, ← bind_pure_comp]
    exact (hvalue x).bind fun _ _ => keeps_pure trivial

theorem keeps_arith {depth : Nat} {chain : List Name} {s : List Char} (hI : Invariant hooks I E)
    (hvalue : ∀ x, Keeps I (fun _ => True) E (varValue hooks (arith hooks depth) chain x))
    (hroom : E .overrun ∨ 2 * operands s ≤ s.length + 2) :
    Keeps I (fun _ => True) E (arith hooks (depth + 1) chain s) := by
  have hlookup := keeps_arithLookupVal hvalue
  have hlen := length_lexemes s.length s
  have hstart : ArithSt.Within 0 1 ⟨[], [.LPAREN], .LPAREN⟩ := ⟨Nat.le_refl _, Nat.le_refl _⟩
  have ha : E .overrun ∨ 0 + operands s ≤ (s.length + 2) / 2 := hroom.imp_right fun h => by omega
  have hb : 1 + (lexemes s.length s).1.length ≤ s.length + 2 := by omega
  have hread := keeps_readTokens chain hI hlookup _ hstart ha hb
  rw [arith, arithLoop_eq (Nat.le_refl _), bind_assoc]
  refine hread.bind fun st hst => ?_
  split
  case isFalse => exact keeps_throw hI.unspecified
  case isTrue =>
    rw [pure_bind]
    by_cases hblank : (true && (lexemes s.length s).1.isEmpty) = true
    · rw [if_pos hblank]
      exact keeps_pure trivial
    · rw [if_neg hblank]
      have hb : 1 + (lexemes s.length s).1.length < s.length + 2 := by omega
      refine (keeps_readOp hI hlookup .RPAREN hst hb).bind fun st _ => ?_
      split
      · exact (hlookup _).bind fun t _ => keeps_pure trivial
      · exact keeps_throw hI.unspecified

/-- Where all errors may come up, an invariant holds of evaluating any text. -/
theorem keeps_arith_of (hI : Invariant hooks I fun _ => True) (depth : Nat) (chain : List Name)
    (s : List Char) : Keeps I (fun _ => True) (fun _ => True) (arith hooks depth chain s) := by
  induction depth generalizing chain s with
  | zero => exact keeps_throw trivial
  | succ depth ih =>
    refine keeps_arith hI (keeps_varValue hI trivial fun s x p hs _ _ => ?_) (.inl trivial)
    exact ⟨I, hI.lookupvar x hs, fun _ h => h, ih (x :: chain) p⟩

end Keeps

/-! ## Decimals -/

theorem digit_ofNat {d : Nat} (h : d < 10) :
    (Char.ofNat (d + 48)).isDigit = true ∧ digit (Char.ofNat (d + 48)) = d := by
  revert d
  decide

theorem decimal_of_pos {n : Nat} (hn : n ≠ 0) :
    decimal n = (Nat.digits 10 n).reverse.map fun d => Char.ofNat (d + 48) := if_neg hn

theorem isDigit_of_mem {n : Nat} {c : Char} (h : c ∈ decimal n) : c.isDigit = true := by
  unfold decimal at h
  split at h
  · rw [List.mem_singleton.1 h]
    rfl
  · obtain ⟨d, hd, rfl⟩ := List.mem_map.1 h
    exact (digit_ofNat (Nat.digits_lt_base (by decide) (List.mem_reverse.1 hd))).1

theorem head_decimal {n : Nat} (hn : n ≠ 0) :
    ∃ c rest, decimal n = c :: rest ∧ c ≠ '0' := by
  have hne : Nat.digits 10 n ≠ [] := Nat.digits_ne_nil_iff_ne_zero.2 hn
  have hlast : (Nat.digits 10 n).getLast hne ≠ 0 := Nat.getLast_digit_ne_zero 10 hn
  have hlt : (Nat.digits 10 n).getLast hne < 10 :=
    Nat.digits_lt_base (by decide) (List.getLast_mem hne)
  rw [decimal_of_pos hn, ← List.dropLast_concat_getLast hne, List.reverse_append]
  refine ⟨_, _, rfl, fun h => hlast ?_⟩
  have hdigit : digit (Char.ofNat ((Nat.digits 10 n).getLast hne + 48)) = digit '0' := congrArg digit h
  rwa [(digit_ofNat hlt).2] at hdigit

theorem strtoullBase_decimal {n : Nat} (hn : n ≠ 0) (hlt : n < 2 ^ 64) :
    strtoullBase 10 (decimal n) = (BitVec.ofNat 64 n, []) := by
  have hall : ∀ c ∈ decimal n, decide (digit c < 10) = true :=
    fun c hc => decide_eq_true (digit_of_isDigit (isDigit_of_mem hc))
  have hdigits : (decimal n).map digit = (Nat.digits 10 n).reverse.map Nat.cast := by
    rw [decimal_of_pos hn, List.map_map]
    refine List.map_congr_left fun d hd => ?_
    exact (digit_ofNat (Nat.digits_lt_base (by decide) (List.mem_reverse.1 hd))).2
  have hhorner : horner 10 digit (decimal n) = n := horner_digits hdigits
  simp only [strtoullBase, List.takeWhile_eq_self_iff.2 hall, List.dropWhile_eq_nil_iff.2 hall,
    hhorner, if_pos hlt]

theorem strtoull_decimal {n : Nat} (hlt : n < 2 ^ 64) :
    strtoull (decimal n) = (BitVec.ofNat 64 n, []) := by
  by_cases hn : n = 0
  · subst hn
    decide
  · obtain ⟨c, rest, hcons, hc⟩ := head_decimal hn
    rw [← strtoullBase_decimal hn hlt, hcons]
    unfold strtoull
    split
    · rename_i heq
      cases heq
      exact absurd rfl hc
    · rename_i heq
      cases heq
      exact absurd rfl hc
    · rfl

theorem decimal_cons (n : Nat) : ∃ c rest, decimal n = c :: rest ∧ c.isDigit = true := by
  have hne : decimal n ≠ [] := by
    unfold decimal
    split
    · exact List.cons_ne_nil _ _
    · rename_i hn
      simpa [Nat.digits_ne_nil_iff_ne_zero] using hn
  obtain ⟨c, rest, hcons⟩ := List.exists_cons_of_ne_nil hne
  exact ⟨c, rest, hcons, isDigit_of_mem (hcons ▸ List.mem_cons_self)⟩

theorem lexemes_decimal {n k : Nat} (hlt : n < 2 ^ 64) (hk : (decimal n).length ≤ k) :
    lexemes k (decimal n) = ([.operand (numCell (BitVec.ofNat 64 n))], true) := by
  obtain ⟨c, rest, hcons, hc⟩ := decimal_cons n
  obtain ⟨hspace, hname, -, -⟩ := of_isDigit hc
  have hnum := strtoull_decimal hlt
  rw [hcons] at hnum hk ⊢
  obtain ⟨k, rfl⟩ := Nat.exists_eq_add_of_le' hk
  simp [lexemes, hspace, endofname, hname, hc, hnum]

theorem lexemes_minus {n : Nat} (hlt : n < 2 ^ 64) :
    lexemes ('-' :: decimal n).length ('-' :: decimal n) =
      ([.sym .SUB, .operand (numCell (BitVec.ofNat 64 n))], true) := by
  obtain ⟨c, rest, hcons, hc⟩ := decimal_cons n
  obtain ⟨-, -, hminus, heq⟩ := of_isDigit hc
  have hfind : opTokens.find? (fun t => t.1.isPrefixOf ('-' :: decimal n)) = some (['-'], .SUB) := by
    rw [hcons]
    simp [opTokens, Ne.symm hminus, Ne.symm heq]
  have hrest := lexemes_decimal hlt (Nat.le_refl _)
  have hspace : arithIsspace '-' = false := by decide
  have hname : isName '-' = false := by decide
  have hdigit : '-'.isDigit = false := by decide
  rw [List.length_cons]
  simp only [lexemes, hspace, endofname, hname, hdigit, hfind]
  simp [hrest, tokenOf]

theorem natAbs_toInt_lt (v : ArithT) : v.toInt.natAbs < 2 ^ 64 := by
  have hlt := v.toInt_lt
  have hle := v.le_toInt
  omega

theorem arith_arithTFmt {σ : Type} (hooks : MathHooks σ) (depth : Nat) (chain : List Name)
    (v : ArithT) : arith hooks (depth + 1) chain (arithTFmt v) = pure v := by
  have hlt := natAbs_toInt_lt v
  have hofInt : BitVec.ofInt 64 v.toInt = v := BitVec.ofInt_toInt
  rw [arithTFmt]
  split
  case isTrue hneg =>
    have hderives : Precedence.Derives arithTable 0
        (Expr.unary .minus (.num (BitVec.ofNat 64 v.toInt.natAbs))).tree
        [.sym .SUB, .operand (numCell (BitVec.ofNat 64 v.toInt.natAbs))] :=
      .weaken (Nat.zero_le _) (.pre rfl rfl (.leaf _ _))
    have habs : (v.toInt.natAbs : Int) = -v.toInt := by omega
    have hval : -BitVec.ofNat 64 v.toInt.natAbs = v := by
      rw [← BitVec.ofInt_natCast, habs, BitVec.ofInt_neg, hofInt, BitVec.neg_neg]
    rw [arith_of_derives depth chain (lexemes_minus hlt) hderives]
    simp [Expr.value, Expr.eval, Operand.force, UnaryOp.eval, hval]
  case isFalse hneg =>
    have hderives : Precedence.Derives arithTable 0
        (Expr.num (BitVec.ofNat 64 v.toInt.natAbs)).tree
        [.operand (numCell (BitVec.ofNat 64 v.toInt.natAbs))] := .leaf _ _
    have habs : (v.toInt.natAbs : Int) = v.toInt := by omega
    have hval : BitVec.ofNat 64 v.toInt.natAbs = v := by
      rw [← BitVec.ofInt_natCast, habs, hofInt]
    rw [arith_of_derives depth chain (lexemes_decimal hlt (Nat.le_refl _)) hderives]
    simp [Expr.value, Expr.eval, Operand.force, hval]

theorem operands_arithTFmt (v : ArithT) : operands (arithTFmt v) = 1 := by
  have hlt := natAbs_toInt_lt v
  rw [operands, arithTFmt]
  split
  · rw [lexemes_minus hlt]
    rfl
  · rw [lexemes_decimal hlt (Nat.le_refl _)]
    rfl

/-! ## The two arrays -/

/-- At most every other character begins a number or a name. -/
def Fits (s : List Char) : Prop := 2 * operands s ≤ s.length + 2

instance (s : List Char) : Decidable (Fits s) := inferInstanceAs (Decidable (_ ≤ _))

theorem fits_of_written {s : List Char} {ts : List Lexeme} {e : Expr} (hs : Spells s ts)
    (he : Written 0 e ts) : Fits s := by
  have hlen := length_lexemes s.length s
  have hcount := (derives_of_written he).length_operands.2
  rw [Fits, operands]
  rw [lexemes_of_spells hs (Nat.le_refl _)] at hlen ⊢
  dsimp only at hlen ⊢
  omega

theorem fits_arithTFmt (v : ArithT) : Fits (arithTFmt v) := by
  rw [Fits, operands_arithTFmt]
  omega

section Shell
variable {σ : Type} (sh : Shell σ)

/-- The texts of all variables fit. -/
def AllFit (st : σ) : Prop := ∀ x p, sh.value st x = some p → Fits p

theorem invariant_fits : Invariant sh.toMathHooks (AllFit sh) (fun e => e ≠ .overrun) where
  lookupvar := by
    intro st x hst y p hp
    rcases sh.value_lookupvar hp with hp | ⟨v, rfl⟩
    · exact hst y p hp
    · exact fits_arithTFmt v
  setvar := by
    intro st st' x v hst hset y p hp
    rcases sh.value_setvar hset hp with hp | ⟨v, rfl⟩
    · exact hst y p hp
    · exact fits_arithTFmt v
  unspecified := by decide
  divideByZero := by decide
  exponentLess := by decide
  raised := by decide
  undefined := by decide

theorem keeps_fits (depth : Nat) (chain : List Name) {s : List Char} (hs : Fits s) :
    Keeps (AllFit sh) (fun _ => True) (fun e => e ≠ .overrun)
      (arith sh.toMathHooks depth chain s) := by
  have hI := invariant_fits sh
  induction depth generalizing chain s with
  | zero => exact keeps_throw (by decide)
  | succ depth ih =>
    refine keeps_arith hI (keeps_varValue hI (by decide) fun st x p hst hp _ => ?_) (.inr hs)
    have hst' : AllFit sh (sh.lookupvar x st).2 := hI.lookupvar x hst
    rw [← sh.lookupvar_value] at hp
    exact ⟨_, hst', fun _ h => h, ih (x :: chain) (hst' x p hp)⟩

/-- **The two arrays are long enough** where the text and the variables fit, and the variables
fit again. Every expression fits, and every number that is stored. -/
theorem arith_within_stacks (depth : Nat) (chain : List Name) {st : σ} {s : List Char}
    (hst : AllFit sh st) (hs : Fits s) :
    ((arith sh.toMathHooks depth chain s).run.run st).1 ≠ .error .overrun ∧
      AllFit sh ((arith sh.toMathHooks depth chain s).run.run st).2 ∧
      (∀ t ts e, Spells t ts → Written 0 e ts → Fits t) ∧ ∀ v, Fits (arithTFmt v) := by
  obtain ⟨hfits, hres⟩ := keeps_fits sh depth chain hs st hst
  refine ⟨fun heq => ?_, hfits, fun t ts e => fits_of_written, fits_arithTFmt⟩
  rw [heq] at hres
  exact hres rfl

end Shell

theorem allFit_hush {vars : List HushVar} (h : ∀ cur ∈ vars, Fits cur.value) :
    AllFit hush vars := by
  intro x p hp
  obtain ⟨cur, hcur, rfl⟩ := Option.map_eq_some_iff.1 hp
  exact h cur (mem_of_getLocalVar hcur).1

/-- `x = y + 1` in hush. -/
theorem arith_within_stacks_sum :
    let r := (arith hush.toMathHooks 2 [] ['x', '=', 'y', '+', '1']).run.run [⟨['y'], ['7'], false⟩]
    r.1 ≠ .error .overrun ∧ AllFit hush r.2 ∧
      (∀ t ts e, Spells t ts → Written 0 e ts → Fits t) ∧ ∀ v, Fits (arithTFmt v) :=
  arith_within_stacks hush 2 [] (allFit_hush (by decide)) (by decide)

/-- Three numbers, and room for two. -/
example : ((arith hush.toMathHooks 1 [] ['0', '8', 'a']).run.run []).1 = .error .overrun := by decide

end N32905.Busybox
