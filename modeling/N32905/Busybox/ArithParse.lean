import N32905.Busybox.ArithValue

/-!
# The text of an expression

`arith` takes the text apart as it goes along. What it takes it apart into (`lexemes`) does
not depend on the values, and reading a token is a step of the two stacks of
`Lib.Precedence`, as long as the arrays for the stacks are long enough.
-/

namespace N32905.Busybox

open N32905.Lib

/-! ## Tokens -/

abbrev Tok := Precedence.Token VNT Operator

def tokenOf : Operator → Tok
  | .LPAREN => .lparen
  | .RPAREN => .rparen
  | op => .sym op

/-- The tokens of a text, up to its end or to a character that begins none. -/
def lexemes : Nat → List Char → List Tok × Bool
  | _, [] => ([], true)
  | 0, _ :: _ => ([], false)
  | n + 1, c :: rest =>
    if arithIsspace c then lexemes n rest
    else if (endofname (c :: rest)).1 ≠ [] then
      let ts := lexemes n (endofname (c :: rest)).2
      (.operand (varCell (endofname (c :: rest)).1) :: ts.1, ts.2)
    else if c.isDigit then
      let ts := lexemes n (strtoull (c :: rest)).2
      (.operand (numCell (strtoull (c :: rest)).1) :: ts.1, ts.2)
    else match opTokens.find? fun t => t.1.isPrefixOf (c :: rest) with
      | none => ([], false)
      | some t =>
        let ts := lexemes n ((c :: rest).drop t.1.length)
        (tokenOf t.2 :: ts.1, ts.2)

section Token
variable {σ : Type} (hooks : MathHooks σ) (chain : List Name) (datasizes : Nat)
  (lookup : VNT → ArithM σ VNT) (st : ArithSt)

def readToken : Tok → ArithM σ ArithSt
  | .operand t => pushNum datasizes t st
  | .lparen => readOp hooks chain datasizes lookup .LPAREN st
  | .rparen => readOp hooks chain datasizes lookup .RPAREN st
  | .sym op => readOp hooks chain datasizes lookup op st

theorem readToken_tokenOf (op : Operator) : readToken hooks chain datasizes lookup st (tokenOf op) =
    readOp hooks chain datasizes lookup op st := by
  cases op <;> rfl

end Token

/-! ## The rest of the text gets shorter -/

section Rest
variable {c : Char} {rest : List Char}

theorem length_endofname (h : (endofname (c :: rest)).1 ≠ []) :
    (endofname (c :: rest)).2.length ≤ rest.length := by
  simp only [endofname] at h ⊢
  split
  · exact (List.dropWhile_suffix _).length_le
  · rename_i hname
    rw [if_neg hname] at h
    exact absurd rfl h

theorem digit_of_isDigit (h : c.isDigit = true) : digit c < 10 := by
  simp only [digit, h, if_true]
  simp only [Char.isDigit, Bool.and_eq_true, decide_eq_true_eq] at h
  have h9 : c.toNat ≤ 57 := h.2
  omega

theorem length_strtoullBase {base : Nat} (h : digit c < base) :
    (strtoullBase base (c :: rest)).2.length ≤ rest.length := by
  simp only [strtoullBase]
  rw [List.dropWhile_cons_of_pos (by simpa using h)]
  exact (List.dropWhile_suffix _).length_le

theorem length_strtoull (h : c.isDigit = true) (rest : List Char) :
    (strtoull (c :: rest)).2.length ≤ rest.length := by
  have hzero : digit '0' < 8 := by decide
  unfold strtoull
  split
  · rename_i x h' rest' heq
    cases heq
    split
    case isTrue hhex =>
      rw [Bool.and_eq_true, decide_eq_true_eq] at hhex
      exact Nat.le_trans (length_strtoullBase hhex.2) (Nat.le_add_right _ 2)
    case isFalse => exact length_strtoullBase hzero
  · rename_i heq
    cases heq
    exact length_strtoullBase hzero
  · exact length_strtoullBase (digit_of_isDigit h)

theorem opTokens_ne {t : List Char × Operator} (ht : t ∈ opTokens) : t.1 ≠ [] := by
  revert t
  decide

theorem length_drop_token {t : List Char × Operator}
    (h : opTokens.find? (fun t => t.1.isPrefixOf (c :: rest)) = some t) :
    ((c :: rest).drop t.1.length).length ≤ rest.length := by
  have hpos := List.length_pos_iff.2 (opTokens_ne (List.mem_of_find?_eq_some h))
  rw [List.length_drop, List.length_cons]
  omega

end Rest

theorem length_lexemes (n : Nat) (s : List Char) : (lexemes n s).1.length ≤ s.length := by
  fun_induction lexemes n s with
  | case1 => exact Nat.le_refl 0
  | case2 => exact Nat.zero_le _
  | case3 n c rest hspace ih => exact Nat.le_succ_of_le ih
  | case4 n c rest hspace hname ts ih =>
    have := length_endofname hname
    exact Nat.succ_le_succ (Nat.le_trans ih this)
  | case5 n c rest hspace hname hdigit ts ih =>
    have := length_strtoull hdigit rest
    exact Nat.succ_le_succ (Nat.le_trans ih this)
  | case6 => exact Nat.zero_le _
  | case7 n c rest hspace hname hdigit t ht ts ih =>
    exact Nat.succ_le_succ (Nat.le_trans ih (length_drop_token ht))

section Loop
variable {σ : Type} {hooks : MathHooks σ} {chain : List Name} {datasizes : Nat}
  {lookup : VNT → ArithM σ VNT}

/-- **The loop** reads the tokens one after the other. -/
theorem arithLoop_eq {n : Nat} {s : List Char} (hn : s.length ≤ n) (blank : Bool) (st : ArithSt) :
    arithLoop hooks chain datasizes lookup n s blank st = (do
      let st ← (lexemes n s).1.foldlM (readToken hooks chain datasizes lookup) st
      if (lexemes n s).2 then pure (if blank && (lexemes n s).1.isEmpty then none else some st)
      else err) := by
  fun_induction lexemes n s generalizing blank st with
  | case1 n => simp [arithLoop]
  | case2 c rest => exact absurd hn (Nat.not_succ_le_zero _)
  | case3 n c rest hspace ih =>
    rw [arithLoop, if_pos hspace, ih (Nat.le_of_succ_le_succ hn)]
  | case4 n c rest hspace hname ts ih =>
    have hle := Nat.le_trans (length_endofname hname) (Nat.le_of_succ_le_succ hn)
    rw [arithLoop, if_neg hspace, if_pos hname]
    simp only [ih hle, List.foldlM_cons, readToken, bind_assoc, List.isEmpty_cons, Bool.and_false,
      Bool.false_and]
    rfl
  | case5 n c rest hspace hname hdigit ts ih =>
    have hle := Nat.le_trans (length_strtoull hdigit rest) (Nat.le_of_succ_le_succ hn)
    rw [arithLoop, if_neg hspace, if_neg hname, if_pos hdigit]
    simp only [ih hle, List.foldlM_cons, readToken, bind_assoc, List.isEmpty_cons, Bool.and_false,
      Bool.false_and]
    rfl
  | case6 n c rest hspace hname hdigit hnone =>
    rw [arithLoop, if_neg hspace, if_neg hname, if_neg hdigit, hnone]
    simp
  | case7 n c rest hspace hname hdigit t ht ts ih =>
    have hle := Nat.le_trans (length_drop_token ht) (Nat.le_of_succ_le_succ hn)
    rw [arithLoop, if_neg hspace, if_neg hname, if_neg hdigit, ht]
    simp only [ih hle, List.foldlM_cons, readToken_tokenOf, bind_assoc, List.isEmpty_cons,
      Bool.and_false, Bool.false_and]
    rfl

end Loop

/-! ## The two stacks -/

def fixity (op : Operator) : Precedence.Fixity :=
  if PREC op < UNARYPREC then .bin
  else if op = .POST_INC ∨ op = .POST_DEC then .post
  else .pre

/-- The precedences of `math.c`. -/
def arithTable : Precedence.OpTable Operator Operator where
  prec op := convertPrecIsAssing (PREC op)
  right := isRightAssociativity
  fixity := fixity
  classify ended op := unaryOp (if ended then .NUM else .LPAREN) op
  unary := UNARYPREC
  bin_lt op h := by
    revert h
    cases op <;> decide
  unary_le op h := by
    revert h
    cases op <;> decide

/-- A token of the operator stack. -/
def frame (op : Operator) : Option Operator := if op = .LPAREN then none else some op

def endsOperand (lasttok : Operator) : Bool :=
  lasttok = .NUM ∨ lasttok = .POST_INC ∨ lasttok = .POST_DEC

/-- The arrays hold the two stacks, of `a` and `b` entries at most. -/
structure Matches (a b : Nat) (st : ArithSt) (ss : Precedence.Stacks Operator VNT) : Prop where
  nums : st.numstack = ss.nums
  ops : st.stack.map frame = ss.ops
  ended : endsOperand st.lasttok = ss.ended
  length_nums : st.numstack.length ≤ a
  length_ops : st.stack.length ≤ b

theorem Matches.mono {a b a' b' : Nat} {st : ArithSt} {ss : Precedence.Stacks Operator VNT}
    (h : Matches a b st ss) (ha : a ≤ a') (hb : b ≤ b') : Matches a' b' st ss :=
  { h with length_nums := Nat.le_trans h.length_nums ha, length_ops := Nat.le_trans h.length_ops hb }

section Apply
variable {σ : Type} {hooks : MathHooks σ}

/-- What every step of a computation keeps: the variables may be looked up and assigned to, and
these errors may come up. -/
structure Invariant (hooks : MathHooks σ) (I : σ → Prop) (E : Errcode → Prop) : Prop where
  lookupvar : ∀ {s} x, I s → I (hooks.lookupvar x s).2
  setvar : ∀ {s s' x v}, I s → hooks.setvar x (arithTFmt v) s = some s' → I s'
  unspecified : E .unspecified
  divideByZero : E .divideByZero
  exponentLess : E .exponentLess
  raised : E .raised
  undefined : E .undefined

theorem invariant_true : Invariant hooks (fun _ => True) (fun _ => True) :=
  ⟨fun _ _ => trivial, fun _ _ => trivial, trivial, trivial, trivial, trivial, trivial⟩

variable {I : σ → Prop} {E : Errcode → Prop} {lookup : VNT → ArithM σ VNT} {chain : List Name}

theorem run_setvar {x : Name} (hx : chain.contains x = false) (p : List Char) (s : σ) :
    (setvar hooks chain x p).run.run s = match hooks.setvar x p s with
      | some s' => (.ok (), s')
      | none => (.error .raised, s) := by
  rw [setvar, hx, if_neg Bool.false_ne_true, run_bind_eq]
  change (match hooks.setvar x p s with
    | some s' => set s'
    | none => throw Errcode.raised : ArithM σ Unit).run.run s = _
  split <;> rfl

theorem keeps_setvar (hI : Invariant hooks I E) (x : Name) (v : ArithT) :
    Keeps I (fun _ => True) E (setvar hooks chain x (arithTFmt v)) := by
  cases hx : chain.contains x with
  | true =>
    rw [setvar, hx, if_pos rfl]
    exact keeps_throw hI.undefined
  | false =>
    intro s hs
    rw [run_setvar hx]
    split
    · rename_i s' hset
      exact ⟨hI.setvar hs hset, trivial⟩
    · exact ⟨hs, hI.raised⟩

theorem keeps_storeRez (hI : Invariant hooks I E) (op : Operator) (t : VNT) (rez : ArithT) :
    Keeps I (fun _ => True) E (storeRez hooks chain op t rez) := by
  unfold storeRez
  split
  · split
    · exact keeps_throw hI.unspecified
    · exact (keeps_setvar hI _ rez).bind fun _ _ => keeps_pure trivial
  · exact keeps_pure trivial

theorem keeps_binaryRez (hI : Invariant hooks I E) (op : Operator) (rez numptr_val : ArithT) :
    Keeps I (fun _ => True) E (binaryRez op rez numptr_val : ArithM σ ArithT) := by
  have hshift : ∀ v : ArithT, Keeps I (fun _ => True) E (shiftRez numptr_val v : ArithM σ ArithT) := by
    intro v
    unfold shiftRez
    split
    · exact keeps_pure trivial
    · exact keeps_throw hI.undefined
  have hdiv : ∀ x : ArithM σ ArithT, Keeps I (fun _ => True) E x →
      Keeps I (fun _ => True) E (if numptr_val = 0 then throw .divideByZero else x) := by
    intro x hx
    split
    · exact keeps_throw hI.divideByZero
    · exact hx
  have hquot : ∀ v : ArithT, Keeps I (fun _ => True) E (divRez rez numptr_val v : ArithM σ ArithT) := by
    intro v
    unfold divRez
    split
    · exact keeps_throw hI.undefined
    · exact keeps_pure trivial
  cases op <;> first
    | exact keeps_pure trivial
    | exact hshift _
    | exact hdiv _ (hquot _)
    | exact hdiv _ (keeps_pure trivial)
    | skip
  rw [binaryRez]
  split
  · exact keeps_throw hI.exponentLess
  · exact keeps_pure trivial

theorem keeps_arithApply (hI : Invariant hooks I E)
    (hlookup : ∀ t, Keeps I (fun _ => True) E (lookup t)) (op : Operator) (ns : List VNT) :
    Keeps I (fun ms => ms.length ≤ ns.length) E (arithApply hooks chain lookup op ns) := by
  have hstore : ∀ (t : VNT) (rez : ArithT) (below : List VNT), below.length < ns.length →
      Keeps I (fun ms => ms.length ≤ ns.length) E (do
        let t ← storeRez hooks chain op t rez
        pure (t :: below)) :=
    fun t rez below hlen => keeps_map (keeps_storeRez hI op t rez) fun _ _ => hlen
  rcases ns with _ | ⟨t, below⟩
  · exact keeps_throw hI.unspecified
  · refine (hlookup t).bind fun t _ => ?_
    cases unaryRez op t.val with
    | some rez => exact hstore t rez below (Nat.lt_succ_self _)
    | none =>
      cases below with
      | nil => exact keeps_throw hI.unspecified
      | cons u bottom =>
        have hlen : bottom.length < (t :: u :: bottom).length := Nat.lt_succ_of_lt (Nat.lt_succ_self _)
        have hlast : ∀ u, Keeps I (fun ms : List VNT => ms.length ≤ (t :: u :: bottom).length) E
            (if op = .CONDITIONAL_SEP then
              if bottom.isEmpty then err
              else do
                let u := { u with
                  contidional_second_val_initialized := true
                  contidional_second_val := t.val }
                let u ← storeRez hooks chain op u u.val
                pure (u :: bottom)
            else if op = .CONDITIONAL then do
              let u := { u with contidional_second_val := t.contidional_second_val }
              let u ← storeRez hooks chain op u (if u.val ≠ 0 then t.val else u.contidional_second_val)
              pure (u :: bottom)
            else do
              let rez ← binaryRez op u.val t.val
              let u ← storeRez hooks chain op u rez
              pure (u :: bottom)) := by
          intro u
          split
          · split
            · exact keeps_throw hI.unspecified
            · exact hstore _ _ _ hlen
          · split
            · exact hstore _ _ _ hlen
            · exact (keeps_binaryRez hI op _ _).bind fun rez _ => hstore _ _ _ hlen
        dsimp only
        split
        · exact keeps_throw hI.unspecified
        · split
          · exact hlast u
          · exact (hlookup u).bind fun u _ => hlast u

end Apply

section Stacks
variable {σ : Type} {hooks : MathHooks σ} {chain : List Name} {lookup : VNT → ArithM σ VNT}

theorem arithApply_length (op : Operator) (ns : List VNT) :
    Keeps (fun _ => True) (fun ms => ms.length ≤ ns.length) (fun _ => True)
      (arithApply hooks chain lookup op ns) :=
  keeps_arithApply invariant_true (fun _ => keeps_true) op ns

/-- Room has been made on stacks of `a` numbers and `b` operators. -/
inductive Shifts (a b : Nat) : Popped → List (Option Operator) × List VNT → Prop
  | stays {stack : List Operator} {ns : List VNT} (ha : ns.length ≤ a) (hb : stack.length ≤ b) :
      Shifts a b (.stays stack ns) (stack.map frame, ns)

theorem Shifts.mono {a b a' b' : Nat} {p : Popped} {r : List (Option Operator) × List VNT}
    (h : Shifts a b p r) (ha : a ≤ a') (hb : b ≤ b') : Shifts a' b' p r := by
  cases h with
  | stays hn hs => exact .stays (Nat.le_trans hn ha) (Nat.le_trans hs hb)

variable (σ) in
theorem related_stays (stack : List Operator) (ns : List VNT) :
    Related (Shifts ns.length stack.length) (pure (.stays stack ns) : ArithM σ Popped)
      (pure (stack.map frame, ns)) :=
  related_pure (.stays (Nat.le_refl _) (Nat.le_refl _))

theorem popStack_shift {op : Operator} (hop : op ≠ .RPAREN) (hprec : 0 < PREC op)
    (stack : List Operator) (ns : List VNT) :
    Related (Shifts ns.length stack.length) (popStack hooks chain lookup op stack ns)
      (Precedence.shift arithTable (arithApply hooks chain lookup) op (stack.map frame) ns) := by
  have hpos : 0 < convertPrecIsAssing (PREC op) := by
    unfold convertPrecIsAssing
    split <;> omega
  induction stack generalizing ns with
  | nil => exact related_stays σ [] ns
  | cons top stack ih =>
    rw [popStack, if_neg hop]
    dsimp only
    by_cases htop : top = .LPAREN
    · subst htop
      have hlt : convertPrecIsAssing (PREC .LPAREN) < convertPrecIsAssing (PREC op) := hpos
      rw [if_pos hlt]
      exact related_stays σ (.LPAREN :: stack) ns
    · have hframe : frame top = some top := if_neg htop
      have hstays := related_stays σ (top :: stack) ns
      rw [List.map_cons, hframe] at hstays ⊢
      rw [Precedence.shift]
      split
      case isTrue hlt =>
        rw [if_neg fun hy => hy.1 hlt]
        exact hstays
      case isFalse hlt =>
        split
        case isTrue heq =>
          rw [if_neg fun hy => hy.2 heq]
          exact hstays
        case isFalse heq =>
          rw [if_pos ⟨hlt, heq⟩]
          refine (arithApply_length top ns).related fun ms hms => ?_
          exact (ih ms).mono fun p r h => h.mono hms (Nat.le_succ _)

theorem popStack_close (stack : List Operator) (ns : List VNT) :
    Related (Matches ns.length stack.length)
      (do match ← popStack hooks chain lookup .RPAREN stack ns with
          | .closed stack numstack => pure ⟨numstack, stack, .NUM⟩
          | .stays _ _ => err)
      (Precedence.close (arithApply hooks chain lookup) err (stack.map frame) ns) := by
  induction stack generalizing ns with
  | nil => exact related_throw _
  | cons top stack ih =>
    rw [popStack, if_pos rfl]
    by_cases htop : top = .LPAREN
    · subst htop
      exact related_pure ⟨rfl, rfl, rfl, Nat.le_refl _, Nat.le_succ _⟩
    · have hframe : frame top = some top := if_neg htop
      rw [if_neg htop, List.map_cons, hframe, Precedence.close, bind_assoc]
      refine (arithApply_length top ns).related fun ms hms => ?_
      exact (ih ms).mono fun st ss h => h.mono hms (Nat.le_succ _)

end Stacks

/-! ## Reading a text -/

/-- What `op_tokens` holds besides the parentheses. -/
def IsOp (op : Operator) : Prop := op ≠ .LPAREN ∧ op ≠ .RPAREN ∧ op ≠ .NUM

def IsTok (t : Tok) : Prop := ∀ op, t = .sym op → IsOp op

theorem isTok_tokenOf {t : List Char × Operator} (ht : t ∈ opTokens) : IsTok (tokenOf t.2) := by
  have hnum : t.2 ≠ .NUM := by
    revert t
    decide
  generalize t.2 = op at hnum
  intro op' h
  cases op <;> cases h <;> exact ⟨by decide, by decide, hnum⟩

theorem isTok_lexemes (n : Nat) (s : List Char) : ∀ t ∈ (lexemes n s).1, IsTok t := by
  fun_induction lexemes n s with
  | case1 => simp
  | case2 => simp
  | case3 n c rest hspace ih => exact ih
  | case4 n c rest hspace hname ts ih =>
    exact List.forall_mem_cons.2 ⟨fun op h => (by cases h), ih⟩
  | case5 n c rest hspace hname hdigit ts ih =>
    exact List.forall_mem_cons.2 ⟨fun op h => (by cases h), ih⟩
  | case6 => simp
  | case7 n c rest hspace hname hdigit t ht ts ih =>
    exact List.forall_mem_cons.2 ⟨isTok_tokenOf (List.mem_of_find?_eq_some ht), ih⟩

section Step
variable {σ : Type} {hooks : MathHooks σ} {chain : List Name} {datasizes : Nat}
  {lookup : VNT → ArithM σ VNT} {a b : Nat} {st : ArithSt} {ss : Precedence.Stacks Operator VNT}

variable (σ) in
theorem pushOp_matches (op : Operator) {stack : List Operator} {ns : List VNT}
    (hns : ns.length ≤ a) (hstack : stack.length ≤ b) (hb : b < datasizes) :
    Related (Matches a (b + 1)) (pushOp datasizes op stack ns : ArithM σ ArithSt)
      (pure ⟨frame op :: stack.map frame, ns, endsOperand op⟩) := by
  rw [pushOp, if_pos (Nat.lt_of_le_of_lt hstack hb)]
  exact related_pure ⟨rfl, rfl, rfl, hns, Nat.succ_le_succ hstack⟩

/-- `lasttok` as `readOp` takes it. -/
def lasttokOf (lasttok : Operator) : Operator :=
  if lasttok = .POST_INC ∨ lasttok = .POST_DEC then .NUM else lasttok

theorem lasttokOf_iff (h : Matches a b st ss) : lasttokOf st.lasttok = .NUM ↔ ss.ended = true := by
  rw [← h.ended]
  cases st.lasttok <;> decide

theorem unaryOp_lasttok (h : Matches a b st ss) (op : Operator) :
    unaryOp (lasttokOf st.lasttok) op = arithTable.classify ss.ended op := by
  have hiff := lasttokOf_iff h
  cases hended : ss.ended with
  | true => rw [hiff.2 hended]; rfl
  | false =>
    have hne : lasttokOf st.lasttok ≠ .NUM := fun heq => by
      rw [hiff.1 heq] at hended
      cases hended
    simp only [arithTable, unaryOp, if_neg hne]
    rfl

theorem isOp_classify {op : Operator} (hop : IsOp op) (ended : Bool) :
    IsOp (arithTable.classify ended op) := by
  revert hop
  cases ended <;> cases op <;> simp [arithTable, unaryOp, IsOp]

theorem frame_of_isOp {op : Operator} (hop : IsOp op) : frame op = some op := if_neg hop.1

theorem readOp_eq (h : Matches a b st ss) (op : Operator) : readOp hooks chain datasizes lookup op st =
    if (0 < PREC (arithTable.classify ss.ended op) ∧
        PREC (arithTable.classify ss.ended op) < UNARYPREC) ∨ PREC (arithTable.classify ss.ended op) = SPEC_PREC then
      if ss.ended = true then do
        match ← popStack hooks chain lookup (arithTable.classify ss.ended op) st.stack st.numstack with
        | .closed stack numstack => pure ⟨numstack, stack, .NUM⟩
        | .stays stack numstack =>
          if arithTable.classify ss.ended op = .RPAREN then err
          else pushOp datasizes (arithTable.classify ss.ended op) stack numstack
      else err
    else pushOp datasizes (arithTable.classify ss.ended op) st.stack st.numstack := by
  rw [← unaryOp_lasttok h op]
  simp only [← lasttokOf_iff h]
  rfl

theorem fixity_bin {op : Operator} (hop : IsOp op) (h : arithTable.fixity op = .bin) :
    0 < PREC op ∧ PREC op < UNARYPREC ∧ endsOperand op = false := by
  revert hop h
  cases op <;> simp [arithTable, fixity, IsOp, PREC, UNARYPREC, SPEC_PREC, endsOperand]

theorem fixity_unary {op : Operator} (hop : IsOp op) (h : arithTable.fixity op ≠ .bin) :
    ¬ ((0 < PREC op ∧ PREC op < UNARYPREC) ∨ PREC op = SPEC_PREC) ∧
      endsOperand op = (arithTable.fixity op == .post) := by
  revert hop h
  cases op <;> simp [arithTable, fixity, IsOp, PREC, UNARYPREC, SPEC_PREC, endsOperand]

theorem readOp_sym {op : Operator} (hop : IsOp op) (h : Matches a b st ss) (hb : b < datasizes) :
    Related (Matches a (b + 1)) (readOp hooks chain datasizes lookup op st)
      (Precedence.step arithTable (arithApply hooks chain lookup) err ss (.sym op)) := by
  have hop' := isOp_classify hop ss.ended
  rw [Precedence.step, readOp_eq h]
  generalize arithTable.classify ss.ended op = o at hop'
  have hframe := frame_of_isOp hop'
  have hpush := pushOp_matches σ o h.length_nums h.length_ops hb
  rw [h.ops, h.nums, hframe] at hpush
  cases hfix : arithTable.fixity o with
  | bin =>
    obtain ⟨hpos, hlt, hends⟩ := fixity_bin hop' hfix
    rw [if_pos (.inl ⟨hpos, hlt⟩)]
    dsimp only
    split
    case isFalse => exact related_throw _
    case isTrue =>
      rw [← h.ops, ← h.nums]
      refine (popStack_shift hop'.2.1 hpos st.stack st.numstack).bind fun p r hpr => ?_
      cases hpr with
      | stays hns hstack =>
        have hpush := pushOp_matches σ o (Nat.le_trans hns h.length_nums)
          (Nat.le_trans hstack h.length_ops) hb
        rw [hframe, hends] at hpush
        simpa only [if_neg hop'.2.1] using hpush
  | pre =>
    obtain ⟨hno, hends⟩ := fixity_unary hop' (by simp [hfix])
    rw [hends, hfix] at hpush
    rw [if_neg hno, h.nums]
    exact hpush
  | post =>
    obtain ⟨hno, hends⟩ := fixity_unary hop' (by simp [hfix])
    rw [hends, hfix] at hpush
    rw [if_neg hno, h.nums]
    exact hpush

/-- **A token** is a step of the two stacks. -/
theorem readToken_step {t : Tok} (ht : IsTok t) (h : Matches a b st ss)
    (ha : a + (if t.isOperand then 1 else 0) ≤ datasizes / 2) (hb : b < datasizes) :
    Related (Matches (a + if t.isOperand then 1 else 0) (b + 1)) (readToken hooks chain datasizes lookup st t)
      (Precedence.step arithTable (arithApply hooks chain lookup) err ss t) := by
  cases t with
  | operand v =>
    have hroom : st.numstack.length < datasizes / 2 := Nat.lt_of_le_of_lt h.length_nums ha
    rw [readToken, pushNum, if_pos hroom]
    exact related_pure ⟨by rw [h.nums], h.ops, rfl, Nat.succ_le_succ h.length_nums,
      Nat.le_succ_of_le h.length_ops⟩
  | lparen =>
    have hpush := pushOp_matches σ .LPAREN h.length_nums h.length_ops hb
    rw [h.ops, h.nums] at hpush
    have hclass : arithTable.classify ss.ended .LPAREN = .LPAREN := by cases ss.ended <;> rfl
    rw [readToken, readOp_eq h, hclass, if_neg (by decide), h.nums]
    exact hpush
  | rparen =>
    have hclass : arithTable.classify ss.ended .RPAREN = .RPAREN := by cases ss.ended <;> rfl
    have hspec : (0 < PREC .RPAREN ∧ PREC .RPAREN < UNARYPREC) ∨ PREC .RPAREN = SPEC_PREC := .inr rfl
    rw [readToken, readOp_eq h, hclass, if_pos hspec, Precedence.step]
    by_cases hended : ss.ended = true
    · rw [if_pos hended, if_pos hended, ← h.ops, ← h.nums]
      exact (popStack_close st.stack st.numstack).mono fun st ss hm =>
        hm.mono h.length_nums (Nat.le_succ_of_le h.length_ops)
    · rw [if_neg hended, if_neg hended]
      exact related_throw _
  | sym op => exact readOp_sym (ht op rfl) h hb

variable (hooks chain) in
theorem readTokens_run (lookup : VNT → ArithM σ VNT) {ts : List Tok} (hts : ∀ t ∈ ts, IsTok t)
    (h : Matches a b st ss)
    (ha : a + ts.countP Precedence.Token.isOperand ≤ datasizes / 2)
    (hb : b + ts.length ≤ datasizes) :
    Related (Matches (a + ts.countP Precedence.Token.isOperand) (b + ts.length))
      (ts.foldlM (readToken hooks chain datasizes lookup) st)
      (Precedence.run arithTable (arithApply hooks chain lookup) err ts ss) := by
  induction ts generalizing a b st ss with
  | nil => exact related_pure h
  | cons t ts ih =>
    rw [List.countP_cons, List.length_cons] at *
    rw [List.foldlM_cons, Precedence.run_cons]
    have ha' : a + (if t.isOperand then 1 else 0) ≤ datasizes / 2 := by omega
    refine (readToken_step (hts t List.mem_cons_self) h ha' (by omega)).bind fun st ss h => ?_
    have hrun := ih (fun t ht => hts t (List.mem_cons_of_mem _ ht)) h (by omega) (by omega)
    exact hrun.mono fun st ss h => h.mono (by omega) (by omega)

end Step

/-! ## Reading an expression -/

/-! ## Reading an expression -/

section Expression
variable {σ : Type} {hooks : MathHooks σ} {s : List Char} {ts : List Tok} {e : Expr}

theorem readTokens_tree {arith : List Name → List Char → ArithM σ ArithT} {chain : List Name}
    (hlex : lexemes s.length s = (ts, true)) (h : Precedence.Derives arithTable 0 e.tree ts) :
    Related (fun (st : ArithSt) a => Tops [] st.numstack a)
      ((ts ++ [Precedence.Token.rparen]).foldlM (readToken hooks chain (s.length + 2)
        (arithLookupVal hooks arith chain))
        ⟨[], [.LPAREN], .LPAREN⟩)
      (e.eval (varValue hooks arith chain) (varStore hooks chain)) := by
  have hlen := length_lexemes s.length s
  have htoks := isTok_lexemes s.length s
  rw [hlex] at hlen htoks
  dsimp only at hlen htoks
  have hcount := h.length_operands.2
  have htoks' : ∀ t ∈ ts ++ [.rparen], IsTok t := by
    intro t ht
    rcases List.mem_append.1 ht with ht | ht
    · exact htoks t ht
    · cases List.mem_singleton.1 ht
      exact fun op hop => by cases hop
  have hstart : Matches 0 1 ⟨[], [.LPAREN], .LPAREN⟩ ⟨[none], [], false⟩ :=
    ⟨rfl, rfl, rfl, Nat.le_refl _, Nat.le_refl _⟩
  have hroom : 0 + (ts ++ [Precedence.Token.rparen]).countP Precedence.Token.isOperand ≤
      (s.length + 2) / 2 := by
    simp [Precedence.Token.isOperand]
    omega
  have hlength : 1 + (ts ++ [Precedence.Token.rparen]).length ≤ s.length + 2 := by
    rw [List.length_append, List.length_singleton]
    omega
  have hrun := readTokens_run hooks chain (arithLookupVal hooks arith chain) htoks' hstart hroom
    hlength
  rw [Precedence.run_of_derives h] at hrun
  have hval : Related (fun ss a => Tops [] ss.nums a)
      ((fun ms => (⟨[], ms, true⟩ : Precedence.Stacks Operator VNT)) <$>
        Precedence.evalOn (arithApply hooks chain (arithLookupVal hooks arith chain)) e.tree [])
      (e.eval (varValue hooks arith chain) (varStore hooks chain)) := by
    rw [← bind_pure_comp, ← bind_pure (e.eval _ _)]
    exact (evalOn_tree hooks arith chain e []).bind fun ms a hms => related_pure hms
  refine (hrun.trans hval).mono fun st a h => ?_
  obtain ⟨ss, hm, htop⟩ := h
  rw [hm.nums]
  exact htop

theorem isEmpty_of_derives {p : Nat} {t : Precedence.Tree VNT Operator}
    (h : Precedence.Derives arithTable p t ts) : ts.isEmpty = false := by
  cases ts with
  | nil => exact absurd h.length_operands.1 (Nat.lt_irrefl 0)
  | cons => rfl

/-- **A text whose tokens the precedences derive** from an expression is worth what that is: the
cell that is left at the end is looked up. -/
theorem arith_of_derives (depth : Nat) (chain : List Name) (hlex : lexemes s.length s = (ts, true))
    (h : Precedence.Derives arithTable 0 e.tree ts) : arith hooks (depth + 1) chain s =
      e.value (varValue hooks (arith hooks depth) chain) (varStore hooks chain) := by
  have hread : Related (fun (st : ArithSt) a => Tops [] st.numstack a)
      ((ts ++ [Precedence.Token.rparen]).foldlM (readToken hooks chain (s.length + 2)
        (arithLookupVal hooks (arith hooks depth) chain)) ⟨[], [.LPAREN], .LPAREN⟩)
      (e.eval (varValue hooks (arith hooks depth) chain) (varStore hooks chain)) :=
    readTokens_tree hlex h
  rw [arith, arithLoop_eq (Nat.le_refl _), hlex]
  simp only [isEmpty_of_derives h, bind_assoc, Bool.and_false, if_true, pure_bind,
    Bool.false_eq_true, if_false]
  simp only [List.foldlM_append, List.foldlM_cons, List.foldlM_nil, bind_pure, readToken] at hread
  rw [← bind_assoc]
  refine Related.eq (hread.bind fun st a htop => ?_)
  obtain ⟨t, hnums, ht⟩ := htop
  simp only [hnums, arithLookupVal_eq ht, bind_map_left, bind_pure]
  exact related_refl _

end Expression

end N32905.Busybox
