import N32905.Busybox.Expression
import N32905.Lib.Effects
import N32905.Lib.Precedence

/-!
# What an arithmetic expression is worth

`arith` keeps numbers and names on a stack, and an operator is applied to the top of it. Where
this is done for the operators of an expression, its leaves and nodes from left to right, it
leaves what the expression is worth.
-/

namespace N32905.Busybox

open N32905.Lib

/-! ## The operators of `math.c` -/

def UnaryOp.token : UnaryOp → Operator
  | minus => .UMINUS
  | plus => .UPLUS
  | not => .NOT
  | bnot => .BNOT

def BinaryOp.token : BinaryOp → Operator
  | comma => .COMMA
  | or => .OR
  | and => .AND
  | bor => .BOR
  | bxor => .BXOR
  | band => .BAND
  | eq => .EQ
  | ne => .NE
  | lt => .LT
  | gt => .GT
  | ge => .GE
  | le => .LE
  | lshift => .LSHIFT
  | rshift => .RSHIFT
  | add => .ADD
  | sub => .SUB
  | mul => .MUL
  | div => .DIV
  | rem => .REM
  | exponent => .EXPONENT

def StepOp.token : StepOp → Operator
  | preInc => .PRE_INC
  | preDec => .PRE_DEC
  | postInc => .POST_INC
  | postDec => .POST_DEC

def AssignOp.token : AssignOp → Operator
  | set => .ASSIGN
  | bor => .OR_ASSIGN
  | bxor => .XOR_ASSIGN
  | band => .AND_ASSIGN
  | lshift => .LSHIFT_ASSIGN
  | rshift => .RSHIFT_ASSIGN
  | add => .PLUS_ASSIGN
  | sub => .MINUS_ASSIGN
  | mul => .MUL_ASSIGN
  | div => .DIV_ASSIGN
  | rem => .REM_ASSIGN

/-! ## Variables -/

section Variables
variable {σ : Type} (hooks : MathHooks σ)

/-- A variable is an expression itself, unless it is being looked up. -/
def varValue (arith : List Name → List Char → ArithM σ ArithT) (chain : List Name) (x : Name) :
    ArithM σ ArithT := do
  let p ← lookupvar hooks x
  p.elim (pure 0) fun p => if chain.contains x then throw .recursionLoop else arith (x :: chain) p

/-- A number is stored as a decimal. -/
def varStore (chain : List Name) (x : Name) (z : ArithT) : ArithM σ Unit :=
  setvar hooks chain x (arithTFmt z)

end Variables

/-! ## The tree of an expression -/

def numCell (v : ArithT) : VNT := ⟨v, 0, false, none⟩

def varCell (x : Name) : VNT := ⟨0, 0, false, some x⟩

def Expr.tree : Expr → Precedence.Tree VNT Operator
  | .num v => .leaf (numCell v)
  | .var x => .leaf (varCell x)
  | .unary op e => .un op.token e.tree
  | .step op e => .un op.token e.tree
  | .binary op l r => .bin op.token l.tree r.tree
  | .assign op l r => .bin op.token l.tree r.tree
  | .cond c a b => .bin .CONDITIONAL c.tree (.bin .CONDITIONAL_SEP a.tree b.tree)

def Operand.name : Operand → Option Name
  | .num _ => none
  | .var x => some x

structure Shows (t : VNT) (a : Operand) : Prop where
  single : t.contidional_second_val_initialized = false
  name : t.var = a.name
  val : ∀ v, a = .num v → t.val = v

/-! ## One operator -/

section Apply
variable {σ : Type} {hooks : MathHooks σ} {arith : List Name → List Char → ArithM σ ArithT}
  {chain : List Name} {t u w : VNT} {a b d : Operand} {ns : List VNT}

theorem arithLookupVal_some {x : Name} (h : t.var = some x) :
    arithLookupVal hooks arith chain t =
      (fun v => { t with val := v }) <$> varValue hooks arith chain x := by
  unfold arithLookupVal
  rw [h, varValue, map_bind]
  refine bind_congr fun p => ?_
  cases p with
  | none => rw [Option.elim_none, map_pure]
  | some p =>
    dsimp only [Option.elim_some]
    split
    · rfl
    · rw [bind_pure_comp]

theorem arithLookupVal_eq (h : Shows t a) :
    arithLookupVal hooks arith chain t =
      (fun v => { t with val := v }) <$> a.force (varValue hooks arith chain) := by
  cases a with
  | num v =>
    obtain ⟨val, second, init, var⟩ := t
    have hname : var = none := h.name
    have hval : val = v := h.val v rfl
    subst hname
    rw [hval, Operand.force, map_pure]
    rfl
  | var x => exact arithLookupVal_some h.name

def Tops (ns ms : List VNT) (a : Operand) : Prop := ∃ t, ms = t :: ns ∧ Shows t a

theorem tops_num (v second : ArithT) : Tops ns (⟨v, second, false, none⟩ :: ns) (.num v) :=
  ⟨_, rfl, rfl, rfl, fun _ h => by cases h; rfl⟩

theorem unaryRez_unary (op : UnaryOp) (v : ArithT) : unaryRez op.token v = some (op.eval v) := by
  cases op with
  | minus =>
    have hneg : v * -1 = -v := by
      rw [BitVec.mul_neg]
      simp
    rw [UnaryOp.token, unaryRez, hneg, UnaryOp.eval]
  | plus => rfl
  | not => simp [UnaryOp.token, unaryRez, UnaryOp.eval, toArith]
  | bnot => rfl

theorem unaryRez_step (op : StepOp) (v : ArithT) : unaryRez op.token v = some (op.next v) := by
  cases op <;> rfl

theorem unaryRez_binary (op : BinaryOp) (v : ArithT) : unaryRez op.token v = none := by
  cases op <;> rfl

theorem storeRez_plain {op : Operator} (hop : tokHaveAssign op = false) (t : VNT) (rez : ArithT) :
    storeRez hooks chain op t rez = pure { t with val := rez, var := none } := by
  rw [storeRez, hop]
  rfl

theorem storeRez_assign {op : Operator} (hop : tokHaveAssign op = true) (h : t.var = a.name)
    (rez : ArithT) : storeRez hooks chain op t rez = (do
      a.store (varStore hooks chain) rez
      pure { t with
        val := if op = .POST_INC then rez - 1 else if op = .POST_DEC then rez + 1 else rez
        var := none }) := by
  rw [storeRez, hop, if_pos rfl, h]
  cases a <;> rfl

theorem tops_of {v : ArithT} (hs : t.contidional_second_val_initialized = false) :
    Tops ns ({ t with val := v, var := none } :: ns) (.num v) :=
  ⟨_, rfl, hs, rfl, fun _ h => by cases h; rfl⟩

theorem apply_unary (op : UnaryOp) (h : Shows t a) :
    Related (Tops ns) (arithApply hooks chain (arithLookupVal hooks arith chain) op.token (t :: ns)) (do
      let v ← a.force (varValue hooks arith chain)
      pure (.num (op.eval v))) := by
  have hplain : tokHaveAssign op.token = false := by cases op <;> rfl
  simp only [arithApply, arithLookupVal_eq h, bind_map_left, unaryRez_unary, storeRez_plain hplain,
    pure_bind]
  refine (related_refl _).bind fun v _ hv => ?_
  cases hv
  exact related_pure (tops_of h.single)

theorem apply_step (op : StepOp) (h : Shows t a) :
    Related (Tops ns) (arithApply hooks chain (arithLookupVal hooks arith chain) op.token (t :: ns)) (do
      let v ← a.force (varValue hooks arith chain)
      a.store (varStore hooks chain) (op.next v)
      pure (.num (op.result v))) := by
  have hassign : tokHaveAssign op.token = true := by cases op <;> rfl
  have hresult : ∀ v, (if op.token = .POST_INC then op.next v - 1
      else if op.token = .POST_DEC then op.next v + 1 else op.next v) = op.result v := by
    intro v
    cases op with
    | preInc => rfl
    | preDec => rfl
    | postInc => exact BitVec.add_sub_cancel v 1
    | postDec => exact BitVec.sub_add_cancel v 1
  simp only [arithApply, arithLookupVal_eq h, bind_map_left, unaryRez_step]
  refine (related_refl _).bind fun v _ hv => ?_
  cases hv
  have hname : ({ t with val := v } : VNT).var = a.name := h.name
  rw [storeRez_assign hassign hname, hresult, bind_assoc]
  refine (related_refl _).bind fun _ _ _ => ?_
  rw [pure_bind]
  exact related_pure (tops_of h.single)

/-- Two operands, the right one on top, and an operator that is none of the conditional's. -/
theorem apply_two {op : Operator} (hun : ∀ v, unaryRez op v = none) (hop : op ≠ .CONDITIONAL)
    (hsep : op ≠ .CONDITIONAL_SEP) (ht : Shows t b) :
    arithApply hooks chain (arithLookupVal hooks arith chain) op (t :: u :: ns) = (do
      let y ← b.force (varValue hooks arith chain)
      let u ← if op = .ASSIGN then pure u else arithLookupVal hooks arith chain u
      let rez ← binaryRez op u.val y
      let u ← storeRez hooks chain op u rez
      pure (u :: ns)) := by
  simp only [arithApply, arithLookupVal_eq ht, bind_map_left, hun, if_neg hop, if_neg hsep,
    ht.single]
  refine bind_congr fun y => ?_
  rw [if_neg]
  simp [hop]

theorem exponentLoop_eq (rez : ArithT) (n : Nat) (c : ArithT) :
    exponentLoop rez n c = c * rez ^ n := by
  induction n generalizing c with
  | zero => simp [exponentLoop]
  | succ n ih => rw [exponentLoop, ih, BitVec.pow_succ, BitVec.mul_assoc, BitVec.mul_comm rez]

theorem binaryRez_binary (op : BinaryOp) (x y : ArithT) :
    (binaryRez op.token x y : ArithM σ ArithT) = op.eval x y := by
  cases op with
  | or => simp [BinaryOp.token, binaryRez, BinaryOp.eval, Bool.or_comm]
  | and => simp [BinaryOp.token, binaryRez, BinaryOp.eval]
  | eq => simp [BinaryOp.token, binaryRez, BinaryOp.eval, BitVec.toInt_inj]
  | ne => simp [BinaryOp.token, binaryRez, BinaryOp.eval, BitVec.toInt_inj]
  | exponent =>
    have hneg : y.slt 0 = decide (y.toInt < 0) := by simp [BitVec.slt]
    simp only [BinaryOp.token, binaryRez, BinaryOp.eval, hneg, decide_eq_true_eq, exponentLoop_eq]
    simp
  | _ => rfl

theorem binaryRez_assign {op : AssignOp} {o : BinaryOp} (h : op.binary = some o) (x y : ArithT) :
    (binaryRez op.token x y : ArithM σ ArithT) = o.eval x y := by
  cases op <;> cases h <;> rfl

theorem assign_facts (op : AssignOp) : tokHaveAssign op.token = true ∧
    (∀ v, unaryRez op.token v = none) ∧ op.token ≠ .CONDITIONAL ∧ op.token ≠ .CONDITIONAL_SEP ∧
    op.token ≠ .POST_INC ∧ op.token ≠ .POST_DEC ∧ (op.token = .ASSIGN ↔ op.binary = none) := by
  cases op <;>
    exact ⟨rfl, fun _ => rfl, by decide, by decide, by decide, by decide, by simp [AssignOp.token, AssignOp.binary]⟩

theorem apply_binary (op : BinaryOp) (ht : Shows t b) (hu : Shows u a) :
    Related (Tops ns) (arithApply hooks chain (arithLookupVal hooks arith chain) op.token (t :: u :: ns)) (do
      let y ← b.force (varValue hooks arith chain)
      let x ← a.force (varValue hooks arith chain)
      let z ← op.eval x y
      pure (.num z)) := by
  have hplain : tokHaveAssign op.token = false := by cases op <;> rfl
  rw [apply_two (unaryRez_binary op) (by cases op <;> simp [BinaryOp.token])
    (by cases op <;> simp [BinaryOp.token]) ht]
  refine (related_refl _).bind fun y _ hy => ?_
  cases hy
  rw [if_neg (by cases op <;> simp [BinaryOp.token]), arithLookupVal_eq hu, bind_map_left]
  refine (related_refl _).bind fun x _ hx => ?_
  cases hx
  rw [binaryRez_binary]
  refine (related_refl _).bind fun z _ hz => ?_
  cases hz
  rw [storeRez_plain hplain, pure_bind]
  exact related_pure (tops_of hu.single)

theorem storeRez_token (op : AssignOp) (hname : t.var = a.name)
    (hs : t.contidional_second_val_initialized = false) (z : ArithT) :
    Related (Tops ns) (do
      let t ← storeRez hooks chain op.token t z
      pure (t :: ns)) (do
      a.store (varStore hooks chain) z
      pure (.num z)) := by
  obtain ⟨hassign, -, -, -, hinc, hdec, -⟩ := assign_facts op
  rw [storeRez_assign hassign hname, if_neg hinc, if_neg hdec, bind_assoc]
  refine (related_refl _).bind fun _ _ _ => ?_
  rw [pure_bind]
  exact related_pure (tops_of hs)

theorem apply_assign (op : AssignOp) (ht : Shows t b) (hu : Shows u a) :
    Related (Tops ns) (arithApply hooks chain (arithLookupVal hooks arith chain) op.token
        (t :: u :: ns)) (do
      let y ← b.force (varValue hooks arith chain)
      let z ← op.eval (a.force (varValue hooks arith chain)) y
      a.store (varStore hooks chain) z
      pure (.num z)) := by
  obtain ⟨-, hun, hop, hsep, -, -, hset⟩ := assign_facts op
  rw [apply_two hun hop hsep ht]
  refine (related_refl _).bind fun y _ hy => ?_
  cases hy
  unfold AssignOp.eval
  cases hbin : op.binary with
  | none =>
    have hrez : ∀ x, (binaryRez op.token x y : ArithM σ ArithT) = pure y := by
      intro x
      rw [hset.2 hbin]
      rfl
    simp only [if_pos (hset.2 hbin), pure_bind, hrez]
    exact storeRez_token op hu.name hu.single y
  | some o =>
    rw [if_neg (by simp [hset, hbin]), arithLookupVal_eq hu, bind_map_left, bind_assoc]
    refine (related_refl _).bind fun x _ hx => ?_
    cases hx
    rw [binaryRez_assign hbin]
    refine (related_refl _).bind fun z _ hz => ?_
    cases hz
    exact storeRez_token op hu.name hu.single z

theorem apply_sep (ht : Shows t b) (hu : Shows u a) :
    arithApply hooks chain (arithLookupVal hooks arith chain) .CONDITIONAL_SEP (t :: u :: w :: ns) = (do
      let y ← b.force (varValue hooks arith chain)
      let x ← a.force (varValue hooks arith chain)
      pure (⟨x, y, true, none⟩ :: w :: ns)) := by
  have hun : ∀ v, unaryRez .CONDITIONAL_SEP v = none := fun _ => rfl
  simp only [arithApply, arithLookupVal_eq ht, bind_map_left, hun, ht.single]
  refine bind_congr fun y => ?_
  simp only [reduceCtorEq, if_false, arithLookupVal_eq hu, bind_map_left, List.isEmpty_cons,
    storeRez_plain (by rfl : tokHaveAssign .CONDITIONAL_SEP = false), pure_bind, if_true]
  rfl

theorem apply_conditional (x y : ArithT) (hw : Shows w d) :
    arithApply hooks chain (arithLookupVal hooks arith chain) .CONDITIONAL (⟨x, y, true, none⟩ :: w :: ns) = (do
      let v ← d.force (varValue hooks arith chain)
      pure (⟨if v ≠ 0 then x else y, y, false, none⟩ :: ns)) := by
  have hun : ∀ v, unaryRez .CONDITIONAL v = none := fun _ => rfl
  have hnone : arithLookupVal hooks arith chain ⟨x, y, true, none⟩ = pure ⟨x, y, true, none⟩ := rfl
  simp only [arithApply, hnone, pure_bind, hun, arithLookupVal_eq hw, bind_map_left,
    storeRez_plain (by rfl : tokHaveAssign .CONDITIONAL = false)]
  simp [hw.single]

theorem apply_cond (ht : Shows t b) (hu : Shows u a) (hw : Shows w d) :
    Related (Tops ns)
      (arithApply hooks chain (arithLookupVal hooks arith chain) .CONDITIONAL_SEP (t :: u :: w :: ns) >>=
        arithApply hooks chain (arithLookupVal hooks arith chain) .CONDITIONAL) (do
      let y ← b.force (varValue hooks arith chain)
      let x ← a.force (varValue hooks arith chain)
      let v ← d.force (varValue hooks arith chain)
      pure (.num (if v ≠ 0 then x else y))) := by
  rw [apply_sep ht hu]
  simp only [bind_assoc, pure_bind, apply_conditional _ _ hw]
  refine (related_refl _).bind fun y _ hy => ?_
  cases hy
  refine (related_refl _).bind fun x _ hx => ?_
  cases hx
  refine (related_refl _).bind fun v _ hv => ?_
  cases hv
  exact related_pure (tops_num _ _)

end Apply

/-! ## The whole tree -/

section Tree
variable {σ : Type} (hooks : MathHooks σ) (arith : List Name → List Char → ArithM σ ArithT)
  (chain : List Name)

/-- **The tree of an expression** has its value. -/
theorem evalOn_tree (e : Expr) (ns : List VNT) : Related (Tops ns)
    (Precedence.evalOn (arithApply hooks chain (arithLookupVal hooks arith chain)) e.tree ns)
    (e.eval (varValue hooks arith chain) (varStore hooks chain)) := by
  induction e generalizing ns with
  | num v => exact related_pure (tops_num v 0)
  | var x => exact related_pure ⟨_, rfl, rfl, rfl, fun _ h => by cases h⟩
  | unary op e ih =>
    refine (ih ns).bind fun ms a hms => ?_
    obtain ⟨t, rfl, ht⟩ := hms
    exact apply_unary op ht
  | step op e ih =>
    refine (ih ns).bind fun ms a hms => ?_
    obtain ⟨t, rfl, ht⟩ := hms
    exact apply_step op ht
  | binary op l r ihl ihr =>
    rw [Expr.tree, Precedence.evalOn, bind_assoc]
    refine (ihl ns).bind fun ms a hms => ?_
    obtain ⟨u, rfl, hu⟩ := hms
    refine (ihr _).bind fun ms b hms => ?_
    obtain ⟨t, rfl, ht⟩ := hms
    exact apply_binary op ht hu
  | assign op l r ihl ihr =>
    rw [Expr.tree, Precedence.evalOn, bind_assoc]
    refine (ihl ns).bind fun ms a hms => ?_
    obtain ⟨u, rfl, hu⟩ := hms
    refine (ihr _).bind fun ms b hms => ?_
    obtain ⟨t, rfl, ht⟩ := hms
    exact apply_assign op ht hu
  | cond c a b ihc iha ihb =>
    simp only [Expr.tree, Precedence.evalOn, bind_assoc]
    refine (ihc ns).bind fun ms d hms => ?_
    obtain ⟨w, rfl, hw⟩ := hms
    refine (iha _).bind fun ms a hms => ?_
    obtain ⟨u, rfl, hu⟩ := hms
    refine (ihb _).bind fun ms b hms => ?_
    obtain ⟨t, rfl, ht⟩ := hms
    exact apply_cond ht hu hw

end Tree

end N32905.Busybox
