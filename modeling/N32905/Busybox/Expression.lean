import Mathlib.Data.List.TakeWhile
import N32905.Busybox.Arith

/-!
# Expressions

What an arithmetic expression is, how it is written, and what it is worth. None of it is taken
from `math.c`: the operators are those of C, with `**` between the operators that have one
operand and those that multiply. A name stands for a variable, and what that is worth, and what
assigning to it does, is given.
-/

namespace N32905.Busybox

/-! ## Operators -/

inductive UnaryOp
  | minus | plus | not | bnot

inductive BinaryOp
  | comma | or | and | bor | bxor | band | eq | ne | lt | gt | ge | le | lshift | rshift
  | add | sub | mul | div | rem | exponent

inductive StepOp
  | preInc | preDec | postInc | postDec

inductive AssignOp
  | set | bor | bxor | band | lshift | rshift | add | sub | mul | div | rem

namespace UnaryOp

def symbol : UnaryOp → List Char
  | minus => ['-']
  | plus => ['+']
  | not => ['!']
  | bnot => ['~']

def eval : UnaryOp → ArithT → ArithT
  | minus, v => -v
  | plus, v => v
  | not, v => toArith (v = 0)
  | bnot, v => ~~~v

end UnaryOp

namespace BinaryOp

def symbol : BinaryOp → List Char
  | comma => [',']
  | or => ['|', '|']
  | and => ['&', '&']
  | bor => ['|']
  | bxor => ['^']
  | band => ['&']
  | eq => ['=', '=']
  | ne => ['!', '=']
  | lt => ['<']
  | gt => ['>']
  | ge => ['>', '=']
  | le => ['<', '=']
  | lshift => ['<', '<']
  | rshift => ['>', '>']
  | add => ['+']
  | sub => ['-']
  | mul => ['*']
  | div => ['/']
  | rem => ['%']
  | exponent => ['*', '*']

def level : BinaryOp → Nat
  | comma => 1
  | or => 5
  | and => 6
  | bor => 7
  | bxor => 8
  | band => 9
  | eq | ne => 10
  | lt | gt | ge | le => 11
  | lshift | rshift => 12
  | add | sub => 13
  | mul | div | rem => 14
  | exponent => 15

def eval {σ : Type} : BinaryOp → ArithT → ArithT → ArithM σ ArithT
  | comma, _, y => pure y
  | or, x, y => pure (toArith (x ≠ 0 ∨ y ≠ 0))
  | and, x, y => pure (toArith (x ≠ 0 ∧ y ≠ 0))
  | bor, x, y => pure (x ||| y)
  | bxor, x, y => pure (x ^^^ y)
  | band, x, y => pure (x &&& y)
  | eq, x, y => pure (toArith (x.toInt = y.toInt))
  | ne, x, y => pure (toArith (x.toInt ≠ y.toInt))
  | lt, x, y => pure (toArith (x.toInt < y.toInt))
  | gt, x, y => pure (toArith (y.toInt < x.toInt))
  | ge, x, y => pure (toArith (y.toInt ≤ x.toInt))
  | le, x, y => pure (toArith (x.toInt ≤ y.toInt))
  | lshift, x, y => if y.toNat < 64 then pure (x <<< y.toNat) else throw .undefined
  | rshift, x, y => if y.toNat < 64 then pure (x.sshiftRight y.toNat) else throw .undefined
  | add, x, y => pure (x + y)
  | sub, x, y => pure (x - y)
  | mul, x, y => pure (x * y)
  | div, x, y =>
    if y = 0 then throw .divideByZero
    else if x = BitVec.intMin 64 ∧ y = -1 then throw .undefined else pure (x.sdiv y)
  | rem, x, y =>
    if y = 0 then throw .divideByZero
    else if x = BitVec.intMin 64 ∧ y = -1 then throw .undefined else pure (x.srem y)
  | exponent, x, y => if y.toInt < 0 then throw .exponentLess else pure (x ^ y.toNat)

end BinaryOp

namespace StepOp

def symbol : StepOp → List Char
  | preInc | postInc => ['+', '+']
  | preDec | postDec => ['-', '-']

def isPre : StepOp → Bool
  | preInc | preDec => true
  | postInc | postDec => false

def next : StepOp → ArithT → ArithT
  | preInc, v | postInc, v => v + 1
  | preDec, v | postDec, v => v - 1

def result : StepOp → ArithT → ArithT
  | preInc, v => v + 1
  | preDec, v => v - 1
  | postInc, v | postDec, v => v

end StepOp

namespace AssignOp

def binary : AssignOp → Option BinaryOp
  | set => none
  | bor => some .bor
  | bxor => some .bxor
  | band => some .band
  | lshift => some .lshift
  | rshift => some .rshift
  | add => some .add
  | sub => some .sub
  | mul => some .mul
  | div => some .div
  | rem => some .rem

def symbol (op : AssignOp) : List Char := op.binary.elim [] BinaryOp.symbol ++ ['=']

/-- What is assigned. The variable is not looked up where it is just set. -/
def eval {σ : Type} (op : AssignOp) (look : ArithM σ ArithT) (y : ArithT) : ArithM σ ArithT :=
  match op.binary with
  | none => pure y
  | some op => do
    let x ← look
    op.eval x y

end AssignOp

/-! ## Values -/

inductive Expr
  | num (v : ArithT)
  | var (x : Name)
  | unary (op : UnaryOp) (e : Expr)
  | step (op : StepOp) (e : Expr)
  | binary (op : BinaryOp) (l r : Expr)
  | assign (op : AssignOp) (l r : Expr)
  | cond (c a b : Expr)

inductive Operand
  | num (v : ArithT)
  | var (x : Name)

section Value
variable {σ : Type} (look : Name → ArithM σ ArithT) (put : Name → ArithT → ArithM σ Unit)

def Operand.force : Operand → ArithM σ ArithT
  | .num v => pure v
  | .var x => look x

/-- Only a variable can be assigned to. -/
def Operand.store (z : ArithT) : Operand → ArithM σ Unit
  | .num _ => err
  | .var x => put x z

/-- Operands are worked out from left to right, both arms of a conditional included, and looked up
from right to left. -/
def Expr.eval : Expr → ArithM σ Operand
  | .num v => pure (.num v)
  | .var x => pure (.var x)
  | .unary op e => do
    let a ← e.eval
    let v ← a.force look
    pure (.num (op.eval v))
  | .step op e => do
    let a ← e.eval
    let v ← a.force look
    a.store put (op.next v)
    pure (.num (op.result v))
  | .binary op l r => do
    let a ← l.eval
    let b ← r.eval
    let y ← b.force look
    let x ← a.force look
    let z ← op.eval x y
    pure (.num z)
  | .assign op l r => do
    let a ← l.eval
    let b ← r.eval
    let y ← b.force look
    let z ← op.eval (a.force look) y
    a.store put z
    pure (.num z)
  | .cond c a b => do
    let c ← c.eval
    let a ← a.eval
    let b ← b.eval
    let y ← b.force look
    let x ← a.force look
    let v ← c.force look
    pure (.num (if v ≠ 0 then x else y))

def Expr.value (e : Expr) : ArithM σ ArithT := do
  let a ← e.eval look put
  a.force look

end Value

/-! ## Writing -/

inductive Lexeme
  | num (v : ArithT)
  | name (x : Name)
  | symbol (cs : List Char)

def symbols : List (List Char) :=
  [['('], [')'], ['?'], [':'], [','], ['|', '|'], ['&', '&'], ['|'], ['^'], ['&'], ['=', '='],
    ['!', '='], ['<'], ['>'], ['>', '='], ['<', '='], ['<', '<'], ['>', '>'], ['+'], ['-'], ['*'],
    ['/'], ['%'], ['*', '*'], ['!'], ['~'], ['+', '+'], ['-', '-'], ['='], ['|', '='], ['^', '='],
    ['&', '='], ['<', '<', '='], ['>', '>', '='], ['+', '='], ['-', '='], ['*', '='], ['/', '='],
    ['%', '=']]

/-- The text `s` reads as `ts`. A symbol is as long as it can be. -/
inductive Spells : List Char → List Lexeme → Prop
  | nil : Spells [] []
  | space {c : Char} {s : List Char} {ts : List Lexeme} (hc : c = ' ' ∨ c = '\n' ∨ c = '\t')
      (h : Spells s ts) : Spells (c :: s) ts
  | name {c : Char} {s rest : List Char} {x : Name} {ts : List Lexeme}
      (hx : endofname (c :: s) = (x, rest)) (hne : x ≠ []) (h : Spells rest ts) :
      Spells (c :: s) (.name x :: ts)
  | num {c : Char} {s rest : List Char} {v : ArithT} {ts : List Lexeme} (hc : c.isDigit = true)
      (hv : strtoull (c :: s) = (v, rest)) (h : Spells rest ts) : Spells (c :: s) (.num v :: ts)
  | symbol {cs s : List Char} {ts : List Lexeme} (hcs : cs ∈ symbols)
      (hlong : ∀ ds ∈ symbols, ds <+: cs ++ s → ds.length ≤ cs.length) (h : Spells s ts) :
      Spells (cs ++ s) (.symbol cs :: ts)

/-- `ts` writes the expression, with no operator below the level `p` outside of parentheses.
Between the levels of the binary operators assignments have the level 2 and conditionals 4;
above them all are the operators in front of an operand and, at 17, those behind one. -/
inductive Written : Nat → Expr → List Lexeme → Prop
  | num (p : Nat) (v : ArithT) : Written p (.num v) [.num v]
  | var (p : Nat) (x : Name) : Written p (.var x) [.name x]
  | paren (p : Nat) {e : Expr} {ts : List Lexeme} (h : Written 0 e ts) :
      Written p e (.symbol ['('] :: ts ++ [.symbol [')']])
  | unary (op : UnaryOp) {e : Expr} {ts : List Lexeme} (h : Written 16 e ts) :
      Written 16 (.unary op e) (.symbol op.symbol :: ts)
  | pre {op : StepOp} {e : Expr} {ts : List Lexeme} (hop : op.isPre = true) (h : Written 16 e ts) :
      Written 16 (.step op e) (.symbol op.symbol :: ts)
  | post {op : StepOp} {e : Expr} {ts : List Lexeme} (hop : op.isPre = false)
      (h : Written 18 e ts) : Written 17 (.step op e) (ts ++ [.symbol op.symbol])
  | left {op : BinaryOp} {l r : Expr} {ts us : List Lexeme} (hop : op ≠ .exponent)
      (hl : Written op.level l ts) (hr : Written (op.level + 1) r us) :
      Written op.level (.binary op l r) (ts ++ .symbol op.symbol :: us)
  | exponent {l r : Expr} {ts us : List Lexeme} (hl : Written 16 l ts) (hr : Written 15 r us) :
      Written 15 (.binary .exponent l r) (ts ++ .symbol ['*', '*'] :: us)
  | assign (op : AssignOp) {l r : Expr} {ts us : List Lexeme} (hl : Written 3 l ts)
      (hr : Written 2 r us) : Written 2 (.assign op l r) (ts ++ .symbol op.symbol :: us)
  -- C takes any expression in the middle
  | cond {c a b : Expr} {ts us vs : List Lexeme} (hc : Written 5 c ts) (ha : Written 5 a us)
      (hb : Written 4 b vs) :
      Written 4 (.cond c a b) (ts ++ .symbol ['?'] :: (us ++ .symbol [':'] :: vs))
  | weaken {p q : Nat} {e : Expr} {ts : List Lexeme} (hpq : p ≤ q) (h : Written q e ts) :
      Written p e ts

theorem endofname_endofname {s rest : List Char} {x : Name} (h : endofname s = (x, rest))
    (hne : x ≠ []) : endofname x = (x, []) := by
  unfold endofname at h
  split at h
  · rename_i c s
    split at h
    · rename_i hc
      cases h
      have hall : ∀ d ∈ s.takeWhile isInName, isInName d = true := fun d hd =>
        List.mem_takeWhile_imp hd
      rw [endofname, if_pos hc, List.takeWhile_eq_self_iff.2 hall, List.dropWhile_eq_nil_iff.2 hall]
    · cases h
      exact absurd rfl hne
  · cases h
    exact absurd rfl hne

theorem Spells.name_eq {s : List Char} {ts : List Lexeme} {x : Name} (h : Spells s ts)
    (hx : .name x ∈ ts) : endofname x = (x, []) ∧ x ≠ [] := by
  induction h with
  | nil => cases hx
  | space _ _ ih => exact ih hx
  | name hname hne _ ih =>
    rcases List.mem_cons.1 hx with heq | hx
    · cases heq
      exact ⟨endofname_endofname hname hne, hne⟩
    · exact ih hx
  | num _ _ _ ih | symbol _ _ _ ih => exact ih (List.mem_of_ne_of_mem (by simp) hx)

end N32905.Busybox
