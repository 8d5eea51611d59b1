import N32905.Lib.Numeral

/-!
# Shell arithmetic

`$((...))` of the busybox shells is evaluated by `arith` in `shell/math.c`: one pass over the
text with a stack of operators and one of numbers and variables. A variable is looked up
when an operator needs its value, and what it stands for is an expression again. The variables
are the shell's: `arith` gets at them through the two functions of its hooks.
-/

namespace N32905.Busybox

open N32905.Lib

/-! ## Operators -/

/-- The tokens. Of its byte only the precedence is more than a name. -/
inductive Operator
  | LPAREN | COMMA
  | ASSIGN | AND_ASSIGN | OR_ASSIGN | XOR_ASSIGN | PLUS_ASSIGN | MINUS_ASSIGN | LSHIFT_ASSIGN
  | RSHIFT_ASSIGN | MUL_ASSIGN | DIV_ASSIGN | REM_ASSIGN
  | CONDITIONAL | CONDITIONAL_SEP
  | OR | AND | BOR | BXOR | BAND | EQ | NE | LT | GT | GE | LE | LSHIFT | RSHIFT
  | ADD | SUB | MUL | DIV | REM | EXPONENT
  | BNOT | NOT | UMINUS | UPLUS | PRE_INC | PRE_DEC | POST_INC | POST_DEC
  | NUM | RPAREN
  deriving DecidableEq

def UNARYPREC : Nat := 16

def SPEC_PREC : Nat := UNARYPREC + 4

def PREC : Operator → Nat
  | .LPAREN => 0
  | .COMMA => 1
  | .ASSIGN | .AND_ASSIGN | .OR_ASSIGN | .XOR_ASSIGN | .PLUS_ASSIGN | .MINUS_ASSIGN
  | .LSHIFT_ASSIGN | .RSHIFT_ASSIGN => 2
  | .MUL_ASSIGN | .DIV_ASSIGN | .REM_ASSIGN => 3
  | .CONDITIONAL | .CONDITIONAL_SEP => 4
  | .OR => 5
  | .AND => 6
  | .BOR => 7
  | .BXOR => 8
  | .BAND => 9
  | .EQ | .NE => 10
  | .LT | .GT | .GE | .LE => 11
  | .LSHIFT | .RSHIFT => 12
  | .ADD | .SUB => 13
  | .MUL | .DIV | .REM => 14
  | .EXPONENT => 15
  | .BNOT | .NOT => UNARYPREC
  | .UMINUS | .UPLUS => UNARYPREC + 1
  | .PRE_INC | .PRE_DEC => UNARYPREC + 2
  | .POST_INC | .POST_DEC => UNARYPREC + 3
  | .NUM | .RPAREN => SPEC_PREC

def convertPrecIsAssing (prec : Nat) : Nat := if prec = 3 then 2 else prec

def tokHaveAssign (op : Operator) : Bool :=
  let prec := convertPrecIsAssing (PREC op)
  prec == PREC .ASSIGN || prec == PREC .PRE_INC || prec == PREC .POST_INC

def isRightAssociativity (prec : Nat) : Bool :=
  prec == PREC .ASSIGN || prec == PREC .EXPONENT || prec == PREC .CONDITIONAL

/-- `op_tokens`: longest must be first. -/
def opTokens : List (List Char × Operator) :=
  [(['<', '<', '='], .LSHIFT_ASSIGN), (['>', '>', '='], .RSHIFT_ASSIGN), (['<', '<'], .LSHIFT),
    (['>', '>'], .RSHIFT), (['|', '|'], .OR), (['&', '&'], .AND), (['!', '='], .NE),
    (['<', '='], .LE), (['>', '='], .GE), (['=', '='], .EQ), (['|', '='], .OR_ASSIGN),
    (['&', '='], .AND_ASSIGN), (['*', '='], .MUL_ASSIGN), (['/', '='], .DIV_ASSIGN),
    (['%', '='], .REM_ASSIGN), (['+', '='], .PLUS_ASSIGN), (['-', '='], .MINUS_ASSIGN),
    (['-', '-'], .POST_DEC), (['^', '='], .XOR_ASSIGN), (['+', '+'], .POST_INC),
    (['*', '*'], .EXPONENT), (['!'], .NOT), (['<'], .LT), (['>'], .GT), (['='], .ASSIGN),
    (['|'], .BOR), (['&'], .BAND), (['*'], .MUL), (['/'], .DIV), (['%'], .REM), (['+'], .ADD),
    (['-'], .SUB), (['^'], .BXOR), (['~'], .BNOT), ([','], .COMMA), (['?'], .CONDITIONAL),
    ([':'], .CONDITIONAL_SEP), ([')'], .RPAREN), (['('], .LPAREN)]

/-! ## Numbers and variables -/

abbrev Name := List Char

/-- `arith_t`, a `long long`. -/
abbrev ArithT := BitVec 64

/-- `v_n_t`. The value of a variable is not read before it is looked up. -/
structure VNT where
  val : ArithT
  contidional_second_val : ArithT
  contidional_second_val_initialized : Bool
  var : Option Name
  deriving DecidableEq

/-- The error codes -1, -2, -3 and -5. Then an error that the shell raises itself, with which
`arith` does not come back; what the source leaves open; a store behind one of the stacks; and
expressions nested deeper than was allowed for. -/
inductive Errcode
  | unspecified
  | divideByZero
  | exponentLess
  | recursionLoop
  | raised
  | undefined
  | overrun
  | depth
  deriving DecidableEq

/-- `arith_eval_hooks_t` of a shell with the state `σ`, but for `endofname`, which the shells have
in common. `setvar` is `none` where the shell raises an error. -/
structure MathHooks (σ : Type) where
  lookupvar : Name → StateM σ (Option (List Char))
  setvar : Name → List Char → σ → Option σ

/-- The shell changes, and an error leaves it as it is then. -/
abbrev ArithM (σ : Type) := ExceptT Errcode (StateM σ)

section Hooks
variable {σ : Type} (hooks : MathHooks σ)

def lookupvar (name : Name) : ArithM σ (Option (List Char)) := ExceptT.lift (hooks.lookupvar name)

/-- The variables `chain` are being looked up. `arith` reads their texts where the shell keeps
them, and there is nothing to go by once one of them has been freed or overwritten. -/
def setvar (chain : List Name) (name : Name) (val : List Char) : ArithM σ Unit :=
  if chain.contains name then throw .undefined
  else do
    match hooks.setvar name val (← get) with
    | some shell => set shell
    | none => throw .raised

end Hooks

def isName (c : Char) : Bool := c == '_' || c.isAlpha

def isInName (c : Char) : Bool := c == '_' || c.isAlphanum

/-- `endofname`: the name, and the rest. -/
def endofname (s : List Char) : Name × List Char :=
  match s with
  | c :: rest => if isName c then (c :: rest.takeWhile isInName, rest.dropWhile isInName) else ([], s)
  | [] => ([], [])

def arithIsspace (c : Char) : Bool := c == ' ' || c == '\n' || c == '\t'

def digit (c : Char) : Nat :=
  if c.isDigit then c.toNat - 48
  else if c.isLower then c.toNat - 87
  else if c.isUpper then c.toNat - 55
  else 36

/-- The digits of one base, and the rest. A number that does not fit counts as 0. -/
def strtoullBase (base : Nat) (s : List Char) : ArithT × List Char :=
  let v := horner base digit (s.takeWhile fun c => digit c < base)
  (if v < 2 ^ 64 then BitVec.ofNat 64 v else 0, s.dropWhile fun c => digit c < base)

/-- `strtoull` in base 0, on a digit. -/
def strtoull (s : List Char) : ArithT × List Char :=
  match s with
  | '0' :: x :: h :: rest =>
    if (x == 'x' || x == 'X') && digit h < 16 then strtoullBase 16 (h :: rest) else strtoullBase 8 s
  | '0' :: _ => strtoullBase 8 s
  | _ => strtoullBase 10 s

/-- `sprintf` of a number without a sign. -/
def decimal (n : Nat) : List Char :=
  if n = 0 then ['0'] else (Nat.digits 10 n).reverse.map fun d => Char.ofNat (d + 48)

/-- `sprintf` with `%lld`. -/
def arithTFmt (v : ArithT) : List Char :=
  if v.toInt < 0 then '-' :: decimal v.toInt.natAbs else decimal v.toInt.natAbs

/-! ## Applying an operator -/

section Apply
variable {σ : Type} (hooks : MathHooks σ)

/-- `return -1`. -/
def err {α : Type} : ArithM σ α := throw .unspecified

/-- `arith_lookup_val`; `chain` are the variables being looked up already. -/
def arithLookupVal (arith : List Name → List Char → ArithM σ ArithT) (chain : List Name) (t : VNT) :
    ArithM σ VNT :=
  match t.var with
  | none => pure t
  | some x => do
    match ← lookupvar hooks x with
    | none => pure { t with val := 0 }
    | some p => if chain.contains x then throw .recursionLoop else do
      let val ← arith (x :: chain) p
      pure { t with val := val }

def unaryRez (op : Operator) (rez : ArithT) : Option ArithT :=
  match op with
  | .UMINUS => some (rez * -1)
  | .NOT => some (if rez = 0 then 1 else 0)
  | .BNOT => some (~~~rez)
  | .POST_INC | .PRE_INC => some (rez + 1)
  | .POST_DEC | .PRE_DEC => some (rez - 1)
  | .UPLUS => some rez
  | _ => none

def toArith (b : Bool) : ArithT := if b then 1 else 0

/-- `while (numptr_val--) c *= rez`. -/
def exponentLoop (rez : ArithT) : Nat → ArithT → ArithT
  | 0, c => c
  | n + 1, c => exponentLoop rez n (c * rez)

/-- A shift whose count is not in 0..63 is undefined. -/
def shiftRez (numptr_val rez : ArithT) : ArithM σ ArithT :=
  if numptr_val.toNat < 64 then pure rez else throw .undefined

/-- So is a quotient or a remainder of the least number by -1. -/
def divRez (rez numptr_val quot : ArithT) : ArithM σ ArithT :=
  if rez = BitVec.intMin 64 ∧ numptr_val = -1 then throw .undefined else pure quot

/-- The operators with two operands, but for the two of the conditional. Numbers wrap. -/
def binaryRez (op : Operator) (rez numptr_val : ArithT) : ArithM σ ArithT :=
  match op with
  | .BOR | .OR_ASSIGN => pure (rez ||| numptr_val)
  | .OR => pure (toArith (numptr_val ≠ 0 || rez ≠ 0))
  | .BAND | .AND_ASSIGN => pure (rez &&& numptr_val)
  | .BXOR | .XOR_ASSIGN => pure (rez ^^^ numptr_val)
  | .AND => pure (toArith (rez ≠ 0 && numptr_val ≠ 0))
  | .EQ => pure (toArith (rez = numptr_val))
  | .NE => pure (toArith (rez ≠ numptr_val))
  | .GE => pure (toArith (numptr_val.sle rez))
  | .RSHIFT | .RSHIFT_ASSIGN => shiftRez numptr_val (rez.sshiftRight numptr_val.toNat)
  | .LSHIFT | .LSHIFT_ASSIGN => shiftRez numptr_val (rez <<< numptr_val.toNat)
  | .GT => pure (toArith (numptr_val.slt rez))
  | .LT => pure (toArith (rez.slt numptr_val))
  | .LE => pure (toArith (rez.sle numptr_val))
  | .MUL | .MUL_ASSIGN => pure (rez * numptr_val)
  | .ADD | .PLUS_ASSIGN => pure (rez + numptr_val)
  | .SUB | .MINUS_ASSIGN => pure (rez - numptr_val)
  | .ASSIGN | .COMMA => pure numptr_val
  | .EXPONENT =>
    if numptr_val.slt 0 then throw .exponentLess else pure (exponentLoop rez numptr_val.toNat 1)
  | _ =>
    if numptr_val = 0 then throw .divideByZero
    else match op with
      | .DIV | .DIV_ASSIGN => divRez rez numptr_val (rez.sdiv numptr_val)
      | .REM | .REM_ASSIGN => divRez rez numptr_val (rez.srem numptr_val)
      | _ => pure rez

/-- The end of `arith_apply`: `rez` goes into the variable if there is one to assign to. -/
def storeRez (chain : List Name) (op : Operator) (numptr_m1 : VNT) (rez : ArithT) : ArithM σ VNT :=
  if tokHaveAssign op then
    match numptr_m1.var with
    | none => err
    | some x => do
      setvar hooks chain x (arithTFmt rez)
      let rez := if op = .POST_INC then rez - 1 else if op = .POST_DEC then rez + 1 else rez
      pure { numptr_m1 with val := rez, var := none }
  else pure { numptr_m1 with val := rez, var := none }

/-- `arith_apply`, the top of the stack first. -/
def arithApply (chain : List Name) (lookup : VNT → ArithM σ VNT) (op : Operator) :
    List VNT → ArithM σ (List VNT)
  | [] => err
  | numptr_m1 :: below => do
    let numptr_m1 ← lookup numptr_m1
    match unaryRez op numptr_m1.val with
    | some rez => do
      let t ← storeRez hooks chain op numptr_m1 rez
      pure (t :: below)
    | none =>
      match below with
      | [] => err
      | t :: bottom => do
        let numptr_val := numptr_m1.val
        -- `expr1 ? expr2` without `: expr`, and `expr1 : expr2` without `expr ?`
        if (op == .CONDITIONAL) != numptr_m1.contidional_second_val_initialized then err
        else
          let t ← if op = .ASSIGN then pure t else lookup t
          if op = .CONDITIONAL_SEP then
            if bottom.isEmpty then err
            else do
              let t := { t with
                contidional_second_val_initialized := true
                contidional_second_val := numptr_val }
              let t ← storeRez hooks chain op t t.val
              pure (t :: bottom)
          else if op = .CONDITIONAL then do
            let t := { t with contidional_second_val := numptr_m1.contidional_second_val }
            let t ← storeRez hooks chain op t (if t.val ≠ 0 then numptr_val else t.contidional_second_val)
            pure (t :: bottom)
          else do
            let rez ← binaryRez op t.val numptr_val
            let t ← storeRez hooks chain op t rez
            pure (t :: bottom)

end Apply

/-! ## The pass over the text -/

/-- The two stacks, their tops first, and `lasttok`. -/
structure ArithSt where
  numstack : List VNT
  stack : List Operator
  lasttok : Operator

/-- How the loop over the operator stack is left: with the open parenthesis found, or not. -/
inductive Popped
  | closed (stack : List Operator) (numstack : List VNT)
  | stays (stack : List Operator) (numstack : List VNT)

section Arith
variable {σ : Type} (hooks : MathHooks σ) (chain : List Name) (datasizes : Nat)
  (lookup : VNT → ArithM σ VNT)

/-- `while (stackptr != stack)`. -/
def popStack (op : Operator) : List Operator → List VNT → ArithM σ Popped
  | [], numstack => pure (.stays [] numstack)
  | top :: stack, numstack =>
    if op = .RPAREN then
      if top = .LPAREN then pure (.closed stack numstack)
      else arithApply hooks chain lookup top numstack >>= popStack op stack
    else
      let prec := convertPrecIsAssing (PREC op)
      let prev_prec := convertPrecIsAssing (PREC top)
      if prev_prec < prec then pure (.stays (top :: stack) numstack)
      else if prev_prec = prec ∧ isRightAssociativity prec = true then
        pure (.stays (top :: stack) numstack)
      else arithApply hooks chain lookup top numstack >>= popStack op stack

def pushOp (op : Operator) (stack : List Operator) (numstack : List VNT) : ArithM σ ArithSt :=
  if stack.length < datasizes then pure ⟨numstack, op :: stack, op⟩ else throw .overrun

/-- From the label `num` on. -/
def pushNum (t : VNT) (st : ArithSt) : ArithM σ ArithSt :=
  if st.numstack.length < datasizes / 2 then pure ⟨t :: st.numstack, st.stack, .NUM⟩
  else throw .overrun

/-- What a token of `op_tokens` is behind `lasttok`. -/
def unaryOp (lasttok op : Operator) : Operator :=
  if lasttok = .NUM then op
  else match op with
    | .ADD => .UPLUS
    | .SUB => .UMINUS
    | .POST_INC => .PRE_INC
    | .POST_DEC => .PRE_DEC
    | op => op

def readOp (op : Operator) (st : ArithSt) : ArithM σ ArithSt :=
  let lasttok := if st.lasttok = .POST_INC ∨ st.lasttok = .POST_DEC then .NUM else st.lasttok
  let op := unaryOp lasttok op
  let prec := PREC op
  if (0 < prec ∧ prec < UNARYPREC) ∨ prec = SPEC_PREC then
    if lasttok = .NUM then do
      match ← popStack hooks chain lookup op st.stack st.numstack with
      | .closed stack numstack => pure ⟨numstack, stack, .NUM⟩
      | .stays stack numstack =>
        if op = .RPAREN then err else pushOp datasizes op stack numstack
    else err
  else pushOp datasizes op st.stack st.numstack

/-- The loop over the text, up to its end; `none` if it was blank. Every pass takes a character. -/
def arithLoop : Nat → List Char → Bool → ArithSt → ArithM σ (Option ArithSt)
  | _, [], blank, st => pure (if blank then none else some st)
  | 0, _ :: _, _, _ => throw .depth
  | n + 1, c :: rest, blank, st =>
    if arithIsspace c then arithLoop n rest blank st
    else if (endofname (c :: rest)).1 ≠ [] then do
      let st ← pushNum datasizes ⟨0, 0, false, some (endofname (c :: rest)).1⟩ st
      arithLoop n (endofname (c :: rest)).2 false st
    else if c.isDigit then do
      let st ← pushNum datasizes ⟨(strtoull (c :: rest)).1, 0, false, none⟩ st
      arithLoop n (strtoull (c :: rest)).2 false st
    else match opTokens.find? fun t => t.1.isPrefixOf (c :: rest) with
      | none => err
      | some t => do
        let st ← readOp hooks chain datasizes lookup t.2 st
        arithLoop n ((c :: rest).drop t.1.length) false st

end Arith

/-- `arith`, for expressions nested at most `depth` deep. At the end of the text a closing
parenthesis is read as well. -/
def arith {σ : Type} (hooks : MathHooks σ) : Nat → List Name → List Char → ArithM σ ArithT
  | 0, _, _ => throw .depth
  | depth + 1, chain, expr => do
    let datasizes := expr.length + 2
    let lookup := arithLookupVal hooks (arith hooks depth) chain
    match ← arithLoop hooks chain datasizes lookup expr.length expr true
      ⟨[], [.LPAREN], .LPAREN⟩ with
    | none => pure 0
    | some st => do
      let st ← readOp hooks chain datasizes lookup .RPAREN st
      match st.numstack with
      | [t] => do
        let t ← lookup t
        pure t.val
      | _ => err

end N32905.Busybox
