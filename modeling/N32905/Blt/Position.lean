import Mathlib.Data.Set.Basic
import Mathlib.Tactic.Common
import Mathlib.Tactic.Ring

/-!
# The blit demo

`blt_demo.c` draws two objects into a destination buffer of the size of the panel.
`_DemoBitBlt_Config` sets the stride once, from a width cut to a `short`;
`_DemoBitBlt_SetPosition` clips an object, in four cases by the signs of its
position. Each case treats the two directions alike (`extent`): an object that
starts outside the panel is clipped there only, and not at the opposite edge.

Products of `int`s are taken modulo 2^32.
-/

namespace N32905.Blt

/-! ## The model -/

structure SrcImage where
  u32SrcImageAddr : BitVec 32
  i32Stride : BitVec 32
  i32XOffset : BitVec 32
  i32YOffset : BitVec 32
  i16Width : BitVec 16
  i16Height : BitVec 16

structure DestFb where
  u32FrameBufAddr : BitVec 32
  i32XOffset : BitVec 32
  i32YOffset : BitVec 32
  i32Stride : BitVec 32
  i16Width : BitVec 16
  i16Height : BitVec 16

structure BlitOp where
  dest : DestFb
  src : SrcImage

structure Obj where
  u32PatternBase : BitVec 32
  i32X : BitVec 32
  i32Y : BitVec 32
  u32Width : BitVec 32
  u32Height : BitVec 32
  u32Stride : BitVec 32

/-- The panel, and the buffer of 2 bytes a pixel that `_DemoBitBlt_SetDestBuffer` maps. -/
structure Panel where
  lcm_width : BitVec 32
  lcm_height : BitVec 32
  DestPhysAddr : BitVec 32
  width_pos : 0 < lcm_width.toInt
  height_pos : 0 < lcm_height.toInt
  mapped : DestPhysAddr.toNat + 2 * (lcm_width.toNat * lcm_height.toNat) ≤ 2 ^ 32

structure Demo where
  panel : Panel
  s_sblitop : BlitOp
  s_saObj : Fin 2 → Obj

/-- What `_DemoBitBlt_Config` sets of the destination, from `short`s. -/
def demoBitBltConfig (d : Demo) (DestPhysAddr : BitVec 32) (i16Width i16Height : BitVec 16) : Demo :=
  { d with s_sblitop.dest :=
      { u32FrameBufAddr := DestPhysAddr
        i32XOffset := 0
        i32YOffset := 0
        i32Stride := i16Width.signExtend 32 * 2
        i16Width := i16Width
        i16Height := i16Height } }

/-- The five fields every case of `_DemoBitBlt_SetPosition` sets. -/
def Demo.blit (d : Demo) (i32XOffset i32YOffset u32FrameBufAddr : BitVec 32)
    (i16Width i16Height : BitVec 16) : Demo :=
  { d with
    s_sblitop.src.i32XOffset := i32XOffset
    s_sblitop.src.i32YOffset := i32YOffset
    s_sblitop.dest.u32FrameBufAddr := u32FrameBufAddr
    s_sblitop.dest.i16Width := i16Width
    s_sblitop.dest.i16Height := i16Height }

/-- `_DemoBitBlt_SetPosition`. The comparisons with the panel are unsigned. -/
def demoBitBltSetPosition (d : Demo) (u32Index : Fin 2) (i32X i32Y : BitVec 32) : Int × Demo :=
  let obj := { d.s_saObj u32Index with i32X := i32X, i32Y := i32Y }
  let d := { d with
    s_sblitop.src.u32SrcImageAddr := obj.u32PatternBase
    s_sblitop.src.i32Stride := obj.u32Stride * 2
    s_saObj := Function.update d.s_saObj u32Index obj }
  let lcm_width := d.panel.lcm_width
  let lcm_height := d.panel.lcm_height
  if i32X.toInt < 0 ∧ i32Y.toInt < 0 then
    let u32X := -i32X
    let u32Y := -i32Y
    (0, d.blit (u32X <<< 16) (u32Y <<< 16) d.panel.DestPhysAddr
      ((obj.u32Width - u32X).setWidth 16) ((obj.u32Height - u32Y).setWidth 16))
  else if i32X.toInt < 0 ∧ 0 ≤ i32Y.toInt then
    let u32X := -i32X
    (0, d.blit (u32X <<< 16) 0 (d.panel.DestPhysAddr + i32Y * lcm_width * 2)
      ((obj.u32Width - u32X).setWidth 16)
      (if lcm_height ≤ i32Y + obj.u32Height then (lcm_height - i32Y).setWidth 16
        else obj.u32Height.setWidth 16))
  else if 0 ≤ i32X.toInt ∧ i32Y.toInt < 0 then
    let u32Y := -i32Y
    (0, d.blit 0 (u32Y <<< 16) (d.panel.DestPhysAddr + i32X * 2)
      (if lcm_width ≤ i32X + obj.u32Width then (lcm_width - i32X).setWidth 16
        else obj.u32Width.setWidth 16)
      ((obj.u32Height - u32Y).setWidth 16))
  else if 0 ≤ i32X.toInt ∧ 0 ≤ i32Y.toInt then
    (0, d.blit 0 0 (d.panel.DestPhysAddr + i32Y * lcm_width * 2 + i32X * 2)
      (if lcm_width ≤ i32X + obj.u32Width then (lcm_width - i32X).setWidth 16
        else obj.u32Width.setWidth 16)
      (if lcm_height ≤ i32Y + obj.u32Height then (lcm_height - i32Y).setWidth 16
        else obj.u32Height.setWidth 16))
  else (-1, d)

def demoBitBltSetCrop (d : Demo) (u32Index : Fin 2) (u32Width u32Height : BitVec 32) : Demo :=
  { d with
    s_sblitop.src.i16Width := u32Width.setWidth 16
    s_sblitop.src.i16Height := u32Height.setWidth 16
    s_saObj := Function.update d.s_saObj u32Index
      { d.s_saObj u32Index with u32Width := u32Width, u32Height := u32Height } }

/-- What `main` does with the objects: the two calls, and assignments of its own. -/
inductive Call
  | setPosition (u32Index : Fin 2) (i32X i32Y : BitVec 32)
  | setCrop (u32Index : Fin 2) (u32Width u32Height : BitVec 32)
  | assign (u32Index : Fin 2) (obj : Obj)

def Demo.call (d : Demo) : Call → Demo
  | .setPosition u32Index i32X i32Y => (demoBitBltSetPosition d u32Index i32X i32Y).2
  | .setCrop u32Index u32Width u32Height => demoBitBltSetCrop d u32Index u32Width u32Height
  | .assign u32Index obj => { d with s_saObj := Function.update d.s_saObj u32Index obj }

/-- The demo after `_DemoBitBlt_Config` and a sequence of calls. -/
def demoAfter (d : Demo) (calls : List Call) : Demo :=
  calls.foldl Demo.call (demoBitBltConfig d d.panel.DestPhysAddr (d.panel.lcm_width.setWidth 16)
    (d.panel.lcm_height.setWidth 16))

/-! ## One direction -/

def offset (pos : BitVec 32) : BitVec 32 := if pos.toInt < 0 then (-pos) <<< 16 else 0

def extent (pos size panel : BitVec 32) : BitVec 16 :=
  if pos.toInt < 0 then (size - -pos).setWidth 16
  else if panel ≤ pos + size then (panel - pos).setWidth 16
  else size.setWidth 16

/-- The way from the start of the buffer, `step` bytes a position. -/
def advance (pos step : BitVec 32) : BitVec 32 := if pos.toInt < 0 then 0 else pos * step * 2

theorem setPosition_blit (d : Demo) (i : Fin 2) (x y : BitVec 32) :
    let op := (demoBitBltSetPosition d i x y).2.s_sblitop
    op.src.i32XOffset = offset x ∧ op.src.i32YOffset = offset y ∧
      op.dest.u32FrameBufAddr =
        d.panel.DestPhysAddr + advance y d.panel.lcm_width + advance x 1 ∧
      op.dest.i16Width = extent x (d.s_saObj i).u32Width d.panel.lcm_width ∧
      op.dest.i16Height = extent y (d.s_saObj i).u32Height d.panel.lcm_height ∧
      op.dest.i32Stride = d.s_sblitop.dest.i32Stride := by
  intro op
  by_cases hx : x.toInt < 0 <;> by_cases hy : y.toInt < 0
  all_goals
    simp only [op, demoBitBltSetPosition, Demo.blit, offset, advance, extent, hx, hy, Int.not_lt.1,
      and_self, if_true, if_false, and_true, and_false, true_and, false_and, not_false_eq_true]
    simp

section Direction
variable {pos size panel : BitVec 32}

theorem toInt_short {v : BitVec 32} {z : Int} (hv : v = BitVec.ofInt 32 z) (hlo : -2 ^ 15 ≤ z)
    (hhi : z < 2 ^ 15) : (v.setWidth 16).toInt = z := by
  have hmod : ((v.toNat : Int)) = z % 2 ^ 32 := by
    rw [hv, BitVec.toNat_ofInt]
    omega
  rw [BitVec.toInt_setWidth, hmod, Int.bmod_def]
  split <;> omega

theorem toNat_of_pos (h : 0 < panel.toInt) : panel.toInt = panel.toNat ∧ panel.toNat < 2 ^ 31 := by
  have hlt := panel.isLt
  rw [BitVec.toInt_eq_toNat_cond] at h ⊢
  split
  · omega
  · omega

theorem toInt_extent (hpos : pos.toInt.natAbs ≤ 32767) (hsize : 0 < size.toNat)
    (hsize' : size.toNat ≤ 32767) (hpanel : 0 < panel.toInt) :
    (extent pos size panel).toInt =
      if pos.toInt < 0 then pos.toInt + size.toNat
      else min (pos.toInt + size.toNat) panel.toInt - pos.toInt := by
  obtain ⟨hpanel', hpanellt⟩ := toNat_of_pos hpanel
  unfold extent
  split
  case isTrue hout =>
    refine toInt_short ?_ (by omega) (by omega)
    rw [BitVec.ofInt_add, BitVec.ofInt_toInt, BitVec.ofInt_natCast, BitVec.ofNat_toNat]
    simp [BitVec.add_comm]
  case isFalse hin =>
    have hpos' : pos.toInt = pos.toNat := by
      rw [BitVec.toInt_eq_toNat_cond] at hin ⊢
      split <;> omega
    have hsum : (pos + size).toNat = pos.toNat + size.toNat := by
      rw [BitVec.toNat_add]
      omega
    split
    case isTrue hclip =>
      rw [BitVec.le_def, hsum] at hclip
      rw [min_eq_right (by omega)]
      refine toInt_short ?_ (by omega) (by omega)
      rw [Int.sub_eq_add_neg, BitVec.ofInt_add, BitVec.ofInt_neg, BitVec.ofInt_toInt,
        BitVec.ofInt_toInt, BitVec.sub_eq_add_neg]
    case isFalse hclip =>
      rw [BitVec.le_def, hsum] at hclip
      rw [min_eq_left (by omega)]
      refine toInt_short ?_ (by omega) (by omega)
      rw [add_sub_cancel_left, BitVec.ofInt_natCast, BitVec.ofNat_toNat, BitVec.setWidth_eq]

theorem toInt_offset (hpos : pos.toInt.natAbs ≤ 32767) :
    (offset pos).toInt = 2 ^ 16 * max (-pos.toInt) 0 := by
  unfold offset
  split
  case isTrue hout =>
    have htoNat : (-pos).toNat = (-pos.toInt).toNat := by
      have hlt := pos.isLt
      rw [BitVec.toNat_neg]
      rw [BitVec.toInt_eq_toNat_cond] at hout ⊢
      split at hout <;> omega
    rw [BitVec.toInt_shiftLeft, htoNat, Nat.shiftLeft_eq, max_eq_left (by omega)]
    rw [Int.bmod_eq_of_le_mul_two] <;> omega
  case isFalse hin =>
    rw [max_eq_right (by omega)]
    rfl

theorem advance_eq (pos step : BitVec 32) :
    advance pos step = BitVec.ofInt 32 (2 * (max pos.toInt 0 * step.toNat)) := by
  unfold advance
  split
  case isTrue hout =>
    rw [max_eq_right (by omega), Int.zero_mul]
    rfl
  case isFalse hin =>
    rw [max_eq_left (by omega), BitVec.ofInt_mul, BitVec.ofInt_mul, BitVec.ofInt_toInt,
      BitVec.ofInt_natCast, BitVec.ofNat_toNat, BitVec.setWidth_eq, BitVec.mul_comm]
    rfl

end Direction

/-! ## The intersection -/

section Clip
variable (p : Panel) (o : Obj) (x y : BitVec 32)

/-- The pixels of an object at `x`, `y`. -/
def objPixels : Set (Int × Int) :=
  { q | (x.toInt ≤ q.1 ∧ q.1 < x.toInt + o.u32Width.toNat) ∧
    (y.toInt ≤ q.2 ∧ q.2 < y.toInt + o.u32Height.toNat) }

def Panel.pixels : Set (Int × Int) :=
  { q | (0 ≤ q.1 ∧ q.1 < p.lcm_width.toInt) ∧ (0 ≤ q.2 ∧ q.2 < p.lcm_height.toInt) }

def clipStart (pos : BitVec 32) : Int := max pos.toInt 0

def clipEnd (pos size panel : BitVec 32) : Int := min (pos.toInt + size.toNat) panel.toInt

theorem objPixels_inter : objPixels o x y ∩ p.pixels =
    { q | (clipStart x ≤ q.1 ∧ q.1 < clipEnd x o.u32Width p.lcm_width) ∧
      (clipStart y ≤ q.2 ∧ q.2 < clipEnd y o.u32Height p.lcm_height) } := by
  ext q
  simp only [objPixels, Panel.pixels, clipStart, clipEnd, Set.mem_inter_iff, Set.mem_ofPred_eq]
  omega

theorem objPixels_inter_nonempty : (objPixels o x y ∩ p.pixels).Nonempty ↔
    clipStart x < clipEnd x o.u32Width p.lcm_width ∧
      clipStart y < clipEnd y o.u32Height p.lcm_height := by
  rw [objPixels_inter]
  constructor
  · rintro ⟨q, ⟨hl, hr⟩, ht, hb⟩
    exact ⟨Int.lt_of_le_of_lt hl hr, Int.lt_of_le_of_lt ht hb⟩
  · rintro ⟨hx, hy⟩
    exact ⟨(clipStart x, clipStart y), ⟨Int.le_refl _, hx⟩, Int.le_refl _, hy⟩

/-- The blit is that of the intersection, source offsets in 16.16. -/
structure Describes (op : BlitOp) : Prop where
  meets : (objPixels o x y ∩ p.pixels).Nonempty →
    op.src.i32XOffset.toInt = 2 ^ 16 * max (-x.toInt) 0 ∧
    op.src.i32YOffset.toInt = 2 ^ 16 * max (-y.toInt) 0 ∧
    (op.dest.u32FrameBufAddr.toNat : Int) = p.DestPhysAddr.toNat +
      2 * (clipStart y * p.lcm_width.toNat + clipStart x) ∧
    op.dest.i16Width.toInt = clipEnd x o.u32Width p.lcm_width - clipStart x ∧
    op.dest.i16Height.toInt = clipEnd y o.u32Height p.lcm_height - clipStart y
  misses : objPixels o x y ∩ p.pixels = ∅ →
    ¬ (0 < op.dest.i16Width.toInt ∧ 0 < op.dest.i16Height.toInt)

/-- The addresses of the bytes a blit writes, 2 bytes a pixel. -/
def touched (op : BlitOp) : Set Int :=
  { b | ∃ row col : Nat, row < op.dest.i16Height.toInt ∧ col < 2 * op.dest.i16Width.toInt ∧
    b = op.dest.u32FrameBufAddr.toNat + row * op.dest.i32Stride.toInt + col }

def Panel.buffer : Set Int :=
  { b | p.DestPhysAddr.toNat ≤ b ∧
    b < p.DestPhysAddr.toNat + 2 * (p.lcm_width.toNat * p.lcm_height.toNat) }

def Straddles (pos size panel : BitVec 32) : Prop :=
  pos.toInt < 0 ∧ panel.toInt < pos.toInt + size.toNat

instance (pos size panel : BitVec 32) : Decidable (Straddles pos size panel) :=
  inferInstanceAs (Decidable (_ ∧ _))

/-- The last row, at the stride of `_DemoBitBlt_Config`, does not start before the
buffer. This can only happen on a panel of 32768 pixels a row or more. -/
def LastRowInside : Prop :=
  0 ≤ clipStart y * p.lcm_width.toNat + clipStart x +
    (clipEnd y o.u32Height p.lcm_height - clipStart y - 1) * (p.lcm_width.setWidth 16).toInt

/-- The blit is right, and stays in the buffer. -/
def Clipped (op : BlitOp) : Prop := Describes p o x y op ∧ touched op ⊆ p.buffer

end Clip

/-! ## The stride -/

/-- `_DemoBitBlt_Config` has set the stride. -/
def Demo.Configured (d : Demo) : Prop :=
  d.s_sblitop.dest.i32Stride = (d.panel.lcm_width.setWidth 16).signExtend 32 * 2

theorem setPosition_panel (d : Demo) (i : Fin 2) (x y : BitVec 32) :
    (demoBitBltSetPosition d i x y).2.panel = d.panel := by
  unfold demoBitBltSetPosition
  dsimp only
  split_ifs <;> rfl

theorem Demo.Configured.call {d : Demo} (h : d.Configured) (c : Call) : (d.call c).Configured := by
  cases c with
  | setPosition i x y =>
    obtain ⟨-, -, -, -, -, hstride⟩ := setPosition_blit d i x y
    unfold Demo.Configured Demo.call
    rw [hstride, setPosition_panel]
    exact h
  | setCrop i w h' => exact h
  | assign i obj => exact h

theorem demoAfter_configured (d : Demo) (calls : List Call) : (demoAfter d calls).Configured := by
  unfold demoAfter
  have hstart : (demoBitBltConfig d d.panel.DestPhysAddr (d.panel.lcm_width.setWidth 16)
      (d.panel.lcm_height.setWidth 16)).Configured := rfl
  generalize demoBitBltConfig d _ _ _ = d₀ at hstart
  induction calls generalizing d₀ with
  | nil => exact hstart
  | cons c calls ih => exact ih _ (hstart.call c)

theorem toInt_stride (s : BitVec 16) : (s.signExtend 32 * 2).toInt = 2 * s.toInt := by
  have hle := s.le_two_mul_toInt
  have hlt := s.two_mul_toInt_lt
  rw [BitVec.toInt_mul, BitVec.toInt_signExtend_of_le (by decide)]
  change (s.toInt * 2).bmod (2 ^ 32) = _
  rw [Int.bmod_eq_of_le_mul_two] <;> omega

theorem toInt_short_le (v : BitVec 32) : (v.setWidth 16).toInt ≤ v.toNat := by
  rw [BitVec.toInt_setWidth, Int.bmod_def]
  split <;> omega

/-! ## Clipping -/

theorem pixel_lt {W H a b : Int} (ha : a < W) (hb : b < H) (hW : 0 ≤ W) : b * W + a < W * H := by
  have hrow : (b + 1) * W ≤ H * W := Int.mul_le_mul_of_nonneg_right (by omega) hW
  calc b * W + a < b * W + W := by omega
    _ = (b + 1) * W := by ring
    _ ≤ H * W := hrow
    _ = W * H := Int.mul_comm H W

/-- The rows of a clipped blit, at a stride of at most the panel's, lie between the
start of the last row and the end of the panel. -/
theorem row_inside {W H top left rows cols s row : Int} (hW : 0 ≤ W) (hstart : 0 ≤ top * W + left)
    (hcols : left + cols ≤ W) (hrows : top + rows ≤ H) (hs : s ≤ W)
    (hlast : 0 ≤ top * W + left + (rows - 1) * s) (hrow : 0 ≤ row) (hrow' : row < rows) :
    0 ≤ top * W + left + row * s ∧ top * W + left + row * s + cols ≤ W * H := by
  constructor
  · rcases Int.le_total 0 s with hpos | hneg
    · have := Int.mul_nonneg hrow hpos
      omega
    · have : (rows - 1) * s ≤ row * s := Int.mul_le_mul_of_nonpos_right (by omega) hneg
      omega
  · have hstride : row * s ≤ row * W := Int.mul_le_mul_of_nonneg_left hs hrow
    have hbelow : (top + row + 1) * W ≤ H * W := Int.mul_le_mul_of_nonneg_right (by omega) hW
    calc top * W + left + row * s + cols ≤ top * W + row * W + W := by omega
      _ = (top + row + 1) * W := by ring
      _ ≤ H * W := hbelow
      _ = W * H := Int.mul_comm H W

section Position
variable {d : Demo} {i : Fin 2} {x y : BitVec 32}

theorem toNat_addr (p : Panel) (hx : clipStart x < p.lcm_width.toInt)
    (hy : clipStart y < p.lcm_height.toInt) :
    ((p.DestPhysAddr + advance y p.lcm_width + advance x 1).toNat : Int) =
      p.DestPhysAddr.toNat + 2 * (clipStart y * p.lcm_width.toNat + clipStart x) := by
  have hW := (toNat_of_pos p.width_pos).1
  have hH := (toNat_of_pos p.height_pos).1
  have hlt := pixel_lt hx hy (Int.le_of_lt p.width_pos)
  have hmapped : (p.DestPhysAddr.toNat : Int) + 2 * (p.lcm_width.toNat * p.lcm_height.toNat) ≤ 2 ^ 32 := by
    exact_mod_cast p.mapped
  have hx0 : 0 ≤ clipStart x := le_max_right _ _
  have hy0 : 0 ≤ clipStart y * p.lcm_width.toNat :=
    Int.mul_nonneg (le_max_right _ _) (Int.natCast_nonneg _)
  have heq : p.DestPhysAddr + advance y p.lcm_width + advance x 1 = BitVec.ofInt 32
      (p.DestPhysAddr.toNat + 2 * (clipStart y * p.lcm_width.toNat + clipStart x)) := by
    rw [advance_eq, advance_eq, Int.mul_add, ← Int.add_assoc, BitVec.ofInt_add, BitVec.ofInt_add,
      BitVec.ofInt_natCast, BitVec.ofNat_toNat, BitVec.setWidth_eq]
    simp [clipStart]
  rw [heq, BitVec.toNat_ofInt]
  rw [hW, hH] at hlt
  omega

structure Obj.Sized (o : Obj) : Prop where
  width_pos : 0 < o.u32Width.toNat
  width_le : o.u32Width.toNat ≤ 32767
  height_pos : 0 < o.u32Height.toNat
  height_le : o.u32Height.toNat ≤ 32767

theorem setPosition_spec (hd : d.Configured) (hsize : (d.s_saObj i).Sized)
    (hx : x.toInt.natAbs ≤ 32767) (hy : y.toInt.natAbs ≤ 32767) :
    let op := (demoBitBltSetPosition d i x y).2.s_sblitop
    let W := d.panel.lcm_width
    let H := d.panel.lcm_height
    op.src.i32XOffset.toInt = 2 ^ 16 * max (-x.toInt) 0 ∧
      op.src.i32YOffset.toInt = 2 ^ 16 * max (-y.toInt) 0 ∧
      (clipStart x < W.toInt → clipStart y < H.toInt → (op.dest.u32FrameBufAddr.toNat : Int) =
        d.panel.DestPhysAddr.toNat + 2 * (clipStart y * W.toNat + clipStart x)) ∧
      op.dest.i16Width.toInt = (if x.toInt < 0 then x.toInt + (d.s_saObj i).u32Width.toNat
        else min (x.toInt + (d.s_saObj i).u32Width.toNat) W.toInt - x.toInt) ∧
      op.dest.i16Height.toInt = (if y.toInt < 0 then y.toInt + (d.s_saObj i).u32Height.toNat
        else min (y.toInt + (d.s_saObj i).u32Height.toNat) H.toInt - y.toInt) ∧
      op.dest.i32Stride.toInt = 2 * (W.setWidth 16).toInt := by
  intro op W H
  obtain ⟨hxo, hyo, haddr, hwidth, hheight, hstride⟩ := setPosition_blit d i x y
  refine ⟨?_, ?_, ?_, ?_, ?_, ?_⟩
  · rw [hxo, toInt_offset hx]
  · rw [hyo, toInt_offset hy]
  · intro hl ht
    rw [haddr]
    exact toNat_addr d.panel hl ht
  · rw [hwidth, toInt_extent hx hsize.width_pos hsize.width_le d.panel.width_pos]
  · rw [hheight, toInt_extent hy hsize.height_pos hsize.height_le d.panel.height_pos]
  · rw [hstride, hd, toInt_stride]

/-- The extent is that of the intersection unless the object straddles the panel. -/
theorem extent_eq_iff {pos size panel : BitVec 32} :
    (if pos.toInt < 0 then pos.toInt + (size.toNat : Int)
      else min (pos.toInt + size.toNat) panel.toInt - pos.toInt) =
      clipEnd pos size panel - clipStart pos ↔ ¬ Straddles pos size panel := by
  unfold Straddles clipStart clipEnd
  split <;> omega

theorem clip_of_extent_pos {pos size panel : BitVec 32} (hpanel : 0 < panel.toInt)
    (h : 0 < if pos.toInt < 0 then pos.toInt + (size.toNat : Int)
      else min (pos.toInt + size.toNat) panel.toInt - pos.toInt) :
    clipStart pos < clipEnd pos size panel := by
  unfold clipStart clipEnd
  split at h <;> omega

theorem touched_eq_empty {op : BlitOp}
    (h : ¬ (0 < op.dest.i16Width.toInt ∧ 0 < op.dest.i16Height.toInt)) : touched op = ∅ := by
  rw [Set.eq_empty_iff_forall_notMem]
  rintro b ⟨row, col, hrow, hcol, -⟩
  exact h ⟨by omega, by omega⟩

/-- A blit that is described right stays in the buffer exactly if its last row does. -/
theorem touched_subset_iff {p : Panel} {o : Obj} {op : BlitOp}
    (hmeets : clipStart x < clipEnd x o.u32Width p.lcm_width ∧
      clipStart y < clipEnd y o.u32Height p.lcm_height)
    (haddr : (op.dest.u32FrameBufAddr.toNat : Int) = p.DestPhysAddr.toNat +
      2 * (clipStart y * p.lcm_width.toNat + clipStart x))
    (hwidth : op.dest.i16Width.toInt = clipEnd x o.u32Width p.lcm_width - clipStart x)
    (hheight : op.dest.i16Height.toInt = clipEnd y o.u32Height p.lcm_height - clipStart y)
    (hstride : op.dest.i32Stride.toInt = 2 * (p.lcm_width.setWidth 16).toInt) :
    touched op ⊆ p.buffer ↔ LastRowInside p o x y := by
  obtain ⟨hl, ht⟩ := hmeets
  have hW := (toNat_of_pos p.width_pos).1
  have hH := (toNat_of_pos p.height_pos).1
  have hbyte : ∀ row : Int, row * op.dest.i32Stride.toInt =
      2 * (row * (p.lcm_width.setWidth 16).toInt) := by
    intro row
    rw [hstride]
    ring
  constructor
  · intro hsub
    -- the first byte of the last row
    obtain ⟨row, hrow⟩ := Int.eq_ofNat_of_zero_le (show 0 ≤ op.dest.i16Height.toInt - 1 by omega)
    have hmem := (hsub ⟨row, 0, by omega, by omega, rfl⟩).1
    rw [haddr, hbyte, ← hrow, hheight] at hmem
    unfold LastRowInside
    omega
  · rintro hlast b ⟨row, col, hrow, hcol, rfl⟩
    have hstart : 0 ≤ clipStart y * p.lcm_width.toNat + clipStart x :=
      Int.add_nonneg (Int.mul_nonneg (le_max_right _ _) (Int.natCast_nonneg _)) (le_max_right _ _)
    have hcols : clipEnd x o.u32Width p.lcm_width ≤ p.lcm_width.toInt := min_le_right _ _
    have hrows : clipEnd y o.u32Height p.lcm_height ≤ p.lcm_height.toInt := min_le_right _ _
    obtain ⟨hlo, hhi⟩ := row_inside (Int.natCast_nonneg _) hstart
      (show clipStart x + op.dest.i16Width.toInt ≤ p.lcm_width.toNat by omega)
      (show clipStart y + op.dest.i16Height.toInt ≤ p.lcm_height.toNat by omega)
      (toInt_short_le p.lcm_width) (by rw [hheight]; exact hlast) (Int.natCast_nonneg row) hrow
    rw [haddr, hbyte]
    constructor <;> omega

theorem setPosition_clipped_iff (hd : d.Configured) (hsize : (d.s_saObj i).Sized)
    (hx : x.toInt.natAbs ≤ 32767) (hy : y.toInt.natAbs ≤ 32767) :
    let o := d.s_saObj i
    let p := d.panel
    Clipped p o x y (demoBitBltSetPosition d i x y).2.s_sblitop ↔
      objPixels o x y ∩ p.pixels = ∅ ∨
        (¬ Straddles x o.u32Width p.lcm_width ∧ ¬ Straddles y o.u32Height p.lcm_height ∧
          LastRowInside p o x y) := by
  intro o p
  obtain ⟨hxo, hyo, haddr, hwidth, hheight, hstride⟩ := setPosition_spec hd hsize hx hy
  have hnone : objPixels o x y ∩ p.pixels = ∅ →
      ¬ (0 < (demoBitBltSetPosition d i x y).2.s_sblitop.dest.i16Width.toInt ∧
        0 < (demoBitBltSetPosition d i x y).2.s_sblitop.dest.i16Height.toInt) := by
    rintro hempty ⟨hw, hh⟩
    rw [hwidth] at hw
    rw [hheight] at hh
    refine Set.not_nonempty_iff_eq_empty.2 hempty ((objPixels_inter_nonempty p o x y).2 ⟨?_, ?_⟩)
    · exact clip_of_extent_pos p.width_pos hw
    · exact clip_of_extent_pos p.height_pos hh
  rcases Set.eq_empty_or_nonempty (objPixels o x y ∩ p.pixels) with hempty | hmeets
  · refine iff_of_true ⟨⟨?_, hnone⟩, ?_⟩ (.inl hempty)
    · intro hmeets
      exact absurd hempty hmeets.ne_empty
    · rw [touched_eq_empty (hnone hempty)]
      exact Set.empty_subset _
  · have hclip := (objPixels_inter_nonempty p o x y).1 hmeets
    have haddr := haddr (lt_of_lt_of_le hclip.1 (min_le_right _ _))
      (lt_of_lt_of_le hclip.2 (min_le_right _ _))
    rw [or_iff_right hmeets.ne_empty]
    constructor
    · rintro ⟨hdesc, hsub⟩
      obtain ⟨-, -, -, hw, hh⟩ := hdesc.meets hmeets
      exact ⟨extent_eq_iff.1 (hwidth.symm.trans hw), extent_eq_iff.1 (hheight.symm.trans hh),
        (touched_subset_iff hclip haddr hw hh hstride).1 hsub⟩
    · rintro ⟨hsx, hsy, hlast⟩
      have hw := hwidth.trans (extent_eq_iff.2 hsx)
      have hh := hheight.trans (extent_eq_iff.2 hsy)
      exact ⟨⟨fun _ => ⟨hxo, hyo, haddr, hw, hh⟩, hnone⟩,
        (touched_subset_iff hclip haddr hw hh hstride).2 hlast⟩

/-- A panel of less than 32768 pixels a row keeps its width in `_DemoBitBlt_Config`. -/
theorem lastRowInside_of_lt {p : Panel} {o : Obj} (hlt : p.lcm_width.toNat < 2 ^ 15)
    (hmeets : (objPixels o x y ∩ p.pixels).Nonempty) : LastRowInside p o x y := by
  have hshort : (p.lcm_width.setWidth 16).toInt = p.lcm_width.toNat := by
    refine toInt_short ?_ (by omega) (by omega)
    rw [BitVec.ofInt_natCast, BitVec.ofNat_toNat, BitVec.setWidth_eq]
  have hrows := ((objPixels_inter_nonempty p o x y).1 hmeets).2
  have hW : 0 ≤ (p.lcm_width.toNat : Int) := Int.natCast_nonneg _
  unfold LastRowInside
  rw [hshort]
  have hfirst := Int.mul_nonneg (show 0 ≤ clipStart y from le_max_right _ _) hW
  have hlast := Int.mul_nonneg
    (show 0 ≤ clipEnd y o.u32Height p.lcm_height - clipStart y - 1 by omega) hW
  have hleft : 0 ≤ clipStart x := le_max_right _ _
  omega

end Position

/-- **Clipping.** After `_DemoBitBlt_Config` and any calls, an object of any size placed
anywhere is clipped right exactly if it misses the panel, or it does not straddle
the panel in either direction and its last row starts in the buffer. -/
theorem blit_clipped_iff (d : Demo) (calls : List Call) (i : Fin 2) (x y : BitVec 32)
    (hsize : ((demoAfter d calls).s_saObj i).Sized) (hx : x.toInt.natAbs ≤ 32767)
    (hy : y.toInt.natAbs ≤ 32767) :
    let d := demoAfter d calls
    let o := d.s_saObj i
    let p := d.panel
    Clipped p o x y (demoBitBltSetPosition d i x y).2.s_sblitop ↔
      objPixels o x y ∩ p.pixels = ∅ ∨
        (¬ Straddles x o.u32Width p.lcm_width ∧ ¬ Straddles y o.u32Height p.lcm_height ∧
          LastRowInside p o x y) :=
  setPosition_clipped_iff (demoAfter_configured d calls) hsize hx hy

def zeroObj : Obj := ⟨0, 0, 0, 0, 0, 0⟩

/-- The demo as it is loaded, its buffer at 0x1000000. -/
def startDemo (p : Panel) : Demo := ⟨p, ⟨⟨0, 0, 0, 0, 0, 0⟩, ⟨0, 0, 0, 0, 0, 0⟩⟩, fun _ => zeroObj⟩

def panel480 : Panel := ⟨480, 272, 0x1000000, by decide, by decide, by decide⟩

def panel320 : Panel := ⟨320, 240, 0x1000000, by decide, by decide, by decide⟩

/-- The calls of `main` before its loop. -/
def mainCalls : List Call := [.setPosition 0 0 0, .setPosition 1 200 100, .setCrop 0 480 272]

/-- The background one line up, on the panel it is made for. -/
theorem background_clipped :
    Clipped panel480 ((demoAfter (startDemo panel480) mainCalls).s_saObj 0) 0 (-1)
      (demoBitBltSetPosition (demoAfter (startDemo panel480) mainCalls) 0 0 (-1)).2.s_sblitop :=
  (blit_clipped_iff (startDemo panel480) mainCalls 0 0 (-1)
    ⟨by decide, by decide, by decide, by decide⟩ (by decide) (by decide)).2
    (.inr ⟨by decide, by decide,
      lastRowInside_of_lt (by decide) ((objPixels_inter_nonempty _ _ _ _).2 (by decide))⟩)

/-- On a panel of 320 x 240 the same blit has 271 lines, and its last ones lie behind
the buffer. -/
theorem background_overruns :
    (demoBitBltSetPosition (demoAfter (startDemo panel320) mainCalls) 0 0
      (-1)).2.s_sblitop.dest.i16Height.toInt = 271 ∧
    0x1000000 + 2 * 320 * 240 ∈ touched
      (demoBitBltSetPosition (demoAfter (startDemo panel320) mainCalls) 0 0 (-1)).2.s_sblitop ∧
    ¬ Clipped panel320 ((demoAfter (startDemo panel320) mainCalls).s_saObj 0) 0 (-1)
      (demoBitBltSetPosition (demoAfter (startDemo panel320) mainCalls) 0 0 (-1)).2.s_sblitop := by
  have hmem : 0x1000000 + 2 * 320 * 240 ∈ touched
      (demoBitBltSetPosition (demoAfter (startDemo panel320) mainCalls) 0 0 (-1)).2.s_sblitop :=
    ⟨240, 0, by decide, by decide, by decide⟩
  refine ⟨by decide, hmem, ?_⟩
  rintro ⟨-, hsub⟩
  exact absurd (hsub hmem).2 (by decide)

end N32905.Blt
