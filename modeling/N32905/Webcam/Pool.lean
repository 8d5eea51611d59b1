import Mathlib.Algebra.Ring.Nat
import N32905.Lib.Codec

/-!
# The memory pool of the webcam demo

In user memory pool mode the v4l2 buffers lie in the buffer of the JPEG engine.
`main` says how many fit (`webcam.c`), `init_mmap` places them (`cam_lib.c`) and
`jpegDec` hands the dequeued one to the engine (`JpegDec.c`). How many fit is an
unsigned difference: it wraps for an engine buffer smaller than the bit stream's.
-/

namespace N32905.Webcam

open N32905.Lib

/-! ## The model -/

def BUFFER_SIZE_OTHER_USE : BitVec 32 := 0 * 1024

def BUFFER_SIZE_WEBCAM_BITSTREAM : BitVec 32 := 200 * 1024

def image_width : BitVec 32 := 640

def image_height : BitVec 32 := 480

/-- The buffer of the JPEG engine, as it is mapped. -/
structure JpegBuffer where
  jpeg_buffer_paddress : BitVec 32
  jpeg_buffer_vaddress : BitVec 32
  jpeg_buffer_size : BitVec 32
  mapped : jpeg_buffer_vaddress.toNat + jpeg_buffer_size.toNat ≤ 2 ^ 32

structure Buffer where
  start : BitVec 32
  length : BitVec 32
  deriving DecidableEq

def jpegV4l2BufferNum (e : JpegBuffer) : BitVec 32 :=
  (e.jpeg_buffer_size - BUFFER_SIZE_OTHER_USE - BUFFER_SIZE_WEBCAM_BITSTREAM) /
    (image_width * image_height * 2)

/-- The two comparisons of `main`. -/
def accepted (e : JpegBuffer) (count : BitVec 32) : Bool :=
  !(count.toInt ≤ 0) && !((jpegV4l2BufferNum e).toInt < count.toInt)

/-- The loop at `input_again`. -/
def inputAgain (e : JpegBuffer) (inputs : List (BitVec 32)) : Option (BitVec 32) :=
  inputs.find? (accepted e)

def bitstreamPaddress (e : JpegBuffer) : BitVec 32 := e.jpeg_buffer_paddress + BUFFER_SIZE_OTHER_USE

def bitstreamVaddress (e : JpegBuffer) : BitVec 32 := e.jpeg_buffer_vaddress + BUFFER_SIZE_OTHER_USE

/-- The `buffers` of `init_mmap`; `length` is what `VIDIOC_QUERYBUF` answers. -/
def initMmap (e : JpegBuffer) (count : BitVec 32) (length : Nat → BitVec 32) : List Buffer :=
  (List.range count.toNat).map fun n =>
    { start := bitstreamVaddress e + length n * BitVec.ofNat 32 n, length := length n }

/-- The source `jpegDec` sets in `jpeg_param`. -/
structure JpegSrc where
  vaddr_src : BitVec 32
  paddr_src : BitVec 32

/-- `jpegDec` for the dequeued buffer `index`. -/
def jpegDec (e : JpegBuffer) (buffers : List Buffer) (index : Nat) (length : BitVec 32) :
    Option JpegSrc :=
  buffers[index]?.map fun b =>
    { vaddr_src := b.start
      paddr_src := bitstreamPaddress e + BitVec.ofNat 32 index * length }

/-! ## The pool -/

def frameLength : BitVec 32 := image_width * image_height * 2

def Buffer.span (b : Buffer) : Span := ⟨b.start.toNat, b.length.toNat⟩

/-- The buffers are apart and inside the engine's, the bit stream has its room behind them, and
the engine gets the same place by both addresses. -/
structure PoolOk (e : JpegBuffer) (buffers : List Buffer) : Prop where
  disjoint : buffers.Pairwise fun b b' => b.span.Disjoint b'.span
  inside : ∀ b ∈ buffers, e.jpeg_buffer_vaddress.toNat ≤ b.start.toNat ∧
    b.start.toNat + b.length.toNat ≤ e.jpeg_buffer_vaddress.toNat + e.jpeg_buffer_size.toNat
  bitstream : (buffers.map fun b => b.length.toNat).sum + BUFFER_SIZE_WEBCAM_BITSTREAM.toNat ≤
    e.jpeg_buffer_size.toNat
  same_place : ∀ index < buffers.length, ∃ src, jpegDec e buffers index frameLength = some src ∧
    src.vaddr_src - e.jpeg_buffer_vaddress = src.paddr_src - e.jpeg_buffer_paddress

section Pool
variable {e : JpegBuffer} {count : BitVec 32}

/-- The buffers that `init_mmap` sets up. -/
def pool (e : JpegBuffer) (count : BitVec 32) : List Buffer := initMmap e count fun _ => frameLength

theorem pool_length : (pool e count).length = count.toNat := by
  simp [pool, initMmap]

theorem sum_pool : ((pool e count).map fun b => b.length.toNat).sum =
    count.toNat * frameLength.toNat := by
  have hconst : (pool e count).map (fun b => b.length.toNat) =
      List.replicate count.toNat frameLength.toNat := by
    simp [pool, initMmap, Function.comp_def]
  rw [hconst, List.sum_replicate_nat]

theorem pool_same_place (index : Nat) (h : index < (pool e count).length) :
    ∃ src, jpegDec e (pool e count) index frameLength = some src ∧
      src.vaddr_src - e.jpeg_buffer_vaddress = src.paddr_src - e.jpeg_buffer_paddress := by
  rw [pool_length] at h
  have hget : (pool e count)[index]? =
      some { start := bitstreamVaddress e + frameLength * BitVec.ofNat 32 index
             length := frameLength } := by
    simp [pool, initMmap, h]
  have hoff : ∀ a x : BitVec 32, a + x - a = x := by
    intro a x
    rw [BitVec.add_comm, BitVec.add_sub_cancel]
  refine ⟨_, by rw [jpegDec, hget]; rfl, ?_⟩
  simp [bitstreamVaddress, bitstreamPaddress, BUFFER_SIZE_OTHER_USE, hoff, BitVec.mul_comm]

theorem accepted_iff : accepted e count = true ↔ 0 < count.toNat ∧
    count.toNat ≤ (e.jpeg_buffer_size.toNat + (2 ^ 32 - 204800)) % 2 ^ 32 / 614400 := by
  have hnum : (jpegV4l2BufferNum e).toNat =
      (e.jpeg_buffer_size.toNat + (2 ^ 32 - 204800)) % 2 ^ 32 / 614400 := by
    rw [jpegV4l2BufferNum, BitVec.toNat_udiv, BitVec.toNat_sub, BitVec.toNat_sub]
    simp [BUFFER_SIZE_OTHER_USE, BUFFER_SIZE_WEBCAM_BITSTREAM, image_width, image_height]
    omega
  have hcount := BitVec.toInt_eq_toNat_cond count
  have hlimit := BitVec.toInt_eq_toNat_cond (jpegV4l2BufferNum e)
  have hlt := count.isLt
  rw [accepted, Bool.and_eq_true, Bool.not_eq_true', Bool.not_eq_true', decide_eq_false_iff_not,
    decide_eq_false_iff_not]
  split at hcount <;> split at hlimit <;> omega

theorem start_toNat {n : Nat} (hn : n < 2 ^ 32)
    (hlt : e.jpeg_buffer_vaddress.toNat + n * frameLength.toNat < 2 ^ 32) :
    (bitstreamVaddress e + frameLength * BitVec.ofNat 32 n).toNat =
      e.jpeg_buffer_vaddress.toNat + n * frameLength.toNat := by
  have hzero : bitstreamVaddress e = e.jpeg_buffer_vaddress := BitVec.add_zero _
  have hmul : frameLength.toNat * n = n * frameLength.toNat := Nat.mul_comm _ _
  rw [hzero, BitVec.toNat_add, BitVec.toNat_mul, BitVec.toNat_ofNat, Nat.mod_eq_of_lt hn, hmul,
    Nat.add_mod_mod, Nat.mod_eq_of_lt hlt]

/-- **Room for all**: with a bit stream's room left. -/
theorem poolOk_of_le (hfit : count.toNat * frameLength.toNat + BUFFER_SIZE_WEBCAM_BITSTREAM.toNat ≤
    e.jpeg_buffer_size.toNat) : PoolOk e (pool e count) := by
  have hroom : ∀ n < count.toNat,
      n * frameLength.toNat + frameLength.toNat ≤ e.jpeg_buffer_size.toNat := by
    intro n hn
    rw [← Nat.succ_mul]
    exact Nat.le_trans (Nat.mul_le_mul_right _ hn) (Nat.le_of_add_right_le hfit)
  have hstart : ∀ n < count.toNat, (bitstreamVaddress e + frameLength * BitVec.ofNat 32 n).toNat =
      e.jpeg_buffer_vaddress.toNat + n * frameLength.toNat := by
    intro n hn
    have hlen : 0 < frameLength.toNat := by decide
    refine start_toNat (Nat.lt_trans hn count.isLt) ?_
    calc e.jpeg_buffer_vaddress.toNat + n * frameLength.toNat
        < e.jpeg_buffer_vaddress.toNat + (n * frameLength.toNat + frameLength.toNat) :=
          Nat.add_lt_add_left (Nat.lt_add_of_pos_right hlen) _
      _ ≤ e.jpeg_buffer_vaddress.toNat + e.jpeg_buffer_size.toNat :=
          Nat.add_le_add_left (hroom n hn) _
      _ ≤ 2 ^ 32 := e.mapped
  constructor
  case disjoint =>
    rw [pool, initMmap, List.pairwise_map]
    refine List.Pairwise.imp_of_mem ?_ List.pairwise_lt_range
    intro i j hi hj hij
    rw [List.mem_range] at hi hj
    have hnext := Nat.mul_le_mul_right frameLength.toNat hij
    rw [Nat.succ_mul] at hnext
    refine Span.disjoint_iff.2 (.inr (.inr (.inl ?_)))
    simp only [Buffer.span, hstart i hi, hstart j hj, Nat.add_assoc]
    exact Nat.add_le_add_left hnext _
  case inside =>
    intro b hb
    obtain ⟨n, hn, rfl⟩ := List.mem_map.1 hb
    rw [List.mem_range] at hn
    simp only [hstart n hn, Nat.add_assoc]
    exact ⟨Nat.le_add_right _ _, Nat.add_le_add_left (hroom n hn) _⟩
  case bitstream =>
    rw [sum_pool]
    exact hfit
  case same_place => exact pool_same_place

theorem le_of_poolOk (h : PoolOk e (pool e count)) :
    BUFFER_SIZE_WEBCAM_BITSTREAM.toNat ≤ e.jpeg_buffer_size.toNat := by
  have hsum := h.bitstream
  exact Nat.le_trans (Nat.le_add_left _ _) hsum

end Pool

/-- **The memory pool**: whatever number is accepted in the end, the buffers are in order exactly
if the engine's buffer is no smaller than the bit stream's. -/
theorem pool_in_order {e : JpegBuffer} {inputs : List (BitVec 32)} {count : BitVec 32}
    (h : inputAgain e inputs = some count) :
    PoolOk e (initMmap e count fun _ => frameLength) ↔
      BUFFER_SIZE_WEBCAM_BITSTREAM.toNat ≤ e.jpeg_buffer_size.toNat := by
  have hsize := e.jpeg_buffer_size.isLt
  obtain ⟨-, hle⟩ := accepted_iff.1 (List.find?_some h)
  refine ⟨le_of_poolOk, fun hbig => poolOk_of_le ?_⟩
  have hbits : BUFFER_SIZE_WEBCAM_BITSTREAM.toNat = 204800 := rfl
  have hframe : frameLength.toNat = 614400 := rfl
  rw [hbits] at hbig
  have hdiff : (e.jpeg_buffer_size.toNat + (2 ^ 32 - 204800)) % 2 ^ 32 =
      e.jpeg_buffer_size.toNat - 204800 := by omega
  rw [hdiff, Nat.le_div_iff_mul_le (by decide)] at hle
  rw [hbits, hframe]
  exact Nat.add_le_of_le_sub hbig hle

def oneMegabyte : JpegBuffer where
  jpeg_buffer_paddress := 0x01000000
  jpeg_buffer_vaddress := 0x40000000
  jpeg_buffer_size := 0x00100000
  mapped := by decide

theorem pool_in_order_oneMegabyte :
    inputAgain oneMegabyte [0, 2, 1] = some 1 ∧
      (PoolOk oneMegabyte (initMmap oneMegabyte 1 fun _ => frameLength) ↔
        BUFFER_SIZE_WEBCAM_BITSTREAM.toNat ≤ oneMegabyte.jpeg_buffer_size.toNat) :=
  have haccepted : inputAgain oneMegabyte [0, 2, 1] = some 1 := by decide
  ⟨haccepted, pool_in_order haccepted⟩

/-- A buffer of 128 KB. -/
def tooSmall : JpegBuffer where
  jpeg_buffer_paddress := 0x01000000
  jpeg_buffer_vaddress := 0x40000000
  jpeg_buffer_size := 0x00020000
  mapped := by decide

/-- Up to 6990 buffers are accepted for it, and not one fits. -/
theorem pool_tooSmall :
    jpegV4l2BufferNum tooSmall = 6990 ∧ inputAgain tooSmall [1] = some 1 ∧
      ¬ PoolOk tooSmall (initMmap tooSmall 1 fun _ => frameLength) := by
  refine ⟨by decide, by decide, fun h => ?_⟩
  have hpool : PoolOk tooSmall (pool tooSmall 1) := h
  have hroom := le_of_poolOk hpool
  revert hroom
  decide

end N32905.Webcam
