import N32905.Lib.Codec
import Mathlib.Logic.Function.Basic

/-!
# A serial NOR flash

The chip at the end of an SPI bus, byte by byte. A frame is what the chip
receives between select and deselect: its first byte is the command, every byte
is answered by one, and `deselect` carries the command out.

Programming only clears bits and its address wraps inside a page of 256 bytes;
an erase sets the aligned block of 64 KiB around its address. Both need the
write-enable latch and take `delay` bytes on the bus, in which the chip answers
nothing but its status. Addresses have 24 bits.
-/

namespace N32905.Lib

/-- A frame under way: whether the chip was idle when it was selected, and the
bytes received. -/
structure NorFrame where
  ready : Bool
  rx : List Byte

/-- The chip. Its `k`-th program, erase or status write takes `delay k` bytes. -/
structure Nor where
  mem : Nat → Byte
  wel : Bool
  protect : BitVec 6
  id : Nat → Byte
  busy : Nat
  delay : Nat → Nat
  works : Nat
  frame : Option NorFrame

/-! ## The array -/

/-- The page buffer after `data` from offset `o` on, over its contents `l`. -/
def latch (l : Nat → Byte) (o : Nat) : List Byte → Nat → Byte
  | [] => l
  | b :: bs => latch (Function.update l (o % 256) b) (o + 1) bs

/-- Page program of `data` at `A`. -/
def program (mem : Nat → Byte) (A : Nat) (data : List Byte) : Nat → Byte := fun a =>
  if a / 256 = A / 256 then mem a &&& latch (fun _ => 0xFF) A data (a % 256) else mem a

/-- Block erase at `A`. -/
def eraseBlock (mem : Nat → Byte) (A : Nat) : Nat → Byte := fun a =>
  if a / 65536 = A / 65536 then 0xFF else mem a

section Array
variable {l mem : Nat → Byte} {o A a j k : Nat} {b : Byte} {data : List Byte}

/-- A byte of the page buffer comes from the data, or has not been written. -/
theorem latch_cases (l : Nat → Byte) (o : Nat) (data : List Byte) (j : Nat) :
    latch l o data j = l j ∨
      ∃ k, (o + k) % 256 = j ∧ data[k]? = some (latch l o data j) := by
  induction data generalizing l o with
  | nil => exact .inl rfl
  | cons b bs ih =>
    rcases ih (Function.update l (o % 256) b) (o + 1) with h | ⟨k, hk, h⟩
    · by_cases hj : j = o % 256
      · subst hj
        rw [Function.update_self] at h
        exact .inr ⟨0, rfl, by rw [latch, h]; rfl⟩
      · rw [Function.update_of_ne hj] at h
        exact .inl h
    · exact .inr ⟨k + 1, by rw [← hk]; congr 1; omega, h⟩

theorem latch_get (hlen : data.length ≤ 256) (hk : data[k]? = some b) :
    latch l o data ((o + k) % 256) = b := by
  induction data generalizing l o k with
  | nil => cases hk
  | cons d bs ih =>
    rw [List.length_cons] at hlen
    cases k with
    | zero =>
      obtain rfl : d = b := Option.some.inj hk
      -- the page buffer is too short for a later byte to come round to the first
      rcases latch_cases (Function.update l (o % 256) d) (o + 1) bs (o % 256) with h | ⟨k, hk, h⟩
      · rw [Nat.add_zero, latch, h, Function.update_self]
      · have := (List.getElem?_eq_some_iff.1 h).1
        omega
    | succ k =>
      rw [show o + (k + 1) = o + 1 + k by omega]
      exact ih (by omega) hk

theorem program_miss (h : ∀ k < data.length, A / 256 * 256 + (A + k) % 256 ≠ a) :
    program mem A data a = mem a := by
  unfold program
  split
  case isTrue hpage =>
    have hff : latch (fun _ => 0xFF) A data (a % 256) = 0xFF := by
      rcases latch_cases (fun _ => 0xFF) A data (a % 256) with h' | ⟨k, hk, h'⟩
      · exact h'
      · exact absurd (by omega) (h k (List.getElem?_eq_some_iff.1 h').1)
    rw [hff]
    exact BitVec.and_allOnes
  case isFalse => rfl

/-- The cell of a byte loses the bits that are clear in it. -/
theorem program_hit (hlen : data.length ≤ 256) (hk : data[k]? = some b)
    (ha : A / 256 * 256 + (A + k) % 256 = a) : program mem A data a = mem a &&& b := by
  unfold program
  rw [if_pos (by omega), show a % 256 = (A + k) % 256 by omega, latch_get hlen hk]

end Array

/-! ## The chip on the bus -/

namespace Nor

/-- A program, an erase or a status write is in progress. -/
def working (d : Nor) : Bool := decide (d.busy ≠ 0)

/-- The status register: the work in progress is bit 0. -/
def status (d : Nor) : Byte := d.protect ++ BitVec.ofBool d.wel ++ BitVec.ofBool d.working

/-- A 24-bit address, high byte first. -/
def address (a₂ a₁ a₀ : Byte) : Nat := leVal [a₀, a₁, a₂]

/-- The answer to the byte after `f.rx`: status, data or identification. -/
def answer (d : Nor) (f : NorFrame) : Byte :=
  match f.rx with
  | [] => 0xFF
  | cmd :: args =>
    if cmd = 0x05 then d.status
    else if f.ready = false then 0xFF
    else if cmd = 0x03 then
      match args with
      | a₂ :: a₁ :: a₀ :: read => d.mem ((address a₂ a₁ a₀ + read.length) % 2 ^ 24)
      | _ => 0xFF
    else if cmd = 0x0B then
      match args with
      | a₂ :: a₁ :: a₀ :: _ :: read => d.mem ((address a₂ a₁ a₀ + read.length) % 2 ^ 24)
      | _ => 0xFF
    else if cmd = 0x90 then
      match args with
      | _ :: _ :: _ :: read => d.id read.length
      | _ => 0xFF
    else 0xFF

/-- Start the work that leaves the array `mem` and the protection `protect`. -/
def start (d : Nor) (mem : Nat → Byte) (protect : BitVec 6) : Nor :=
  { d with
    mem := mem
    protect := protect
    wel := false
    busy := d.delay d.works
    works := d.works + 1 }

/-- Carry out the command of a frame the chip was idle for. -/
def execute (d : Nor) (rx : List Byte) : Nor :=
  match rx with
  | [] => d
  | cmd :: args =>
    if cmd = 0x06 then (if args = [] then { d with wel := true } else d)
    else if cmd = 0x04 then (if args = [] then { d with wel := false } else d)
    else if d.wel = false then d
    else if cmd = 0x02 then
      match args with
      | a₂ :: a₁ :: a₀ :: data => d.start (program d.mem (address a₂ a₁ a₀) data) d.protect
      | _ => d
    else if cmd = 0xD8 then
      match args with
      | [a₂, a₁, a₀] => d.start (eraseBlock d.mem (address a₂ a₁ a₀)) d.protect
      | _ => d
    else if cmd = 0xC7 then (if args = [] then d.start (fun _ => 0xFF) d.protect else d)
    else if cmd = 0x01 then
      match args with
      | [v] => d.start d.mem (v.extractLsb' 2 6)
      | _ => d
    else d

def select (d : Nor) : Nor := { d with frame := some ⟨decide (d.busy = 0), []⟩ }

/-- One byte on the bus: the answer to it, and the time it takes. -/
def receive (b : Byte) (d : Nor) : Byte × Nor :=
  match d.frame with
  | none => (0xFF, { d with busy := d.busy - 1 })
  | some f => (d.answer f, { d with busy := d.busy - 1, frame := some { f with rx := f.rx ++ [b] } })

def deselect (d : Nor) : Nor :=
  match d.frame with
  | none => d
  | some f => { (if f.ready then d.execute f.rx else d) with frame := none }

/-! ## Frames to an idle chip -/

variable {d : Nor} {rx args : List Byte}

/-- An idle chip that has received `rx` in a frame. -/
def within (d : Nor) (rx : List Byte) : Nor := { d with frame := some ⟨true, rx⟩ }

theorem select_idle (h : d.busy = 0) : d.select = d.within [] := by
  rw [select, within, h]
  rfl

theorem receive_within (h : d.busy = 0) (b : Byte) :
    (d.within rx).receive b = (d.answer ⟨true, rx⟩, d.within (rx ++ [b])) := by
  obtain ⟨mem, wel, protect, id, busy, delay, works, frame⟩ := d
  obtain rfl : busy = 0 := h
  rfl

/-- The command does not look at the frame it came in. -/
theorem execute_frame (f : Option NorFrame) (rx : List Byte) :
    ({ d with frame := f } : Nor).execute rx = { d.execute rx with frame := f } := by
  unfold execute
  cases rx with
  | nil => rfl
  | cons cmd args =>
    dsimp only
    by_cases h06 : cmd = 0x06
    · simp only [if_pos h06]
      split <;> rfl
    by_cases h04 : cmd = 0x04
    · simp only [if_neg h06, if_pos h04]
      split <;> rfl
    simp only [if_neg h06, if_neg h04]
    by_cases hwel : d.wel = false
    · simp only [if_pos hwel]
    simp only [if_neg hwel]
    by_cases h02 : cmd = 0x02
    · simp only [if_pos h02]
      split <;> rfl
    by_cases hD8 : cmd = 0xD8
    · simp only [if_neg h02, if_pos hD8]
      split <;> rfl
    by_cases hC7 : cmd = 0xC7
    · simp only [if_neg h02, if_neg hD8, if_pos hC7]
      split <;> rfl
    simp only [if_neg h02, if_neg hD8, if_neg hC7]
    repeat' split
    all_goals rfl

theorem execute_status (rx : List Byte) : d.execute (0x05 :: rx) = d := by
  have hcmd : (0x05 : Byte) ∉ [0x06, 0x04, 0x02, 0xD8, 0xC7, 0x01] := by decide
  simp only [List.mem_cons, List.not_mem_nil, or_false, not_or] at hcmd
  obtain ⟨h1, h2, h3, h4, h5, h6⟩ := hcmd
  unfold execute
  dsimp only
  rw [if_neg h1, if_neg h2, if_neg h3, if_neg h4, if_neg h5, if_neg h6, ite_self]

/-- Only a program, an erase and a status write take time. -/
theorem busy_execute {cmd : Byte} (hhead : rx.head? = some cmd)
    (hcmd : cmd ∉ [0x02, 0xD8, 0xC7, 0x01]) : (d.execute rx).busy = d.busy := by
  unfold execute
  cases rx with
  | nil => rfl
  | cons c args =>
    obtain rfl : c = cmd := Option.some.inj hhead
    simp only [List.mem_cons, List.not_mem_nil, or_false, not_or] at hcmd
    obtain ⟨h1, h2, h3, h4⟩ := hcmd
    dsimp only
    rw [if_neg h1, if_neg h2, if_neg h3, if_neg h4]
    repeat' split
    all_goals rfl

theorem frame_execute (rx : List Byte) : (d.execute rx).frame = d.frame := by
  have h := congrArg Nor.frame (execute_frame (d := d) d.frame rx)
  exact h

/-- **A frame to an idle chip** carries out its command. -/
theorem deselect_within (hf : d.frame = none) : (d.within rx).deselect = d.execute rx := by
  have he := (frame_execute rx).trans hf
  show { (d.within rx).execute rx with frame := none } = _
  rw [within, execute_frame]
  generalize d.execute rx = e at he
  obtain ⟨mem, wel, protect, id, busy, delay, works, frame⟩ := e
  obtain rfl : frame = none := he
  rfl

end Nor

end N32905.Lib
