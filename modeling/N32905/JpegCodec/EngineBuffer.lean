import N32905.JpegCodec.Loading

/-!
# The engine's buffer

The reading loops store 4096 bytes at a time and compare the count with a limit
afterwards. `jpegCodec` and `jpegWindowCodec` leave room for the decoded image behind
the limit; `jpeg_resize` has the size of the buffer itself for its limit. Behind the
loop of a decoder the count is rounded up to 4 bytes and split off the buffer.

The addresses of the buffer fit in 32 bits, so counts are numbers.
-/

namespace N32905.JpegCodec

open N32905.Lib

/-! ## The model -/

def jpegCodecEncodeSizes : BufSizes := ⟨640 * 480 * 2, 100 * 1024⟩

/-- `BufferSize`, an `unsigned long` of 32 bits. -/
def BufSizes.total (b : BufSizes) : BitVec 32 := b.src_bufsize + b.dst_bufsize

structure CopySt where
  bufferCount : Nat
  passes : Nat
  feof : Bool

section Copy
variable (limit len : Nat) (ready : Nat → Bool)

/-- What `fread` stores behind the first `bufferCount` bytes. -/
def copySize (st : CopySt) : Nat :=
  if ready st.passes then min 4096 (len - st.bufferCount) else 0

/-- One pass for a file of `len` bytes, the loop of the encoder. -/
def copyBody (st : CopySt) : Step CopySt (Option Nat) :=
  if st.feof then .done (some st.bufferCount)
  else
    let readSize := copySize len ready st
    let bufferCount := st.bufferCount + readSize
    if bufferCount > limit then .done none
    else .next ⟨bufferCount, st.passes + 1, ready st.passes && readSize < 4096⟩

def copyStart : CopySt := ⟨0, 0, false⟩

end Copy

/-- The functions with a reading loop. -/
inductive Reader where
  | decode (mode : DecodeMode)
  | encode
  | window (xres yres : BitVec 32)
  | resize

/-- The limit of a loop and the size its function splits up. -/
structure LoadSizes where
  limit : Nat
  total : Nat

def BufSizes.enough (b : BufSizes) (jpeg_buffer_size : Nat) : Option LoadSizes :=
  if b.total.toNat > jpeg_buffer_size then none else some ⟨b.src_bufsize.toNat, b.total.toNat⟩

def Reader.sizes (jpeg_buffer_size : Nat) : Reader → Option LoadSizes
  | .decode mode => (jpegCodecDecodeSizes mode).enough jpeg_buffer_size
  | .encode => jpegCodecEncodeSizes.enough jpeg_buffer_size
  | .window xres yres => (jpegWindowCodecSizes xres yres).enough jpeg_buffer_size
  | .resize => some ⟨jpeg_buffer_size, jpeg_buffer_size⟩

def Reader.splits : Reader → Bool
  | .encode => false
  | _ => true

/-- Every `fread` of the loop stores inside the buffer. -/
def StoresInside (limit len size : Nat) : Prop :=
  ∀ ready k st, after (copyBody limit len ready) copyStart k = some st →
    st.bufferCount + copySize len ready st ≤ size

/-- The sizes behind the loop: `dst_bufsize` is a difference that does not underflow,
and source and destination fit in the buffer. -/
def SplitsInside (l : LoadSizes) (len size : Nat) : Prop :=
  ∀ ready count, Ends (copyBody l.limit len ready) copyStart (some count) →
    roundUp4 count ≤ l.total ∧ roundUp4 count + (l.total - roundUp4 count) ≤ size

def LoadsInside (r : Reader) (size len : Nat) : Prop :=
  ∀ l, r.sizes size = some l →
    StoresInside l.limit len size ∧ (r.splits → SplitsInside l len size)

/-! ## The loop -/

section Loop
variable {limit len size : Nat} {ready : Nat → Bool} {st st' : CopySt}

def ReadSt.copy (st : ReadSt) : CopySt := ⟨st.bufferCount, st.passes, st.feof⟩

theorem loadBody_copy {file old : List Byte} {s s' : ReadSt}
    (h : loadBody file old ready limit s = .next s') :
    copyBody limit file.length ready s.copy = .next s'.copy := by
  unfold loadBody at h
  unfold copyBody
  split at h
  · cases h
  · rename_i hfeof
    dsimp only at h
    split at h
    · cases h
    · split at h
      · cases h
      · rename_i hlimit
        cases h
        rw [if_neg (show ¬ s.copy.feof = true from hfeof)]
        exact if_neg hlimit

theorem StoresInside.loadBody {file old : List Byte} {s : ReadSt} {k : Nat}
    (h : StoresInside limit file.length size)
    (hs : after (loadBody file old ready limit) readStart k = some s) :
    s.bufferCount + freadSize file ready s ≤ size :=
  h ready k s.copy (after_map (f := ReadSt.copy) (fun _ _ => loadBody_copy) hs)

/-- What every pass keeps: before the end of the file the count is a multiple of 4096. -/
structure CopyInv (limit len : Nat) (st : CopySt) : Prop where
  count_le : st.bufferCount ≤ len
  count_le_limit : st.bufferCount ≤ limit
  feof : st.feof = true → st.bufferCount = len
  blocks : st.feof = false → st.bufferCount % 4096 = 0

theorem copyInv_start : CopyInv limit len copyStart :=
  ⟨Nat.zero_le _, Nat.zero_le _, (fun h => nomatch h), fun _ => rfl⟩

theorem copyBody_next (h : CopyInv limit len st) (hb : copyBody limit len ready st = .next st') :
    CopyInv limit len st' := by
  unfold copyBody at hb
  split at hb
  · cases hb
  · rename_i hfeof
    dsimp only at hb
    split at hb
    · cases hb
    · rename_i hlimit
      cases hb
      have hle := h.count_le
      have hblocks := h.blocks (Bool.eq_false_iff.2 hfeof)
      unfold copySize at hlimit ⊢
      cases hready : ready st.passes with
      | false =>
        simp only [hready, Bool.false_eq_true, if_false, Nat.add_zero, Bool.false_and] at hlimit ⊢
        exact ⟨hle, h.count_le_limit, (fun hf => nomatch hf), fun _ => hblocks⟩
      | true =>
        simp only [hready, if_true, Bool.true_and] at hlimit ⊢
        refine ⟨by dsimp only; omega, by dsimp only; omega, ?_, ?_⟩
        · intro hshort
          have := of_decide_eq_true hshort
          dsimp only
          omega
        · intro hfull
          have := of_decide_eq_false hfull
          dsimp only
          omega

theorem CopyInv.store_le (h : CopyInv limit len st) :
    st.bufferCount + copySize len ready st ≤ min len (4096 * (limit / 4096 + 1)) := by
  have h1 := h.count_le
  have h2 := h.count_le_limit
  have hsize : copySize len ready st ≤ min 4096 (len - st.bufferCount) := by
    unfold copySize
    split <;> omega
  cases hfeof : st.feof with
  | true =>
    have := h.feof hfeof
    omega
  | false =>
    have := h.blocks hfeof
    omega

theorem copy_ends {count : Nat} (h : Ends (copyBody limit len ready) copyStart (some count)) :
    count = len ∧ len ≤ limit := by
  obtain ⟨s, hs, hb⟩ := h.rule (fun _ _ => copyBody_next) copyInv_start
  unfold copyBody at hb
  split at hb
  case isTrue hfeof =>
    cases hb
    exact ⟨hs.feof hfeof, hs.feof hfeof ▸ hs.count_le_limit⟩
  case isFalse =>
    dsimp only at hb
    split at hb <;> cases hb

/-! ### The loop with a driver that is always ready -/

theorem copyBody_block {k : Nat} (hlen : 4096 * (k + 1) ≤ len) (hlimit : 4096 * (k + 1) ≤ limit) :
    copyBody limit len (fun _ => true) ⟨4096 * k, k, false⟩ =
      .next ⟨4096 * (k + 1), k + 1, false⟩ := by
  have hsize : copySize len (fun _ => true) ⟨4096 * k, k, false⟩ = 4096 := by
    unfold copySize
    rw [if_pos rfl]
    dsimp only
    omega
  unfold copyBody
  rw [hsize, if_neg Bool.false_ne_true]
  dsimp only
  rw [if_neg (by omega), Nat.mul_add, Nat.mul_one]
  rfl

theorem copy_blocks (limit len k : Nat) (hlen : 4096 * k ≤ len) (hlimit : 4096 * k ≤ limit) :
    after (copyBody limit len fun _ => true) copyStart k = some ⟨4096 * k, k, false⟩ := by
  induction k with
  | zero => rfl
  | succ k ih => exact after_succ.2 ⟨_, ih (by omega) (by omega), copyBody_block hlen hlimit⟩

theorem copy_reaches (limit len : Nat) :
    ∃ k st, after (copyBody limit len fun _ => true) copyStart k = some st ∧
      st.bufferCount + copySize len (fun _ => true) st = min len (4096 * (limit / 4096 + 1)) := by
  have hk : 4096 * min (limit / 4096) (len / 4096) ≤ len := by omega
  have hk' : 4096 * min (limit / 4096) (len / 4096) ≤ limit := by omega
  refine ⟨_, _, copy_blocks _ _ _ hk hk', ?_⟩
  unfold copySize
  rw [if_pos rfl]
  dsimp only
  omega

theorem copy_reads (h : len ≤ limit) :
    Ends (copyBody limit len fun _ => true) copyStart (some len) := by
  have hblocks := copy_blocks limit len (len / 4096) (by omega) (by omega)
  have hsize : copySize len (fun _ => true) ⟨4096 * (len / 4096), len / 4096, false⟩ =
      len % 4096 := by
    unfold copySize
    rw [if_pos rfl]
    dsimp only
    omega
  have hlast : copyBody limit len (fun _ => true) ⟨4096 * (len / 4096), len / 4096, false⟩ =
      .next ⟨len, len / 4096 + 1, true⟩ := by
    unfold copyBody
    rw [hsize, if_neg Bool.false_ne_true]
    dsimp only
    rw [show 4096 * (len / 4096) + len % 4096 = len by omega, if_neg (by omega),
      decide_eq_true (Nat.mod_lt _ (by omega))]
    rfl
  rw [after_ends hblocks, ends_next hlast]
  exact ⟨1, rfl⟩

theorem storesInside_iff : StoresInside limit len size ↔
    min len (4096 * (limit / 4096 + 1)) ≤ size := by
  constructor
  · intro h
    obtain ⟨k, st, hst, heq⟩ := copy_reaches limit len
    exact heq ▸ h _ k st hst
  · intro h ready k st hst
    have hinv := after_rule (fun _ _ => copyBody_next) copyInv_start hst
    exact Nat.le_trans hinv.store_le h

theorem splitsInside_iff (l : LoadSizes) (len : Nat) (hl : l.total ≤ size) :
    SplitsInside l len size ↔ (len ≤ l.limit → roundUp4 len ≤ l.total) := by
  constructor
  · intro h hlen
    exact (h _ _ (copy_reads hlen)).1
  · intro h ready count hends
    obtain ⟨rfl, hlen⟩ := copy_ends hends
    have := h hlen
    exact ⟨this, by omega⟩

end Loop

/-! ## The functions -/

section Readers
variable {size len : Nat}

theorem enough_iff (size len : Nat) (b : BufSizes) (r : Reader)
    (hr : r.sizes size = b.enough size) :
    LoadsInside r size len ↔ size < b.total.toNat ∨
      min len (4096 * (b.src_bufsize.toNat / 4096 + 1)) ≤ size ∧
        (r.splits → len ≤ b.src_bufsize.toNat → roundUp4 len ≤ b.total.toNat) := by
  unfold LoadsInside
  rw [hr]
  unfold BufSizes.enough
  split
  case isTrue hlt =>
    constructor
    · exact fun _ => .inl hlt
    · exact fun _ l hl => nomatch hl
  case isFalse hle =>
    have hsplits := splitsInside_iff ⟨b.src_bufsize.toNat, b.total.toNat⟩ len
      (Nat.le_of_not_lt hle)
    rw [or_iff_right hle]
    simp only [Option.some.injEq, forall_eq', storesInside_iff, hsplits]

theorem roundUp4_le (len n : Nat) (h : len ≤ 4 * n) : roundUp4 len ≤ 4 * n := by
  unfold roundUp4
  split <;> omega

theorem enough_of_room (b : BufSizes) (r : Reader) (hr : r.sizes size = b.enough size)
    (hsrc : b.src_bufsize.toNat % 4096 = 0)
    (hroom : b.src_bufsize.toNat + 4096 ≤ b.total.toNat) : LoadsInside r size len := by
  rw [enough_iff size len b r hr, or_iff_not_imp_left]
  intro hle
  refine ⟨by omega, fun _ hlen => ?_⟩
  have := roundUp4_le len (b.src_bufsize.toNat / 4) (by omega)
  omega

end Readers

/-- **Loading stays in the engine's buffer** in `jpegCodec` always; in `jpegWindowCodec` if
the check of the sizes fails, or the buffer has room for the block read behind the limit
and the sizes, computed in 32 bits, for the file; in `jpeg_resize` exactly if the buffer
has room for the file, rounded up. -/
theorem loading_inside_iff (size len : Nat) :
    (∀ mode, LoadsInside (.decode mode) size len) ∧ LoadsInside .encode size len ∧
    (∀ xres yres, LoadsInside (.window xres yres) size len ↔
      size < (jpegWindowCodecSizes xres yres).total.toNat ∨
      min len (300 * 1024 + 4096) ≤ size ∧
        (len ≤ 300 * 1024 → roundUp4 len ≤ (jpegWindowCodecSizes xres yres).total.toNat)) ∧
    (LoadsInside .resize size len ↔ roundUp4 len ≤ size) := by
  refine ⟨fun mode => ?_, ?_, fun xres yres => ?_, ?_⟩
  · cases mode <;> exact enough_of_room _ _ rfl (by decide) (by decide)
  · exact enough_of_room _ _ rfl (by decide) (by decide)
  · have hiff := enough_iff size len (jpegWindowCodecSizes xres yres) (.window xres yres) rfl
    have hsrc : (jpegWindowCodecSizes xres yres).src_bufsize.toNat = 300 * 1024 := rfl
    rw [hsrc] at hiff
    simpa [Reader.splits] using hiff
  · have hsplits := splitsInside_iff ⟨size, size⟩ len (Nat.le_refl size)
    have hround := le_roundUp4 len
    unfold LoadsInside
    simp only [Reader.sizes, Reader.splits, Option.some.injEq, forall_eq', storesInside_iff,
      hsplits, forall_const]
    constructor
    · intro h
      exact h.2 (by omega)
    · intro h
      exact ⟨by omega, fun _ => h⟩

/-- A buffer of 1 MiB and a file with one byte more. -/
theorem resize_stores_behind_buffer :
    ¬ StoresInside (2 ^ 20) (2 ^ 20 + 1) (2 ^ 20) ∧
      ¬ LoadsInside .resize (2 ^ 20) (2 ^ 20 + 1) := by
  have hstores : ¬ StoresInside (2 ^ 20) (2 ^ 20 + 1) (2 ^ 20) := by
    rw [storesInside_iff]
    omega
  exact ⟨hstores, fun h => hstores (h _ rfl).1⟩

end N32905.JpegCodec
