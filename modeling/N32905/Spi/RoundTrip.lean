import N32905.Spi.Frames

/-!
# Erase, write and read back

What the functions do to the array of an idle flash (`eraseMem`, `writeMem`), and
when a buffer that is written comes back. `spiWrite` sends the data in pieces of
256 bytes from `addr` on, in words of two bytes: the last byte of an odd length is
not sent, and a piece that crosses the end of a page goes on at its beginning.
-/

namespace N32905.Spi

open N32905.Lib

/-! ## The array -/

def passAddr (addr : BitVec 32) (i : Nat) : Nat :=
  (addr + BitVec.ofNat 32 i * 256).toNat % 2 ^ 24

/-- The array after `n` passes of `spiEraseSector` from pass `i` on. -/
def eraseMem (addr : BitVec 32) : Nat → Nat → (Nat → Byte) → Nat → Byte
  | 0, _, mem => mem
  | n + 1, i, mem => eraseMem addr n (i + 1) (eraseBlock mem (passAddr addr i))

/-- The array after `n` passes of `spiWrite` from pass `i` on. -/
def writeMem (addr : BitVec 32) (buf : Nat → Byte) :
    Nat → Nat → Nat → Nat → (Nat → Byte) → Nat → Byte
  | 0, _, _, _, mem => mem
  | n + 1, i, len, k, mem =>
    let page := if len ≥ 256 then 128 else len / 2
    let len := if len ≥ 256 then len - 256 else len
    writeMem addr buf n (i + 1) len (k + page)
      (program mem (passAddr addr i) (bufBytes buf (2 * k) (2 * page)))

/-! ## The functions on the array -/

section Functions
variable {s : Bus}

theorem checkBusy_idle (h : Idle s) : ∃ s', spiCheckBusy s = some s' ∧ s'.dev = s.dev ∧ Idle s' := by
  obtain ⟨s', f, hs, hdev, -⟩ := spiCheckBusy_spec h.free
  have heq : s'.dev = s.dev := by rw [hdev, ← h.busy]
  exact ⟨s', hs, heq, by rw [heq]; exact h.busy, by rw [heq]; exact h.free⟩

theorem eraseSectors_mem (h : Idle s) (addr : BitVec 32) (n i : Nat) :
    ∃ s', eraseSectors addr n i s = some s' ∧ Idle s' ∧
      s'.dev.mem = eraseMem addr n i s.dev.mem := by
  induction n generalizing s i with
  | zero => exact ⟨s, rfl, h, rfl⟩
  | succ n ih =>
    have hw := h.writeEnable
    obtain ⟨a₂, a₁, a₀, hout, haddr⟩ := shiftOut_addr (addr + BitVec.ofNat 32 i * 256)
    have hf := ((InFrame.select hw).transit hw 0xD8 8).transit hw
      (addr + BitVec.ofNat 32 i * 256) 24
    rw [hout] at hf
    obtain ⟨s', f, hs, hdev, -, -, hi⟩ := work_spec h hf
    obtain ⟨s'', hs'', hi'', hmem⟩ := ih hi (i + 1)
    refine ⟨s'', ?_, hi'', ?_⟩
    · simp only [eraseSectors, hs, Option.bind_eq_bind, Option.bind_some]
      exact hs''
    · rw [hmem, hdev, eraseMem, passAddr, ← haddr]
      rfl

theorem writePages_mem (h : Idle s) (addr : BitVec 32) (buf : Nat → Byte) (n i len k : Nat) :
    ∃ s', writePages addr buf n i len k s = some s' ∧ Idle s' ∧
      s'.dev.mem = writeMem addr buf n i len k s.dev.mem := by
  induction n generalizing s i len k with
  | zero => exact ⟨s, rfl, h, rfl⟩
  | succ n ih =>
    have hw := h.writeEnable
    obtain ⟨a₂, a₁, a₀, hout, haddr⟩ := shiftOut_addr (addr + BitVec.ofNat 32 i * 256)
    have hf := (((InFrame.select hw).transit hw 0x02 8).transit hw
      (addr + BitVec.ofNat 32 i * 256) 24).writeData hw buf
        (if len ≥ 256 then 128 else len / 2) k
    rw [hout] at hf
    obtain ⟨s', f, hs, hdev, -, -, hi⟩ := work_spec h hf
    obtain ⟨s'', hs'', hi'', hmem⟩ := ih hi (i + 1) (if len ≥ 256 then len - 256 else len)
      (k + if len ≥ 256 then 128 else len / 2)
    refine ⟨s'', ?_, hi'', ?_⟩
    · simp only [writePages, hs, Option.bind_eq_bind, Option.bind_some]
      exact hs''
    · rw [hmem, hdev, writeMem, passAddr, ← haddr]
      rfl

def memBytes (mem : Nat → Byte) (addr len : BitVec 32) : List Byte :=
  (List.range len.toNat).map fun k => mem ((addr.toNat % 2 ^ 24 + k) % 2 ^ 24)

/-- The data loop of a read returns the array, if that is what the chip answers. -/
theorem InFrame.readMem {t : Bus} {rx : List Byte} (h : Idle s) (hf : InFrame s t rx)
    (addr len : BitVec 32) (hans : ∀ read, s.dev.answer ⟨true, rx ++ read⟩ =
      s.dev.mem ((addr.toNat % 2 ^ 24 + read.length) % 2 ^ 24)) :
    (Spi.readData len.toNat t).1 = memBytes s.dev.mem addr len := by
  rw [(hf.readData h len.toNat).1]
  refine List.map_congr_left fun k _ => ?_
  rw [hans, List.length_replicate]

theorem spiRead_mem (h : Idle s) (addr len : BitVec 32) :
    ∃ s', spiRead addr len s = some (memBytes s.dev.mem addr len, s') := by
  obtain ⟨s₁, hs, hdev, h₁⟩ := checkBusy_idle h
  obtain ⟨a₂, a₁, a₀, hout, haddr⟩ := shiftOut_addr addr
  have hf := ((InFrame.select h₁).transit h₁ 0x03 8).transit h₁ addr 24
  rw [hout] at hf
  have hr := hf.readMem h₁ addr len fun read => by
    rw [← haddr]
    rfl
  rw [hdev] at hr
  refine ⟨spiDeselectCS0 (readData len.toNat (transit addr 24
    (transit 0x03 8 (spiSelectCS0 s₁)))).2, ?_⟩
  simp only [spiRead, hs, hr, Option.bind_eq_bind, Option.bind_some, Option.pure_def]

theorem spiReadFast_mem (h : Idle s) (addr len : BitVec 32) :
    ∃ s', spiReadFast addr len s = some (memBytes s.dev.mem addr len, s') := by
  obtain ⟨s₁, hs, hdev, h₁⟩ := checkBusy_idle h
  obtain ⟨a₂, a₁, a₀, hout, haddr⟩ := shiftOut_addr addr
  have hf := ((InFrame.select h₁).transit h₁ 0x0B 8).transit h₁ addr 24
  rw [hout] at hf
  have hr := (hf.transit h₁ 0xFF 8).readMem h₁ addr len fun read => by
    rw [← haddr]
    rfl
  rw [hdev] at hr
  refine ⟨spiDeselectCS0 (readData len.toNat (transit 0xFF 8 (transit addr 24
    (transit 0x0B 8 (spiSelectCS0 s₁))))).2, ?_⟩
  simp only [spiReadFast, hs, hr, Option.bind_eq_bind, Option.bind_some, Option.pure_def]

end Functions

/-! ## Which cell a byte goes to -/

section Cells
variable {addr : BitVec 32} {buf mem : Nat → Byte} {n i len a : Nat}

theorem passAddr_eq (addr : BitVec 32) (i : Nat) (h : addr.toNat + 256 * i < 2 ^ 24) :
    passAddr addr i = addr.toNat + 256 * i := by
  have h256 : (256 : BitVec 32).toNat = 256 := rfl
  rw [passAddr, BitVec.toNat_add, BitVec.toNat_mul, BitVec.toNat_ofNat, h256]
  omega

theorem eraseMem_ff (h : mem a = 0xFF) : eraseMem addr n i mem a = 0xFF := by
  induction n generalizing i mem with
  | zero => exact h
  | succ n ih =>
    refine ih ?_
    unfold eraseBlock
    split
    · rfl
    · exact h

theorem eraseMem_block {j : Nat} (hj : j < n) (ha : a / 65536 = passAddr addr (i + j) / 65536) :
    eraseMem addr n i mem a = 0xFF := by
  induction n generalizing i j mem with
  | zero => omega
  | succ n ih =>
    cases j with
    | zero =>
      have hb : eraseBlock mem (passAddr addr i) a = 0xFF := if_pos ha
      rw [eraseMem]
      exact eraseMem_ff hb
    | succ j => exact ih (j := j) (by omega) (by rw [ha, Nat.add_assoc, Nat.add_comm 1 j])

theorem eraseMem_keep (h : ∀ j < n, a / 65536 ≠ passAddr addr (i + j) / 65536) :
    eraseMem addr n i mem a = mem a := by
  induction n generalizing i mem with
  | zero => rfl
  | succ n ih =>
    have hb : eraseBlock mem (passAddr addr i) a = mem a := if_neg (h 0 (by omega))
    rw [eraseMem, ih, hb]
    intro j hj
    have := h (j + 1) (by omega)
    rwa [show i + (j + 1) = i + 1 + j by omega] at this

/-- The cell that byte `m` of the buffer is programmed into. -/
def target (addr : BitVec 32) (m : Nat) : Nat :=
  (addr.toNat / 256 + m / 256) * 256 + (addr.toNat + m) % 256

theorem target_inj {m m' : Nat} (h : target addr m = target addr m') : m = m' := by
  unfold target at h
  omega

theorem target_pass {k : Nat} (hk : k < 256) : target addr (256 * i + k) =
    (addr.toNat + 256 * i) / 256 * 256 + (addr.toNat + 256 * i + k) % 256 := by
  unfold target
  rw [show (256 * i + k) / 256 = i by omega, Nat.add_mul_div_left _ _ (by decide), Nat.add_assoc]

section Pass
variable {page m : Nat}

theorem pass_miss (hfit : addr.toNat + 256 * i < 2 ^ 24) (hpage : page ≤ 128)
    (h : ∀ m, 256 * i ≤ m → m < 256 * i + 2 * page → target addr m ≠ a) :
    program mem (passAddr addr i) (bufBytes buf (2 * (128 * i)) (2 * page)) a = mem a := by
  refine program_miss fun k hk => ?_
  rw [bufBytes, List.length_map, List.length_range'] at hk
  rw [passAddr_eq addr i hfit, ← target_pass (by omega)]
  exact h (256 * i + k) (by omega) (by omega)

theorem pass_hit (hfit : addr.toNat + 256 * i < 2 ^ 24) (hpage : page ≤ 128) (hm : 256 * i ≤ m)
    (hm' : m < 256 * i + 2 * page) :
    program mem (passAddr addr i) (bufBytes buf (2 * (128 * i)) (2 * page)) (target addr m) =
      mem (target addr m) &&& buf m := by
  obtain ⟨k, rfl⟩ := Nat.exists_eq_add_of_le hm
  have hk : (bufBytes buf (2 * (128 * i)) (2 * page))[k]? = some (buf (256 * i + k)) := by
    rw [bufBytes, List.getElem?_map, List.getElem?_range' (by omega), Option.map_some, Nat.one_mul,
      show 2 * (128 * i) = 256 * i by omega]
  refine program_hit ?_ hk ?_
  · rw [bufBytes, List.length_map, List.length_range']
    omega
  · rw [passAddr_eq addr i hfit, target_pass (by omega)]

end Pass

/-- **A cell that is no byte's target** keeps its contents. -/
theorem writeMem_miss (hfit : addr.toNat + 256 * i + len ≤ 2 ^ 24) (hn : n = (len + 255) / 256)
    (h : ∀ m, 256 * i ≤ m → m < 256 * i + len / 2 * 2 → target addr m ≠ a) :
    writeMem addr buf n i len (128 * i) mem a = mem a := by
  induction n generalizing i len mem with
  | zero => rfl
  | succ n ih =>
    rw [writeMem]
    by_cases hlen : len ≥ 256
    · simp only [if_pos hlen]
      rw [show 128 * i + 128 = 128 * (i + 1) by omega,
        ih (by omega) (by omega) (fun m hm hm' => h m (by omega) (by omega)),
        pass_miss (by omega) (by omega) (fun m hm hm' => h m hm (by omega))]
    · simp only [if_neg hlen]
      obtain rfl : n = 0 := by omega
      exact pass_miss (by omega) (by omega) fun m hm hm' => h m hm (by omega)

/-- **The target of a byte** loses the bits that are clear in it. -/
theorem writeMem_hit {m : Nat} (hfit : addr.toNat + 256 * i + len ≤ 2 ^ 24)
    (hn : n = (len + 255) / 256) (hm : 256 * i ≤ m) (hm' : m < 256 * i + len / 2 * 2) :
    writeMem addr buf n i len (128 * i) mem (target addr m) = mem (target addr m) &&& buf m := by
  induction n generalizing i len mem with
  | zero => omega
  | succ n ih =>
    rw [writeMem]
    by_cases hlen : len ≥ 256
    · simp only [if_pos hlen]
      rw [show 128 * i + 128 = 128 * (i + 1) by omega]
      by_cases hpass : m < 256 * (i + 1)
      · -- the byte goes out in this pass, and no later one has its target
        rw [writeMem_miss (by omega) (by omega), pass_hit (by omega) (by omega) hm (by omega)]
        intro m' hlo _ heq
        have := target_inj heq
        omega
      · rw [ih (by omega) (by omega) (by omega) (by omega), pass_miss (by omega) (by omega)]
        intro m' _ hhi heq
        have := target_inj heq
        omega
    · simp only [if_neg hlen]
      obtain rfl : n = 0 := by omega
      exact pass_hit (by omega) (by omega) hm (by omega)

end Cells

/-! ## The round trip -/

/-- The number of sectors `spiFlashTest` erases for `len` bytes. -/
def sectorCount (len : BitVec 32) : BitVec 32 :=
  let count := len / 256
  if len.toNat % 256 ≠ 0 then count + 1 else count

def eraseWrite (addr len : BitVec 32) (buf : Nat → Byte) (s : Bus) : Option Bus :=
  (spiEraseSector addr (sectorCount len) s).bind (spiWrite addr len buf)

def ReadsBack (addr len : BitVec 32) (buf : Nat → Byte) (s : Bus) : Prop :=
  ∃ s₁ s₂ s₃, eraseWrite addr len buf s = some s₁ ∧
    spiRead addr len s₁ = some (bufBytes buf 0 len.toNat, s₂) ∧
    spiReadFast addr len s₁ = some (bufBytes buf 0 len.toNat, s₃)

section RoundTrip
variable {s : Bus} {addr len : BitVec 32} {buf : Nat → Byte}

def eraseWriteMem (addr len : BitVec 32) (buf : Nat → Byte) (mem : Nat → Byte) : Nat → Byte :=
  writeMem addr buf ((len.toNat + 255) / 256) 0 len.toNat (128 * 0)
    (eraseMem addr ((len.toNat + 255) / 256) 0 mem)

theorem sectorCount_toNat (len : BitVec 32) : (sectorCount len).toNat = (len.toNat + 255) / 256 := by
  have h256 : (256 : BitVec 32).toNat = 256 := rfl
  have h1 : (1 : BitVec 32).toNat = 1 := rfl
  have hlt := len.isLt
  unfold sectorCount
  dsimp only
  split
  · rw [BitVec.toNat_add, BitVec.toNat_udiv, h256, h1]
    omega
  · rw [BitVec.toNat_udiv, h256]
    omega

theorem eraseWrite_mem (h : s.dev.frame = none) (addr len : BitVec 32) (buf : Nat → Byte) :
    ∃ s', eraseWrite addr len buf s = some s' ∧ Idle s' ∧
      s'.dev.mem = eraseWriteMem addr len buf s.dev.mem := by
  obtain ⟨s₁, f, hs₁, hdev₁, -⟩ := spiCheckBusy_spec h
  have h₁ : Idle s₁ := ⟨by rw [hdev₁], by rw [hdev₁]; exact h⟩
  obtain ⟨s₂, hs₂, h₂, hmem₂⟩ := eraseSectors_mem h₁ addr (sectorCount len).toNat 0
  obtain ⟨s₃, hs₃, hdev₃, h₃⟩ := checkBusy_idle h₂
  obtain ⟨s₄, hs₄, h₄, hmem₄⟩ :=
    writePages_mem h₃ addr buf ((len.toNat + 255) / 256) 0 len.toNat 0
  have hcount : (if len.toNat % 256 ≠ 0 then len.toNat / 256 + 1 else len.toNat / 256) =
      (len.toNat + 255) / 256 := by
    split <;> omega
  refine ⟨s₄, ?_, h₄, ?_⟩
  · simp only [eraseWrite, spiEraseSector, spiWrite, hs₁, Option.bind_eq_bind, Option.bind_some,
      hs₂, hs₃, hcount, hs₄]
  · rw [hmem₄, hdev₃, hmem₂, hdev₁, sectorCount_toNat]
    rfl

theorem readsBack_iff (h : s.dev.frame = none) (hfit : addr.toNat + len.toNat ≤ 2 ^ 24) :
    ReadsBack addr len buf s ↔
      ∀ k < len.toNat, eraseWriteMem addr len buf s.dev.mem (addr.toNat + k) = buf k := by
  obtain ⟨s₁, hs₁, h₁, hmem⟩ := eraseWrite_mem h addr len buf
  obtain ⟨s₂, hs₂⟩ := spiRead_mem h₁ addr len
  obtain ⟨s₃, hs₃⟩ := spiReadFast_mem h₁ addr len
  have hbytes : memBytes s₁.dev.mem addr len = bufBytes buf 0 len.toNat ↔
      ∀ k < len.toNat, eraseWriteMem addr len buf s.dev.mem (addr.toNat + k) = buf k := by
    rw [memBytes, bufBytes, ← List.range_eq_range', List.map_inj_left]
    refine forall_congr' fun k => ?_
    rw [List.mem_range]
    refine imp_congr_right fun hk => ?_
    rw [hmem, Nat.mod_eq_of_lt (show addr.toNat < 2 ^ 24 by omega),
      Nat.mod_eq_of_lt (show addr.toNat + k < 2 ^ 24 by omega)]
  rw [← hbytes]
  constructor
  · rintro ⟨t₁, t₂, t₃, ht₁, ht₂, -⟩
    rw [hs₁, Option.some.injEq] at ht₁
    rw [← ht₁, hs₂, Option.some.injEq, Prod.mk.injEq] at ht₂
    exact ht₂.1
  · intro hb
    rw [hb] at hs₂ hs₃
    exact ⟨s₁, s₂, s₃, hs₁, hs₂, hs₃⟩

/-- What the erase leaves in the cell of byte `k`: its last pass starts up to 255 bytes
before the end of the range, which may lie in the next block. -/
def leftByErase (addr len : BitVec 32) (mem : Nat → Byte) (k : Nat) : Byte :=
  if (addr.toNat + k) / 65536 ≤ (addr.toNat + (len.toNat - 1) / 256 * 256) / 65536 then 0xFF
  else mem (addr.toNat + k)

theorem eraseMem_cell (mem : Nat → Byte) {k : Nat} (hfit : addr.toNat + len.toNat ≤ 2 ^ 24)
    (hk : k < len.toNat) :
    eraseMem addr ((len.toNat + 255) / 256) 0 mem (addr.toNat + k) = leftByErase addr len mem k := by
  have hpass : ∀ j < (len.toNat + 255) / 256, passAddr addr (0 + j) = addr.toNat + 256 * j := by
    intro j hj
    rw [Nat.zero_add, passAddr_eq addr j (by omega)]
  unfold leftByErase
  split
  case isTrue hle =>
    -- the pass before the cell, or the next one where a block begins between them
    by_cases hb : (addr.toNat + k) / 65536 = (addr.toNat + 256 * (k / 256)) / 65536
    · have hj : k / 256 < (len.toNat + 255) / 256 := by omega
      exact eraseMem_block hj (by rw [hpass _ hj, hb])
    · have hj : k / 256 + 1 < (len.toNat + 255) / 256 := by omega
      exact eraseMem_block hj (by rw [hpass _ hj]; omega)
  case isFalse hlt =>
    refine eraseMem_keep fun j hj => ?_
    rw [hpass j hj]
    omega

/-- The byte of the buffer that is sent to the cell of byte `k`. -/
def sentTo (addr : BitVec 32) (k : Nat) : Nat :=
  if addr.toNat % 256 + k % 256 < 256 then k else k + 256

theorem target_sentTo (addr : BitVec 32) (k : Nat) :
    target addr (sentTo addr k) = addr.toNat + k := by
  unfold target sentTo
  split <;> omega

/-- The cell of byte `k` ends up with it: it is sent there, or what is there instead
is the same. -/
def Survives (addr len : BitVec 32) (buf mem : Nat → Byte) (k : Nat) : Prop :=
  (if sentTo addr k < len.toNat / 2 * 2 then buf (sentTo addr k) else leftByErase addr len mem k) =
    buf k

theorem eraseWriteMem_cell {mem : Nat → Byte} {k : Nat} (hfit : addr.toNat + len.toNat ≤ 2 ^ 24)
    (hk : k < len.toNat) :
    eraseWriteMem addr len buf mem (addr.toNat + k) =
      if sentTo addr k < len.toNat / 2 * 2 then buf (sentTo addr k)
      else leftByErase addr len mem k := by
  have herase := eraseMem_cell mem hfit hk
  unfold eraseWriteMem
  split
  case isTrue hsent =>
    -- the pass that sends a byte to the cell has its erased page
    have hff : leftByErase addr len mem k = 0xFF := by
      refine if_pos ?_
      unfold sentTo at hsent
      split at hsent <;> omega
    rw [hff, ← target_sentTo addr k] at herase
    rw [← target_sentTo addr k, writeMem_hit (by omega) rfl (by omega) (by omega), herase]
    exact BitVec.allOnes_and
  case isFalse hsent =>
    rw [writeMem_miss (by omega) rfl, herase]
    intro m _ hm heq
    have := target_inj (heq.trans (target_sentTo addr k).symm)
    omega

theorem readsBack_iff_survives (h : s.dev.frame = none) (hfit : addr.toNat + len.toNat ≤ 2 ^ 24) :
    ReadsBack addr len buf s ↔ ∀ k < len.toNat, Survives addr len buf s.dev.mem k := by
  rw [readsBack_iff h hfit]
  refine forall_congr' fun k => imp_congr_right fun hk => ?_
  rw [eraseWriteMem_cell hfit hk, Survives]

theorem sentTo_of_survives {mem : Nat → Byte} {k : Nat}
    (h : ∀ buf, Survives addr len buf mem k) :
    sentTo addr k = k ∧ k < len.toNat / 2 * 2 := by
  have hne : ∀ v : Byte, v ≠ ~~~v := by decide
  have hk := h fun m => if m = k then ~~~leftByErase addr len mem k else leftByErase addr len mem k
  unfold Survives at hk
  dsimp only at hk
  by_cases hsent : sentTo addr k < len.toNat / 2 * 2
  · by_cases heq : sentTo addr k = k
    · exact ⟨heq, by omega⟩
    · rw [if_pos hsent, if_neg heq, if_pos rfl] at hk
      exact absurd hk (hne _)
  · rw [if_neg hsent, if_pos rfl] at hk
    exact absurd hk (hne _)

/-- **When a buffer comes back.** One buffer does if and only if each of its bytes
survives; every buffer does if and only if the length is even and the range starts a
page or stays in one. -/
theorem spi_roundTrip_iff (s : Bus) (addr len : BitVec 32) (h : s.dev.frame = none)
    (hfit : addr.toNat + len.toNat ≤ 2 ^ 24) :
    (∀ buf, ReadsBack addr len buf s ↔ ∀ k < len.toNat, Survives addr len buf s.dev.mem k) ∧
      ((∀ buf, ReadsBack addr len buf s) ↔
        len.toNat % 2 = 0 ∧ (addr.toNat % 256 = 0 ∨ addr.toNat % 256 + len.toNat ≤ 256)) := by
  refine ⟨fun buf => readsBack_iff_survives h hfit, ?_⟩
  simp only [readsBack_iff_survives h hfit]
  constructor
  · intro hall
    have hsent : ∀ k < len.toNat, sentTo addr k = k ∧ k < len.toNat / 2 * 2 :=
      fun k hk => sentTo_of_survives fun buf => hall buf k hk
    unfold sentTo at hsent
    constructor
    · by_contra hodd
      have := (hsent (len.toNat - 1) (by omega)).2
      omega
    · by_contra hcross
      -- the first byte of the second page
      have := (hsent (256 - addr.toNat % 256) (by omega)).1
      split at this <;> omega
  · rintro ⟨heven, hpage⟩ buf k hk
    have hsent : sentTo addr k = k := if_pos (by omega)
    unfold Survives
    rw [hsent, if_pos (by omega)]

theorem spi_roundTrip_two_words :
    (∀ buf k, k < 4 → Survives 0x100 4 buf freshBus.dev.mem k) ∧
      ∀ buf, ReadsBack 0x100 4 buf freshBus := by
  obtain ⟨h1, h2⟩ := spi_roundTrip_iff freshBus 0x100 4 rfl (by decide)
  have hall := h2.2 ⟨by decide, .inl (by decide)⟩
  exact ⟨fun buf => (h1 buf).1 (hall buf), hall⟩

/-- The last byte of an odd length stays erased. -/
theorem spi_odd_length_lost :
    (∃ s₁ s₂, eraseWrite 0 1 (fun _ => 0x00) freshBus = some s₁ ∧
        spiRead 0 1 s₁ = some ([0xFF], s₂)) ∧
      ¬ ReadsBack 0 1 (fun _ => 0x00) freshBus := by
  constructor
  · obtain ⟨s₁, hs₁, h₁, hmem⟩ := eraseWrite_mem (s := freshBus) rfl 0 1 fun _ => 0x00
    obtain ⟨s₂, hs₂⟩ := spiRead_mem h₁ 0 1
    rw [hmem] at hs₂
    exact ⟨s₁, s₂, hs₁, hs₂⟩
  · rw [readsBack_iff_survives rfl (by decide)]
    intro h
    exact absurd (h 0 (by decide)) (by unfold Survives; decide)

end RoundTrip

end N32905.Spi
