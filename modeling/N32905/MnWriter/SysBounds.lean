import N32905.MnWriter.OptionalIni
import N32905.MnWriter.SysBlock

/-!
# The bounds of the system block

Where `main` writes into the `g_u32BlockSize` bytes at `g_pBlockbuf`, and what it
divides by. The check of the parameters asks for multiples of 512 only: a page
size of 0 gets through, pages larger than the block too, and nothing compares the
NandLoader with the room in front of the system information.

`sysBlock_isSome_iff` says that the stores listed here are those `sysBlock` makes, and
`sysBlock_inBounds_iff` when the block is safe. `2 * g_u32PageSize` is an
`unsigned int`, so the condition is about that product modulo `2 ^ 32`.
-/

namespace N32905.MnWriter

open N32905.Lib

/-! ## Stores and divisions -/

namespace Config

/-- `p_uint - g_pBlockbuf`. -/
def infoOff (cfg : Config) : Nat := (cfg.blockSize - 2 * cfg.pageSize).toNat

def loaderStore (cfg : Config) (loader : List Byte) : Span :=
  ⟨IbrBoot.codec.size + cfg.optionalIniSize.toNat, loader.length⟩

/-- The four words at `p_uint`, and `FWInfo` behind them. -/
def infoStores (cfg : Config) : List Span :=
  [⟨cfg.infoOff, 16⟩, ⟨cfg.infoOff + 16, FwTable.codec.size⟩]

/-- The stores of `main` into `g_pBlockbuf`, in its order. -/
def bufStores (cfg : Config) (loader : List Byte) : List Span :=
  [⟨0, cfg.blockSize.toNat⟩, ⟨0, IbrBoot.codec.size⟩,
    ⟨IbrBoot.codec.size, cfg.optionalIniSize.toNat⟩, cfg.loaderStore loader] ++ cfg.infoStores

/-- The divisors of `main`: the page size where it prints the pages of a block,
the block size in `write_fw_info` for every image `stat` finds. -/
def divisors (cfg : Config) : List (BitVec 32) :=
  cfg.pageSize :: (cfg.images.filter cfg.readable).map fun _ => cfg.blockSize

end Config

/-- `main` does nothing outside its buffer, and the system information leaves the
NandLoader alone. -/
structure InBounds (cfg : Config) (loader : List Byte) : Prop where
  divides : ∀ d ∈ cfg.divisors, d ≠ 0
  stores : ∀ s ∈ cfg.bufStores loader, s.Inside cfg.blockSize.toNat
  loader : ∀ s ∈ cfg.infoStores, s.Disjoint (cfg.loaderStore loader)

/-! ## When they are in bounds -/

/-- There is room for the two pages of system information, and for the loader
in front of them. -/
structure Room (cfg : Config) (loader : List Byte) : Prop where
  pages : 0 < (2 * cfg.pageSize).toNat
  block : (2 * cfg.pageSize).toNat ≤ cfg.blockSize.toNat
  front : loader = [] ∨ 16 + cfg.optionalIniSize.toNat + loader.length ≤
    cfg.blockSize.toNat - (2 * cfg.pageSize).toNat

section Bounds
variable {cfg : Config} {loader : List Byte}

theorem boot_size : IbrBoot.codec.size = 16 := rfl

theorem table_size : FwTable.codec.size = 768 := rfl

theorem sysBlock_eq_stores (hc : cfg.optional.counter.toNat ≤ optionalMaxNumber)
    (count : BitVec 32) (t : FwTable) : cfg.sysBlock loader count t =
      [(0, IbrBoot.codec.enc (cfg.nandMark loader.length)),
        (16, (IbrBootOptional.codec.enc cfg.optional).take cfg.optionalIniSize.toNat),
        (16 + cfg.optionalIniSize.toNat, loader),
        (cfg.infoOff, Config.sysInfoWords count),
        (cfg.infoOff + 16, FwTable.codec.enc t)].foldlM (fun b d => memcpy b d.1 d.2)
        (List.replicate cfg.blockSize.toNat 0xFF) := by
  have hopt : cfg.optionalIniSize.toNat ≤ (IbrBootOptional.codec.enc cfg.optional).length := by
    rw [length_optional]
    exact optionalIniSize_le hc
  simp only [Config.sysBlock, if_pos hopt, List.foldlM_cons, List.foldlM_nil, bind_pure]
  rfl

/-- **The listed stores are those of `sysBlock`**: all of them get through exactly
when these lie in the block. -/
theorem sysBlock_isSome_iff (hc : cfg.optional.counter.toNat ≤ optionalMaxNumber)
    (count : BitVec 32) (t : FwTable) : (cfg.sysBlock loader count t).isSome ↔
      ∀ s ∈ cfg.bufStores loader, s.Inside cfg.blockSize.toNat := by
  rw [sysBlock_eq_stores hc, memcpys_isSome]
  simp only [Config.bufStores, Config.infoStores, Config.loaderStore, List.cons_append,
    List.nil_append, List.forall_mem_cons, Span.Inside, List.length_replicate, length_boot,
    length_optional_take hc, length_sysInfoWords, length_table, boot_size, table_size]
  simp

/-- Page and block sizes that passed the check are multiples of 512, and so is
what is left of `2 * g_u32PageSize` in 32 bits. -/
theorem params_mod (h : cfg.paramsOK = true) :
    cfg.blockSize.toNat % 512 = 0 ∧ (2 * cfg.pageSize).toNat % 1024 = 0 := by
  simp only [Config.paramsOK, Bool.and_eq_true, decide_eq_true_eq] at h
  have h2 : (2 : BitVec 32).toNat = 2 := rfl
  rw [BitVec.toNat_mul, h2]
  omega

/-- The offset of the system information: two pages before the end, or behind
the buffer where these do not fit or are nothing. -/
theorem infoOff_eq (cfg : Config) : cfg.infoOff =
    if (2 * cfg.pageSize).toNat ≤ cfg.blockSize.toNat then
      cfg.blockSize.toNat - (2 * cfg.pageSize).toNat
    else 2 ^ 32 - (2 * cfg.pageSize).toNat + cfg.blockSize.toNat := by
  have h1 := cfg.blockSize.isLt
  have h2 := (2 * cfg.pageSize).isLt
  rw [Config.infoOff, BitVec.toNat_sub]
  split <;> omega

theorem info_inside_iff (h : cfg.paramsOK = true) :
    cfg.infoOff + 784 ≤ cfg.blockSize.toNat ↔
      0 < (2 * cfg.pageSize).toNat ∧ (2 * cfg.pageSize).toNat ≤ cfg.blockSize.toNat := by
  have hmod := (params_mod h).2
  have hlt := (2 * cfg.pageSize).isLt
  rw [infoOff_eq]
  split <;> omega

/-- The system information misses the loader when the loader ends before it: the
optional settings in front of the loader are shorter than the table. -/
theorem info_disjoint_iff (hc : cfg.optional.counter.toNat ≤ optionalMaxNumber) :
    (∀ s ∈ cfg.infoStores, s.Disjoint (cfg.loaderStore loader)) ↔
      loader = [] ∨ 16 + cfg.optionalIniSize.toNat + loader.length ≤ cfg.infoOff := by
  have hopt := optionalIniSize_le hc
  rw [← List.length_eq_zero_iff]
  simp only [Config.infoStores, Config.loaderStore, List.forall_mem_cons, Span.disjoint_iff,
    boot_size, table_size, List.not_mem_nil, false_imp_iff, implies_true, and_true]
  omega

theorem room_of_inBounds (h : cfg.paramsOK = true)
    (hc : cfg.optional.counter.toNat ≤ optionalMaxNumber) (hb : InBounds cfg loader) :
    Room cfg loader := by
  have hinfo := hb.stores ⟨cfg.infoOff + 16, FwTable.codec.size⟩
    (by simp [Config.bufStores, Config.infoStores])
  rw [Span.Inside, table_size, Nat.add_assoc] at hinfo
  obtain ⟨hpos, hle⟩ := (info_inside_iff h).1 hinfo
  have hfront := (info_disjoint_iff hc).1 hb.loader
  rw [infoOff_eq, if_pos hle] at hfront
  exact ⟨hpos, hle, hfront⟩

theorem inBounds_of_room (h : cfg.paramsOK = true)
    (hc : cfg.optional.counter.toNat ≤ optionalMaxNumber) (hr : Room cfg loader) :
    InBounds cfg loader := by
  have hpos := hr.pages
  have hle := hr.block
  have hmod := (params_mod h).2
  have hopt := optionalIniSize_le hc
  have hinfo := (info_inside_iff h).2 ⟨hpos, hle⟩
  have hfront := hr.front
  rw [← List.length_eq_zero_iff] at hfront
  constructor
  case divides =>
    intro d hd
    rcases List.mem_cons.1 hd with rfl | hd
    · intro h0
      rw [h0] at hpos
      exact absurd hpos (by decide)
    · obtain ⟨_, -, rfl⟩ := List.mem_map.1 hd
      intro h0
      rw [h0] at hle
      exact absurd hle (Nat.not_le.2 hpos)
  case stores =>
    simp only [Config.bufStores, Config.infoStores, Config.loaderStore, List.cons_append,
      List.nil_append, List.forall_mem_cons, Span.Inside, boot_size, table_size,
      List.not_mem_nil, false_imp_iff, implies_true, and_true]
    omega
  case loader =>
    rw [info_disjoint_iff hc, infoOff_eq, if_pos hle]
    exact hr.front

theorem counter_le {lines : List Line} (h : processOptionalINI (some lines) = some cfg.optional) :
    cfg.optional.counter.toNat ≤ optionalMaxNumber := by
  obtain ⟨o, ho, -, hcount, -⟩ := processOptionalINI_meaning lines
  rw [h, Option.some.injEq] at ho
  rw [ho, hcount]
  exact Nat.min_le_left ..

end Bounds

/-- **The bounds of the system block**: with parameters that pass the check, any
`TurboWriter.ini` and any NandLoader, `main` divides by no zero, writes inside its
buffer and keeps the loader exactly when there is room for both. -/
theorem sysBlock_inBounds_iff (cfg : Config) (lines : List Line) (loader : List Byte)
    (hparams : cfg.paramsOK = true) (hopt : processOptionalINI (some lines) = some cfg.optional) :
    InBounds cfg loader ↔ Room cfg loader :=
  ⟨room_of_inBounds hparams (counter_le hopt), inBounds_of_room hparams (counter_le hopt)⟩

/-- `-b 2048 -p 512 -o 16` has room for a loader of 1008 bytes. -/
theorem sysBlock_inBounds_short :
    (demoCfg (fun _ => none) 1).paramsOK = true ∧
      InBounds (demoCfg (fun _ => none) 1) (List.replicate 1008 0) := by
  have hparams : (demoCfg (fun _ => none) 1).paramsOK = true := by decide
  refine ⟨hparams, (sysBlock_inBounds_iff _ [] _ hparams (by decide)).2 ⟨?_, ?_, .inr ?_⟩⟩
  · decide
  · decide
  · rw [List.length_replicate]
    decide

/-- `-p 0` passes the check, and `main` divides by it. With pages of 512 bytes the
last byte of a loader of 1009 bytes is overwritten. -/
theorem sysBlock_out_of_bounds :
    let cfg := demoCfg (fun _ => none) 1
    let noPage : Config := { cfg with pageSize := 0 }
    noPage.paramsOK = true ∧ processOptionalINI (some []) = some noPage.optional ∧
      ¬ InBounds noPage [1, 2, 3] ∧
      cfg.paramsOK = true ∧ processOptionalINI (some []) = some cfg.optional ∧
      ¬ InBounds cfg (List.replicate 1009 0) := by
  refine ⟨by decide, by decide, fun h => ?_, by decide, by decide, fun h => ?_⟩
  · exact h.divides 0 List.mem_cons_self rfl
  · refine h.loader ⟨1024, 16⟩ (by decide) 1024 (by decide) (by decide) ⟨by decide, ?_⟩
    rw [Config.loaderStore, List.length_replicate]
    decide

end N32905.MnWriter
