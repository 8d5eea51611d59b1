import N32905.MnWriter.FwInfo

/-!
# Burning the images

`burnImages` is `burn_images`: it prints one shell command after the other into
`szCmd` and runs it with `system()`. An entry that is neither Logo nor Exec
prints nothing, so the command of the step before is run again. `none` is
`exit(1)`, taken when `system()` returns `-1` and in no other case.

`burnCmds` lists the commands of a run in which every command can be started;
`burnImages_eq` reduces `burnImages` to running that list.
-/

namespace N32905.MnWriter

open N32905.Lib

/-! ## Commands and their outcome -/

inductive Mtd where
  | mtd0
  | mtd1
  deriving DecidableEq

/-- The commands `burn_images` prints into `szCmd`. -/
inductive Cmd where
  /-- `./flash_erase /dev/mtdN 0 0` -/
  | flashErase (dev : Mtd)
  /-- `./nandwrite [-p] -m -a /dev/mtdN -s 0x%x %s` -/
  | nandwrite (dev : Mtd) (pad : Bool) (start : BitVec 32) (file : List Byte)
  /-- `./nanddump -c -o /dev/mtdN -s 0x%x -l 0x%x > /dev/null` -/
  | nanddump (dev : Mtd) (start length : BitVec 32)
  deriving DecidableEq

namespace Cmd

def writes (dev : Mtd) : Cmd → Bool
  | nandwrite d .. => d = dev
  | _ => false

def erases (dev : Mtd) : Cmd → Bool
  | flashErase d => d = dev
  | _ => false

end Cmd

/-- How a command run by `system()` ends. -/
inductive Child where
  | notStarted
  | exited (code : BitVec 8)
  | killed (signal : Fin 127) (core : Bool)
  deriving DecidableEq

/-- The result of `system()`: `-1` when no child could be started, otherwise
the child's wait status. -/
def system : Child → Int
  | .notStarted => -1
  | .exited code => code.toNat * 256
  | .killed signal core => signal.val + 1 + if core then 128 else 0

theorem system_eq_neg_one (c : Child) : system c = -1 ↔ c = .notStarted := by
  cases c with
  | notStarted => simp [system]
  | exited code => simp only [system, reduceCtorEq, iff_false]; omega
  | killed signal core =>
    simp only [system, reduceCtorEq, iff_false]
    split <;> omega

/-! ## The model -/

structure BurnSt where
  szCmd : Cmd
  issued : List Cmd

/-- Run `szCmd`; `env k` is the outcome of the `k`-th command of the run. -/
def runCmd (env : Nat → Child) (s : BurnSt) : Option BurnSt :=
  if system (env s.issued.length) = -1 then none
  else some { s with issued := s.issued ++ [s.szCmd] }

def uIBRAreaSize : Nat := 4

namespace Config

/-- `(FWInfo[i].startBlock-uIBRAreaSize)*g_u32BlockSize`: an `int` difference
times an `unsigned int`. -/
def execStart (cfg : Config) (e : FwUpdateInfo) : BitVec 32 :=
  (e.startBlock.setWidth 32 - BitVec.ofNat 32 uIBRAreaSize) * cfg.blockSize

def burnSystem (cfg : Config) (env : Nat → Child) (s : BurnSt) (i : Nat) : Option BurnSt := do
  let start := BitVec.ofNat 32 i * cfg.blockSize
  let s ← runCmd env { s with szCmd := .nandwrite .mtd0 false start cfg.opOutSysFilePath }
  runCmd env { s with szCmd := .nanddump .mtd0 start cfg.pageSize }

/-- What the `switch` leaves in `szCmd`. -/
def entryCmd (cfg : Config) (szCmd : Cmd) (e : FwUpdateInfo) : Cmd :=
  if e.imageFlag = ImageFlag_Logo then
    .nandwrite .mtd1 true (cfg.execStart e) (cstr cfg.ini.logo)
  else if e.imageFlag = ImageFlag_Exec then
    .nandwrite .mtd1 true (cfg.execStart e) (cstr cfg.ini.execFile)
  else szCmd

def dumpCmd (cfg : Config) (e : FwUpdateInfo) : Cmd :=
  .nanddump .mtd1 (cfg.execStart e) cfg.pageSize

def burnEntry (cfg : Config) (env : Nat → Child) (s : BurnSt) (e : FwUpdateInfo) :
    Option BurnSt := do
  let s ← runCmd env { s with szCmd := cfg.entryCmd s.szCmd e }
  runCmd env { s with szCmd := cfg.dumpCmd e }

/-- `burn_images` on the first `gFileInfoIdx` entries of `FWInfo`. -/
def burnImages (cfg : Config) (env : Nat → Child) (entries : List FwUpdateInfo) :
    Option BurnSt := do
  let s ← runCmd env ⟨.flashErase .mtd0, []⟩
  let s ← (List.range uIBRAreaSize).foldlM (cfg.burnSystem env) s
  let s ← runCmd env { s with szCmd := .flashErase .mtd1 }
  entries.foldlM (cfg.burnEntry env) s

end Config

/-- The exit status of `mn_writer`: `main` ignores the result of `burn_images`
and returns `Successful`, unless `burn_images` has called `exit(1)`. -/
def mnWriterExit : Option BurnSt → Nat
  | none => 1
  | some _ => 0

/-- What `update.sh` prints for the exit status of `mn_writer`, and its own. -/
def updateSh (status : Nat) : String × Nat :=
  if status = 0 then ("Success!!", 0) else ("Failed on writing images", 1)

/-! ## The commands of a run -/

namespace Config

def systemRound (cfg : Config) (i : Nat) : List Cmd :=
  [.nandwrite .mtd0 false (BitVec.ofNat 32 i * cfg.blockSize) cfg.opOutSysFilePath,
    .nanddump .mtd0 (BitVec.ofNat 32 i * cfg.blockSize) cfg.pageSize]

def systemCmds (cfg : Config) : List Cmd := (List.range uIBRAreaSize).flatMap cfg.systemRound

/-- The commands of the execute area loop entered with `szCmd` in the buffer. -/
def entryCmds (cfg : Config) : Cmd → List FwUpdateInfo → List Cmd
  | _, [] => []
  | szCmd, e :: es => cfg.entryCmd szCmd e :: cfg.dumpCmd e :: cfg.entryCmds (cfg.dumpCmd e) es

def burnCmds (cfg : Config) (entries : List FwUpdateInfo) : List Cmd :=
  .flashErase .mtd0 :: cfg.systemCmds ++
    .flashErase .mtd1 :: cfg.entryCmds (.flashErase .mtd1) entries

end Config

def issue (env : Nat → Child) (s : BurnSt) (c : Cmd) : Option BurnSt :=
  runCmd env { s with szCmd := c }

section Run
variable {cfg : Config} {env : Nat → Child} {s s' : BurnSt} {c : Cmd} {cs : List Cmd}

theorem issue_eq (env : Nat → Child) (s : BurnSt) (c : Cmd) :
    issue env s c = if env s.issued.length = .notStarted then none else some ⟨c, s.issued ++ [c]⟩ := by
  simp only [issue, runCmd, system_eq_neg_one]

/-- Running a list of commands: all of them are run unless one cannot be started. -/
theorem issue_all (env : Nat → Child) (cs : List Cmd) (s : BurnSt) :
    (∀ s', cs.foldlM (issue env) s = some s' → s'.issued = s.issued ++ cs) ∧
      ((cs.foldlM (issue env) s).isSome = true ↔
        ∀ k < cs.length, env (s.issued.length + k) ≠ .notStarted) := by
  induction cs generalizing s with
  | nil => simp
  | cons c cs ih =>
    rw [List.foldlM_cons, issue_eq]
    by_cases h0 : env s.issued.length = .notStarted
    · rw [if_pos h0]
      refine ⟨fun s' h => (nomatch h), fun h => (nomatch h), fun h => ?_⟩
      exact absurd h0 (h 0 (by simp))
    · rw [if_neg h0]
      obtain ⟨h1, h2⟩ := ih ⟨c, s.issued ++ [c]⟩
      refine ⟨fun s' h => by simpa using h1 s' h, h2.trans ?_⟩
      simp only [List.length_append, List.length_cons, List.length_nil, Nat.zero_add]
      constructor
      · intro h k hk
        cases k with
        | zero => exact h0
        | succ k =>
          have := h k (by omega)
          rwa [show s.issued.length + 1 + k = s.issued.length + (k + 1) by omega] at this
      · intro h k hk
        have := h (k + 1) (by omega)
        rwa [show s.issued.length + (k + 1) = s.issued.length + 1 + k by omega] at this

theorem burnSystem_loop (cfg : Config) (env : Nat → Child) (is : List Nat) (s : BurnSt) :
    is.foldlM (cfg.burnSystem env) s = (is.flatMap cfg.systemRound).foldlM (issue env) s := by
  induction is generalizing s with
  | nil => rfl
  | cons i is ih =>
    simp only [List.foldlM_cons, List.flatMap_cons, List.foldlM_append, ih]
    simp only [Config.burnSystem, Config.systemRound, List.foldlM_cons, List.foldlM_nil, bind_pure]
    rfl

theorem burnEntry_loop (cfg : Config) (env : Nat → Child) (es : List FwUpdateInfo) (s : BurnSt) :
    es.foldlM (cfg.burnEntry env) s = (cfg.entryCmds s.szCmd es).foldlM (issue env) s := by
  induction es generalizing s with
  | nil => rfl
  | cons e es ih =>
    simp only [List.foldlM_cons, Config.entryCmds, Config.burnEntry, bind_assoc]
    refine bind_congr fun s1 => ?_
    -- the round ends with the dump command in `szCmd`, whatever it started with
    rw [show runCmd env { s1 with szCmd := cfg.dumpCmd e } = issue env s1 (cfg.dumpCmd e) from rfl,
      issue_eq]
    split
    · rfl
    · exact ih _

theorem burnImages_eq (cfg : Config) (env : Nat → Child) (entries : List FwUpdateInfo) :
    cfg.burnImages env entries =
      (cfg.burnCmds entries).foldlM (issue env) ⟨.flashErase .mtd0, []⟩ := by
  simp only [Config.burnImages, Config.burnCmds, Config.systemCmds, List.cons_append,
    List.foldlM_cons, List.foldlM_append, burnSystem_loop]
  refine bind_congr fun s1 => bind_congr fun s2 => ?_
  rw [show runCmd env { s2 with szCmd := .flashErase .mtd1 } = issue env s2 (.flashErase .mtd1)
    from rfl, issue_eq]
  split
  · rfl
  · exact burnEntry_loop cfg env entries _

theorem length_entryCmds (cfg : Config) (c : Cmd) (es : List FwUpdateInfo) :
    (cfg.entryCmds c es).length = 2 * es.length := by
  induction es generalizing c with
  | nil => rfl
  | cons e es ih => simp only [Config.entryCmds, List.length_cons, ih]; omega

theorem length_burnCmds (cfg : Config) (es : List FwUpdateInfo) :
    (cfg.burnCmds es).length = 10 + 2 * es.length := by
  have hs : cfg.systemCmds.length = 8 := rfl
  simp only [Config.burnCmds, List.length_append, List.length_cons, length_entryCmds, hs]
  omega

/-- `burn_images` returns exactly when every command can be started, and it has
then run all of them. -/
theorem burnImages_isSome (cfg : Config) (env : Nat → Child) (es : List FwUpdateInfo) :
    (cfg.burnImages env es).isSome = true ↔ ∀ k < 10 + 2 * es.length, env k ≠ .notStarted := by
  rw [burnImages_eq, (issue_all env _ _).2, length_burnCmds]
  simp

theorem burnImages_issued {es : List FwUpdateInfo} (h : cfg.burnImages env es = some s') :
    s'.issued = cfg.burnCmds es := by
  rw [burnImages_eq] at h
  simpa using (issue_all env _ _).1 _ h

end Run

/-! ## The outcome -/

/-- `burn_images` returns `Successful`, `mn_writer` exits with 0 or `update.sh`
reports success. -/
def ReportsSuccess (cfg : Config) (env : Nat → Child) (es : List FwUpdateInfo) : Prop :=
  (cfg.burnImages env es).isSome = true ∨ mnWriterExit (cfg.burnImages env es) = 0 ∨
    updateSh (mnWriterExit (cfg.burnImages env es)) = ("Success!!", 0)

theorem reportsSuccess_iff (cfg : Config) (env : Nat → Child) (es : List FwUpdateInfo) :
    ReportsSuccess cfg env es ↔ ∀ k < 10 + 2 * es.length, env k ≠ .notStarted := by
  rw [← burnImages_isSome cfg env es, ReportsSuccess]
  cases cfg.burnImages env es with
  | none => simp [mnWriterExit, updateSh]
  | some s => simp

/-- **What a reported success is worth**: it stands for commands that could be
started, so it tells the truth about their exit status exactly when none of them
failed, or when some command could not be started at all. -/
theorem burn_success_truthful (cfg : Config) (env : Nat → Child) (es : List FwUpdateInfo) :
    (ReportsSuccess cfg env es → ∀ k < (cfg.burnCmds es).length, env k = .exited 0) ↔
      (∃ k < 10 + 2 * es.length, env k = .notStarted) ∨
        ∀ k < 10 + 2 * es.length, env k = .exited 0 := by
  rw [reportsSuccess_iff, length_burnCmds]
  by_cases h : ∃ k < 10 + 2 * es.length, env k = .notStarted
  · obtain ⟨k, hk, he⟩ := h
    exact ⟨fun _ => .inl ⟨k, hk, he⟩, fun _ hall => absurd he (hall k hk)⟩
  · have hall : ∀ k < 10 + 2 * es.length, env k ≠ .notStarted := fun k hk he => h ⟨k, hk, he⟩
    exact ⟨fun hs => .inr (hs hall), fun hs _ => hs.resolve_left h⟩

/-- A configuration with one-letter file names and `n` copies of the Exec file. -/
def demoCfg (fs : Files) (n : BitVec 32) : Config where
  fs := fs
  ini := ⟨charArray [0x4C] (by decide), charArray [0x47] (by decide), charArray [0x45] (by decide),
    n, 0⟩
  optional := ⟨optionalMarkerWord, 0, List.Vector.replicate _ ⟨0xFFFFFFFF, 0xFFFFFFFF⟩⟩
  blockSize := 2048
  pageSize := 512
  oobSize := 16
  opOutSysFilePath := [0x4F]
  noBurn := false

/-- The first `nandwrite` of the system image exits with status 1. -/
theorem burn_success_unwritten :
    ReportsSuccess (demoCfg (fun _ => none) 1) (fun k => if k = 1 then .exited 1 else .exited 0)
        [blankEntry] ∧
      1 < ((demoCfg (fun _ => none) 1).burnCmds [blankEntry]).length ∧
      (if (1 : Nat) = 1 then Child.exited 1 else .exited 0) ≠ .exited 0 := by
  refine ⟨(reportsSuccess_iff _ _ _).2 fun k _ => ?_, by rw [length_burnCmds]; decide, by decide⟩
  split <;> decide

/-! ## The command trace -/

/-- The write an entry calls for: the file of its kind at
`(startBlock - 4) * blockSize`. -/
def Config.entryWrite (cfg : Config) (e : FwUpdateInfo) : Option Cmd :=
  let off := BitVec.ofInt 32 (((e.startBlock.toNat : Int) - 4) * cfg.blockSize.toNat)
  if e.imageFlag = ImageFlag_Logo then some (.nandwrite .mtd1 true off (cstr cfg.ini.logo))
  else if e.imageFlag = ImageFlag_Exec then
    some (.nandwrite .mtd1 true off (cstr cfg.ini.execFile))
  else none

section Trace
variable {cfg : Config} {c : Cmd} {e : FwUpdateInfo} {es : List FwUpdateInfo}

theorem execStart_eq (cfg : Config) (e : FwUpdateInfo) :
    cfg.execStart e = BitVec.ofInt 32 (((e.startBlock.toNat : Int) - 4) * cfg.blockSize.toNat) := by
  have h4 : BitVec.ofInt 32 4 = BitVec.ofNat 32 uIBRAreaSize := rfl
  rw [BitVec.ofInt_mul, Int.sub_eq_add_neg, BitVec.ofInt_add, BitVec.ofInt_neg,
    ← BitVec.sub_eq_add_neg, BitVec.ofInt_natCast, BitVec.ofInt_natCast, BitVec.ofNat_toNat,
    BitVec.ofNat_toNat, BitVec.setWidth_eq, h4]
  rfl

theorem entryCmd_eq (cfg : Config) (c : Cmd) (e : FwUpdateInfo) :
    cfg.entryCmd c e = (cfg.entryWrite e).getD c := by
  simp only [Config.entryCmd, Config.entryWrite, execStart_eq]
  split
  · rfl
  · split <;> rfl

theorem entryWrite_writes (h : cfg.entryWrite e = some c) : c.writes .mtd1 = true := by
  simp only [Config.entryWrite] at h
  split at h
  · cases h; rfl
  · split at h
    · cases h; rfl
    · cases h

/-- One round writes `mtd1` as its entry calls for, whatever harmless command
the buffer held before. -/
theorem round_writes (hc : c.writes .mtd1 = false) :
    [cfg.entryCmd c e, cfg.dumpCmd e].filter (·.writes .mtd1) = (cfg.entryWrite e).toList := by
  have hd : (cfg.dumpCmd e).writes .mtd1 = false := rfl
  rw [entryCmd_eq]
  cases hw : cfg.entryWrite e with
  | none => simp [hc, hd]
  | some w => simp [entryWrite_writes hw, hd]

theorem entryCmds_writes (hc : c.writes .mtd1 = false) :
    (cfg.entryCmds c es).filter (·.writes .mtd1) = es.filterMap cfg.entryWrite := by
  induction es generalizing c with
  | nil => rfl
  | cons e es ih =>
    rw [Config.entryCmds, show cfg.entryCmd c e :: cfg.dumpCmd e :: cfg.entryCmds (cfg.dumpCmd e) es =
        [cfg.entryCmd c e, cfg.dumpCmd e] ++ cfg.entryCmds (cfg.dumpCmd e) es from rfl,
      List.filter_append, round_writes hc, ih rfl, List.filterMap_cons]
    cases cfg.entryWrite e <;> rfl

theorem entryCmds_round (hc : c.writes .mtd1 = false) {i : Nat} (hi : es[i]? = some e) :
    (((cfg.entryCmds c es).drop (2 * i)).take 2).filter (·.writes .mtd1) =
      (cfg.entryWrite e).toList := by
  induction es generalizing c i with
  | nil => simp at hi
  | cons a es ih =>
    cases i with
    | zero =>
      simp only [List.getElem?_cons_zero, Option.some.injEq] at hi
      subst hi
      exact round_writes hc
    | succ i =>
      rw [List.getElem?_cons_succ] at hi
      exact ih (c := cfg.dumpCmd a) rfl hi

theorem entryCmd_erases {dev : Mtd} (hc : c.erases dev = false) :
    (cfg.entryCmd c e).erases dev = false := by
  rw [entryCmd_eq]
  cases hw : cfg.entryWrite e with
  | none => exact hc
  | some w =>
    have := entryWrite_writes hw
    cases w <;> first | rfl | cases this

theorem entryCmds_erases {dev : Mtd} (hc : c.erases dev = false) :
    ∀ x ∈ cfg.entryCmds c es, x.erases dev = false := by
  induction es generalizing c with
  | nil => intro x hx; cases hx
  | cons e es ih =>
    intro x hx
    rcases List.mem_cons.1 hx with rfl | hx
    · exact entryCmd_erases hc
    · rcases List.mem_cons.1 hx with rfl | hx
      · rfl
      · exact ih (c := cfg.dumpCmd e) rfl x hx

/-- No erase of a device after a write to it. -/
def EraseFirst (a b : Cmd) : Prop := ∀ dev, a.writes dev = true → b.erases dev = false

theorem entryCmds_eraseFirst (cfg : Config) (es : List FwUpdateInfo) :
    (cfg.entryCmds (.flashErase .mtd1) es).Pairwise EraseFirst := by
  cases es with
  | nil => exact List.Pairwise.nil
  | cons e es =>
    -- the stale command is an erase in the first round only: later it is a dump
    have htail : ∀ dev, ∀ x ∈ cfg.dumpCmd e :: cfg.entryCmds (cfg.dumpCmd e) es,
        x.erases dev = false := by
      intro dev x hx
      rcases List.mem_cons.1 hx with rfl | hx
      · rfl
      · exact entryCmds_erases (c := cfg.dumpCmd e) rfl x hx
    rw [Config.entryCmds, List.pairwise_cons]
    refine ⟨fun x hx dev _ => htail dev x hx, ?_⟩
    exact List.pairwise_of_forall_mem_list fun x _ y hy dev _ => htail dev y hy

theorem systemCmds_mem (cfg : Config) {x : Cmd} (hx : x ∈ cfg.systemCmds) :
    x.writes .mtd1 = false ∧ ∀ dev, x.erases dev = false := by
  obtain ⟨i, _, hx⟩ := List.mem_flatMap.1 hx
  simp only [Config.systemRound, List.mem_cons, List.not_mem_nil, or_false] at hx
  rcases hx with rfl | rfl <;> exact ⟨rfl, fun _ => rfl⟩

theorem burnCmds_eraseFirst (cfg : Config) (es : List FwUpdateInfo) :
    (cfg.burnCmds es).Pairwise EraseFirst := by
  have hsys : ∀ dev, ∀ x ∈ cfg.systemCmds, x.erases dev = false := fun dev x hx =>
    (systemCmds_mem cfg hx).2 dev
  rw [Config.burnCmds, List.cons_append, List.pairwise_cons, List.pairwise_append,
    List.pairwise_cons]
  refine ⟨fun x _ dev h => (nomatch h), ?_, ⟨fun x _ dev h => (nomatch h), ?_⟩, ?_⟩
  · exact List.pairwise_of_forall_mem_list fun x _ y hy dev _ => hsys dev y hy
  · exact entryCmds_eraseFirst cfg es
  · intro x hx y hy dev hw
    -- the system area's writes are to `mtd0`, everything after it is about `mtd1`
    cases dev with
    | mtd1 => rw [(systemCmds_mem cfg hx).1] at hw; cases hw
    | mtd0 =>
      rcases List.mem_cons.1 hy with rfl | hy
      · rfl
      · exact entryCmds_erases (c := .flashErase .mtd1) rfl y hy

end Trace

/-- **The commands of a run in which all of them succeed**, for a table of any
length: no device is erased after it has been written; the writes to `mtd1` are
those the Logo and Exec entries call for, in order; and the two commands of
round `i` (after the ten commands before the loop) hold the write of entry `i`
and no other. -/
theorem burn_trace (cfg : Config) (es : List FwUpdateInfo) :
    ∃ s, cfg.burnImages (fun _ => .exited 0) es = some s ∧
      s.issued.Pairwise EraseFirst ∧
      s.issued.filter (·.writes .mtd1) = es.filterMap cfg.entryWrite ∧
      s.issued.length = 10 + 2 * es.length ∧
      ∀ i e, es[i]? = some e →
        ((s.issued.drop (10 + 2 * i)).take 2).filter (·.writes .mtd1) =
          (cfg.entryWrite e).toList := by
  obtain ⟨s, hs⟩ := Option.isSome_iff_exists.1 <|
    (burnImages_isSome cfg (fun _ => .exited 0) es).2 fun _ _ => by decide
  refine ⟨s, hs, ?_⟩
  rw [burnImages_issued hs]
  refine ⟨burnCmds_eraseFirst cfg es, ?_, length_burnCmds cfg es, fun i e hi => ?_⟩
  · have hsys : cfg.systemCmds.filter (·.writes .mtd1) = [] :=
      List.filter_eq_nil_iff.2 fun x hx => by rw [(systemCmds_mem cfg hx).1]; decide
    rw [Config.burnCmds, List.filter_append, List.filter_cons, List.filter_cons, hsys]
    exact entryCmds_writes rfl
  · have hdrop : (cfg.burnCmds es).drop (10 + 2 * i) =
        (cfg.entryCmds (.flashErase .mtd1) es).drop (2 * i) := by
      rw [← List.drop_drop]
      rfl
    rw [hdrop]
    exact entryCmds_round rfl hi

end N32905.MnWriter
