import N32905.Lib.Run
import Mathlib.Tactic.Common

/-!
# The power manager

`powerManager.cpp` as it is built: `ENABLE_POWER_MODE` and `USING_ADCDEV` are
off, so a poll of `PM_Service` handles at most one status word of the system
manager and then looks at the power key.

The sleep commands written to the clock device suspend the machine and return
when it wakes up. `poweroff` does not return: the call is `none`.
-/

namespace N32905.PowerManager

open N32905.Lib

/-! ## The model -/

abbrev Word := BitVec 32

def POWER_STATE_NORMAL : Word := 0x01000000
def POWER_STATE_DISPLAY_OFF : Word := 0x02000000
def POWER_STATE_IDLE : Word := 0x04000000
def POWER_STATE_MEMORY_IDLE : Word := 0x08000000
def POWER_STATE_POWER_DOWN : Word := 0x10000000
def POWER_STATE_RTC_POWER_OFF : Word := 0x20000000
def POWER_STATE_POWER_OFF : Word := 0x40000000

def SYSMGR_STATUS_SD_INSERT : Word := 0x00000010
def SYSMGR_STATUS_SD_REMOVE : Word := 0x00000020
def SYSMGR_STATUS_USBD_PLUG : Word := 0x00000040
def SYSMGR_STATUS_USBD_UNPLUG : Word := 0x00000080
def SYSMGR_STATUS_NORMAL : Word := 0x01000000
def SYSMGR_STATUS_DISPLAY_OFF : Word := 0x02000000
def SYSMGR_STATUS_POWER_DOWN : Word := 0x10000000
def SYSMGR_STATUS_RTC_POWER_OFF : Word := 0x20000000
def SYSMGR_STATUS_POWER_OFF : Word := 0x40000000

def SYSMGR_CMD_RTC_POWER_OFF : Word := 0x20000000

/-- The variables of the program, whether the display is on, and the commands
sent with `SYSMGR_IOC_SET_POWER_STATE`. -/
structure Pm where
  powerState : Word
  oldPowerState : Word
  curTime : Word
  prevTime : Word
  powerOffCount : Nat
  display : Bool
  sent : List Word
  deriving DecidableEq

/-- Which of the devices `ProcessPowerState` can open. -/
structure Opens where
  pwrmgr : Bool
  fb : Bool
  deriving DecidableEq

/-- `prev_time = cur_time`. -/
def Pm.resetTimeout (s : Pm) : Pm := { s with prevTime := s.curTime }

/-- The result is what the function returns and the state it leaves. -/
def processPowerState (o : Opens) (state : Word) (s : Pm) : Option (Bool × Pm) :=
  if state = s.powerState then some (true, s)
  else
    let s := { s with oldPowerState := s.powerState, powerState := state }
    if state ≥ POWER_STATE_IDLE ∧ o.pwrmgr = false then some (false, s)
    else if state = POWER_STATE_NORMAL then
      if s.oldPowerState = POWER_STATE_DISPLAY_OFF then
        if o.fb then some (true, { s with display := true }.resetTimeout) else some (false, s)
      else some (true, s.resetTimeout)
    else if state = POWER_STATE_DISPLAY_OFF then
      if o.fb then some (true, { s with display := false }.resetTimeout) else some (false, s)
    else if state = POWER_STATE_IDLE ∨ state = POWER_STATE_MEMORY_IDLE ∨
        state = POWER_STATE_POWER_DOWN then
      some (true,
        { s with oldPowerState := s.powerState, powerState := POWER_STATE_NORMAL }.resetTimeout)
    else if state = POWER_STATE_RTC_POWER_OFF ∨ state = POWER_STATE_POWER_OFF then none
    else some (true, s.resetTimeout)

/-- `ProcessPowerState(POWER_STATE_NORMAL)` and the reset of the timeout after it. -/
def backToNormal (o : Opens) (s : Pm) : Option Pm :=
  (processPowerState o POWER_STATE_NORMAL s).map fun r => r.2.resetTimeout

/-- A call of `ProcessPowerState` whose result is dropped. -/
def enter (o : Opens) (state : Word) (s : Pm) : Option Pm :=
  (processPowerState o state s).map Prod.snd

def processSysMgrStatus (o : Opens) (status : Word) (s : Pm) : Option Pm := do
  let s ← if status = SYSMGR_STATUS_SD_INSERT then backToNormal o s
    else if status = SYSMGR_STATUS_SD_REMOVE then backToNormal o s
    else some s
  let s ← if status = SYSMGR_STATUS_USBD_PLUG then backToNormal o s
    else if status = SYSMGR_STATUS_USBD_UNPLUG then backToNormal o s
    else some s
  if status = SYSMGR_STATUS_NORMAL then backToNormal o s
  else if status = SYSMGR_STATUS_DISPLAY_OFF then enter o POWER_STATE_DISPLAY_OFF s
  else if status = SYSMGR_STATUS_POWER_DOWN then enter o POWER_STATE_POWER_DOWN s
  else if status = SYSMGR_STATUS_RTC_POWER_OFF then enter o POWER_STATE_RTC_POWER_OFF s
  else if status = SYSMGR_STATUS_POWER_OFF then enter o POWER_STATE_POWER_OFF s
  else some s

/-- `key` is what `SYSMGR_IOC_GET_POWER_KEY` delivers; where the call fails
(`none`), `state` keeps its initial 0. -/
def powerOffCheck (key : Option Word) (s : Pm) : Pm :=
  if s.powerOffCount < 20 then
    if key.getD 0 = 0 then { s with powerOffCount := s.powerOffCount + 1 }
    else { s with powerOffCount := 0 }
  else if s.powerOffCount = 20 then
    { s with sent := s.sent ++ [SYSMGR_CMD_RTC_POWER_OFF]
             powerOffCount := s.powerOffCount + 1 }.resetTimeout
  else s

/-- `ProcessPowerManagement` without `ENABLE_POWER_MODE`. -/
def processPowerManagement (key : Option Word) (s : Pm) : Pm := powerOffCheck key s

/-- What one call of `PM_Service` meets: the status word, if `select` finds one,
the power key, and the devices that can be opened. -/
structure Poll where
  status : Option Word
  key : Option Word
  opens : Opens
  deriving DecidableEq

def pmService (s : Pm) (p : Poll) : Option Pm := do
  let s ← match p.status with
    | some status => processSysMgrStatus p.opens status s
    | none => some s
  return processPowerManagement p.key s

/-- The state after `PM_Init` at time `now`, with the display on. -/
def pmInit (now : Word) : Pm where
  powerState := POWER_STATE_NORMAL
  oldPowerState := POWER_STATE_NORMAL
  curTime := now
  prevTime := now
  powerOffCount := 0
  display := true
  sent := []

/-! ## The display -/

/-- The display is on in the normal state and off in the state with the display
off, and there is no third. -/
def DisplayInv (s : Pm) : Prop :=
  (s.powerState = POWER_STATE_NORMAL ∧ s.display = true) ∨
    (s.powerState = POWER_STATE_DISPLAY_OFF ∧ s.display = false)

section Display
variable {o : Opens} {s s' : Pm} {status : Word}

theorem displayInv_resetTimeout : DisplayInv s.resetTimeout ↔ DisplayInv s := Iff.rfl

theorem powerOffCheck_displayInv (key : Option Word) :
    DisplayInv (powerOffCheck key s) ↔ DisplayInv s := by
  unfold powerOffCheck
  split
  · split <;> exact Iff.rfl
  · split <;> exact Iff.rfl

theorem processPowerState_normal (hfb : o.fb = true) (h : DisplayInv s) :
    ∃ s', processPowerState o POWER_STATE_NORMAL s = some (true, s') ∧ DisplayInv s' := by
  rcases h with ⟨hp, hd⟩ | ⟨hp, hd⟩
  · exact ⟨s, if_pos hp.symm, .inl ⟨hp, hd⟩⟩
  · have hs : processPowerState o POWER_STATE_NORMAL s = some (true, Pm.resetTimeout
        { s with oldPowerState := s.powerState, powerState := POWER_STATE_NORMAL, display := true }) := by
      simp only [processPowerState, hp, hfb]
      rfl
    exact ⟨_, hs, .inl ⟨rfl, rfl⟩⟩

theorem processPowerState_displayOff (hfb : o.fb = true) (h : DisplayInv s) :
    ∃ s', processPowerState o POWER_STATE_DISPLAY_OFF s = some (true, s') ∧ DisplayInv s' := by
  rcases h with ⟨hp, hd⟩ | ⟨hp, hd⟩
  · have hs : processPowerState o POWER_STATE_DISPLAY_OFF s = some (true, Pm.resetTimeout
        { s with oldPowerState := s.powerState, powerState := POWER_STATE_DISPLAY_OFF
                 display := false }) := by
      simp only [processPowerState, hp, hfb]
      rfl
    exact ⟨_, hs, .inr ⟨rfl, rfl⟩⟩
  · exact ⟨s, if_pos hp.symm, .inr ⟨hp, hd⟩⟩

/-- A power-down returns to the normal state with the display as it was. -/
theorem processPowerState_powerDown (hpw : o.pwrmgr = true) (h : DisplayInv s) :
    ∃ s', processPowerState o POWER_STATE_POWER_DOWN s = some (true, s') ∧
      s'.powerState = POWER_STATE_NORMAL ∧ s'.display = s.display := by
  have hs : processPowerState o POWER_STATE_POWER_DOWN s = some (true, Pm.resetTimeout
      { s with oldPowerState := POWER_STATE_POWER_DOWN, powerState := POWER_STATE_NORMAL }) := by
    rcases h with ⟨hp, -⟩ | ⟨hp, -⟩ <;>
    · simp only [processPowerState, hp, hpw]
      rfl
  exact ⟨_, hs, rfl, rfl⟩

theorem processPowerState_powerOff {state : Word}
    (hs : state = POWER_STATE_RTC_POWER_OFF ∨ state = POWER_STATE_POWER_OFF)
    (hpw : o.pwrmgr = true) (h : DisplayInv s) : processPowerState o state s = none := by
  rcases h with ⟨hp, -⟩ | ⟨hp, -⟩ <;> rcases hs with rfl | rfl <;>
  · simp only [processPowerState, hp, hpw]
    rfl

theorem backToNormal_displayInv (hfb : o.fb = true) (h : DisplayInv s) :
    ∃ s', backToNormal o s = some s' ∧ DisplayInv s' := by
  obtain ⟨s', hs, h'⟩ := processPowerState_normal hfb h
  exact ⟨s'.resetTimeout, by rw [backToNormal, hs]; rfl, displayInv_resetTimeout.2 h'⟩

theorem enter_eq {state : Word} {b : Bool} (hs : processPowerState o state s = some (b, s')) :
    enter o state s = some s' := by
  rw [enter, hs]
  rfl

/-- The three chains of `if` test one status word: the groups of a card, a cable
and a power state are disjoint. -/
theorem processSysMgrStatus_eq :
    processSysMgrStatus o status s =
      if status = SYSMGR_STATUS_SD_INSERT ∨ status = SYSMGR_STATUS_SD_REMOVE ∨
          status = SYSMGR_STATUS_USBD_PLUG ∨ status = SYSMGR_STATUS_USBD_UNPLUG ∨
          status = SYSMGR_STATUS_NORMAL then backToNormal o s
      else if status = SYSMGR_STATUS_DISPLAY_OFF then enter o POWER_STATE_DISPLAY_OFF s
      else if status = SYSMGR_STATUS_POWER_DOWN then enter o POWER_STATE_POWER_DOWN s
      else if status = SYSMGR_STATUS_RTC_POWER_OFF then enter o POWER_STATE_RTC_POWER_OFF s
      else if status = SYSMGR_STATUS_POWER_OFF then enter o POWER_STATE_POWER_OFF s
      else some s := by
  have hrest : ∀ t : Option Pm, (t.bind fun s => some s) = t := fun t => by cases t <;> rfl
  unfold processSysMgrStatus
  by_cases h1 : status = SYSMGR_STATUS_SD_INSERT
  · subst h1
    exact hrest _
  by_cases h2 : status = SYSMGR_STATUS_SD_REMOVE
  · subst h2
    exact hrest _
  by_cases h3 : status = SYSMGR_STATUS_USBD_PLUG
  · subst h3
    exact hrest _
  by_cases h4 : status = SYSMGR_STATUS_USBD_UNPLUG
  · subst h4
    exact hrest _
  simp only [h1, h2, h3, h4, if_false, false_or]
  rfl

/-- What a status word does: a power-down leaves the display as it is, any other
word keeps the invariant or ends the program. -/
theorem processSysMgrStatus_cases (status : Word) (ho : o = ⟨true, true⟩) (h : DisplayInv s) :
    (status = SYSMGR_STATUS_POWER_DOWN ∧ ∃ t, processSysMgrStatus o status s = some t ∧
        t.powerState = POWER_STATE_NORMAL ∧ t.display = s.display) ∨
      (status ≠ SYSMGR_STATUS_POWER_DOWN ∧
        ∀ t, processSysMgrStatus o status s = some t → DisplayInv t) := by
  have hfb : o.fb = true := by rw [ho]
  have hpw : o.pwrmgr = true := by rw [ho]
  rw [processSysMgrStatus_eq]
  split_ifs with h1 h2 h3 h4 h5
  · obtain ⟨t, ht, hinv⟩ := backToNormal_displayInv hfb h
    refine .inr ⟨?_, ?_⟩
    · rintro rfl
      exact absurd h1 (by decide)
    · rw [ht]
      rintro _ ⟨⟩
      exact hinv
  · obtain ⟨t, ht, hinv⟩ := processPowerState_displayOff hfb h
    refine .inr ⟨by rw [h2]; decide, ?_⟩
    rw [enter_eq ht]
    rintro _ ⟨⟩
    exact hinv
  · obtain ⟨t, ht, hp, hd⟩ := processPowerState_powerDown hpw h
    exact .inl ⟨h3, t, enter_eq ht, hp, hd⟩
  · refine .inr ⟨h3, ?_⟩
    rw [enter, processPowerState_powerOff (.inl rfl) hpw h]
    exact fun t ht => nomatch ht
  · refine .inr ⟨h3, ?_⟩
    rw [enter, processPowerState_powerOff (.inr rfl) hpw h]
    exact fun t ht => nomatch ht
  · refine .inr ⟨h3, ?_⟩
    rintro _ ⟨⟩
    exact h

theorem pmService_some {p : Poll} : pmService s p = some s' ↔
    ∃ t, (p.status.elim (some s) fun status => processSysMgrStatus p.opens status s) = some t ∧
      processPowerManagement p.key t = s' := by
  unfold pmService
  cases p.status <;> simp [Option.bind_eq_some_iff]

/-- **One poll** keeps the invariant unless it is a power-down that meets the
display off. -/
theorem pmService_displayInv {p : Poll} (ho : p.opens = ⟨true, true⟩) (h : DisplayInv s) :
    (∀ s', pmService s p = some s' → DisplayInv s') ↔
      ¬ (p.status = some SYSMGR_STATUS_POWER_DOWN ∧ s.powerState = POWER_STATE_DISPLAY_OFF) := by
  have hpoll : (∀ s', pmService s p = some s' → DisplayInv s') ↔ ∀ t, (p.status.elim (some s)
      fun status => processSysMgrStatus p.opens status s) = some t → DisplayInv t := by
    simp only [pmService_some, forall_exists_index, and_imp, processPowerManagement]
    constructor
    · intro hs t ht
      exact (powerOffCheck_displayInv p.key).1 (hs _ t ht rfl)
    · rintro hs _ t ht rfl
      exact (powerOffCheck_displayInv p.key).2 (hs t ht)
  rw [hpoll]
  cases hst : p.status with
  | none =>
    refine iff_of_true ?_ (fun hpd => nomatch hpd.1)
    rintro _ ⟨⟩
    exact h
  | some status =>
    rw [Option.some.injEq]
    rcases processSysMgrStatus_cases status ho h with ⟨rfl, t, ht, hp, hd⟩ | ⟨hne, hinv⟩
    · have hoff : DisplayInv t ↔ s.powerState ≠ POWER_STATE_DISPLAY_OFF := by
        rcases h with ⟨hs, hon⟩ | ⟨hs, hoff⟩
        · rw [hs]
          exact iff_of_true (.inl ⟨hp, hd.trans hon⟩) (by decide)
        · refine iff_of_false ?_ (fun hne => hne hs)
          rintro (⟨-, hon⟩ | ⟨hp', -⟩)
          · exact nomatch (hd.trans hoff).symm.trans hon
          · exact absurd (hp.symm.trans hp') (by decide)
      simp only [Option.elim_some, ht, Option.some.injEq, forall_eq', hoff, true_and]
    · exact iff_of_true hinv fun hpd => hne hpd.1

end Display

/-- **The display along a run**, all devices opening: it agrees with the power state
after every poll if and only if no power-down meets the display off. -/
theorem display_follows_state (now : Word) (polls : List Poll)
    (hopens : ∀ p ∈ polls, p.opens = ⟨true, true⟩) :
    (∀ pre s, pre <+: polls → run pmService (pmInit now) pre = some s → DisplayInv s) ↔
      ∀ pre p s, pre ++ [p] <+: polls → run pmService (pmInit now) pre = some s →
        ¬ (p.status = some SYSMGR_STATUS_POWER_DOWN ∧
          s.powerState = POWER_STATE_DISPLAY_OFF) :=
  inv_along_iff (fun _ p hp h => pmService_displayInv (hopens p hp) h) (.inl ⟨rfl, rfl⟩)

def statusPoll (status : Word) : Poll := ⟨some status, some 1, ⟨true, true⟩⟩

/-- The display off and a card inserted. -/
def plugPolls : List Poll :=
  [statusPoll SYSMGR_STATUS_DISPLAY_OFF, statusPoll SYSMGR_STATUS_SD_INSERT]

theorem display_follows_plug_events :
    (∀ p ∈ plugPolls, p.opens = ⟨true, true⟩) ∧
      ∀ pre s, pre <+: plugPolls → run pmService (pmInit 0) pre = some s → DisplayInv s := by
  have hopens : ∀ p ∈ plugPolls, p.opens = ⟨true, true⟩ := by decide
  have hstatus : ∀ p ∈ plugPolls, p.status ≠ some SYSMGR_STATUS_POWER_DOWN := by decide
  refine ⟨hopens, (display_follows_state 0 plugPolls hopens).2 fun pre p s hpre _ hpd => ?_⟩
  exact hstatus p (hpre.subset (by simp)) hpd.1

/-- A power-down while the display is off comes back to the normal state with the
display still off. -/
theorem power_down_leaves_display_off :
    ∃ s, run pmService (pmInit 0)
        [statusPoll SYSMGR_STATUS_DISPLAY_OFF, statusPoll SYSMGR_STATUS_POWER_DOWN] = some s ∧
      s.powerState = POWER_STATE_NORMAL ∧ s.display = false ∧ ¬ DisplayInv s := by
  refine ⟨_, rfl, rfl, rfl, ?_⟩
  rintro (⟨-, h⟩ | ⟨h, -⟩)
  · exact nomatch h
  · exact absurd h (by decide)

/-! ## Failing requests -/

section Failing
variable {o : Opens} {s s' : Pm} {state : Word}

/-- Every device the change from `power` to `state` opens can be opened. -/
def DevicesOpen (o : Opens) (state power : Word) : Prop :=
  (state ≥ POWER_STATE_IDLE → o.pwrmgr = true) ∧
    (state = POWER_STATE_DISPLAY_OFF ∨
      (state = POWER_STATE_NORMAL ∧ power = POWER_STATE_DISPLAY_OFF) → o.fb = true)

/-- **A failing request**: it fails where a device does not open, and the new state
is stored all the same. -/
theorem processPowerState_false_iff : processPowerState o state s = some (false, s') ↔
    state ≠ s.powerState ∧ ¬ DevicesOpen o state s.powerState ∧
      { s with oldPowerState := s.powerState, powerState := state } = s' := by
  unfold processPowerState DevicesOpen
  by_cases hst : state = s.powerState
  · simp [hst]
  rw [if_neg hst]
  dsimp only
  by_cases hidle : state ≥ POWER_STATE_IDLE
  · -- from IDLE on only the power device is opened
    have hoff : state ≠ POWER_STATE_DISPLAY_OFF := by
      rintro rfl
      exact absurd hidle (by decide)
    have hnormal : state ≠ POWER_STATE_NORMAL := by
      rintro rfl
      exact absurd hidle (by decide)
    cases o.pwrmgr with
    | false => simp [hidle, hst]
    | true =>
      simp only [hnormal, hoff, hidle, if_false]
      split_ifs <;> simp_all
  · by_cases hnormal : state = POWER_STATE_NORMAL
    · subst hnormal
      have hne : POWER_STATE_NORMAL ≠ POWER_STATE_DISPLAY_OFF := by decide
      by_cases hold : s.powerState = POWER_STATE_DISPLAY_OFF <;>
        cases o.fb <;> simp [hidle, hst, hold, hne]
    · by_cases hoff : state = POWER_STATE_DISPLAY_OFF
      · subst hoff
        cases o.fb <;> simp [hidle, hst, hnormal]
      · simp only [hidle, hnormal, hoff, if_false, false_and]
        split_ifs <;> simp_all

/-- A call that returns `false` leaves the state and the display as they were, and
the same request is still a change. -/
def AtomicRequest (o : Opens) (state : Word) (s : Pm) : Prop :=
  ∀ s', processPowerState o state s = some (false, s') →
    s'.powerState = s.powerState ∧ s'.oldPowerState = s.oldPowerState ∧
      s'.display = s.display ∧ state ≠ s'.powerState

end Failing

/-- **Failed requests are not undone**: a request is atomic exactly if it cannot fail,
as it asks for the present state or every device it needs opens. -/
theorem processPowerState_atomic_iff (o : Opens) (state : Word) (s : Pm) :
    AtomicRequest o state s ↔ state = s.powerState ∨ DevicesOpen o state s.powerState := by
  unfold AtomicRequest
  simp only [processPowerState_false_iff]
  constructor
  · intro h
    by_contra hc
    rw [not_or] at hc
    -- the state left behind is the requested one
    obtain ⟨-, -, -, hne⟩ := h _ ⟨hc.1, hc.2, rfl⟩
    exact hne rfl
  · rintro (h | h) s' ⟨hne, hclosed, -⟩
    · exact absurd h hne
    · exact absurd h hclosed

/-- The frame buffer does not open: the display stays on, but the state is taken
over, and the same request with the device open does nothing. -/
theorem display_off_lost :
    ∃ s, processPowerState ⟨true, false⟩ POWER_STATE_DISPLAY_OFF (pmInit 0) = some (false, s) ∧
      s.powerState = POWER_STATE_DISPLAY_OFF ∧ s.display = true ∧
      processPowerState ⟨true, true⟩ POWER_STATE_DISPLAY_OFF s = some (true, s) ∧
      ¬ AtomicRequest ⟨true, false⟩ POWER_STATE_DISPLAY_OFF (pmInit 0) := by
  refine ⟨_, rfl, rfl, rfl, rfl, fun h => ?_⟩
  obtain ⟨-, -, -, hne⟩ := h _ rfl
  exact hne rfl

/-! ## The power key -/

section PowerKey
variable {o : Opens} {s s' : Pm} {status : Word}

theorem processPowerState_frame {state : Word} {b : Bool}
    (h : processPowerState o state s = some (b, s')) :
    s'.powerOffCount = s.powerOffCount ∧ s'.sent = s.sent := by
  unfold processPowerState at h
  dsimp only at h
  split_ifs at h <;> cases h <;> exact ⟨rfl, rfl⟩

theorem backToNormal_frame (h : backToNormal o s = some s') :
    s'.powerOffCount = s.powerOffCount ∧ s'.sent = s.sent := by
  obtain ⟨⟨b, t⟩, ht, rfl⟩ := Option.map_eq_some_iff.1 h
  have hframe : t.powerOffCount = s.powerOffCount ∧ t.sent = s.sent := processPowerState_frame ht
  exact hframe

theorem enter_frame {state : Word} (h : enter o state s = some s') :
    s'.powerOffCount = s.powerOffCount ∧ s'.sent = s.sent := by
  obtain ⟨⟨b, t⟩, ht, rfl⟩ := Option.map_eq_some_iff.1 h
  exact processPowerState_frame ht

theorem processSysMgrStatus_frame (h : processSysMgrStatus o status s = some s') :
    s'.powerOffCount = s.powerOffCount ∧ s'.sent = s.sent := by
  rw [processSysMgrStatus_eq] at h
  split_ifs at h
  · exact backToNormal_frame h
  · exact enter_frame h
  · exact enter_frame h
  · exact enter_frame h
  · exact enter_frame h
  · cases h
    exact ⟨rfl, rfl⟩

/-- **One poll**, as the counter sees it. -/
theorem pmService_count {p : Poll} (h : pmService s p = some s') :
    (s.powerOffCount < 20 ∧ s'.sent = s.sent ∧
        s'.powerOffCount = if p.key.getD 0 = 0 then s.powerOffCount + 1 else 0) ∨
      (s.powerOffCount = 20 ∧ s'.sent = s.sent ++ [SYSMGR_CMD_RTC_POWER_OFF] ∧
        s'.powerOffCount = 21) ∨
      (20 < s.powerOffCount ∧ s'.sent = s.sent ∧ s'.powerOffCount = s.powerOffCount) := by
  obtain ⟨t, ht, rfl⟩ := pmService_some.1 h
  have hframe : t.powerOffCount = s.powerOffCount ∧ t.sent = s.sent := by
    cases hst : p.status with
    | none =>
      rw [hst] at ht
      cases ht
      exact ⟨rfl, rfl⟩
    | some status =>
      rw [hst] at ht
      exact processSysMgrStatus_frame ht
  rw [← hframe.1, ← hframe.2]
  unfold processPowerManagement powerOffCheck
  by_cases h1 : t.powerOffCount < 20
  · rw [if_pos h1]
    split <;> exact .inl ⟨h1, rfl, rfl⟩
  · rw [if_neg h1]
    by_cases h2 : t.powerOffCount = 20
    · rw [if_pos h2]
      exact .inr (.inl ⟨h2, rfl, congrArg (· + 1) h2⟩)
    · rw [if_neg h2]
      exact .inr (.inr ⟨by omega, rfl, rfl⟩)

def SentInv (s : Pm) : Prop := s.powerOffCount ≤ 21 ∧ s.sent.length = s.powerOffCount - 20

theorem pmService_sentInv {p : Poll} (hinv : SentInv s) (h : pmService s p = some s') :
    SentInv s' := by
  obtain ⟨hle, hlen⟩ := hinv
  unfold SentInv
  rcases pmService_count h with ⟨hc, hs, hc'⟩ | ⟨hc, hs, hc'⟩ | ⟨hc, hs, hc'⟩
  · rw [hs, hlen, hc']
    split <;> omega
  · rw [hs, hc', List.length_append, hlen, hc]
    decide
  · rw [hs, hc']
    exact ⟨hle, hlen⟩

theorem run_sentInv (now : Word) (polls : List Poll) (h : run pmService (pmInit now) polls = some s) :
    SentInv s := by
  induction polls using List.reverseRecOn generalizing s with
  | nil =>
    cases h
    exact ⟨Nat.zero_le _, rfl⟩
  | append_singleton polls p ih =>
    obtain ⟨t, ht, hs⟩ := run_concat_eq_some.1 h
    exact pmService_sentInv (ih ht) hs

/-- The last `n` of the polls read the key as pressed. -/
def Held (n : Nat) (polls : List Poll) : Prop :=
  ∃ earlier recent, polls = earlier ++ recent ∧ recent.length = n ∧ ∀ q ∈ recent, q.key = some 0

theorem held_zero (polls : List Poll) : Held 0 polls :=
  ⟨polls, [], (List.append_nil _).symm, rfl, fun _ h => nomatch h⟩

theorem Held.concat {n : Nat} {polls : List Poll} {p : Poll} (h : Held n polls)
    (hp : p.key = some 0) : Held (n + 1) (polls ++ [p]) := by
  obtain ⟨earlier, recent, rfl, hlen, hkey⟩ := h
  refine ⟨earlier, recent ++ [p], List.append_assoc _ _ _, by simp [hlen], ?_⟩
  intro q hq
  rcases List.mem_append.1 hq with hq | hq
  · exact hkey q hq
  · rw [List.mem_singleton.1 hq, hp]

/-- No read of the key fails: one is made while the counter is below 20. -/
def ReadsKey (s : Pm) (p : Poll) : Prop := s.powerOffCount < 20 → p.key ≠ none

theorem run_held (now : Word) (polls : List Poll)
    (hread : ∀ pre p s, pre ++ [p] <+: polls → run pmService (pmInit now) pre = some s →
      ReadsKey s p)
    (h : run pmService (pmInit now) polls = some s) (hle : s.powerOffCount ≤ 20) :
    Held s.powerOffCount polls := by
  induction polls using List.reverseRecOn generalizing s with
  | nil =>
    cases h
    exact held_zero _
  | append_singleton polls p ih =>
    obtain ⟨t, ht, hs⟩ := run_concat_eq_some.1 h
    have ih' := fun hle => ih (fun pre q u hpre hu =>
      hread pre q u (hpre.trans (List.prefix_append _ _)) hu) ht hle
    rcases pmService_count hs with ⟨hc, -, hc'⟩ | ⟨-, -, hc'⟩ | ⟨hc, -, hc'⟩
    · rw [hc']
      split
      case isTrue hkey =>
        -- the read succeeded, so a 0 is the key's
        have hsome := hread polls p t (List.prefix_refl _) ht hc
        have hp : p.key = some 0 := by
          cases hk : p.key with
          | none => exact absurd hk hsome
          | some key =>
            rw [hk] at hkey
            exact congrArg some hkey
        exact (ih' (by omega)).concat hp
      case isFalse => exact held_zero _
    · omega
    · omega

end PowerKey

/-- **The power key along a run.** The command is sent at most once, whatever the key
reads deliver. In a run where no read of the key fails it is sent only after the
key has been held for the 20 polls before. -/
theorem power_off_only_on_held_key (now : Word) (polls : List Poll) :
    (∀ pre s, pre <+: polls → run pmService (pmInit now) pre = some s → s.sent.length ≤ 1) ∧
    ((∀ pre p s, pre ++ [p] <+: polls → run pmService (pmInit now) pre = some s →
        ReadsKey s p) →
      ∀ pre p s s', pre ++ [p] <+: polls → run pmService (pmInit now) pre = some s →
        pmService s p = some s' → s'.sent ≠ s.sent → Held 20 pre) := by
  constructor
  · intro pre s _ hr
    obtain ⟨hle, hlen⟩ := run_sentInv now pre hr
    omega
  · intro hread pre p s s' hpre hr hs hne
    have hpre' : pre <+: polls := (List.prefix_append _ _).trans hpre
    rcases pmService_count hs with ⟨-, hsent, -⟩ | ⟨hc, -, -⟩ | ⟨-, hsent, -⟩
    · exact absurd hsent hne
    · rw [← hc]
      exact run_held now pre (fun pre' q u h hu => hread pre' q u (h.trans hpre') hu) hr (by omega)
    · exact absurd hsent hne

def keyPoll (key : Option Word) : Poll := ⟨none, key, ⟨true, true⟩⟩

/-- The key pressed for 21 polls. -/
theorem power_off_after_held_key :
    ∃ s s', run pmService (pmInit 0) (List.replicate 20 (keyPoll (some 0))) = some s ∧
      pmService s (keyPoll (some 0)) = some s' ∧ s'.sent = [SYSMGR_CMD_RTC_POWER_OFF] ∧
      Held 20 (List.replicate 20 (keyPoll (some 0))) := by
  refine ⟨_, _, rfl, rfl, rfl, ?_⟩
  refine (power_off_only_on_held_key 0 (List.replicate 21 (keyPoll (some 0)))).2 ?_
    (List.replicate 20 (keyPoll (some 0))) (keyPoll (some 0)) _ _ (List.prefix_refl _) rfl rfl
    (by decide)
  intro pre p s hpre _ _
  obtain rfl : p = keyPoll (some 0) := List.eq_of_mem_replicate (hpre.subset (by simp))
  exact Option.some_ne_none _

/-- The key is never read: `state` stays 0 in 20 failed calls, and the machine is
switched off. -/
theorem power_off_after_failed_reads :
    ∃ s s', run pmService (pmInit 0) (List.replicate 20 (keyPoll none)) = some s ∧
      pmService s (keyPoll none) = some s' ∧ s.sent = [] ∧
      s'.sent = [SYSMGR_CMD_RTC_POWER_OFF] ∧ ¬ Held 20 (List.replicate 20 (keyPoll none)) := by
  refine ⟨_, _, rfl, rfl, rfl, rfl, ?_⟩
  rintro ⟨earlier, recent, heq, hlen, hkey⟩
  cases recent with
  | nil => cases hlen
  | cons q recent =>
    have hq : q ∈ List.replicate 20 (keyPoll none) := by
      rw [heq]
      simp
    rw [List.eq_of_mem_replicate hq] at hkey
    exact nomatch hkey _ (List.mem_cons_self ..)

end N32905.PowerManager
