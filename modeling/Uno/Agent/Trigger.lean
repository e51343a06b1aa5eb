import Mathlib.Data.Int.Notation
import Mathlib.Data.Nat.Notation
import Mathlib.Logic.Function.Basic
import Mathlib.Tactic.Tauto
import Uno.Lib.Run

/-!
# Triggered services

A triggered service is a flag under a lock, a semaphore bounded by one outside of it, and a loop which
waits for the semaphore and then takes the flag. The steps are the sections under the lock, the operations
of the semaphore, and the start and the end of the loop's work: any number of calls of `trigger` interleave
with the loop. The local code that follows a section is part of the section's step, so that the handler
starts with the section that took the flag.

The flag and the semaphore agree as long as each wait ends by the semaphore: a wait that expires lets the
loop take a flag whose semaphore is released later, and then a call may release the semaphore above its
bound (`trigger_raises`).
-/

namespace Uno

/-- Where a call of `trigger` stands: not made, before the section, between section and release, done. -/
inductive CallPoint where
  | idle
  | begun
  | queued
  | returned
  | raised
deriving DecidableEq, Repr

/-- A call, and whether a run of the handler started after the call began. -/
structure TriggerCall where
  point : CallPoint
  served : Bool
deriving DecidableEq, Repr

/-- Where the service loop stands; `woken` tells whether the semaphore was acquired. -/
inductive LoopPoint where
  | created
  | waiting
  | woken (acquired : Bool)
  | handling
  | stopped
deriving DecidableEq, Repr

structure Triggerrable (Call : Type) where
  triggerSem : ℕ
  triggered : Bool
  serviceActive : Bool
  lastTriggerTs : Option ℤ
  loop : LoopPoint
  calls : Call → TriggerCall

inductive TriggerAct (Call : Type) where
  | start
  | deactivate
  | call (i : Call)
  | check (i : Call)
  | release (i : Call)
  | acquire
  | expire
  | takeFlag (now : ℤ)
  | finish

namespace Triggerrable

variable {Call : Type}

def maxTriggerDelay : ℤ := 60

def triggerDelay (s : Triggerrable Call) (now : ℤ) : ℤ :=
  match s.lastTriggerTs with
  | none => maxTriggerDelay + 1
  | some t => now - t

/-- A constructed service: the semaphore is taken. -/
def init : Triggerrable Call := ⟨0, false, false, none, .created, fun _ => ⟨.idle, false⟩⟩

def setPoint [DecidableEq Call] (s : Triggerrable Call) (i : Call) (p : CallPoint) : Triggerrable Call :=
  { s with calls := Function.update s.calls i { s.calls i with point := p } }

/-- The loop's test of `_service_active` at the start of a turn. -/
def nextTurn (s : Triggerrable Call) : Triggerrable Call :=
  { s with loop := if s.serviceActive then .waiting else .stopped }

/-- A run of the handler starts: it serves the calls that have begun. -/
def handle (s : Triggerrable Call) (now : ℤ) : Triggerrable Call :=
  { s with
    loop := .handling
    lastTriggerTs := some now
    calls := fun i => if (s.calls i).point = .idle then s.calls i else { s.calls i with served := true } }

/-- The section of `run` under the lock, and the decision that follows it. -/
def takeFlag (s : Triggerrable Call) (now : ℤ) : Triggerrable Call :=
  let triggered := s.triggered || decide (maxTriggerDelay ≤ s.triggerDelay now)
  let s := { s with triggered := false }
  if s.serviceActive && triggered then s.handle now else s.nextTurn

/-- The section of `trigger` under the lock. -/
def check [DecidableEq Call] (s : Triggerrable Call) (i : Call) : Triggerrable Call :=
  if s.triggered then s.setPoint i .returned else { s.setPoint i .queued with triggered := true }

/-- `_trigger_sem.release()` of a bounded semaphore. -/
def release [DecidableEq Call] (s : Triggerrable Call) (i : Call) : Triggerrable Call :=
  if s.triggerSem < 1 then { s.setPoint i .returned with triggerSem := s.triggerSem + 1 } else s.setPoint i .raised

/-- One step; an action that is not possible in a state is an error. -/
def step [DecidableEq Call] (s : Triggerrable Call) : TriggerAct Call → Except Unit (Triggerrable Call)
  | .start => if s.loop = .created then .ok { s with serviceActive := true, loop := .waiting } else .error ()
  | .deactivate => if s.loop ≠ .created then .ok { s with serviceActive := false } else .error ()
  | .call i => if (s.calls i).point = .idle then .ok (s.setPoint i .begun) else .error ()
  | .check i => if (s.calls i).point = .begun then .ok (s.check i) else .error ()
  | .release i => if (s.calls i).point = .queued then .ok (s.release i) else .error ()
  | .acquire =>
    if s.loop = .waiting ∧ 0 < s.triggerSem then .ok { s with triggerSem := s.triggerSem - 1, loop := .woken true }
    else .error ()
  | .expire => if s.loop = .waiting ∧ s.triggerSem = 0 then .ok { s with loop := .woken false } else .error ()
  | .takeFlag now =>
    match s.loop with
    | .woken _ => .ok (s.takeFlag now)
    | _ => .error ()
  | .finish => if s.loop = .handling then .ok s.nextTurn else .error ()

/-! ### No trigger is lost -/

/-- The loop is past the semaphore and about to take the flag. -/
def IsWoken (s : Triggerrable Call) : Prop := ∃ acquired, s.loop = .woken acquired

/-- The loop may wait for the semaphore before it takes the flag. -/
def MayBlock (s : Triggerrable Call) : Prop := ¬ s.IsWoken ∧ s.triggerSem = 0

/-- No call raises, a call that returned is served or waits for a loop that cannot block, and at most one
wake-up is queued, in the semaphore or about to be released. -/
structure Safe (s : Triggerrable Call) : Prop where
  not_raised : ∀ i, (s.calls i).point ≠ .raised
  not_lost : s.serviceActive = true → ∀ i, (s.calls i).point = .returned →
    (s.calls i).served = true ∨ s.triggered = true ∧ ¬ s.MayBlock
  sem_le : s.triggerSem ≤ 1
  queued_unique : ∀ i, (s.calls i).point = .queued →
    s.triggerSem = 0 ∧ ∀ j, (s.calls j).point = .queued → j = i

/-- A call looks at the flag when the semaphore agrees with it: a released semaphore goes with a set flag,
and while another call is yet to release it the flag is set, with the loop awake or the call served. -/
def Agrees (s : Triggerrable Call) : TriggerAct Call → Prop
  | .check i =>
    (s.triggered = false → s.triggerSem = 0) ∧
    ((∃ j, (s.calls j).point = .queued) → s.triggered = true ∧ (s.IsWoken ∨ (s.calls i).served = true))
  | _ => True

/-- What a call may rely on: the invariant of the steps, also for a service that is not started yet. -/
structure Sound (s : Triggerrable Call) : Prop where
  not_raised : ∀ i, (s.calls i).point ≠ .raised
  created : s.loop = .created → s.serviceActive = false
  returned : s.serviceActive = true ∨ s.loop = .created → ∀ i, (s.calls i).point = .returned →
    (s.calls i).served = true ∨ s.triggered = true ∧ ¬ s.MayBlock
  queued : s.serviceActive = true ∨ s.loop = .created → ∀ i, (s.calls i).point = .queued →
    (s.calls i).served = true ∨ s.triggered = true
  waking : s.triggered = true → (∃ i, (s.calls i).point = .queued) ∨ ¬ s.MayBlock
  sem_le : s.triggerSem ≤ 1
  queued_unique : ∀ i, (s.calls i).point = .queued →
    s.triggerSem = 0 ∧ ∀ j, (s.calls j).point = .queued → j = i

variable {s s' : Triggerrable Call} {i j : Call} {p : CallPoint}

theorem not_mayBlock : ¬ s.MayBlock ↔ s.IsWoken ∨ 0 < s.triggerSem := by
  unfold MayBlock
  rw [not_and_or, not_not, Nat.pos_iff_ne_zero]

theorem calls_setPoint [DecidableEq Call] (s : Triggerrable Call) (i : Call) (p : CallPoint) (j : Call) :
    (s.setPoint i p).calls j = if j = i then { s.calls i with point := p } else s.calls j := by
  unfold setPoint
  exact Function.update_apply ..

theorem point_setPoint [DecidableEq Call] : ((s.setPoint i p).calls j).point = if j = i then p else (s.calls j).point := by
  rw [calls_setPoint]
  split <;> rfl

theorem served_setPoint [DecidableEq Call] : ((s.setPoint i p).calls j).served = (s.calls j).served := by
  rw [calls_setPoint]
  split
  · next h => rw [h]
  · rfl

theorem Sound.init : (init : Triggerrable Call).Sound where
  not_raised _ := by simp [Triggerrable.init]
  created _ := rfl
  returned _ _ h := by simp [Triggerrable.init] at h
  queued _ _ h := by simp [Triggerrable.init] at h
  waking h := by simp [Triggerrable.init] at h
  sem_le := Nat.zero_le 1
  queued_unique _ h := by simp [Triggerrable.init] at h

theorem Sound.safe (hs : s.Sound) : s.Safe where
  not_raised := hs.not_raised
  not_lost hactive i hi := hs.returned (.inl hactive) i hi
  sem_le := hs.sem_le
  queued_unique := hs.queued_unique

/-! ### One step -/

/-- A step of the loop or of the calls before the section changes neither flag nor semaphore, and no call is
at its section, release or end through it. -/
theorem Sound.frame (hs : s.Sound) (htriggered : s'.triggered = s.triggered) (hsem : s'.triggerSem = s.triggerSem)
    (hcreated : s'.loop = .created → s'.serviceActive = false)
    (hactive : s'.serviceActive = true ∨ s'.loop = .created → s.serviceActive = true ∨ s.loop = .created)
    (hwoken : s.IsWoken → s'.IsWoken)
    (hpoint : ∀ i p, p ≠ .idle → p ≠ .begun → ((s'.calls i).point = p ↔ (s.calls i).point = p))
    (hserved : ∀ i, (s.calls i).served = true → (s'.calls i).served = true) : s'.Sound := by
  have hblock : ¬ s.MayBlock → ¬ s'.MayBlock := by
    rw [not_mayBlock, not_mayBlock, hsem]
    exact Or.imp hwoken id
  have hqueued : ∀ i, (s'.calls i).point = .queued ↔ (s.calls i).point = .queued := fun i =>
    hpoint i .queued (by simp) (by simp)
  refine ⟨fun i => ?_, hcreated, fun h i hi => ?_, fun h i hi => ?_, fun h => ?_, ?_, fun i hi => ?_⟩
  · rw [Ne, hpoint i .raised (by simp) (by simp)]
    exact hs.not_raised i
  · rw [hpoint i .returned (by simp) (by simp)] at hi
    rw [htriggered]
    exact (hs.returned (hactive h) i hi).imp (hserved i) (And.imp id hblock)
  · rw [hqueued] at hi
    rw [htriggered]
    exact (hs.queued (hactive h) i hi).imp (hserved i) id
  · rw [htriggered] at h
    simp only [hqueued]
    exact (hs.waking h).imp id hblock
  · rw [hsem]
    exact hs.sem_le
  · rw [hqueued] at hi
    simp only [hqueued, hsem]
    exact hs.queued_unique i hi

theorem Sound.start (hs : s.Sound) (hloop : s.loop = .created) :
    Sound { s with serviceActive := true, loop := .waiting } := by
  refine hs.frame rfl rfl nofun (fun _ => .inr hloop) ?_ (fun _ _ _ _ => Iff.rfl) fun _ => id
  rintro ⟨acquired, h⟩
  rw [hloop] at h
  cases h

theorem Sound.deactivate (hs : s.Sound) (hloop : s.loop ≠ .created) : Sound { s with serviceActive := false } :=
  hs.frame rfl rfl (fun _ => rfl) (fun h => h.elim nofun fun h => absurd h hloop) id (fun _ _ _ _ => Iff.rfl) fun _ => id

theorem Sound.call [DecidableEq Call] (hs : s.Sound) (hi : (s.calls i).point = .idle) :
    (s.setPoint i .begun).Sound := by
  refine hs.frame rfl rfl hs.created id id (fun j p hidle hbegun => ?_) fun j hj => ?_
  · rw [point_setPoint]
    split
    · next h =>
      rw [h, hi]
      exact ⟨fun h => absurd h.symm hbegun, fun h => absurd h.symm hidle⟩
    · rfl
  · rw [served_setPoint]
    exact hj

theorem Sound.finish (hs : s.Sound) (hloop : s.loop = .handling) : s.nextTurn.Sound := by
  have hnext : s.nextTurn.loop ≠ .created := by
    unfold nextTurn
    dsimp only
    split <;> simp
  refine hs.frame rfl rfl (fun h => absurd h hnext) (fun h => h.imp id fun h => absurd h hnext) ?_
    (fun _ _ _ _ => Iff.rfl) fun _ => id
  rintro ⟨acquired, h⟩
  rw [hloop] at h
  cases h

theorem Sound.cleared (hs : s.Sound) (htriggered : s'.triggered = false) (hsem : s'.triggerSem = s.triggerSem)
    (hloop : s'.loop ≠ .created) (hpoint : ∀ i, (s'.calls i).point = (s.calls i).point)
    (hserved : s'.serviceActive = true → ∀ i, (s.calls i).point = .returned ∨ (s.calls i).point = .queued →
      (s'.calls i).served = true) : s'.Sound := by
  have hactive : s'.serviceActive = true ∨ s'.loop = .created → s'.serviceActive = true := fun h =>
    h.elim id fun h => absurd h hloop
  refine ⟨fun i => ?_, fun h => absurd h hloop, fun h i hi => .inl ?_, fun h i hi => .inl ?_, fun h => ?_, ?_,
    fun i hi => ?_⟩
  · rw [hpoint]
    exact hs.not_raised i
  · rw [hpoint] at hi
    exact hserved (hactive h) i (.inl hi)
  · rw [hpoint] at hi
    exact hserved (hactive h) i (.inr hi)
  · rw [htriggered] at h
    cases h
  · rw [hsem]
    exact hs.sem_le
  · simp only [hpoint, hsem] at hi ⊢
    exact hs.queued_unique i hi

theorem point_handle (s : Triggerrable Call) (now : ℤ) (i : Call) :
    ((s.handle now).calls i).point = (s.calls i).point := by
  unfold handle
  dsimp only
  split <;> rfl

theorem served_handle (s : Triggerrable Call) (now : ℤ) (hi : (s.calls i).point ≠ .idle) :
    ((s.handle now).calls i).served = true := by
  unfold handle
  dsimp only
  rw [if_neg hi]

theorem Sound.takeFlag (hs : s.Sound) (now : ℤ) : (s.takeFlag now).Sound := by
  unfold Triggerrable.takeFlag
  dsimp only
  split
  · refine hs.cleared rfl rfl nofun (fun i => point_handle _ now i) fun _ i hi => served_handle _ now ?_
    show (s.calls i).point ≠ .idle
    rcases hi with hi | hi <;> simp [hi]
  · next hskip =>
    refine hs.cleared rfl rfl ?_ (fun _ => rfl) fun hactive i hi => ?_
    · unfold nextTurn
      dsimp only
      split <;> simp
    · -- the flag was not set, so that each call has been served before
      change s.serviceActive = true at hactive
      have htriggered : ¬ s.triggered = true := fun h => hskip (by simp [hactive, h])
      show (s.calls i).served = true
      rcases hi with hi | hi
      · exact (hs.returned (.inl hactive) i hi).resolve_right fun h => htriggered h.1
      · exact (hs.queued (.inl hactive) i hi).resolve_right htriggered

theorem Sound.check [DecidableEq Call] (hs : s.Sound) (hi : (s.calls i).point = .begun)
    (hagrees : s.Agrees (.check i)) : (s.check i).Sound := by
  obtain ⟨hsem, hqueue⟩ := hagrees
  unfold Triggerrable.check
  split
  · next htriggered =>
    -- while another call is queued, the flag is set and the loop is awake or serves the call
    have hserved : (s.calls i).served = true ∨ ¬ s.MayBlock := by
      rcases hs.waking htriggered with hqueued | hblock
      · exact (hqueue hqueued).2.symm.imp id fun h => not_mayBlock.mpr (.inl h)
      · exact .inr hblock
    have hpoint : ∀ j, ((s.setPoint i .returned).calls j).point = .queued ↔ (s.calls j).point = .queued := fun j => by
      rw [point_setPoint]
      split
      · next h => simp [h, hi]
      · rfl
    refine ⟨fun j => ?_, hs.created, fun h j hj => ?_, fun h j hj => ?_, fun h => ?_, hs.sem_le, fun j hj => ?_⟩
    · rw [point_setPoint]
      split
      · simp
      · exact hs.not_raised j
    · rw [served_setPoint]
      rw [point_setPoint] at hj
      split at hj
      · next h =>
        rw [h]
        exact hserved.imp id fun h => ⟨htriggered, h⟩
      · exact hs.returned h j hj
    · rw [served_setPoint]
      exact hs.queued h j ((hpoint j).mp hj)
    · exact (hs.waking h).imp (fun ⟨j, hj⟩ => ⟨j, (hpoint j).mpr hj⟩) id
    · simp only [hpoint] at hj ⊢
      exact hs.queued_unique j hj
  · next htriggered =>
    have hsem' : s.triggerSem = 0 := hsem (by simpa using htriggered)
    have hnone : ∀ j, (s.calls j).point ≠ .queued := fun j hj => htriggered (hqueue ⟨j, hj⟩).1
    have hpoint : ∀ j, ((s.setPoint i .queued).calls j).point = .queued ↔ j = i := fun j => by
      rw [point_setPoint]
      split
      · next h => simp [h]
      · next h => simp [h, hnone j]
    refine ⟨fun j => ?_, hs.created, fun h j hj => ?_, fun h j hj => .inr rfl, fun h => .inl ⟨i, (hpoint i).mpr rfl⟩,
      hs.sem_le, fun j hj => ⟨hsem', fun k hk => ?_⟩⟩
    · show ((s.setPoint i .queued).calls j).point ≠ .raised
      rw [point_setPoint]
      split
      · simp
      · exact hs.not_raised j
    · change ((s.setPoint i .queued).calls j).point = .returned at hj
      rw [point_setPoint] at hj
      split at hj
      · cases hj
      · show ((s.setPoint i .queued).calls j).served = true ∨ _
        rw [served_setPoint]
        exact (hs.returned h j hj).imp id fun h => absurd h.1 htriggered
    · rw [(hpoint j).mp hj, (hpoint k).mp hk]

theorem Sound.release [DecidableEq Call] (hs : s.Sound) (hi : (s.calls i).point = .queued) :
    (s.release i).Sound := by
  obtain ⟨hsem, honly⟩ := hs.queued_unique i hi
  unfold Triggerrable.release
  rw [if_pos (by omega)]
  have hblock : ¬ MayBlock { s.setPoint i .returned with triggerSem := s.triggerSem + 1 } :=
    not_mayBlock.mpr (.inr (Nat.succ_pos _))
  have hpoint : ∀ j, ((s.setPoint i .returned).calls j).point ≠ .queued := fun j => by
    rw [point_setPoint]
    split
    · simp
    · next h => exact fun hj => h (honly j hj)
  refine ⟨fun j => ?_, hs.created, fun h j hj => ?_, fun h j hj => absurd hj (hpoint j), fun _ => .inr hblock, ?_,
    fun j hj => absurd hj (hpoint j)⟩
  · show ((s.setPoint i .returned).calls j).point ≠ .raised
    rw [point_setPoint]
    split
    · simp
    · exact hs.not_raised j
  · change ((s.setPoint i .returned).calls j).point = .returned at hj
    show ((s.setPoint i .returned).calls j).served = true ∨ s.triggered = true ∧ _
    rw [point_setPoint] at hj
    rw [served_setPoint]
    split at hj
    · next hji =>
      rw [hji]
      exact (hs.queued h i hi).imp id fun h => ⟨h, hblock⟩
    · exact (hs.returned h j hj).imp id fun h => ⟨h.1, hblock⟩
  · show s.triggerSem + 1 ≤ 1
    omega

theorem Sound.wake (hs : s.Sound) {n : ℕ} (hn : n ≤ s.triggerSem) (acquired : Bool) :
    Sound { s with triggerSem := n, loop := .woken acquired } := by
  have hblock : ¬ MayBlock { s with triggerSem := n, loop := .woken acquired } :=
    not_mayBlock.mpr (.inl ⟨acquired, rfl⟩)
  have hactive : ∀ h : s.serviceActive = true ∨ LoopPoint.woken acquired = .created,
      s.serviceActive = true ∨ s.loop = .created := fun h => h.imp id nofun
  refine ⟨hs.not_raised, nofun, fun h i hi => ?_, fun h => hs.queued (hactive h), fun _ => .inr hblock,
    Nat.le_trans hn hs.sem_le, fun i hi => ?_⟩
  · exact (hs.returned (hactive h) i hi).imp id fun h => ⟨h.1, hblock⟩
  · obtain ⟨hsem, honly⟩ := hs.queued_unique i hi
    exact ⟨by show n = 0; omega, honly⟩

theorem of_guard {q : Prop} [Decidable q] {t : Triggerrable Call}
    (h : (if q then Except.ok t else Except.error ()) = Except.ok s') : q ∧ t = s' := by
  split at h
  · next hq =>
    cases h
    exact ⟨hq, rfl⟩
  · cases h

/-- A step that meets the condition keeps the invariant. -/
theorem Sound.step [DecidableEq Call] (hs : s.Sound) (a : TriggerAct Call) (hok : s.Agrees a)
    (hstep : s.step a = .ok s') : s'.Sound := by
  cases a with
  | takeFlag now =>
    simp only [Triggerrable.step] at hstep
    split at hstep
    · cases hstep
      exact hs.takeFlag now
    · cases hstep
  | start =>
    obtain ⟨hloop, rfl⟩ := of_guard hstep
    exact hs.start hloop
  | deactivate =>
    obtain ⟨hloop, rfl⟩ := of_guard hstep
    exact hs.deactivate hloop
  | call i =>
    obtain ⟨hi, rfl⟩ := of_guard hstep
    exact hs.call hi
  | check i =>
    obtain ⟨hi, rfl⟩ := of_guard hstep
    exact hs.check hi hok
  | release i =>
    obtain ⟨hi, rfl⟩ := of_guard hstep
    exact hs.release hi
  | acquire =>
    obtain ⟨-, rfl⟩ := of_guard hstep
    exact hs.wake (Nat.sub_le ..) true
  | expire =>
    obtain ⟨-, rfl⟩ := of_guard hstep
    exact hs.wake (Nat.le_refl _) false
  | finish =>
    obtain ⟨hloop, rfl⟩ := of_guard hstep
    exact hs.finish hloop

/-! ### Whole runs -/

/-- Where each call finds the flag and the semaphore in agreement, no trigger is lost and no call raises. -/
theorem trigger_safe [DecidableEq Call] (hrun : Run.Reaches step Agrees (init : Triggerrable Call) s) : s.Safe :=
  (hrun.invariant (I := Sound) .init fun _ a _ hs hok hstep => hs.step a hok hstep).safe

/-- A wait expires, a call sets the flag and releases the semaphore, and the loop takes the flag without
the semaphore: the next call releases it above its bound. -/
theorem trigger_raises : ∃ s : Triggerrable ℕ,
    Run.Reaches step (fun _ _ => True) init s ∧ s.serviceActive = true ∧ (s.calls 1).point = .raised ∧ ¬ s.Safe := by
  have hraised : ∃ s : Triggerrable ℕ, Run.Reaches step (fun _ _ => True) init s ∧ s.serviceActive = true ∧
      (s.calls 1).point = .raised :=
    ⟨_, .step (.release 1) (.step (.check 1) (.step (.call 1) (.step (.takeFlag 60) (.step (.release 0)
      (.step (.check 0) (.step (.call 0) (.step .expire (.step .start .refl trivial rfl) trivial rfl) trivial rfl)
        trivial rfl) trivial rfl) trivial rfl) trivial rfl) trivial rfl) trivial rfl, rfl, rfl⟩
  obtain ⟨s, hrun, hactive, hpoint⟩ := hraised
  exact ⟨s, hrun, hactive, hpoint, fun hs => hs.not_raised 1 hpoint⟩

/-- Two calls, and a run of the handler between them. -/
theorem trigger_safe_twice : ∃ s : Triggerrable Bool, s.Safe ∧ s.serviceActive = true ∧
    (s.calls true).point = .returned ∧ (s.calls true).served = false := by
  refine ⟨_, trigger_safe (.step (.release true) (.step (.check true) (.step (.call true) (.step .finish
    (.step (.takeFlag 0) (.step .acquire (.step (.release false) (.step (.check false) (.step (.call false)
    (.step .start .refl trivial rfl) trivial rfl) ?_ rfl) trivial rfl) trivial rfl) trivial rfl) trivial rfl)
    trivial rfl) ?_ rfl) trivial rfl), rfl, rfl, rfl⟩
  all_goals
    refine ⟨fun _ => rfl, fun ⟨j, hj⟩ => ?_⟩
    cases j <;> cases hj

end Triggerrable

end Uno
