import Uno.Core.Text
import Uno.Lib.Run
import Mathlib.Logic.Function.Basic
import Mathlib.Order.Basic

/-!
# The PID file

An agent runs between writing its id to the PID file and deleting the file. Before, it reads the file, and clears it if
there is no process with the id it finds. Every operation on the file is a step of its own, so that processes interleave
at any of them and may end at any of them. If no start overlaps with another look at the file, at most one agent runs,
and the file names it (`pidFile_exclusive`).
-/

namespace Uno

/-- The file. Two processes that write the same file write over each other, and a process may write a file that was
deleted since it was opened. -/
structure PidFile where
  inode : ℕ
  text : Text

/-- What a process is going to do unless there is another agent. -/
inductive PidCaller where
  /-- `_pid_file`: it is an agent that starts. -/
  | pidFile
  /-- `start_static`, `stop_static`. -/
  | static
  deriving DecidableEq

/-- Where a process is. -/
inductive PidPoint where
  | absent
  | outside
  /-- `external_agent_process` found the id of another process. -/
  | found (caller : PidCaller) (pid : ℕ)
  /-- There is no process with that id. -/
  | dead (caller : PidCaller)
  /-- The file is still there, and its text is read once more. -/
  | stale (caller : PidCaller)
  | clear (caller : PidCaller)
  /-- The file was not there to be deleted. -/
  | notCleared (caller : PidCaller)
  /-- `write_pid_file` opens the file. -/
  | create
  | write (inode : ℕ)
  /-- The file is written, and deleted in the end. -/
  | running
  deriving DecidableEq

structure PidState where
  file : Option PidFile
  inodes : ℕ
  procs : ℕ → PidPoint

inductive PidAct where
  | spawn (p : ℕ)
  /-- The process ends, wherever it is. -/
  | exit (p : ℕ)
  /-- The file is read. -/
  | call (p : ℕ) (caller : PidCaller)
  /-- The next operation of the process. -/
  | next (p : ℕ)

/-- `external_agent_process` returned `None`. -/
def PidCaller.resume : PidCaller → PidPoint
  | .pidFile => .create
  | .static => .outside

namespace PidState

variable (s : PidState)

def setPoint (p : ℕ) (point : PidPoint) : PidState := { s with procs := Function.update s.procs p point }

/-- Agents write no blanks that would have to be stripped. -/
def storedPid : Option ℕ := s.file.bind fun f => (pyInt f.text).toOption

def call (p : ℕ) (caller : PidCaller) : PidState :=
  match s.storedPid with
  | none => s.setPoint p caller.resume
  | some pid => s.setPoint p (if pid = p then caller.resume else .found caller pid)

/-- `write_text` opens the file, which creates or truncates it. -/
def create (p : ℕ) : PidState :=
  match s.file with
  | none => { s.setPoint p (.write s.inodes) with file := some ⟨s.inodes, []⟩, inodes := s.inodes + 1 }
  | some f => { s.setPoint p (.write f.inode) with file := some ⟨f.inode, []⟩ }

def write (p inode : ℕ) : PidState :=
  { s.setPoint p .running with
    file := s.file.map fun f =>
      if f.inode = inode then ⟨inode, dec p ++ f.text.drop (dec p).length⟩ else f }

def next (p : ℕ) : Except Unit PidState :=
  match s.procs p with
  | .absent | .outside => .error ()
  | .found caller pid => .ok (s.setPoint p (if s.procs pid = .absent then .dead caller else .outside))
  | .dead caller => .ok (s.setPoint p (if s.file.isSome then .stale caller else caller.resume))
  | .stale caller => .ok (s.setPoint p (if s.file.isSome then .clear caller else .outside))
  | .clear caller =>
    .ok (if s.file.isSome then { s.setPoint p caller.resume with file := none } else s.setPoint p (.notCleared caller))
  | .notCleared caller => .ok (s.setPoint p (if s.file.isSome then .outside else caller.resume))
  | .create => .ok (s.create p)
  | .write inode => .ok (s.write p inode)
  | .running => .ok { s.setPoint p .outside with file := none }

/-- One step; an action that is not possible in a state is an error. -/
def step : PidAct → Except Unit PidState
  | .spawn p => if s.procs p = .absent then .ok (s.setPoint p .outside) else .error ()
  | .exit p => if s.procs p ≠ .absent then .ok (s.setPoint p .absent) else .error ()
  | .call p caller => if s.procs p = .outside then .ok (s.call p caller) else .error ()
  | .next p => s.next p

end PidState

/-! ### Starts that do not overlap -/

/-- The process is between reading the file and having done with it. -/
def PidPoint.looks : PidPoint → Bool
  | .found _ _ | .dead _ | .stale _ | .clear _ | .notCleared _ | .create | .write _ => true
  | _ => false

/-- The process is an agent that starts. -/
def PidPoint.starts : PidPoint → Bool
  | .found .pidFile _ | .dead .pidFile | .stale .pidFile | .clear .pidFile | .notCleared .pidFile => true
  | .create | .write _ => true
  | _ => false

/-- The process found that no agent runs. -/
def PidPoint.foundNone : PidPoint → Bool
  | .dead _ | .stale _ | .clear _ | .notCleared _ | .create | .write _ => true
  | _ => false

namespace PidState

variable {s s' : PidState} {p q r : ℕ} {caller : PidCaller} {point : PidPoint}

/-- An agent looks at the file while no other process does, another process while no agent starts. -/
def Alone (s : PidState) (p : ℕ) : PidCaller → Prop
  | .pidFile => ∀ r, r ≠ p → (s.procs r).looks = false
  | .static => ∀ r, r ≠ p → (s.procs r).starts = false

/-- No start overlaps with another look at the file. -/
def NoOverlap (s : PidState) : PidAct → Prop
  | .call p caller => s.Alone p caller
  | _ => True

/-- The file names `p`. -/
def Names (s : PidState) (p : ℕ) : Prop := ∃ f, s.file = some f ∧ f.text = dec p

structure Inv (s : PidState) : Prop where
  running : ∀ p, s.procs p = .running → s.Names p
  found : ∀ p caller pid, s.procs p = .found caller pid → ∀ r, s.procs r = .running → r = pid
  foundNone : ∀ p, (s.procs p).foundNone = true → ∀ r, s.procs r ≠ .running
  starts : ∀ p, (s.procs p).starts = true → ∀ r, r ≠ p → (s.procs r).looks = false
  write : ∀ p inode, s.procs p = .write inode → s.file = some ⟨inode, []⟩

theorem Names.unique (hp : s.Names p) (hq : s.Names q) : p = q := by
  obtain ⟨f, hf, htext⟩ := hp
  obtain ⟨g, hg, htext'⟩ := hq
  obtain rfl := Option.some.inj (hf.symm.trans hg)
  exact dec_injective (htext.symm.trans htext')

theorem storedPid_of_names (h : s.Names p) : s.storedPid = some p := by
  obtain ⟨f, hf, htext⟩ := h
  unfold storedPid
  rw [hf, Option.bind_some, htext, pyInt_dec]
  rfl

theorem looks_of_starts (h : point.starts = true) : point.looks = true := by
  unfold PidPoint.starts at h
  split at h <;> first | rfl | cases h

theorem looks_of_foundNone (h : point.foundNone = true) : point.looks = true := by
  unfold PidPoint.foundNone at h
  split at h <;> first | rfl | cases h

theorem Inv.update (h : s.Inv) (hprocs : s'.procs = Function.update s.procs p point)
    (hfile : s'.file = s.file ∨ ∀ r, r ≠ p → s.procs r ≠ .running ∧ ∀ i, s.procs r ≠ .write i)
    (hrunning : point = .running → s'.Names p ∧ ∀ r, r ≠ p → s.procs r ≠ .running ∧ (s.procs r).looks = false)
    (hfound : ∀ caller pid, point = .found caller pid → ∀ r, r ≠ p → s.procs r = .running → r = pid)
    (hfoundNone : point.foundNone = true → ∀ r, r ≠ p → s.procs r ≠ .running)
    (hstarts : point.starts = true → ∀ r, r ≠ p → (s.procs r).looks = false)
    (hlooks : point.looks = true → ∀ r, r ≠ p → (s.procs r).starts = false)
    (hwrite : ∀ i, point = .write i → s'.file = some ⟨i, []⟩) : s'.Inv := by
  have hself : s'.procs p = point := by rw [hprocs, Function.update_self]
  have hother : ∀ r, r ≠ p → s'.procs r = s.procs r := fun r hr => by rw [hprocs, Function.update_of_ne hr]
  have hnames : ∀ r, r ≠ p → s.procs r = .running → s'.Names r := by
    intro r hr hrun
    obtain ⟨f, hf, htext⟩ := h.running r hrun
    rcases hfile with hfile | hfile
    · exact ⟨f, hfile.trans hf, htext⟩
    · exact absurd hrun (hfile r hr).1
  refine ⟨fun r hr => ?_, fun r caller pid hr t ht => ?_, fun r hr t ht => ?_, fun r hr t ht => ?_, fun r i hr => ?_⟩
  · by_cases hrp : r = p
    · subst hrp
      exact (hrunning (hself.symm.trans hr)).1
    · exact hnames r hrp ((hother r hrp).symm.trans hr)
  · by_cases hrp : r = p
    · subst hrp
      have hpoint := hself.symm.trans hr
      have htr : t ≠ r := fun heq => by
        subst heq
        rw [hr] at ht
        cases ht
      exact hfound caller pid hpoint t htr ((hother t htr).symm.trans ht)
    · have hr' := (hother r hrp).symm.trans hr
      by_cases htp : t = p
      · subst htp
        have hlooks := ((hrunning (hself.symm.trans ht)).2 r hrp).2
        rw [hr'] at hlooks
        cases hlooks
      · exact h.found r caller pid hr' t ((hother t htp).symm.trans ht)
  · by_cases hrp : r = p
    · subst hrp
      rw [hself] at hr
      have htr : t ≠ r := fun heq => by
        subst heq
        rw [hself] at ht
        rw [ht] at hr
        cases hr
      exact hfoundNone hr t htr ((hother t htr).symm.trans ht)
    · rw [hother r hrp] at hr
      by_cases htp : t = p
      · subst htp
        have hlooks := ((hrunning (hself.symm.trans ht)).2 r hrp).2
        rw [looks_of_foundNone hr] at hlooks
        cases hlooks
      · exact h.foundNone r hr t ((hother t htp).symm.trans ht)
  · by_cases hrp : r = p
    · subst hrp
      rw [hself] at hr
      rw [hother t ht]
      exact hstarts hr t ht
    · rw [hother r hrp] at hr
      by_cases htp : t = p
      · subst htp
        rw [hself]
        by_contra hlook
        rw [hlooks (Bool.not_eq_false _ ▸ hlook) r hrp] at hr
        cases hr
      · rw [hother t htp]
        exact h.starts r hr t ht
  · by_cases hrp : r = p
    · subst hrp
      exact hwrite i (hself.symm.trans hr)
    · have hr' := (hother r hrp).symm.trans hr
      rcases hfile with hfile | hfile
      · rw [hfile]
        exact h.write r i hr'
      · exact absurd hr' ((hfile r hrp).2 i)

theorem Inv.leave (h : s.Inv) (hpoint : point = .outside ∨ point = .absent) : (s.setPoint p point).Inv := by
  refine h.update rfl (.inl rfl) ?_ ?_ ?_ ?_ ?_ ?_
  all_goals
    rcases hpoint with rfl | rfl
    all_goals simp [PidPoint.foundNone, PidPoint.starts, PidPoint.looks]

theorem Alone.starts_eq_false (h : s.Alone p caller) : ∀ r, r ≠ p → (s.procs r).starts = false := by
  intro r hr
  cases caller with
  | static => exact h r hr
  | pidFile =>
    by_contra hstarts
    have hlooks := looks_of_starts (Bool.not_eq_false _ ▸ hstarts)
    rw [h r hr] at hlooks
    cases hlooks

theorem Alone.looks_eq_false (h : s.Alone p caller) (hstarts : caller = .pidFile) :
    ∀ r, r ≠ p → (s.procs r).looks = false := by
  subst hstarts
  exact h

/-- A process reads the file: a running agent is the one it finds. -/
theorem Inv.call (h : s.Inv) (hp : s.procs p = .outside) (hok : s.Alone p caller) : (s.call p caller).Inv := by
  have hresume : (∀ r, s.procs r ≠ .running) → (s.setPoint p caller.resume).Inv := by
    intro hnone
    refine h.update rfl (.inl rfl) ?_ ?_ ?_ ?_ ?_ ?_
    · cases caller <;> exact fun heq => by cases heq
    · cases caller <;> exact fun _ _ heq => by cases heq
    · exact fun _ r _ => hnone r
    · refine fun hstarts => hok.looks_eq_false ?_
      cases caller with
      | pidFile => rfl
      | static => cases hstarts
    · exact fun _ => hok.starts_eq_false
    · cases caller <;> exact fun _ heq => by cases heq
  unfold PidState.call
  cases hstored : s.storedPid with
  | none =>
    refine hresume fun r hr => ?_
    rw [storedPid_of_names (h.running r hr)] at hstored
    cases hstored
  | some pid =>
    have hrunning : ∀ r, s.procs r = .running → r = pid := fun r hr =>
      Option.some.inj ((storedPid_of_names (h.running r hr)).symm.trans hstored)
    dsimp only
    split_ifs with hpid
    · refine hresume fun r hr => ?_
      rw [hrunning r hr, hpid, hp] at hr
      cases hr
    · refine h.update rfl (.inl rfl) (fun heq => by cases heq) ?_ (fun heq => by cases heq) ?_ ?_
        fun _ heq => by cases heq
      · intro caller' pid' heq r _ hr
        cases heq
        exact hrunning r hr
      · refine fun hstarts => hok.looks_eq_false ?_
        cases caller with
        | pidFile => rfl
        | static => cases hstarts
      · exact fun _ => hok.starts_eq_false

theorem Inv.starts_eq_false (h : s.Inv) (hp : (s.procs p).looks = true) : ∀ r, r ≠ p → (s.procs r).starts = false := by
  intro r hr
  by_contra hstarts
  have hlooks := h.starts r (Bool.not_eq_false _ ▸ hstarts) p (Ne.symm hr)
  rw [hp] at hlooks
  cases hlooks

theorem Inv.advance (h : s.Inv) (hp : (s.procs p).looks = true) (hnone : ∀ r, r ≠ p → s.procs r ≠ .running)
    (hprocs : s'.procs = Function.update s.procs p point) (hpoint : point ≠ .running)
    (hfound : ∀ caller pid, point ≠ .found caller pid) (hstarts : point.starts = true → (s.procs p).starts = true)
    (hwrite : ∀ i, point = .write i → s'.file = some ⟨i, []⟩) : s'.Inv := by
  have hothers := h.starts_eq_false hp
  refine h.update hprocs (.inr fun r hr => ⟨hnone r hr, fun i hwrites => ?_⟩) (fun heq => absurd heq hpoint)
    (fun caller pid heq => absurd heq (hfound caller pid)) (fun _ => hnone)
    (fun hstarting => h.starts p (hstarts hstarting)) (fun _ => hothers) hwrite
  have := hothers r hr
  rw [hwrites] at this
  cases this

theorem resume_ne (caller : PidCaller) : caller.resume ≠ .running ∧ (∀ c pid, caller.resume ≠ .found c pid) ∧
    ∀ i, caller.resume ≠ .write i := by
  cases caller <;> simp [PidCaller.resume]

theorem Inv.resume (h : s.Inv) (hp : (s.procs p).looks = true) (hnone : ∀ r, r ≠ p → s.procs r ≠ .running)
    (hprocs : s'.procs = Function.update s.procs p caller.resume)
    (hstarts : caller = .pidFile → (s.procs p).starts = true) : s'.Inv := by
  obtain ⟨hrunning, hfound, hwrite⟩ := resume_ne caller
  refine h.advance hp hnone hprocs hrunning hfound (fun hstarting => hstarts ?_) fun i heq => absurd heq (hwrite i)
  cases caller with
  | pidFile => rfl
  | static => cases hstarting

theorem Inv.look (h : s.Inv) (hp : (s.procs p).looks = true) (hnone : ∀ r, r ≠ p → s.procs r ≠ .running)
    (hpoint : point = .dead caller ∨ point = .stale caller ∨ point = .clear caller ∨ point = .notCleared caller)
    (hstarts : caller = .pidFile → (s.procs p).starts = true) : (s.setPoint p point).Inv := by
  refine h.advance hp hnone rfl ?_ ?_ (fun hstarting => hstarts ?_) ?_
  · rcases hpoint with rfl | rfl | rfl | rfl <;> exact fun heq => by cases heq
  · rcases hpoint with rfl | rfl | rfl | rfl <;> exact fun _ _ heq => by cases heq
  · cases caller with
    | pidFile => rfl
    | static => rcases hpoint with rfl | rfl | rfl | rfl <;> cases hstarting
  · rcases hpoint with rfl | rfl | rfl | rfl <;> exact fun _ heq => by cases heq

theorem Inv.next (h : s.Inv) (hstep : s.next p = .ok s') : s'.Inv := by
  unfold PidState.next at hstep
  cases hp : s.procs p with
  | absent =>
    rw [hp] at hstep
    cases hstep
  | outside =>
    rw [hp] at hstep
    cases hstep
  | found caller pid =>
    rw [hp] at hstep
    obtain rfl := Except.ok.inj hstep
    have hstarts : caller = .pidFile → (s.procs p).starts = true := by
      rintro rfl
      rw [hp]
      rfl
    split_ifs with habsent
    · refine h.look (by rw [hp]; rfl) (fun r _ hr => ?_) (.inl rfl) hstarts
      rw [h.found p caller pid hp r hr, habsent] at hr
      cases hr
    · exact h.leave (.inl rfl)
  | dead caller =>
    rw [hp] at hstep
    obtain rfl := Except.ok.inj hstep
    have hnone := h.foundNone p (by rw [hp]; rfl)
    have hstarts : caller = .pidFile → (s.procs p).starts = true := by
      rintro rfl
      rw [hp]
      rfl
    split_ifs
    · exact h.look (by rw [hp]; rfl) (fun r _ => hnone r) (.inr (.inl rfl)) hstarts
    · exact h.resume (by rw [hp]; rfl) (fun r _ => hnone r) rfl hstarts
  | stale caller =>
    rw [hp] at hstep
    obtain rfl := Except.ok.inj hstep
    have hnone := h.foundNone p (by rw [hp]; rfl)
    have hstarts : caller = .pidFile → (s.procs p).starts = true := by
      rintro rfl
      rw [hp]
      rfl
    split_ifs
    · exact h.look (by rw [hp]; rfl) (fun r _ => hnone r) (.inr (.inr (.inl rfl))) hstarts
    · exact h.leave (.inl rfl)
  | clear caller =>
    rw [hp] at hstep
    obtain rfl := Except.ok.inj hstep
    have hnone := h.foundNone p (by rw [hp]; rfl)
    have hstarts : caller = .pidFile → (s.procs p).starts = true := by
      rintro rfl
      rw [hp]
      rfl
    split_ifs
    · exact h.resume (by rw [hp]; rfl) (fun r _ => hnone r) rfl hstarts
    · exact h.look (by rw [hp]; rfl) (fun r _ => hnone r) (.inr (.inr (.inr rfl))) hstarts
  | notCleared caller =>
    rw [hp] at hstep
    obtain rfl := Except.ok.inj hstep
    have hnone := h.foundNone p (by rw [hp]; rfl)
    have hstarts : caller = .pidFile → (s.procs p).starts = true := by
      rintro rfl
      rw [hp]
      rfl
    split_ifs
    · exact h.leave (.inl rfl)
    · exact h.resume (by rw [hp]; rfl) (fun r _ => hnone r) rfl hstarts
  | create =>
    rw [hp] at hstep
    obtain rfl := Except.ok.inj hstep
    have hnone := h.foundNone p (by rw [hp]; rfl)
    have hlooks : (s.procs p).looks = true := by rw [hp]; rfl
    have hstarts : (s.procs p).starts = true := by rw [hp]; rfl
    unfold PidState.create
    cases hfile : s.file with
    | none =>
      refine h.advance hlooks (fun r _ => hnone r) rfl (fun h => by cases h) (fun _ _ h => by cases h)
        (fun _ => hstarts) fun i heq => ?_
      cases heq
      rfl
    | some f =>
      refine h.advance hlooks (fun r _ => hnone r) rfl (fun h => by cases h) (fun _ _ h => by cases h)
        (fun _ => hstarts) fun i heq => ?_
      cases heq
      rfl
  | write inode =>
    rw [hp] at hstep
    obtain rfl := Except.ok.inj hstep
    have hnone := h.foundNone p (by rw [hp]; rfl)
    have hothers := h.starts p (by rw [hp]; rfl)
    refine h.update rfl (.inr fun r hr => ⟨hnone r, fun i hwrites => ?_⟩)
      (fun _ => ⟨?_, fun r hr => ⟨hnone r, hothers r hr⟩⟩)
      (fun _ _ h => by cases h) (fun h => by cases h) (fun h => by cases h) (fun h => by cases h) fun _ h => by cases h
    · have := hothers r hr
      rw [hwrites] at this
      cases this
    · -- nobody changed the file since it was opened
      refine ⟨⟨inode, dec p⟩, ?_, rfl⟩
      show s.file.map _ = _
      rw [h.write p inode hp, Option.map_some, if_pos rfl, List.drop_nil, List.append_nil]
  | running =>
    rw [hp] at hstep
    obtain rfl := Except.ok.inj hstep
    refine h.update rfl (.inr fun r hr => ⟨fun hrun => ?_, fun i hwrites => ?_⟩) (fun h => by cases h)
      (fun _ _ h => by cases h) (fun h => by cases h) (fun h => by cases h) (fun h => by cases h) fun _ h => by cases h
    · exact hr ((h.running r hrun).unique (h.running p hp))
    · exact h.foundNone r (by rw [hwrites]; rfl) p hp

theorem Inv.step (h : s.Inv) {a : PidAct} (hok : s.NoOverlap a) (hstep : s.step a = .ok s') : s'.Inv := by
  cases a with
  | spawn p =>
    simp only [PidState.step] at hstep
    split_ifs at hstep
    obtain rfl := Except.ok.inj hstep
    exact h.leave (.inl rfl)
  | exit p =>
    simp only [PidState.step] at hstep
    split_ifs at hstep
    obtain rfl := Except.ok.inj hstep
    exact h.leave (.inr rfl)
  | call p caller =>
    simp only [PidState.step] at hstep
    split_ifs at hstep with hp
    obtain rfl := Except.ok.inj hstep
    exact h.call hp hok
  | next p => exact h.next hstep

/-! ### An undisturbed start -/

/-- The process goes on until it has done with the file, for at most so many operations. -/
def nextAlone (p : ℕ) : ℕ → PidState → Except Unit PidState
  | 0, s => .ok s
  | n + 1, s => if (s.procs p).looks then s.next p >>= nextAlone p n else .ok s

/-- The process starts, and no other one does anything meanwhile. -/
def startAlone (s : PidState) (p : ℕ) : Except Unit PidState := nextAlone p 6 (s.call p .pidFile)

/-- A start is refused because of a process with the id in the file, or the agent runs. -/
inductive Starts (s : PidState) (p : ℕ) : Prop
  | refused (pid : ℕ) (hstored : s.storedPid = some pid) (hne : pid ≠ p) (hpid : s.procs pid ≠ .absent)
    (hstart : s.startAlone p = .ok s)
  | started (s' : PidState) (hfree : ∀ pid, s.storedPid = some pid → pid = p ∨ s.procs pid = .absent)
    (hstart : s.startAlone p = .ok s') (hprocs : s'.procs = Function.update s.procs p .running) (hnames : s'.Names p)

theorem nextAlone_of_next {n : ℕ} (hp : (s.procs p).looks = true) (hstep : s.next p = .ok s') :
    nextAlone p (n + 1) s = nextAlone p n s' := by
  rw [nextAlone, if_pos hp, hstep]
  rfl

theorem nextAlone_of_done {n : ℕ} (hp : (s.procs p).looks = false) : nextAlone p n s = .ok s := by
  cases n with
  | zero => rfl
  | succ n =>
    rw [nextAlone, hp]
    rfl

theorem setPoint_setPoint (s : PidState) (p : ℕ) (point point' : PidPoint) :
    (s.setPoint p point).setPoint p point' = s.setPoint p point' := by
  unfold setPoint
  rw [Function.update_idem]

theorem create_eq (s : PidState) (p : ℕ) : ∃ i, (s.create p).procs = Function.update s.procs p (.write i) ∧
    (s.create p).file = some ⟨i, []⟩ := by
  unfold PidState.create
  cases s.file with
  | none => exact ⟨_, rfl, rfl⟩
  | some f => exact ⟨_, rfl, rfl⟩

/-- The agent runs, and everything else is as it was. -/
def RunsAfter (s : PidState) (p n : ℕ) : Prop :=
  ∃ s', nextAlone p n s = .ok s' ∧ s'.procs = Function.update s.procs p .running ∧ s'.Names p

theorem RunsAfter.next {n : ℕ} (h : s'.RunsAfter p n) (hp : (s.procs p).looks = true) (hstep : s.next p = .ok s')
    (hprocs : s'.procs = Function.update s.procs p point) : s.RunsAfter p (n + 1) := by
  obtain ⟨t, hnext, htprocs, hnames⟩ := h
  refine ⟨t, (nextAlone_of_next hp hstep).trans hnext, ?_, hnames⟩
  rw [htprocs, hprocs, Function.update_idem]

theorem runsAfter_create {n : ℕ} (hp : s.procs p = .create) : s.RunsAfter p (n + 2) := by
  obtain ⟨i, hprocs, hfile⟩ := create_eq s p
  have hself : (s.create p).procs p = .write i := by rw [hprocs, Function.update_self]
  have hcreate : s.next p = .ok (s.create p) := by rw [PidState.next, hp]
  refine RunsAfter.next ?_ (by rw [hp]; rfl) hcreate hprocs
  have hstep : (s.create p).next p = .ok ((s.create p).write p i) := by rw [PidState.next, hself]
  have hrunning : ((s.create p).write p i).procs p = .running := Function.update_self ..
  have hdone : (((s.create p).write p i).procs p).looks = false := by rw [hrunning]; rfl
  refine ⟨_, (nextAlone_of_next (by rw [hself]; rfl) hstep).trans (nextAlone_of_done hdone), rfl, ⟨i, dec p⟩, ?_, rfl⟩
  show (s.create p).file.map _ = _
  rw [hfile, Option.map_some, if_pos rfl, List.drop_nil, List.append_nil]

theorem runsAfter_dead {n : ℕ} (hp : s.procs p = .dead .pidFile) : s.RunsAfter p (n + 5) := by
  have hlooks : (s.procs p).looks = true := by rw [hp]; rfl
  cases hfile : s.file with
  | none =>
    have hstep : s.next p = .ok (s.setPoint p .create) := by rw [PidState.next, hp]; simp [hfile, PidCaller.resume]
    exact (runsAfter_create (Function.update_self ..)).next hlooks hstep rfl
  | some f =>
    have hstep : s.next p = .ok (s.setPoint p (.stale .pidFile)) := by rw [PidState.next, hp]; simp [hfile]
    refine RunsAfter.next ?_ hlooks hstep rfl
    set t := s.setPoint p (.stale .pidFile) with ht
    have hpt : t.procs p = .stale .pidFile := Function.update_self ..
    have hstep' : t.next p = .ok (t.setPoint p (.clear .pidFile)) := by
      rw [PidState.next, hpt]
      show Except.ok (t.setPoint p (if s.file.isSome = true then _ else _)) = _
      rw [hfile]
      rfl
    refine RunsAfter.next ?_ (by rw [hpt]; rfl) hstep' rfl
    set u := t.setPoint p (.clear .pidFile) with hu
    have hpu : u.procs p = .clear .pidFile := Function.update_self ..
    have hstep'' : u.next p = .ok { u.setPoint p .create with file := none } := by
      rw [PidState.next, hpu]
      show Except.ok (if s.file.isSome = true then _ else _) = _
      rw [hfile]
      rfl
    exact (runsAfter_create (Function.update_self ..)).next (by rw [hpu]; rfl) hstep'' rfl

/-- Whatever other processes left behind, an undisturbed start is refused only because of a process that has the id in
the file. -/
theorem starts (hp : s.procs p = .outside) : s.Starts p := by
  have hrestore : (s.setPoint p .outside) = s := by
    unfold setPoint
    rw [← hp, Function.update_eq_self]
  have hcreate : s.call p .pidFile = s.setPoint p .create →
      (∀ pid, s.storedPid = some pid → pid = p ∨ s.procs pid = .absent) → s.Starts p := by
    intro heq hfree
    obtain ⟨s', hnext, hprocs, hnames⟩ : (s.setPoint p .create).RunsAfter p (4 + 2) :=
      runsAfter_create (Function.update_self ..)
    refine .started s' hfree ?_ ?_ hnames
    · rw [startAlone, heq]
      exact hnext
    · rw [hprocs]
      exact Function.update_idem ..
  cases hstored : s.storedPid with
  | none =>
    refine hcreate ?_ fun pid heq => by rw [hstored] at heq; cases heq
    rw [PidState.call, hstored]
    rfl
  | some pid =>
    by_cases hpid : pid = p
    · refine hcreate ?_ fun pid' heq => .inl ?_
      · rw [PidState.call, hstored]
        show s.setPoint p (if pid = p then _ else _) = _
        rw [if_pos hpid]
        rfl
      · rw [hstored] at heq
        exact (Option.some.inj heq).symm.trans hpid
    · have heq : s.call p .pidFile = s.setPoint p (.found .pidFile pid) := by
        rw [PidState.call, hstored]
        show s.setPoint p (if pid = p then _ else _) = _
        rw [if_neg hpid]
      have hself : (s.setPoint p (.found .pidFile pid)).procs p = .found .pidFile pid := Function.update_self ..
      have hpidProc : (s.setPoint p (.found .pidFile pid)).procs pid = s.procs pid := Function.update_of_ne hpid ..
      have hlooks : ((s.setPoint p (.found .pidFile pid)).procs p).looks = true := by rw [hself]; rfl
      by_cases habsent : s.procs pid = .absent
      · have hstep : (s.setPoint p (.found .pidFile pid)).next p = .ok (s.setPoint p (.dead .pidFile)) := by
          rw [PidState.next, hself]
          show Except.ok (PidState.setPoint _ p (if _ then _ else _)) = _
          rw [hpidProc, if_pos habsent, setPoint_setPoint]
        obtain ⟨s', hnext, hprocs, hnames⟩ : (s.setPoint p (.dead .pidFile)).RunsAfter p (0 + 5) :=
          runsAfter_dead (Function.update_self ..)
        refine .started s' (fun pid' hpid' => .inr ?_) ?_ ?_ hnames
        · rw [hstored] at hpid'
          exact Option.some.inj hpid' ▸ habsent
        · rw [startAlone, heq, nextAlone_of_next hlooks hstep]
          exact hnext
        · rw [hprocs]
          exact Function.update_idem ..
      · have hstep : (s.setPoint p (.found .pidFile pid)).next p = .ok s := by
          rw [PidState.next, hself]
          show Except.ok (PidState.setPoint _ p (if _ then _ else _)) = _
          rw [hpidProc, if_neg habsent, setPoint_setPoint, hrestore]
        refine .refused pid hstored hpid habsent ?_
        rw [startAlone, heq, nextAlone_of_next hlooks hstep]
        exact nextAlone_of_done (by rw [hp]; rfl)

/-! ### At most one agent -/

/-- At most one agent runs, the one that the file names; what an undisturbed start leads to. -/
structure Exclusive (s : PidState) : Prop where
  unique : ∀ p q, s.procs p = .running → s.procs q = .running → p = q
  names : ∀ p, s.procs p = .running → s.Names p
  starts : ∀ p, s.procs p = .outside → s.Starts p

/-- No process is an agent, or looks at the file. A file that a former agent left is empty or names it. -/
structure Initial (s : PidState) : Prop where
  procs : ∀ p, s.procs p = .absent ∨ s.procs p = .outside
  file : ∀ f, s.file = some f → f.text = [] ∨ ∃ p, 0 < p ∧ f.text = dec p

variable {s₀ : PidState}

theorem Initial.inv (h : s₀.Initial) : s₀.Inv := by
  have hlooks : ∀ p, (s₀.procs p).looks = false ∧ s₀.procs p ≠ .running := by
    intro p
    rcases h.procs p with hp | hp <;> rw [hp] <;> exact ⟨rfl, fun h => by cases h⟩
  refine ⟨fun p hp => absurd hp (hlooks p).2, fun p c pid hp => ?_, fun _ _ r => (hlooks r).2,
    fun _ _ r _ => (hlooks r).1, fun p i hp => ?_⟩
  · have := (hlooks p).1
    rw [hp] at this
    cases this
  · have := (hlooks p).1
    rw [hp] at this
    cases this

/-- In every run in which no start overlaps with another look at the file, with processes that come and go at any
moment, at most one agent runs, and the file names it. -/
theorem pidFile_exclusive (hinit : s₀.Initial) (hrun : Run.Reaches step NoOverlap s₀ s) : s.Exclusive := by
  have hinv : s.Inv := hrun.invariant hinit.inv fun _ _ _ h hok hstep => h.step hok hstep
  exact ⟨fun p q hp hq => (hinv.running p hp).unique (hinv.running q hq), hinv.running, fun p hp => starts hp⟩

/-- Two processes that are no agents, and the file of an agent that was killed. -/
def killed : PidState := ⟨some ⟨0, dec 7⟩, 1, fun p => if p = 1 ∨ p = 2 then .outside else .absent⟩

theorem initial_killed : killed.Initial := by
  refine ⟨fun p => ?_, fun f hf => .inr ⟨7, by decide, ?_⟩⟩
  · unfold killed
    dsimp only
    split_ifs
    · exact .inr rfl
    · exact .inl rfl
  · rw [← Option.some.inj hf]

theorem pidFile_exclusive_example : ∃ s, Run.Reaches step NoOverlap killed s ∧ s.procs 1 = .running ∧ s.Exclusive := by
  have hrun : Run.Reaches step NoOverlap killed killed := .refl
  have halone : killed.Alone 1 .pidFile := fun r _ => by
    rcases initial_killed.procs r with hr | hr <;> rw [hr] <;> rfl
  have hrun := hrun.step (PidAct.call 1 .pidFile) halone rfl
  have hrun := hrun.step (PidAct.next 1) trivial rfl
  have hrun := hrun.step (PidAct.next 1) trivial rfl
  have hrun := hrun.step (PidAct.next 1) trivial rfl
  have hrun := hrun.step (PidAct.next 1) trivial rfl
  have hrun := hrun.step (PidAct.next 1) trivial rfl
  have hrun := hrun.step (PidAct.next 1) trivial rfl
  exact ⟨_, hrun, rfl, pidFile_exclusive initial_killed hrun⟩

/-- Two agents whose starts overlap may both run. -/
theorem pidFile_overlap : ¬ ∀ s, Run.Reaches step (fun _ _ => True) killed s →
    ∀ p q, s.procs p = .running → s.procs q = .running → p = q := by
  intro h
  have hrun : Run.Reaches step (fun _ _ => True) killed killed := .refl
  have hrun := hrun.step (PidAct.call 1 .pidFile) trivial rfl
  have hrun := hrun.step (PidAct.next 1) trivial rfl
  have hrun := hrun.step (PidAct.next 1) trivial rfl
  have hrun := hrun.step (PidAct.next 1) trivial rfl
  have hrun := hrun.step (PidAct.next 1) trivial rfl
  have hrun := hrun.step (PidAct.call 2 .pidFile) trivial rfl
  have hrun := hrun.step (PidAct.next 1) trivial rfl
  have hrun := hrun.step (PidAct.next 1) trivial rfl
  have hrun := hrun.step (PidAct.next 2) trivial rfl
  have hrun := hrun.step (PidAct.next 2) trivial rfl
  exact absurd (h _ hrun 1 2 rfl rfl) (by decide)

end PidState

end Uno
