import Mathlib.Algebra.Order.Ring.Rat
import Mathlib.Tactic.Linarith
import GpuPipe.Library.ByteMemory
import GpuPipe.Library.Machine

/-!
# What the health monitor does about crashes

One monitor notes the crashes of each worker over a window of time, and starts the whole pipeline anew after
a serious crash or the third one within the window; otherwise it respawns the crashed workers in their slots
(`Lifecycle.Slots`). A pass is given the time, the workers it has found dead, whether the pipe drains, and
whether a full restart goes through. `respawned` is history since the last one; no branch reads it.
-/

namespace GpuPipe.Crashes

/-- An entry of `crashed_workers`. -/
structure Crash where
  slot : ℕ
  workerId : Bytes
  exitcode : ℤ

/-- An entry of `crash_history`, or a respawn. -/
structure Record where
  time : ℚ
  workerId : Bytes
  exitcode : ℤ

/-- `CRASH_WINDOW`, in seconds. -/
def crashWindow : ℚ := 300

def maxCrashesInWindow : ℕ := 3

/-- SIGSEGV or SIGBUS. -/
def serious (exitcode : ℤ) : Bool := exitcode = -11 || exitcode = -7

def Crash.at (now : ℚ) (crash : Crash) : Record := ⟨now, crash.workerId, crash.exitcode⟩

/-- `crash_history`; a missing key is an empty list. -/
abbrev History := Bytes → List Record

/-- Append a crash, and drop what has left the window. -/
def note (now : ℚ) (history : History) (crash : Crash) : History :=
  Function.update history crash.workerId
    ((history crash.workerId ++ [crash.at now]).filter fun record ↦ now - record.time < crashWindow)

/-- The loop over the crashes, and `need_full_restart`. -/
def assess (now : ℚ) : History → List Crash → History × Bool
  | history, [] => (history, false)
  | history, crash :: rest =>
    let history := note now history crash
    if serious crash.exitcode then (history, true)
    else if maxCrashesInWindow ≤ (history crash.workerId).length then (history, true)
    else assess now history rest

/-- What one pass of the monitor reads. -/
structure Scan where
  now : ℚ
  crashes : List Crash
  draining : Bool
  /-- `restart` does not raise. -/
  completes : Bool

structure Monitor where
  clock : ℚ
  history : History
  respawned : List Record

def Monitor.new : Monitor where
  clock := 0
  history _ := []
  respawned := []

section Pass

variable (allowFullRestart : Bool) (monitor : Monitor) (scan : Scan)

/-- What follows a scan that has found crashes. -/
def answer : Monitor :=
  let (history, needFullRestart) := assess scan.now monitor.history scan.crashes
  if needFullRestart && allowFullRestart && !scan.draining then
    if scan.completes then { clock := scan.now, history := fun _ ↦ [], respawned := [] }
    else { monitor with clock := scan.now, history := history }
  else
    { clock := scan.now
      history := history
      respawned := monitor.respawned ++ scan.crashes.map (Crash.at scan.now) }

/-- The clock does not go back. -/
def pass : Option Monitor :=
  if monitor.clock ≤ scan.now then
    if scan.crashes = [] then some { monitor with clock := scan.now }
    else some (answer allowFullRestart monitor scan)
  else none

end Pass

def machine (allowFullRestart : Bool) : Machine Monitor Scan where
  start := .new
  step := pass allowFullRestart

/-- How many records of a worker lie behind a time. -/
def since (id : Bytes) (start : ℚ) (records : List Record) : ℕ :=
  records.countP fun record ↦ record.workerId = id && start < record.time

/-- How many records of a worker lie in the window that begins at a time. -/
def within (id : Bytes) (start : ℚ) (records : List Record) : ℕ :=
  records.countP fun record ↦
    record.workerId = id && (start ≤ record.time && record.time < start + crashWindow)

/-! ## What the crash history holds -/

section Assess

variable {now start : ℚ} {history next : History} {crash : Crash} {crashes : List Crash} {id : Bytes}

theorem since_append (first second : List Record) :
    since id start (first ++ second) = since id start first + since id start second := List.countP_append

/-- Dropping what has left the window changes nothing behind its beginning. -/
theorem since_filter (hstart : now - crashWindow ≤ start) (records : List Record) :
    since id start (records.filter fun record ↦ now - record.time < crashWindow) = since id start records := by
  unfold since
  rw [List.countP_filter]
  apply List.countP_congr
  intro record _
  simp only [Bool.and_eq_true, decide_eq_true_eq]
  constructor
  · intro h
    exact h.1
  · intro h
    exact ⟨h, by linarith [h.2]⟩

/-- Noting a crash adds it to its worker's records. -/
theorem since_note (hstart : now - crashWindow ≤ start) :
    since id start (note now history crash id) =
      since id start (history id) + since id start [crash.at now] := by
  by_cases hid : id = crash.workerId
  · rw [hid, note, Function.update_self, since_filter hstart, since_append]
  · have hother : since id start [crash.at now] = 0 := by
      unfold since
      rw [List.countP_singleton]
      simp [Crash.at, Ne.symm hid]
    rw [note, Function.update_of_ne hid, hother, Nat.add_zero]

/-- What the loop does with one crash. -/
theorem assess_cons (crash : Crash) (rest : List Crash) :
    assess now history (crash :: rest) =
      if serious crash.exitcode = true ∨
          maxCrashesInWindow ≤ (note now history crash crash.workerId).length then
        (note now history crash, true)
      else assess now (note now history crash) rest := by
  rw [assess]
  split
  · rw [if_pos (.inl ‹_›)]
  · split
    · rw [if_pos (.inr ‹_›)]
    · rw [if_neg (not_or.mpr ⟨‹_›, ‹_›⟩)]

/-- No crash younger than the window is forgotten. -/
theorem le_since_assess (hstart : now - crashWindow ≤ start) :
    since id start (history id) ≤ since id start ((assess now history crashes).1 id) := by
  induction crashes generalizing history with
  | nil => exact le_rfl
  | cons crash rest ih =>
    have hnote : since id start (history id) ≤ since id start (note now history crash id) := by
      rw [since_note hstart]
      exact Nat.le_add_right _ _
    rw [assess_cons]
    split
    · exact hnote
    · exact hnote.trans ih

/-- The records of a worker that has not crashed stay. -/
theorem assess_of_notMem (hid : ∀ crash ∈ crashes, crash.workerId ≠ id) :
    (assess now history crashes).1 id = history id := by
  induction crashes generalizing history with
  | nil => rfl
  | cons crash rest ih =>
    have hnote : note now history crash id = history id :=
      Function.update_of_ne (Ne.symm (hid crash List.mem_cons_self)) _ _
    rw [assess_cons]
    split
    · exact hnote
    · rw [ih fun later hlater ↦ hid later (List.mem_cons_of_mem _ hlater), hnote]

/-- Without a reason for a full restart every crash has been noted. -/
theorem since_assess (h : assess now history crashes = (next, false)) (hstart : now - crashWindow ≤ start) :
    since id start (next id) = since id start (history id) + since id start (crashes.map (Crash.at now)) := by
  induction crashes generalizing history with
  | nil =>
    cases h
    rfl
  | cons crash rest ih =>
    rw [assess_cons] at h
    split at h
    · cases h
    · have hfirst : since id start ((crash :: rest).map (Crash.at now)) =
          since id start [crash.at now] + since id start (rest.map (Crash.at now)) :=
        since_append [crash.at now] (rest.map (Crash.at now))
      rw [ih h, since_note hstart, hfirst, Nat.add_assoc]

/-- Without a reason for a full restart no crash is serious, and no worker has as many as three. -/
theorem assess_ordinary (h : assess now history crashes = (next, false)) :
    ∀ crash ∈ crashes, serious crash.exitcode = false ∧ (next crash.workerId).length < maxCrashesInWindow := by
  induction crashes generalizing history with
  | nil =>
    intro crash hcrash
    cases hcrash
  | cons first rest ih =>
    rw [assess_cons] at h
    split at h
    · cases h
    · rename_i hordinary
      rw [not_or, Bool.not_eq_true, Nat.not_le] at hordinary
      intro crash hcrash
      rcases List.mem_cons.mp hcrash with rfl | hrest
      · constructor
        · exact hordinary.1
        · by_cases hagain : ∃ later ∈ rest, later.workerId = crash.workerId
          · obtain ⟨later, hlater, hsame⟩ := hagain
            rw [← hsame]
            exact (ih h later hlater).2
          · -- the last crash of this worker
            have hstay : next crash.workerId = note now history crash crash.workerId := by
              have hsame := @assess_of_notMem now (note now history crash) rest crash.workerId
                fun later hlater hsame ↦ hagain ⟨later, hlater, hsame⟩
              rwa [h] at hsame
            rw [hstay]
            exact hordinary.2
      · exact ih h crash hrest

end Assess

/-! ## How often a worker is respawned -/

/-- What the respawns since the last full restart have to do with the history. -/
structure Limited (monitor : Monitor) : Prop where
  recorded : ∀ id start, monitor.clock - crashWindow ≤ start →
    since id start monitor.respawned ≤ since id start (monitor.history id)
  past : ∀ record ∈ monitor.respawned, record.time ≤ monitor.clock
  limited : ∀ id start, within id start monitor.respawned < maxCrashesInWindow
  ordinary : ∀ record ∈ monitor.respawned, serious record.exitcode = false

theorem limited_nil {clock : ℚ} {history : History} : Limited ⟨clock, history, []⟩ where
  recorded _ _ _ := Nat.zero_le _
  past record h := by
    cases h
  limited _ _ := Nat.zero_lt_succ _
  ordinary record h := by
    cases h

section Steps

variable {monitor next : Monitor} {scan : Scan}

/-- A pass that respawns nobody. -/
theorem Limited.wait (h : Limited monitor) (hclock : monitor.clock ≤ scan.now) {history : History}
    (hhistory : ∀ id start, scan.now - crashWindow ≤ start →
      since id start (monitor.history id) ≤ since id start (history id)) :
    Limited { monitor with clock := scan.now, history := history } where
  recorded id start hstart := by
    have hstart : scan.now - crashWindow ≤ start := hstart
    exact (h.recorded id start (by linarith)).trans (hhistory id start hstart)
  past record hrecord := (h.past record hrecord).trans hclock
  limited := h.limited
  ordinary := h.ordinary

/-- A pass that respawns the workers which have crashed. -/
theorem Limited.respawn (h : Limited monitor) (hclock : monitor.clock ≤ scan.now) {history : History}
    (hassess : assess scan.now monitor.history scan.crashes = (history, false)) :
    Limited
      { clock := scan.now
        history := history
        respawned := monitor.respawned ++ scan.crashes.map (Crash.at scan.now) } := by
  have hrecorded : ∀ id start, scan.now - crashWindow ≤ start →
      since id start (monitor.respawned ++ scan.crashes.map (Crash.at scan.now)) ≤
        since id start (history id) := by
    intro id start hstart
    rw [since_append, since_assess hassess hstart]
    exact Nat.add_le_add_right (h.recorded id start (by linarith)) _
  constructor
  · exact hrecorded
  · intro record hrecord
    rcases List.mem_append.mp hrecord with hold | hnew
    · exact (h.past record hold).trans hclock
    · obtain ⟨crash, _, rfl⟩ := List.mem_map.mp hnew
      exact le_rfl
  · intro id start
    show within id start (monitor.respawned ++ scan.crashes.map (Crash.at scan.now)) < maxCrashesInWindow
    by_cases hnew : ∃ crash ∈ scan.crashes,
        crash.workerId = id ∧ start ≤ scan.now ∧ scan.now < start + crashWindow
    · -- a window that holds this pass reaches back less than the history does
      obtain ⟨crash, hcrash, rfl, hle, hlt⟩ := hnew
      calc
        _ ≤ since crash.workerId (scan.now - crashWindow)
            (monitor.respawned ++ scan.crashes.map (Crash.at scan.now)) := by
          apply List.countP_mono_left
          intro record _ hrecord
          simp only [Bool.and_eq_true, decide_eq_true_eq] at hrecord ⊢
          exact ⟨hrecord.1, by linarith [hrecord.2.1]⟩
        _ ≤ since crash.workerId (scan.now - crashWindow) (history crash.workerId) := hrecorded _ _ le_rfl
        _ ≤ (history crash.workerId).length := List.countP_le_length
        _ < maxCrashesInWindow := (assess_ordinary hassess crash hcrash).2
    · have hzero : within id start (scan.crashes.map (Crash.at scan.now)) = 0 := by
        rw [within, List.countP_eq_zero]
        intro record hrecord hin
        obtain ⟨crash, hcrash, rfl⟩ := List.mem_map.mp hrecord
        simp only [Bool.and_eq_true, decide_eq_true_eq] at hin
        exact hnew ⟨crash, hcrash, hin⟩
      have hsplit : within id start (monitor.respawned ++ scan.crashes.map (Crash.at scan.now)) =
          within id start monitor.respawned + within id start (scan.crashes.map (Crash.at scan.now)) :=
        List.countP_append
      rw [hsplit, hzero, Nat.add_zero]
      exact h.limited id start
  · intro record hrecord
    rcases List.mem_append.mp hrecord with hold | hnew
    · exact h.ordinary record hold
    · obtain ⟨crash, hcrash, rfl⟩ := List.mem_map.mp hnew
      exact (assess_ordinary hassess crash hcrash).1

/-- A pass of a pipe that does not drain keeps the respawns since the last full restart within the history. -/
theorem pass_limited (h : Limited monitor) (hdraining : scan.draining = false)
    (hpass : pass true monitor scan = some next) : Limited next := by
  unfold pass at hpass
  split at hpass
  · rename_i hclock
    split at hpass
    · cases hpass
      exact h.wait hclock fun _ _ _ ↦ le_rfl
    · cases hpass
      unfold answer
      have hmono := fun id start ↦ @le_since_assess scan.now start monitor.history scan.crashes id
      rcases hassess : assess scan.now monitor.history scan.crashes with ⟨history, needFullRestart⟩
      rw [hassess] at hmono
      rw [hdraining]
      cases needFullRestart with
      | true =>
        cases hcompletes : scan.completes with
        | true => exact limited_nil
        | false => exact h.wait hclock hmono
      | false => exact h.respawn hclock hassess
  · cases hpass

end Steps

/-- With full restarts allowed and no drain, a monitor never respawns a worker a third time within the
window since the last full restart, and never one that died of a serious error. -/
theorem respawn_limit {monitor : Monitor}
    (h : ((machine true).restrict fun _ scan ↦ !scan.draining).Reachable monitor) :
    (∀ id start, within id start monitor.respawned < maxCrashesInWindow) ∧
      ∀ record ∈ monitor.respawned, serious record.exitcode = false := by
  have hlimited : Limited monitor := by
    apply h.invariant Limited limited_nil
    intro state scan next hstate hstep
    obtain ⟨hdraining, hpass⟩ := Machine.restrict_step hstep
    exact pass_limited hstate (by simpa using hdraining) hpass
  exact ⟨hlimited.limited, hlimited.ordinary⟩

def foundDead (now : ℚ) : Scan where
  now := now
  crashes := [⟨1, [97], 1⟩]
  draining := false
  completes := true

/-- A worker found dead twice, 190 seconds apart, is respawned twice. -/
theorem respawn_limit_twice :
    ∃ monitor, ((machine true).restrict fun _ scan ↦ !scan.draining).runFrom .new [foundDead 10, foundDead 200] =
        some monitor ∧ monitor.respawned.length = 2 ∧
      within [97] 0 monitor.respawned < maxCrashesInWindow := by
  have hrun : (((machine true).restrict fun _ scan ↦ !scan.draining).runFrom .new
      [foundDead 10, foundDead 200]).any (fun monitor ↦ monitor.respawned.length = 2) = true := by
    decide +kernel
  obtain ⟨monitor, hmonitor, hlength⟩ := (Option.any_eq_true _ _).mp hrun
  exact ⟨monitor, hmonitor, of_decide_eq_true hlength, (respawn_limit ⟨_, hmonitor⟩).1 [97] 0⟩

/-- The third crash within the window starts the pipeline anew, and the next one is the first again. -/
example :
    (((machine true).runFrom .new [foundDead 10, foundDead 200, foundDead 300]).map fun monitor ↦
      monitor.respawned.length) = some 0 := by
  decide +kernel

end GpuPipe.Crashes
