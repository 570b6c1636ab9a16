import GeserDesk.System.PullRuns

/-!
# Cancelling pulls

`CancelSwitch` and `CancelWatch` of `geserdesk-clipboard/src/pull.rs`, and what `spawn_pull` and
`spawn_local_pull` do with a pull's result: its note, the clipboard, one final event. A pull looks
at the switch, or waits for a chunk with an eye on it, and then does what it decided on; Cancel
may come between any two of these.

* **`cancel_honoured`**: where every pull under way still has a look at the switch ahead when
  Cancel comes, and the disk does not fail it on the way there, each of them ends as cancelled:
  one final event, nothing left on the disk, the clipboard as it was. No other pull does.
* **`cancel_after_last_look`**: a pull with its last entry open takes no further look, and puts
  its files on the clipboard.
-/

namespace GeserDesk

/-- The final event of a pull. -/
inductive PullEnd where
  | done | cancelled | failed
deriving DecidableEq, Repr

/-- A pull, with its view of the switch. -/
structure WatchedPull where
  task : PullTask
  /-- What the switch showed when the pull was started. -/
  watch : Nat
  /-- What it is about to do, the switch having been looked at. -/
  pending : Option PullLabel := none
  /-- How it came out. -/
  ended : Option PullEnd := none
  /-- Its files are on the clipboard, or were. -/
  applied : Bool := false
  events : List PullEnd := []
  /-- The disk as a pull that failed left it (bookkeeping only). -/
  left : Option (FileStore String UInt8) := none
  /-- Cancel was called while it was under way (bookkeeping only). -/
  caught : Bool := false

inductive CancelLabel where
  | start (side : PullSide) (seq maxBytes : Nat) (m : FileManifest)
  | cancel
  /-- A pull decides what to do next. -/
  | look (l : PullLabel)
  | access (i : Nat)
  | ioError (i : Nat)
  /-- `apply_files` returns. -/
  | apply (i : Nat) (ok : Bool)
  | report (i : Nat)

/-- Which pull a label is about. -/
def CancelLabel.pull : CancelLabel → Nat
  | .start .. | .cancel => 0
  | .look l => l.task
  | .access i | .ioError i | .apply i _ | .report i => i

/-- A step of the pull itself. -/
def CancelLabel.own : CancelLabel → Bool
  | .start .. | .cancel => false
  | _ => true

/-- The disk, the switch, all pulls so far, and whose files are on the clipboard. -/
structure CancelRun where
  fs : FileStore String UInt8
  generation : Nat := 0
  pulls : List WatchedPull := []
  clipboard : Option Nat := none

/-- Whether a pull at `pc` comes to this next. -/
def PullPc.comesTo : PullPc → PullLabel → Bool
  | .ready _, .createDest _ | .ready _, .cancel _ => true
  | .staging none (_ :: _), .cancel _ | .staging none (_ :: _), .entry _ => true
  | .staging none [], .finish .. => true
  | .staging (some file) _, .chunk .. => decide (file.offset < file.entry.size)
  | .staging (some file) _, .fileDone _ => decide (file.entry.size ≤ file.offset)
  | .failing, .cleanup _ => true
  | _, _ => false

/-- What is decided by a look at the switch: the cancelled branch comes first. -/
def PullLabel.agrees (cancelled : Bool) : PullLabel → Bool
  | .cancel _ | .chunk _ .cancelled => cancelled
  | .createDest _ | .entry _ | .chunk _ _ => !cancelled
  | _ => true

/-- The pull gives up because it was cancelled. -/
def PullLabel.givesUp : PullLabel → Bool
  | .cancel _ | .chunk _ .cancelled => true
  | _ => false

/-- How a pull that did this and is at `pc` then came out, if it did. -/
def PullPc.endAfter (l : PullLabel) : PullPc → Option PullEnd
  | .failing | .failed => some (if l.givesUp then .cancelled else .failed)
  | _ => none

namespace WatchedPull

/-- Neither is its clipboard write done nor its end reported. -/
def underWay (p : WatchedPull) : Bool := !p.applied && p.events.isEmpty

/-- What a pull does at a label about it. -/
def act (temp : List String) (fs : FileStore String UInt8) (generation : Nat) (p : WatchedPull) :
    CancelLabel → Option (FileStore String UInt8 × WatchedPull)
  | .start .. | .cancel => none
  | .look l =>
    if p.pending.isNone && p.task.pc.comesTo l && l.agrees (p.watch != generation) then
      some (fs, { p with pending := some l })
    else none
  | .access _ =>
    match p.pending with
    | none => none
    | some l =>
      match p.task.act temp fs l with
      | none => none
      | some (fs, task) => some (fs, { p with
          task := task, pending := none, ended := p.ended.or (task.pc.endAfter l)
          left := if task.pc matches .failed then some fs else p.left })
  -- `create_dir_all(dest)` returns early; after that the folder is removed
  | .ioError _ =>
    match p.pending with
    | some (.createDest _) => some (fs, { p with
        task := { p.task with pc := .failed }, pending := none, ended := some .failed
        left := some fs })
    | some (.entry _) | some (.chunk _ (.answered (.data _))) | some (.fileDone _) =>
      some (fs, { p with
        task := { p.task with pc := .failing }, pending := none, ended := some .failed })
    | _ => none
  | .apply _ ok =>
    match p.task.pc, p.ended with
    | .done _, none =>
      if ok then some (fs, { p with applied := true, ended := some .done })
      else some (fs, { p with ended := some .failed })
    | _, _ => none
  | .report _ =>
    match p.task.pc, p.ended, p.events with
    | .failed, some e, [] | .done _, some e, [] => some (fs, { p with events := [e] })
    | _, _, _ => none

end WatchedPull

namespace CancelRun

/-- Whose files are on the clipboard after a step. -/
def clipboardAfter (s : CancelRun) : CancelLabel → Option Nat
  | .apply i true => some i
  | _ => s.clipboard

def step (toLowercase : String → String) (temp : List String) (s : CancelRun)
    (l : CancelLabel) : Option CancelRun :=
  match l with
  | .start side seq maxBytes m =>
    let pc := pullChecks toLowercase (stagingDir temp side seq) maxBytes m
    some { s with pulls := s.pulls ++ [{
      task := ⟨side, seq, m, pc, []⟩, watch := s.generation
      ended := if pc matches .failed then some .failed else none
      left := if pc matches .failed then some s.fs else none }] }
  | .cancel =>
    some { s with
      generation := s.generation + 1
      pulls := s.pulls.map fun p => { p with caught := p.caught || p.underWay } }
  | l =>
    match s.pulls[l.pull]? with
    | none => none
    | some p =>
      match p.act temp s.fs s.generation l with
      | none => none
      | some (fs, p) => some { s with
          fs := fs, pulls := s.pulls.set l.pull p, clipboard := s.clipboardAfter l }

end CancelRun

/-- Pulls are started and cancelled at any time, and each goes its way. -/
def cancelRuns (toLowercase : String → String) (temp : List String) :
    Lts CancelRun CancelLabel where
  init s := s.pulls = [] ∧ s.clipboard = none
  step s l := s.step toLowercase temp l

/-! ## Looks still ahead

How many looks at the switch a pull has still to make, by how it stands. -/

/-- The pull looks at the switch once more, if what it is about to do does not fail. -/
def WatchedPull.looksAgain (p : WatchedPull) : Bool :=
  match p.ended, p.pending, p.task.pc with
  | some _, _, _ => false
  | none, none, .ready _ => true
  | none, none, .staging none todo => !todo.isEmpty
  | none, none, .staging (some file) todo =>
    decide (file.offset < file.entry.size) || !todo.isEmpty
  | none, some (.createDest _), .ready resolved => !(p.task.manifest.entries.zip resolved).isEmpty
  | none, some (.entry _), .staging none ((entry, _) :: rest) =>
    (!entry.dir && decide (0 < entry.size)) || !rest.isEmpty
  | none, some (.chunk _ (.answered (.data bytes))), .staging (some file) todo =>
    !bytes.isEmpty && (decide (file.offset + bytes.length < file.entry.size) || !todo.isEmpty)
  | none, some (.fileDone _), .staging (some _) todo => !todo.isEmpty
  | _, _, _ => false

/-- Cancel comes while every pull under way still has a look ahead, and the disk does not fail a
cancelled pull on its way to it. -/
def inTime (temp : List String) (s : CancelRun) : CancelLabel → Prop
  | .cancel => ∀ p ∈ s.pulls, p.underWay = true → p.caught = true ∨ p.looksAgain = true
  | .access i => ∀ p ∈ s.pulls[i]?, p.caught = true →
      ∀ out ∈ p.act temp s.fs s.generation (.access i), out.2.ended ≠ some .failed
  | .ioError i => ∀ p ∈ s.pulls[i]?, p.caught = false
  | _ => True

namespace WatchedPull

variable {temp : List String} {fs fs' : FileStore String UInt8} {generation : Nat}
  {p p' : WatchedPull} {task' : PullTask} {l : PullLabel}

/-- Nothing it wrote is in its folder as it left the disk. -/
def Gone (temp : List String) (p : WatchedPull) : Prop :=
  ∃ fs, p.left = some fs ∧ ∀ q ∈ p.task.wrote, p.task.dest temp <+: q → fs q = none

/-- At most so many more steps of its own until a cancelled pull has reported. -/
def ahead (p : WatchedPull) : Nat :=
  match p.pending, p.task.pc with
  | some (.entry _), _ | some (.chunk _ (.answered _)), _ => 8
  | some (.createDest _), _ | some (.fileDone _), _ => 6
  | some (.cancel _), _ | some (.chunk _ _), _ => 4
  | some (.cleanup _), _ => 2
  | some _, _ => 0
  | none, .ready _ | none, .staging none _ => 5
  | none, .staging (some file) _ => if file.offset < file.entry.size then 5 else 7
  | none, .failing => 3
  | none, .failed => if p.events.isEmpty then 1 else 0
  | none, .done _ => 0

/-! ## A cancelled pull is on its way out

After a switch was flipped in time the pull looks, cleans up, and reports that it was cancelled.
Each access keeps it on this way. -/

/-- It will look, or has looked, or has given up and has its folder to remove, or is out. -/
def OnTrack (temp : List String) (p : WatchedPull) : Prop :=
  match p.ended with
  | none => p.looksAgain = true ∨ ∃ l, p.pending = some l ∧ l.givesUp = true
  | some .cancelled =>
    (p.task.pc = .failing ∧ p.events = [] ∧ (p.pending = none ∨ ∃ i, p.pending = some (.cleanup i)))
      ∨ (p.task.pc = .failed ∧ p.pending = none ∧ p.Gone temp)
  | some _ => False

structure Inv (temp : List String) (generation : Nat) (p : WatchedPull) : Prop where
  watch_le : p.watch ≤ generation
  watched : p.caught = true → p.watch < generation
  unseen : p.caught = false → p.underWay = true → p.watch = generation
  comes : ∀ l, p.pending = some l → p.task.pc.comesTo l = true
  told : ((∃ l, p.pending = some l ∧ l.givesUp = true) ∨ p.ended = some .cancelled) →
    p.caught = true
  closed : p.underWay = false → p.task.pc = .failed ∨ ∃ snap, p.task.pc = .done snap
  fresh : ∀ resolved, p.task.pc = .ready resolved → p.task.wrote = []
  once : p.events = [] ∨ ∃ e, p.ended = some e ∧ p.events = [e]
  track : p.caught = true → p.applied = false ∧ p.OnTrack temp

/-- A pull that still comes to something is under way. -/
theorem Inv.underWay_of_comesTo (h : p.Inv temp generation) (hl : p.task.pc.comesTo l = true) :
    p.underWay = true := by
  by_contra hover
  rcases h.closed (Bool.not_eq_true _ ▸ hover) with hpc | ⟨snap, hpc⟩
  · rw [hpc] at hl
    cases hl
  · rw [hpc] at hl
    cases hl

/-- A look at the switch that goes on brings the pull nearer to its end, and one that sees it
flipped ends it. -/
theorem look_inv (h : p.Inv temp generation)
    (hl : p.act temp fs generation (.look l) = some (fs', p')) :
    p'.Inv temp generation ∧ (p.caught = true → p'.ahead < p.ahead)
      ∧ p'.caught = p.caught ∧ p'.applied = p.applied := by
  simp only [act, Option.ite_none_right_eq_some, Option.some.injEq, Prod.mk.injEq,
    Bool.and_eq_true, Option.isNone_iff_eq_none] at hl
  obtain ⟨⟨⟨hnone, hcomes⟩, hagrees⟩, rfl, rfl⟩ := hl
  have hway := h.underWay_of_comesTo hcomes
  have hcaught : l.givesUp = true → p.caught = true := by
    intro hgives
    by_contra hnot
    have hsame := h.unseen (Bool.not_eq_true _ ▸ hnot) hway
    rw [hsame, bne_self_eq_false] at hagrees
    cases l with
    | cancel => cases hagrees
    | chunk i got =>
      cases got with
      | cancelled => simp [PullLabel.agrees] at hagrees
      | timedOut => cases hgives
      | answered result => cases hgives
    | start | createDest | entry | fileDone | finish | cleanup => cases hgives
  -- what a pull that was cancelled comes to next
  have hnext : p.caught = true → ({ p with pending := some l } : WatchedPull).OnTrack temp
      ∧ ({ p with pending := some l } : WatchedPull).ahead < p.ahead := by
    intro hc
    have htrack := (h.track hc).2
    have hne : (p.watch != generation) = true := bne_iff_ne.mpr (h.watched hc).ne
    rw [hne] at hagrees
    obtain ⟨⟨side, seq, m, pc, wrote⟩, watch, pending, ended, applied, events, left, caught⟩ := p
    simp only at hnone hcomes htrack
    subst hnone
    cases ended with
    | none =>
      simp only [OnTrack, looksAgain, reduceCtorEq, false_and, exists_false, or_false,
        Option.some.injEq] at htrack ⊢
      cases pc with
      | ready resolved =>
        cases l with
        | cancel => exact ⟨.inr ⟨_, rfl, rfl⟩, by simp [ahead]⟩
        | createDest => cases hagrees
        | start | chunk | entry | fileDone | finish | cleanup => cases hcomes
      | staging current todo =>
        match current, todo with
        | none, [] => simp at htrack
        | none, _ :: _ =>
          cases l with
          | cancel => exact ⟨.inr ⟨_, rfl, rfl⟩, by simp [ahead]⟩
          | entry => cases hagrees
          | start | chunk | createDest | fileDone | finish | cleanup => cases hcomes
        | some file, todo =>
          cases l with
          | chunk i got =>
            have hlt : file.offset < file.entry.size := of_decide_eq_true hcomes
            cases got with
            | cancelled => exact ⟨.inr ⟨_, rfl, rfl⟩, by simp [ahead, hlt]⟩
            | timedOut => cases hagrees
            | answered result => cases hagrees
          | fileDone =>
            have hle : file.entry.size ≤ file.offset := of_decide_eq_true hcomes
            refine ⟨.inl ?_, by simp [ahead, Nat.not_lt.mpr hle]⟩
            simpa [Nat.not_lt.mpr hle] using htrack
          | start | cancel | createDest | entry | finish | cleanup => cases hcomes
      | failing | failed | done => simp at htrack
    | some e =>
      cases e with
      | cancelled =>
        simp only [OnTrack] at htrack ⊢
        rcases htrack with ⟨rfl, hevents, -⟩ | ⟨rfl, -, -⟩
        · cases l with
          | cleanup i => exact ⟨.inl ⟨rfl, hevents, .inr ⟨i, rfl⟩⟩, by simp [ahead]⟩
          | start | cancel | createDest | entry | chunk | fileDone | finish => cases hcomes
        · cases hcomes
      | done => exact absurd htrack id
      | failed => exact absurd htrack id
  refine ⟨⟨h.watch_le, h.watched, h.unseen, ?_, ?_, h.closed, h.fresh, h.once, fun hc => ?_⟩,
    fun hc => (hnext hc).2, rfl, rfl⟩
  · intro l' hl'
    cases hl'
    exact hcomes
  · rintro (⟨l', hl', hgives⟩ | hended)
    · cases hl'
      exact hcaught hgives
    · exact h.told (.inr hended)
  · exact ⟨(h.track hc).1, (hnext hc).1⟩

/-- A disk access keeps whose pull it is, and one that does not end it leaves a pull that was to
look again before its next look, or nearer to it. -/
theorem access_track {l : PullLabel} {snap : FileStore String UInt8} (h : p.Inv temp generation)
    (hc : p.caught = true) (hp : p.pending = some l)
    (hact : p.task.act temp fs l = some (snap, task'))
    (hend : p.ended.or (task'.pc.endAfter l) ≠ some .failed) :
    ({ p with
        task := task', pending := none, ended := p.ended.or (task'.pc.endAfter l)
        left := if task'.pc matches .failed then some snap else p.left } : WatchedPull).OnTrack temp
      ∧ ({ p with
          task := task', pending := none, ended := p.ended.or (task'.pc.endAfter l)
          left := if task'.pc matches .failed then some snap else p.left } : WatchedPull).ahead
        < p.ahead := by
  have htrack := (h.track hc).2
  have hfresh := h.fresh
  have hcomes := h.comes l hp
  have honce := h.once
  obtain ⟨⟨side, seq, m, pc, wrote⟩, watch, pending, ended, applied, events, left, caught⟩ := p
  simp only at hp hact hend htrack hfresh hcomes honce
  subst hp
  -- by how the pull stands: after its end only the clean-up is left
  cases ended with
  | some e =>
    cases e with
    | done => exact absurd htrack id
    | failed => exact absurd htrack id
    | cancelled =>
      simp only [OnTrack] at htrack
      rcases htrack with ⟨rfl, hevents, hpending⟩ | ⟨-, hnone, -⟩
      · obtain ⟨i, hi⟩ := hpending.resolve_left nofun
        cases hi
        simp only [PullTask.act, Option.some.injEq, Prod.mk.injEq] at hact
        obtain ⟨rfl, rfl⟩ := hact
        refine ⟨.inr ⟨rfl, rfl, _, rfl, fun q _ hq => ?_⟩, by simp [ahead, hevents]⟩
        exact if_pos (List.isPrefixOf_iff_prefix.mpr hq)
      · cases hnone
  | none =>
    have hevents : events = [] := honce.resolve_right (by rintro ⟨e, he, -⟩; cases he)
    subst hevents
    rw [Option.none_or] at hend ⊢
    simp only [OnTrack, looksAgain, Option.some.injEq, exists_eq_left'] at htrack
    -- it is under way: case by case over the access that came next
    cases l with
    | start => cases hact
    | createDest i =>
      cases pc with
      | ready resolved =>
        simp only [PullTask.act] at hact
        split at hact
        · simp only [Option.some.injEq, Prod.mk.injEq] at hact
          obtain ⟨rfl, rfl⟩ := hact
          -- a folder that cannot be made would be a failure, and the run has none here
          exact absurd rfl hend
        · simp only [Option.some.injEq, Prod.mk.injEq] at hact
          obtain ⟨rfl, rfl⟩ := hact
          exact ⟨.inl (by simpa [PullLabel.givesUp, looksAgain, PullPc.endAfter] using htrack),
            by simp [ahead]⟩
      | staging | failing | failed | done => cases hact
    | cancel i =>
      cases pc with
      | ready resolved =>
        simp only [PullTask.act, Option.some.injEq, Prod.mk.injEq] at hact
        obtain ⟨rfl, rfl⟩ := hact
        -- nothing was on the disk yet
        refine ⟨.inr ⟨rfl, rfl, _, rfl, fun q hq _ => ?_⟩, by simp [ahead]⟩
        rw [hfresh resolved rfl] at hq
        cases hq
      | staging current todo =>
        cases current with
        | some file => cases hact
        | none =>
          cases todo with
          | nil => cases hact
          | cons e rest =>
            simp only [PullTask.act, Option.some.injEq, Prod.mk.injEq] at hact
            obtain ⟨rfl, rfl⟩ := hact
            exact ⟨.inl ⟨rfl, rfl, .inl rfl⟩, by simp [ahead]⟩
      | failing | failed | done => cases hact
    | entry i =>
      cases pc with
      | staging current todo =>
        cases current with
        | some file => cases hact
        | none =>
          cases todo with
          | nil => cases hact
          | cons e rest =>
            obtain ⟨entry, path⟩ := e
            simp only [PullTask.act] at hact
            simp only [PullLabel.givesUp, Bool.false_eq_true, or_false] at htrack
            split at hact
            · next hdir =>
              split at hact
              · simp only [Option.some.injEq, Prod.mk.injEq] at hact
                obtain ⟨rfl, rfl⟩ := hact
                exact absurd rfl hend
              · simp only [Option.some.injEq, Prod.mk.injEq] at hact
                obtain ⟨rfl, rfl⟩ := hact
                exact ⟨.inl (by simpa [hdir, looksAgain, PullPc.endAfter] using htrack),
                  by simp [ahead]⟩
            · next hdir =>
              split at hact
              · simp only [Option.some.injEq, Prod.mk.injEq] at hact
                obtain ⟨rfl, rfl⟩ := hact
                exact absurd rfl hend
              · simp only [Option.some.injEq, Prod.mk.injEq] at hact
                obtain ⟨rfl, rfl⟩ := hact
                refine ⟨.inl (by simpa [hdir, looksAgain, PullPc.endAfter] using htrack), ?_⟩
                simp only [ahead]
                split <;> omega
      | ready | failing | failed | done => cases hact
    | chunk i got =>
      cases pc with
      | staging current todo =>
        cases current with
        | none => cases hact
        | some file =>
          simp only [PullTask.act] at hact
          -- there is more of the file to come
          rw [if_neg (Nat.not_le.mpr (of_decide_eq_true hcomes))] at hact
          split at hact
          · next bytes =>
            simp only [PullLabel.givesUp, Bool.false_eq_true, or_false, Bool.and_eq_true] at htrack
            rw [if_neg (by simpa using htrack.1)] at hact
            split at hact
            · simp only [Option.some.injEq, Prod.mk.injEq] at hact
              obtain ⟨rfl, rfl⟩ := hact
              exact absurd rfl hend
            · simp only [Option.some.injEq, Prod.mk.injEq] at hact
              obtain ⟨rfl, rfl⟩ := hact
              refine ⟨.inl htrack.2, ?_⟩
              simp only [ahead]
              split <;> omega
          · next hother =>
            simp only [Option.some.injEq, Prod.mk.injEq] at hact
            obtain ⟨rfl, rfl⟩ := hact
            cases got with
            | cancelled => exact ⟨.inl ⟨rfl, rfl, .inl rfl⟩, by simp [ahead]⟩
            | timedOut => exact absurd rfl hend
            | answered result => exact absurd rfl hend
      | ready | failing | failed | done => cases hact
    | fileDone i =>
      cases pc with
      | staging current todo =>
        cases current with
        | none => cases hact
        | some file =>
          simp only [PullTask.act] at hact
          -- the file is whole
          rw [if_pos (of_decide_eq_true hcomes)] at hact
          simp only [Option.some.injEq, Prod.mk.injEq] at hact
          obtain ⟨rfl, rfl⟩ := hact
          exact ⟨.inl (by simpa [PullLabel.givesUp, looksAgain, PullPc.endAfter] using htrack),
            by simp [ahead]⟩
      | ready | failing | failed | done => cases hact
    | finish i peer time => cases pc <;> simp [PullLabel.givesUp] at htrack
    | cleanup i => cases pc <;> simp [PullLabel.givesUp] at htrack

/-- An access leaves the checks behind. -/
theorem act_not_ready {snap : FileStore String UInt8} {task : PullTask}
    (h : task.act temp fs l = some (snap, task')) (resolved : List (List String)) :
    task'.pc ≠ .ready resolved := by
  intro hready
  cases l <;> simp only [PullTask.act] at h <;> (repeat' split at h) <;> cases h <;> cases hready

/-- An access that comes next can be made. -/
theorem act_of_comesTo {task : PullTask} (h : task.pc.comesTo l = true) (temp : List String)
    (fs : FileStore String UInt8) : ∃ fs' task', task.act temp fs l = some (fs', task') := by
  obtain ⟨side, seq, m, pc, wrote⟩ := task
  cases l with
  -- in every other place the pull does not stand, so there is no such access to come
  | start => rcases pc with _ | ⟨_ | _, _ | _⟩ | _ | _ | _ <;> cases h
  | createDest i =>
    rcases pc with resolved | ⟨_ | _, _ | _⟩ | _ | _ | _
    · simp only [PullTask.act]
      split <;> exact ⟨_, _, rfl⟩
    all_goals cases h
  | cancel i =>
    rcases pc with _ | ⟨_ | _, _ | _⟩ | _ | _ | _
    case ready => exact ⟨_, _, rfl⟩
    case staging.none.cons => exact ⟨_, _, rfl⟩
    all_goals cases h
  -- a folder or a file, which can be made or not
  | entry i =>
    rcases pc with _ | ⟨_ | _, _ | ⟨⟨entry, path⟩, rest⟩⟩ | _ | _ | _
    case staging.none.cons =>
      simp only [PullTask.act]
      split <;> split <;> exact ⟨_, _, rfl⟩
    all_goals cases h
  -- some of the file is missing, and the chunk is short, too long or written
  | chunk i got =>
    rcases pc with _ | ⟨_ | file, rest⟩ | _ | _ | _
    case staging.some =>
      simp only [PullTask.act]
      rw [if_neg (Nat.not_le.mpr (of_decide_eq_true h))]
      repeat' split
      all_goals exact ⟨_, _, rfl⟩
    case staging.none => cases rest <;> cases h
    all_goals cases h
  -- all of the file is there
  | fileDone i =>
    rcases pc with _ | ⟨_ | file, rest⟩ | _ | _ | _
    case staging.some =>
      simp only [PullTask.act]
      rw [if_pos (of_decide_eq_true h)]
      exact ⟨_, _, rfl⟩
    case staging.none => cases rest <;> cases h
    all_goals cases h
  | finish i peer time =>
    rcases pc with _ | ⟨_ | _, _ | _⟩ | _ | _ | _
    case staging.none.nil => exact ⟨_, _, rfl⟩
    all_goals cases h
  | cleanup i =>
    rcases pc with _ | ⟨_ | _, _ | _⟩ | _ | _ | _
    case failing => exact ⟨_, _, rfl⟩
    all_goals cases h

/-- Only a look that gives up ends a pull as cancelled. -/
theorem endAfter_cancelled {pc : PullPc} (h : pc.endAfter l = some .cancelled) :
    l.givesUp = true := by
  cases pc <;> cases hg : l.givesUp <;> simp [PullPc.endAfter, hg] at h ⊢

/-- A disk access brings the pull nearer to its end. -/
theorem access_inv {i : Nat} (h : p.Inv temp generation)
    (hl : p.act temp fs generation (.access i) = some (fs', p'))
    (hok : p.caught = true → p'.ended ≠ some .failed) :
    p'.Inv temp generation ∧ (p.caught = true → p'.ahead < p.ahead)
      ∧ p'.caught = p.caught ∧ p'.applied = p.applied := by
  simp only [act] at hl
  split at hl
  · cases hl
  · next l hp =>
    split at hl
    · cases hl
    · next snap task' hact =>
      cases hl
      have hway := h.underWay_of_comesTo (h.comes l hp)
      have hevents : p.events = [] := by
        simpa [underWay] using (Bool.and_eq_true_iff.mp hway).2
      refine ⟨⟨h.watch_le, h.watched, h.unseen, nofun, ?_, ?_, fun resolved hready => ?_,
        .inl hevents, fun hc => ⟨(h.track hc).1, ?_⟩⟩, fun hc => ?_, rfl, rfl⟩
      · rintro (⟨l', hl', -⟩ | hended)
        · cases hl'
        · simp only at hended
          cases hpe : p.ended with
          | none =>
            rw [hpe, Option.none_or] at hended
            exact h.told (.inl ⟨l, hp, endAfter_cancelled hended⟩)
          | some e =>
            rw [hpe, Option.some_or] at hended
            exact h.told (.inr (hpe.trans hended))
      · intro hclosed
        have hclosed : p.underWay = false := hclosed
        rw [hway] at hclosed
        cases hclosed
      · exact absurd hready (act_not_ready hact resolved)
      · exact (access_track h hc hp hact (hok hc)).1
      · exact (access_track h hc hp hact (hok hc)).2

/-- An access that fails ends the pull as failed. -/
theorem ioError_inv {i : Nat} (h : p.Inv temp generation)
    (hl : p.act temp fs generation (.ioError i) = some (fs', p')) (hok : p.caught = false) :
    p'.Inv temp generation ∧ p'.caught = p.caught ∧ p'.applied = p.applied := by
  have hpending : ∃ l, p.pending = some l := by
    cases hp : p.pending with
    | none => simp [act, hp] at hl
    | some l => exact ⟨l, rfl⟩
  obtain ⟨l, hp⟩ := hpending
  have hway := h.underWay_of_comesTo (h.comes l hp)
  have hevents : p.events = [] := by
    simpa [underWay] using (Bool.and_eq_true_iff.mp hway).2
  -- the pull it leaves has failed, its folder there or not
  have hfailed : ∀ (pc : PullPc) (left : Option (FileStore String UInt8)),
      (∀ resolved, pc ≠ .ready resolved) → ({ p with
        task := { p.task with pc := pc }, pending := none, ended := some .failed
        left := left } : WatchedPull).Inv temp generation := by
    intro pc left hpc
    refine ⟨h.watch_le, h.watched, h.unseen, nofun, ?_, ?_, fun resolved hready => ?_,
      .inl hevents, fun hc => ?_⟩
    · rintro (⟨l', hl', -⟩ | hended)
      · cases hl'
      · cases hended
    · intro hclosed
      have hclosed : p.underWay = false := hclosed
      rw [hway] at hclosed
      cases hclosed
    · exact absurd hready (hpc resolved)
    · have hc : p.caught = true := hc
      rw [hok] at hc
      cases hc
  simp only [act] at hl
  split at hl
  · cases hl
    exact ⟨hfailed _ _ nofun, rfl, rfl⟩
  · cases hl
    exact ⟨hfailed _ _ nofun, rfl, rfl⟩
  · cases hl
    exact ⟨hfailed _ _ nofun, rfl, rfl⟩
  · cases hl
    exact ⟨hfailed _ _ nofun, rfl, rfl⟩
  · cases hl

/-- Putting the files on the clipboard is the end of a pull that was not caught. -/
theorem apply_inv {i : Nat} {ok : Bool} (h : p.Inv temp generation)
    (hl : p.act temp fs generation (.apply i ok) = some (fs', p')) :
    p'.Inv temp generation ∧ p.caught = false ∧ p'.caught = false
      ∧ (ok = true ∧ p'.applied = true ∨ ok = false ∧ p'.applied = p.applied) := by
  simp only [act] at hl
  split at hl
  · next snap hpc hended =>
    -- there is no access under way, nothing told, and the switch was not flipped before the last
    -- look
    have hpending : p.pending = none := by
      cases hp : p.pending with
      | none => rfl
      | some l =>
        have hcomes := h.comes l hp
        rw [hpc] at hcomes
        cases hcomes
    have hevents : p.events = [] := h.once.resolve_right (by rintro ⟨e, he, -⟩; simp_all)
    have hfree : p.caught = false := by
      by_contra hc
      have htrack := (h.track (Bool.not_eq_false _ ▸ hc)).2
      simp [OnTrack, hended, looksAgain, hpending, hpc] at htrack
    -- so however the copy goes, the pull ends here and not as cancelled
    have hold : ∀ (applied : Bool) (e : PullEnd), e ≠ .cancelled →
        ({ p with applied := p.applied || applied, ended := some e } : WatchedPull).Inv temp
          generation := by
      intro applied e he
      refine ⟨h.watch_le, h.watched, fun hc hway => h.unseen hc ?_, ?_, ?_, fun _ => .inr ⟨snap, hpc⟩,
        h.fresh, .inl hevents, fun hc => ?_⟩
      · cases hap : p.applied with
        | false => simp [underWay, hap, hevents]
        | true => simp [underWay, hap] at hway
      · exact h.comes
      · rintro (⟨l', hl', -⟩ | hended')
        · have hl' : p.pending = some l' := hl'
          rw [hpending] at hl'
          cases hl'
        · exact absurd (Option.some.inj hended') he
      · have hc : p.caught = true := hc
        rw [hfree] at hc
        cases hc
    -- the copy went through, or failed
    split at hl
    · next hok =>
      cases hl
      have hinv := hold true .done nofun
      rw [Bool.or_true] at hinv
      exact ⟨hinv, hfree, hfree, .inl ⟨hok, rfl⟩⟩
    · next hok =>
      cases hl
      have hinv := hold false .failed nofun
      rw [Bool.or_false] at hinv
      exact ⟨hinv, hfree, hfree, .inr ⟨Bool.not_eq_true _ ▸ hok, rfl⟩⟩
  · cases hl

/-- A report brings the pull nearer to its end. -/
theorem report_inv {i : Nat} (h : p.Inv temp generation)
    (hl : p.act temp fs generation (.report i) = some (fs', p')) :
    p'.Inv temp generation ∧ (p.caught = true → p'.ahead < p.ahead)
      ∧ p'.caught = p.caught ∧ p'.applied = p.applied := by
  have hsaid : ∃ e, p.ended = some e ∧ p.events = [] ∧ p' = { p with events := [e] }
      ∧ (p.task.pc = .failed ∨ ∃ snap, p.task.pc = .done snap) := by
    simp only [act] at hl
    split at hl
    · next e hpc hended hevents =>
      cases hl
      exact ⟨e, hended, hevents, rfl, .inl hpc⟩
    · next snap e hpc hended hevents =>
      cases hl
      exact ⟨e, hended, hevents, rfl, .inr ⟨snap, hpc⟩⟩
    · cases hl
  obtain ⟨e, hended, hevents, rfl, hpc⟩ := hsaid
  have hout : p.caught = true → e = .cancelled ∧ p.task.pc = .failed ∧ p.pending = none
      ∧ p.Gone temp := by
    intro hc
    have htrack := (h.track hc).2
    rw [OnTrack, hended] at htrack
    cases e with
    | cancelled =>
      rcases htrack with ⟨hfailing, -⟩ | ⟨hfailed, hnone, hgone⟩
      · rcases hpc with hpc | ⟨snap, hpc⟩ <;> rw [hpc] at hfailing <;> cases hfailing
      · exact ⟨rfl, hfailed, hnone, hgone⟩
    | done => exact absurd htrack id
    | failed => exact absurd htrack id
  refine ⟨⟨h.watch_le, h.watched, fun _ hway => ?_, h.comes, h.told, fun _ => hpc, h.fresh,
    .inr ⟨e, hended, rfl⟩, fun hc => ⟨(h.track hc).1, ?_⟩⟩, fun hc => ?_, rfl, rfl⟩
  · simp [underWay] at hway
  · obtain ⟨rfl, hfailed, hnone, hgone⟩ := hout hc
    simp only [OnTrack, hended]
    exact .inr ⟨hfailed, hnone, hgone⟩
  · obtain ⟨rfl, hfailed, hnone, -⟩ := hout hc
    simp [ahead, hfailed, hnone, hevents]

/-- A cancelled pull can always go on. -/
theorem goes_on (h : p.Inv temp generation) (hc : p.caught = true) (hevents : p.events = [])
    (i : Nat) (fs : FileStore String UInt8) :
    ∃ l fs' p', l.pull = i ∧ l.own = true
      ∧ p.act temp fs generation l = some (fs', p') := by
  have htrack := (h.track hc).2
  have hne : (p.watch != generation) = true := bne_iff_ne.mpr (h.watched hc).ne
  -- an access under way ends; otherwise the pull looks at the switch
  cases hp : p.pending with
  | some l =>
    obtain ⟨fs', task', hact⟩ := act_of_comesTo (h.comes l hp) temp fs
    exact ⟨.access i, _, _, rfl, rfl, by simp only [act, hp, hact]; rfl⟩
  | none =>
    have hlook : ∀ l : PullLabel, l.task = i → p.task.pc.comesTo l = true → l.agrees true = true →
        ∃ l fs' p', l.pull = i ∧ l.own = true
          ∧ p.act temp fs generation l = some (fs', p') := by
      intro l hi hcomes hagrees
      exact ⟨.look l, _, _, hi, rfl, by simp only [act, hp, hcomes, hne, hagrees]; rfl⟩
    -- by how the pull stands
    cases hended : p.ended with
    | none =>
      simp only [OnTrack, hended, looksAgain, hp] at htrack
      rcases htrack with hagain | ⟨l, hl, -⟩
      -- before its end it looks again, where it stands in the staging
      · cases hpc : p.task.pc with
        | ready resolved => exact hlook (.cancel i) rfl (by rw [hpc]; rfl) rfl
        | staging current todo =>
          match current, todo with
          | none, [] => simp [hpc] at hagain
          | none, _ :: _ => exact hlook (.cancel i) rfl (by rw [hpc]; rfl) rfl
          | some file, todo =>
            by_cases hlt : file.offset < file.entry.size
            · exact hlook (.chunk i .cancelled) rfl (by rw [hpc]; exact decide_eq_true hlt) rfl
            · exact hlook (.fileDone i) rfl
                (by rw [hpc]; exact decide_eq_true (Nat.not_lt.mp hlt)) rfl
        | failing | failed | done => simp [hpc] at hagain
      · cases hl
    | some e =>
      rw [OnTrack, hended] at htrack
      -- after its end it cleans up and then reports
      cases e with
      | cancelled =>
        rcases htrack with ⟨hpc, -⟩ | ⟨hpc, -⟩
        · exact hlook (.cleanup i) rfl (by rw [hpc]; rfl) rfl
        · exact ⟨.report i, _, _, rfl, rfl, by simp only [act, hpc, hended, hevents]; rfl⟩
      | done => exact absurd htrack id
      | failed => exact absurd htrack id

end WatchedPull

/-! ## All the pulls

The same of every pull at once, with one clipboard for all. -/

namespace CancelRun

variable {toLowercase : String → String} {temp : List String} {s s' : CancelRun} {l : CancelLabel}

/-- What becomes of pulls when Cancel is called. -/
structure Honoured (toLowercase : String → String) (temp : List String) (s : CancelRun) :
    Prop where
  /-- A pull cancelled while it was under way reports that and nothing else, leaves nothing and
  does not touch the clipboard; -/
  cancelled : ∀ (i : Nat) (p : WatchedPull), s.pulls[i]? = some p → p.caught = true →
    p.applied = false ∧ s.clipboard ≠ some i
      ∧ (p.events = [] ∨ p.events = [.cancelled] ∧ p.Gone temp)
  /-- until it has reported it can go on, and every step of its own brings it nearer to that; -/
  ends : ∀ (i : Nat) (p : WatchedPull), s.pulls[i]? = some p → p.caught = true → p.events = [] →
    (∃ l s', l.pull = i ∧ l.own = true ∧ s.step toLowercase temp l = some s')
    ∧ ∀ l s' p', l.pull = i → l.own = true → inTime temp s l →
      s.step toLowercase temp l = some s' → s'.pulls[i]? = some p' → p'.ahead < p.ahead
  /-- and any other is not told of the cancel. -/
  others : ∀ p ∈ s.pulls, p.caught = false → .cancelled ∉ p.events ∧ p.events.length ≤ 1

structure Inv (temp : List String) (s : CancelRun) : Prop where
  pulls : ∀ (i : Nat) (p : WatchedPull), s.pulls[i]? = some p → p.Inv temp s.generation
  board : ∀ i, s.clipboard = some i → ∃ p, s.pulls[i]? = some p ∧ p.applied = true

/-- What a step of a pull is. -/
theorem step_own (hown : l.own = true) (hl : s.step toLowercase temp l = some s') :
    ∃ p fs p', s.pulls[l.pull]? = some p ∧ p.act temp s.fs s.generation l = some (fs, p')
      ∧ s' = { s with
          fs := fs, pulls := s.pulls.set l.pull p', clipboard := s.clipboardAfter l } := by
  have hl : (match s.pulls[l.pull]? with
      | none => none
      | some p =>
        match p.act temp s.fs s.generation l with
        | none => none
        | some (fs, p) => some { s with
            fs := fs, pulls := s.pulls.set l.pull p
            clipboard := s.clipboardAfter l }) = some s' := by
    cases l with
    | start => cases hown
    | cancel => cases hown
    | _ => exact hl
  split at hl
  · cases hl
  · next p hp =>
    split at hl
    · cases hl
    · next fs p' hact =>
      cases hl
      exact ⟨p, fs, p', hp, hact, rfl⟩

/-- What a pull's own step keeps, in time. -/
theorem act_inv {p p' : WatchedPull} {fs : FileStore String UInt8}
    (hp : s.pulls[l.pull]? = some p) (hinv : p.Inv temp s.generation)
    (hok : inTime temp s l) (hl : p.act temp s.fs s.generation l = some (fs, p')) :
    p'.Inv temp s.generation ∧ (p.caught = true → p'.ahead < p.ahead)
      ∧ (p'.applied = true ∧ s.clipboardAfter l = some l.pull
        ∨ p'.applied = p.applied ∧ s.clipboardAfter l = s.clipboard) := by
  cases l with
  | start => cases hl
  | cancel => cases hl
  | look l =>
    obtain ⟨h, hahead, -, happlied⟩ := WatchedPull.look_inv hinv hl
    exact ⟨h, hahead, .inr ⟨happlied, rfl⟩⟩
  | access i =>
    obtain ⟨h, hahead, -, happlied⟩ :=
      WatchedPull.access_inv hinv hl fun hc => hok p hp hc (fs, p') hl
    exact ⟨h, hahead, .inr ⟨happlied, rfl⟩⟩
  | ioError i =>
    obtain ⟨h, -, happlied⟩ := WatchedPull.ioError_inv hinv hl (hok p hp)
    refine ⟨h, fun hc => ?_, .inr ⟨happlied, rfl⟩⟩
    rw [hok p hp] at hc
    cases hc
  | apply i ok =>
    obtain ⟨h, hfree, -, hwrites⟩ := WatchedPull.apply_inv hinv hl
    refine ⟨h, fun hc => ?_, ?_⟩
    · rw [hfree] at hc
      cases hc
    · rcases hwrites with ⟨rfl, happlied⟩ | ⟨rfl, happlied⟩
      · exact .inl ⟨happlied, rfl⟩
      · exact .inr ⟨happlied, rfl⟩
  | report i =>
    obtain ⟨h, hahead, -, happlied⟩ := WatchedPull.report_inv hinv hl
    exact ⟨h, hahead, .inr ⟨happlied, rfl⟩⟩

/-- A pull that starts has its switch as it is now. -/
theorem inv_start {side : PullSide} {seq maxBytes : Nat} {m : FileManifest} (h : s.Inv temp)
    (hl : s.step toLowercase temp (.start side seq maxBytes m) = some s') : s'.Inv temp := by
  cases hl
  refine ⟨fun i p hp => ?_, fun i hi => ?_⟩
  · rcases Table.of_concat hp with hp | ⟨-, rfl⟩
    · exact h.pulls i p hp
    · refine ⟨Nat.le_refl _, nofun, fun _ _ => rfl, nofun, ?_, nofun, fun _ _ => rfl, .inl rfl, nofun⟩
      rintro (⟨l, hl, -⟩ | hended)
      · cases hl
      · simp only at hended
        split at hended <;> cases hended
  · obtain ⟨p, hp, happlied⟩ := h.board i hi
    exact ⟨p, by rw [List.getElem?_append_left (List.getElem?_eq_some_iff.mp hp).1, hp], happlied⟩

/-- Cancel finds every pull under way with a look ahead. -/
theorem inv_cancel (h : s.Inv temp) (hok : inTime temp s .cancel)
    (hl : s.step toLowercase temp .cancel = some s') : s'.Inv temp := by
  cases hl
  refine ⟨fun i p' hp' => ?_, fun i hi => ?_⟩
  · rw [List.getElem?_map, Option.map_eq_some_iff] at hp'
    obtain ⟨p, hp, rfl⟩ := hp'
    have hinv := h.pulls i p hp
    refine ⟨Nat.le_succ_of_le hinv.watch_le, fun _ => Nat.lt_succ_of_le hinv.watch_le,
      fun hfree hway => ?_, hinv.comes, fun htold => ?_, hinv.closed, hinv.fresh, hinv.once,
      fun hc => ?_⟩
    · simp only [Bool.or_eq_false_iff] at hfree
      rw [show p.underWay = true from hway] at hfree
      cases hfree.2
    · show (p.caught || p.underWay) = true
      rw [hinv.told htold, Bool.true_or]
    · rcases Bool.or_eq_true_iff.mp hc with hold | hway
      · exact hinv.track hold
      · rcases hok p (List.mem_of_getElem? hp) hway with hold | hagain
        · exact hinv.track hold
        · refine ⟨by simpa using (Bool.and_eq_true_iff.mp hway).1, ?_⟩
          have hnone : p.ended = none := by
            cases hended : p.ended with
            | none => rfl
            | some e => simp [WatchedPull.looksAgain, hended] at hagain
          simp only [WatchedPull.OnTrack, hnone]
          exact .inl (by simpa only [WatchedPull.looksAgain, hnone] using hagain)
  · obtain ⟨p, hp, happlied⟩ := h.board i hi
    exact ⟨{ p with caught := p.caught || p.underWay }, by rw [List.getElem?_map, hp]; rfl,
      happlied⟩

/-- What a pull does by itself keeps the invariant. -/
theorem inv_own (h : s.Inv temp) (hown : l.own = true) (hok : inTime temp s l)
    (hl : s.step toLowercase temp l = some s') : s'.Inv temp := by
  obtain ⟨p, fs, p', hp, hact, rfl⟩ := step_own hown hl
  obtain ⟨hinv, -, hboard⟩ := act_inv hp (h.pulls _ p hp) hok hact
  obtain ⟨hlt, -⟩ := List.getElem?_eq_some_iff.mp hp
  refine ⟨fun i q hq => ?_, fun i hi => ?_⟩
  · rcases Table.of_set hp hq with ⟨-, rfl⟩ | ⟨-, hq⟩
    · exact hinv
    · exact h.pulls i q hq
  · have hset : (s.pulls.set l.pull p')[l.pull]? = some p' := List.getElem?_set_self hlt
    rcases hboard with ⟨happlied, hthis⟩ | ⟨hsame, hkept⟩
    · obtain rfl : l.pull = i := Option.some.inj (hthis.symm.trans hi)
      exact ⟨p', hset, happlied⟩
    · obtain ⟨q, hq, happlied⟩ := h.board i (hkept ▸ hi)
      by_cases hli : l.pull = i
      · subst hli
        obtain rfl : p = q := Option.some.inj (hp.symm.trans hq)
        exact ⟨p', hset, hsame.trans happlied⟩
      · exact ⟨q, (List.getElem?_set_ne hli).trans hq, happlied⟩

/-- The invariant holds in every state reached in time. -/
theorem inv_reach (hs : (cancelRuns toLowercase temp).Reach (inTime temp) s) : s.Inv temp := by
  refine hs.invariant (P := Inv temp) (fun s h => ?_) fun s l s' _ h hok hl => ?_
  · obtain ⟨hnone, hboard⟩ := h
    refine ⟨fun i p hp => ?_, fun i hi => ?_⟩
    · rw [hnone] at hp
      cases hp
    · rw [hboard] at hi
      cases hi
  · have hl : s.step toLowercase temp l = some s' := hl
    cases l with
    | start side seq maxBytes m => exact inv_start h hl
    | cancel => exact inv_cancel h hok hl
    | look | access | ioError | apply | report => exact inv_own h rfl hok hl

/-- **A cancel in time is honoured**, in every run in which each comes in time. -/
theorem cancel_honoured (toLowercase : String → String) (temp : List String) (s : CancelRun)
    (hs : (cancelRuns toLowercase temp).Reach (inTime temp) s) : s.Honoured toLowercase temp := by
  have hinv := inv_reach hs
  refine ⟨fun i p hp hc => ?_, fun i p hp hc hevents => ⟨?_, fun l s' p' hi hown hok hl hp' => ?_⟩,
    fun p hp hfree => ?_⟩
  -- a pull caught by its switch has put nothing on the clipboard and reports no other end
  · have h := hinv.pulls i p hp
    obtain ⟨happlied, htrack⟩ := h.track hc
    refine ⟨happlied, fun hboard => ?_, ?_⟩
    · obtain ⟨q, hq, hyes⟩ := hinv.board i hboard
      obtain rfl : p = q := Option.some.inj (hp.symm.trans hq)
      rw [happlied] at hyes
      cases hyes
    · rcases h.once with hnone | ⟨e, hended, hevents⟩
      · exact .inl hnone
      · rw [WatchedPull.OnTrack, hended] at htrack
        cases e with
        | cancelled =>
          rcases htrack with ⟨-, hnone, -⟩ | ⟨-, -, hgone⟩
          · exact .inl hnone
          · exact .inr ⟨hevents, hgone⟩
        | done => exact absurd htrack id
        | failed => exact absurd htrack id
  -- something of its own is left for it to do
  · obtain ⟨l, fs, p', hi, hown, hact⟩ := WatchedPull.goes_on (hinv.pulls i p hp) hc hevents i s.fs
    subst hi
    refine ⟨l, { s with fs, pulls := s.pulls.set l.pull p', clipboard := s.clipboardAfter l }, rfl,
      hown, ?_⟩
    cases l with
    | start => cases hown
    | cancel => cases hown
    | look | access | ioError | apply | report => simp only [step, hp, hact]
  -- whatever it does brings it nearer to its end
  · subst hi
    obtain ⟨q, fs, q', hq, hact, rfl⟩ := step_own hown hl
    obtain rfl : p = q := Option.some.inj (hp.symm.trans hq)
    obtain ⟨hlt, -⟩ := List.getElem?_eq_some_iff.mp hp
    obtain rfl : q' = p' :=
      Option.some.inj ((List.getElem?_set_self hlt).symm.trans hp')
    exact (act_inv hp (hinv.pulls _ p hp) hok hact).2.1 hc
  -- a pull tells one end, and `cancelled` only where the switch was flipped
  · obtain ⟨i, hi⟩ := List.getElem?_of_mem hp
    have h := hinv.pulls i p hi
    rcases h.once with hnone | ⟨e, hended, hevents⟩
    · rw [hnone]
      exact ⟨nofun, Nat.zero_le 1⟩
    · rw [hevents]
      refine ⟨fun hmem => ?_, Nat.le_refl 1⟩
      rw [List.mem_singleton] at hmem
      rw [h.told (.inr (hmem ▸ hended))] at hfree
      cases hfree

/-! ### A pull of one file -/

instance (temp : List String) (s : CancelRun) : (l : CancelLabel) → Decidable (inTime temp s l)
  | .cancel => inferInstanceAs (Decidable (∀ p ∈ s.pulls,
      p.underWay = true → p.caught = true ∨ p.looksAgain = true))
  | .access i => inferInstanceAs (Decidable (∀ p ∈ s.pulls[i]?, p.caught = true →
      ∀ out ∈ p.act temp s.fs s.generation (.access i), out.2.ended ≠ some .failed))
  | .ioError i => inferInstanceAs (Decidable (∀ p ∈ s.pulls[i]?, p.caught = false))
  | .start .. | .look _ | .apply .. | .report _ => isTrue trivial

/-- A pull of one file of so many bytes, up to where the file is open. -/
def opened (size : Nat) : List CancelLabel :=
  [.start .client 1 0 ⟨[⟨"a", size, false⟩]⟩, .look (.createDest 0), .access 0, .look (.entry 0),
    .access 0]

/-- Cancelled while it waits for its first chunk. -/
theorem cancelled_while_waiting : ∃ s : CancelRun,
    (s.pulls.map fun p => (p.caught, p.events)) = [(true, [.cancelled])]
    ∧ s.Honoured id ["tmp"] := by
  have hend : ((cancelRuns id ["tmp"]).exec (inTime ["tmp"]) ⟨tempOnly, 0, [], none⟩
      (opened 1 ++ [.cancel, .look (.chunk 0 .cancelled), .access 0, .look (.cleanup 0), .access 0,
        .report 0])).any
      (fun s => (s.pulls.map fun p => (p.caught, p.events)) = [(true, [.cancelled])]) := by
    decide +kernel
  obtain ⟨s, hs, hevents⟩ := (Option.any_eq_true _ _).mp hend
  have hreach : (cancelRuns id ["tmp"]).Reach (inTime ["tmp"]) s :=
    Lts.reach_of_exec ⟨rfl, rfl⟩ hs
  exact ⟨s, of_decide_eq_true hevents, cancel_honoured id ["tmp"] s hreach⟩

/-- Cancelled while its last file, an empty one, is open: its files are put on the clipboard, and
it is reported done. -/
theorem cancel_after_last_look : ∃ s, (cancelRuns id ["tmp"]).Reachable s
    ∧ (s.pulls.map fun p => (p.caught, p.events)) = [(true, [.done])] ∧ s.clipboard = some 0
    ∧ ¬ s.Honoured id ["tmp"] := by
  -- the switch is flipped when nothing looks at it any more
  have hend : ((cancelRuns id ["tmp"]).run ⟨tempOnly, 0, [], none⟩
      (opened 0 ++ [.cancel, .look (.fileDone 0), .access 0, .look (.finish 0 "server" 0), .access 0,
        .apply 0 true, .report 0])).any
      (fun s => (s.pulls.map fun p => (p.caught, p.events)) = [(true, [.done])]
        ∧ s.clipboard = some 0) := by
    decide +kernel
  obtain ⟨s, hs, hdone⟩ := (Option.any_eq_true _ _).mp hend
  obtain ⟨hevents, hboard⟩ := of_decide_eq_true hdone
  refine ⟨s, Lts.reachable_of_run ⟨rfl, rfl⟩ hs, hevents, hboard, fun h => ?_⟩
  -- the pull was caught and still told that it is done
  obtain ⟨p, hp, hpe⟩ : ∃ p, s.pulls[0]? = some p ∧ (p.caught, p.events) = (true, [.done]) := by
    have hfirst : (s.pulls.map fun p => (p.caught, p.events))[0]? = some (true, [.done]) := by
      rw [hevents]
      rfl
    rw [List.getElem?_map, Option.map_eq_some_iff] at hfirst
    exact hfirst
  exact (h.cancelled 0 p hp (congrArg Prod.fst hpe)).2.1 hboard

end CancelRun

end GeserDesk
