import Mathlib
import GeserDesk.Lib.Transition
import GeserDesk.Clipboard.Pull
import GeserDesk.Lib.Table

/-!
# All the pulls a machine makes

`staging_dir` of `geserdesk-client/src/files.rs` and of `geserdesk-server/src/files.rs`, and
`pull_with_options` of `geserdesk-clipboard/src/pull.rs` one disk access at a time: a machine may
have several pulls under way, over any number of sessions, all on one disk.

* **`pulls_isolated`**: as long as no transfer number comes twice (`freshNumber`), every pull has
  a folder to itself, one that fails removes what it put there and nothing else, and what a
  finished one has left stays.
* **`second_pull_removes_first`**: a server that was started again counts from the beginning, and
  a failed pull of the same number takes the files of the first one away.
-/

namespace GeserDesk

/-- Which of the two kinds of pull: a client's, or a server's for its own screen. -/
inductive PullSide where
  | client | server
deriving DecidableEq, Repr

/-- `staging_dir`, under the system's folder for temporary files. -/
def stagingDir (temp : List String) : PullSide → Nat → List String
  | .client, seq => temp ++ ["geserdesk-clipboard-files", toString seq]
  | .server, seq => temp ++ ["geserdesk-clipboard-files-server", toString seq]

/-- The file a pull is at, and how much of it there is. -/
structure PullFile where
  entry : FileEntry
  path : List String
  offset : Nat

inductive PullPc where
  /-- The checks are passed; nothing is on the disk. -/
  | ready (resolved : List (List String))
  | staging (current : Option PullFile) (todo : List (FileEntry × List String))
  /-- Something went wrong, and the folder is still there. -/
  | failing
  | failed
  /-- Finished, with the disk as it was then. -/
  | done (snap : FileStore String UInt8)

/-- What follows a file, or the last of them, by how it went. -/
def PullPc.following (todo : List (FileEntry × List String)) : Option PullError → PullPc
  | none => .staging none todo
  | some _ => .failing

structure PullTask where
  side : PullSide
  seq : Nat
  manifest : FileManifest
  pc : PullPc
  /-- What it put on the disk (bookkeeping only). -/
  wrote : List (List String) := []

def PullTask.dest (temp : List String) (task : PullTask) : List String :=
  stagingDir temp task.side task.seq

/-- The disk, and all pulls so far. -/
structure PullRun where
  fs : FileStore String UInt8
  tasks : List PullTask := []

inductive PullLabel where
  | start (side : PullSide) (seq maxBytes : Nat) (m : FileManifest)
  | createDest (i : Nat)
  | cancel (i : Nat)
  | entry (i : Nat)
  | chunk (i : Nat) (got : Awaited)
  | fileDone (i : Nat)
  | finish (i : Nat) (peer : String) (time : Nat)
  | cleanup (i : Nat)
deriving DecidableEq

/-- The checks `pull_with_options` makes first. -/
def pullChecks (toLowercase : String → String) (dest : List String) (maxBytes : Nat)
    (m : FileManifest) : PullPc :=
  if 0 < maxBytes ∧ maxBytes < m.totalBytes then .failed
  else
    match sanitizeManifest toLowercase dest [] m.entries with
    | .error _ => .failed
    | .ok resolved => .ready resolved

/-- What a disk access of a pull does: to the disk, and where the pull is then. -/
def PullTask.act (temp : List String) (fs : FileStore String UInt8) (task : PullTask) :
    PullLabel → Option (FileStore String UInt8 × PullTask)
  | .start .. => none
  | .createDest _ =>
    match task.pc with
    | .ready resolved =>
      match fs.createDirAll (task.dest temp) with
      | none => some (fs, { task with pc := .failed })
      | some fs => some (fs, { task with
          pc := .staging none (task.manifest.entries.zip resolved)
          wrote := task.wrote ++ (task.dest temp).inits })
    | _ => none
  -- looked for before the folder is made and before every entry
  | .cancel _ =>
    match task.pc with
    | .ready _ => some (fs, { task with pc := .failed })
    | .staging none (_ :: _) => some (fs, { task with pc := .failing })
    | _ => none
  | .entry _ =>
    match task.pc with
    | .staging none ((entry, path) :: rest) =>
      if entry.dir then
        match fs.createDirAll path with
        | none => some (fs, { task with pc := .failing })
        | some fs => some (fs, { task with
            pc := .staging none rest, wrote := task.wrote ++ path.inits })
      else
        match fs.create path with
        | none => some (fs, { task with pc := .failing })
        | some fs => some (fs, { task with
            pc := .staging (some ⟨entry, path, 0⟩) rest, wrote := task.wrote ++ [path] })
    | _ => none
  | .chunk _ got =>
    match task.pc with
    | .staging (some file) rest =>
      if file.entry.size ≤ file.offset then none
      else
        match got with
        | .answered (.data bytes) =>
          if bytes.isEmpty then some (fs, { task with pc := .failing })
          else
            match fs.append file.path bytes with
            | none => some (fs, { task with pc := .failing })
            | some fs => some (fs, { task with
                pc := .staging (some { file with offset := file.offset + bytes.length }) rest })
        | _ => some (fs, { task with pc := .failing })
    | _ => none
  | .fileDone _ =>
    match task.pc with
    | .staging (some file) rest =>
      if file.entry.size ≤ file.offset then some (fs, { task with pc := .staging none rest })
      else none
    | _ => none
  | .finish _ peer time =>
    match task.pc with
    | .staging none [] =>
      let fs := writeNote fs (task.dest temp) peer time task.manifest
      some (fs, { task with pc := .done fs })
    | _ => none
  | .cleanup _ =>
    match task.pc with
    | .failing => some (fs.removeDirAll (task.dest temp), { task with pc := .failed })
    | _ => none

/-- Which pull a label is about. -/
def PullLabel.task : PullLabel → Nat
  | .start .. => 0
  | .createDest i | .cancel i | .entry i | .chunk i _ | .fileDone i | .finish i _ _ | .cleanup i =>
    i

def PullRun.step (toLowercase : String → String) (temp : List String) (s : PullRun)
    (l : PullLabel) : Option PullRun :=
  match l with
  | .start side seq maxBytes m =>
    let pc := pullChecks toLowercase (stagingDir temp side seq) maxBytes m
    some { s with tasks := s.tasks ++ [⟨side, seq, m, pc, []⟩] }
  | l =>
    match s.tasks[l.task]? with
    | none => none
    | some task =>
      match task.act temp s.fs l with
      | none => none
      | some (fs, task) => some { fs := fs, tasks := s.tasks.set l.task task }

/-- Nothing was staged before the first pull. -/
def Unstaged (temp : List String) (fs : FileStore String UInt8) : Prop :=
  ∀ side seq q, stagingDir temp side seq <+: q → fs q = none

def pullRuns (toLowercase : String → String) (temp : List String) : Lts PullRun PullLabel where
  init s := Unstaged temp s.fs ∧ s.tasks = []
  step s l := s.step toLowercase temp l

/-- The number of a new pull is not that of an earlier one of its side. -/
def freshNumber (s : PullRun) (l : PullLabel) : Prop :=
  ∀ side seq maxBytes m, l = .start side seq maxBytes m →
    ∀ task ∈ s.tasks, ¬ (task.side = side ∧ task.seq = seq)

/-- No two pulls share a folder, and each leaves there what it should. -/
structure PullRun.Isolated (toLowercase : String → String) (temp : List String) (s : PullRun) :
    Prop where
  folders : ∀ (i j : Nat) (task task' : PullTask), i ≠ j → s.tasks[i]? = some task →
    s.tasks[j]? = some task' → ∀ q, ¬ (task.dest temp <+: q ∧ task'.dest temp <+: q)
  /-- A failed pull has left nothing, -/
  removed : ∀ task ∈ s.tasks, ∀ q, task.pc matches .failed → task.dest temp <+: q → s.fs q = none
  /-- and what it removes is what it wrote. -/
  own : ∀ (i : Nat) (task : PullTask) s' q, s.tasks[i]? = some task →
    s.step toLowercase temp (.cleanup i) = some s' → s'.fs q ≠ s.fs q → q ∈ task.wrote ∧ task.dest temp <+: q
  kept : ∀ task ∈ s.tasks, ∀ snap q, task.pc = .done snap → task.dest temp <+: q →
    s.fs q = snap q

/-! ## Folders

Different numbers have different folders, neither within the other. -/

/-- A staging folder is two below the temporary one. -/
theorem stagingDir_length (temp : List String) (side : PullSide) (seq : Nat) :
    (stagingDir temp side seq).length = temp.length + 2 := by
  cases side <;> simp [stagingDir]

/-- The folder says whose pull it is for, and which. -/
theorem stagingDir_inj {temp : List String} {side side' : PullSide} {seq seq' : Nat}
    (h : stagingDir temp side seq = stagingDir temp side' seq') : side = side' ∧ seq = seq' := by
  cases side <;> cases side' <;> simp only [stagingDir, List.append_cancel_left_eq] at h
  · simp only [List.cons.injEq, true_and, and_true] at h
    exact ⟨rfl, Nat.repr_inj.mp h⟩
  · simp at h
  · simp at h
  · simp only [List.cons.injEq, true_and, and_true] at h
    exact ⟨rfl, Nat.repr_inj.mp h⟩

/-- Nothing is in two folders. -/
theorem stagingDir_disjoint {temp q : List String} {side side' : PullSide} {seq seq' : Nat}
    (h : stagingDir temp side seq <+: q) (h' : stagingDir temp side' seq' <+: q) :
    side = side' ∧ seq = seq' := by
  refine stagingDir_inj ((List.prefix_of_prefix_length_le h h' ?_).eq_of_length ?_)
  · rw [stagingDir_length, stagingDir_length]
  · rw [stagingDir_length, stagingDir_length]

/-! ## One pull

An access changes the disk within the pull's folder only. -/

section

variable {temp : List String} {fs fs' : FileStore String UInt8} {task task' : PullTask}
  {l : PullLabel}

/-- What a pull has on the disk, and where it may still write. -/
def PullTask.Holds (temp : List String) (fs : FileStore String UInt8) (task : PullTask) : Prop :=
  match task.pc with
  | .ready resolved => (∀ path ∈ resolved, task.dest temp <+: path)
      ∧ ∀ q, task.dest temp <+: q → fs q = none
  | .staging current todo => (∀ file ∈ current, task.dest temp <+: file.path)
      ∧ (∀ e ∈ todo, task.dest temp <+: e.2)
      ∧ ∀ q, task.dest temp <+: q → fs q ≠ none → q ∈ task.wrote
  | .failing => ∀ q, task.dest temp <+: q → fs q ≠ none → q ∈ task.wrote
  | .failed => ∀ q, task.dest temp <+: q → fs q = none
  | .done snap => ∀ q, task.dest temp <+: q → fs q = snap q

/-- Only what is in a pull's folder matters to it. -/
theorem PullTask.Holds.congr (h : task.Holds temp fs)
    (hsame : ∀ q, task.dest temp <+: q → fs' q = fs q) : task.Holds temp fs' := by
  unfold PullTask.Holds at h ⊢
  cases hpc : task.pc with
  | ready resolved =>
    rw [hpc] at h
    exact ⟨h.1, fun q hq => by rw [hsame q hq, h.2 q hq]⟩
  | staging current todo =>
    rw [hpc] at h
    exact ⟨h.1, h.2.1, fun q hq hne => h.2.2 q hq (by rwa [← hsame q hq])⟩
  | failing =>
    rw [hpc] at h
    exact fun q hq hne => h q hq (by rwa [← hsame q hq])
  | failed =>
    rw [hpc] at h
    exact fun q hq => by rw [hsame q hq, h q hq]
  | done snap =>
    rw [hpc] at h
    exact fun q hq => by rw [hsame q hq, h q hq]

/-- The note is written at its own place and nowhere else. -/
theorem writeNote_changes {dest q : List String} {peer : String} {time : Nat} {m : FileManifest}
    (hq : writeNote fs dest peer time m q ≠ fs q) : q = dest ++ [NOTE] := by
  unfold writeNote at hq
  cases hwrite : fs.write (dest ++ [NOTE]) (noteText peer time m).toUTF8.data.toList with
  | none =>
    rw [hwrite] at hq
    exact absurd rfl hq
  | some fs' =>
    rw [hwrite] at hq
    exact FileStore.write_changes hwrite hq

/-- The step keeps the pull what it is, stays in its folder or above, and leaves there what was
recorded. -/
structure ActSpec (temp : List String) (fs fs' : FileStore String UInt8)
    (task task' : PullTask) : Prop where
  side : task'.side = task.side
  seq : task'.seq = task.seq
  changes : ∀ q, fs' q ≠ fs q → ∃ p, q <+: p ∧ task.dest temp <+: p
  holds : task'.Holds temp fs'

/-- The disk is as it was. -/
theorem ActSpec.same_disk (hside : task'.side = task.side) (hseq : task'.seq = task.seq)
    (hholds : task'.Holds temp fs) : ActSpec temp fs fs task task' :=
  ⟨hside, hseq, fun _ hq => absurd rfl hq, hholds⟩

/-- Only the one file changes. -/
theorem changes_at {dest path : List String} (hother : ∀ q, q ≠ path → fs' q = fs q)
    (hpath : dest <+: path) (q : List String) (hq : fs' q ≠ fs q) :
    ∃ p, q <+: p ∧ dest <+: p := by
  by_cases hqp : q = path
  · exact ⟨path, hqp ▸ List.prefix_refl _, hpath⟩
  · exact absurd (hother q hqp) hq

/-- Making the folder adds the folder and those above it. -/
theorem PullTask.act_createDest {i : Nat} (h : task.Holds temp fs)
    (hl : task.act temp fs (.createDest i) = some (fs', task')) :
    ActSpec temp fs fs' task task' := by
  obtain ⟨side, seq, m, pc, wrote⟩ := task
  cases pc with
  | ready resolved =>
    obtain ⟨hunder, hnone⟩ := h
    simp only [PullTask.act] at hl
    cases hmake : fs.createDirAll (stagingDir temp side seq) with
    | none =>
      simp only [PullTask.dest, hmake, Option.some.injEq, Prod.mk.injEq] at hl
      obtain ⟨rfl, rfl⟩ := hl
      exact .same_disk rfl rfl hnone
    | some fs₁ =>
      simp only [PullTask.dest, hmake, Option.some.injEq, Prod.mk.injEq] at hl
      obtain ⟨rfl, rfl⟩ := hl
      refine ⟨rfl, rfl, fun q hq => ?_, nofun, fun e he => ?_, fun q hq hne => ?_⟩
      · exact ⟨_, (FileStore.createDirAll_changes hmake hq).1, List.prefix_refl _⟩
      -- the checks gave each entry its place in the folder
      · exact hunder e.2 (List.of_mem_zip he).2
      · -- the folder itself, which was not there
        have hchanged : fs₁ q ≠ fs q := by rwa [hnone q hq]
        exact List.mem_append_right _
          ((List.mem_inits _ _).mpr (FileStore.createDirAll_changes hmake hchanged).1)
  | staging | failing | failed | done => cases hl

/-- A cancelled pull writes nothing more. -/
theorem PullTask.act_cancel {i : Nat} (h : task.Holds temp fs)
    (hl : task.act temp fs (.cancel i) = some (fs', task')) : ActSpec temp fs fs' task task' := by
  obtain ⟨side, seq, m, pc, wrote⟩ := task
  cases pc with
  | ready resolved =>
    simp only [PullTask.act, Option.some.injEq, Prod.mk.injEq] at hl
    obtain ⟨rfl, rfl⟩ := hl
    exact .same_disk rfl rfl h.2
  | staging current todo =>
    match current, todo with
    | none, _ :: _ =>
      simp only [PullTask.act, Option.some.injEq, Prod.mk.injEq] at hl
      obtain ⟨rfl, rfl⟩ := hl
      exact .same_disk rfl rfl h.2.2
    | none, [] | some _, _ => cases hl
  | failing | failed | done => cases hl

/-- An entry makes a folder, or an empty file, inside the staging folder. -/
theorem PullTask.act_entry {i : Nat} (h : task.Holds temp fs)
    (hl : task.act temp fs (.entry i) = some (fs', task')) : ActSpec temp fs fs' task task' := by
  obtain ⟨side, seq, m, pc, wrote⟩ := task
  cases pc with
  | staging current todo =>
    match current, todo with
    | none, (entry, path) :: rest =>
      obtain ⟨-, htodo, hown⟩ := h
      rw [List.forall_mem_cons] at htodo
      obtain ⟨hpath, hrest⟩ := htodo
      simp only [PullTask.act] at hl
      cases hdir : entry.dir with
      | true =>
        simp only [hdir, if_true] at hl
        cases hmake : fs.createDirAll path with
        | none =>
          simp only [hmake, Option.some.injEq, Prod.mk.injEq] at hl
          obtain ⟨rfl, rfl⟩ := hl
          exact .same_disk rfl rfl hown
        | some fs₁ =>
          simp only [hmake, Option.some.injEq, Prod.mk.injEq] at hl
          obtain ⟨rfl, rfl⟩ := hl
          refine ⟨rfl, rfl, fun q hq => ?_, nofun, hrest, fun q hq hne => ?_⟩
          · exact ⟨path, (FileStore.createDirAll_changes hmake hq).1, hpath⟩
          -- what was there was written before, the rest is the folder and those above it
          · by_cases hchanged : fs₁ q = fs q
            · exact List.mem_append_left _ (hown q hq (by rwa [← hchanged]))
            · exact List.mem_append_right _
                ((List.mem_inits _ _).mpr (FileStore.createDirAll_changes hmake hchanged).1)
      | false =>
        simp only [hdir, Bool.false_eq_true, if_false] at hl
        cases hmake : fs.create path with
        | none =>
          simp only [hmake, Option.some.injEq, Prod.mk.injEq] at hl
          obtain ⟨rfl, rfl⟩ := hl
          exact .same_disk rfl rfl hown
        | some fs₁ =>
          simp only [hmake, Option.some.injEq, Prod.mk.injEq] at hl
          obtain ⟨rfl, rfl⟩ := hl
          have hput := FileStore.create_eq_some hmake
          have hother : ∀ q, q ≠ path → fs₁ q = fs q := by
            intro q hq
            rw [hput, FileStore.put_of_ne _ _ hq]
          refine ⟨rfl, rfl, changes_at hother hpath, fun file hfile => ?_, hrest,
            fun q hq hne => ?_⟩
          · obtain rfl := Option.some.inj hfile
            exact hpath
          -- the new file is recorded
          · by_cases hqp : q = path
            · exact List.mem_append_right _ (List.mem_singleton.mpr hqp)
            · exact List.mem_append_left _ (hown q hq (by rwa [← hother q hqp]))
    | none, [] | some _, _ => cases hl
  | ready | failing | failed | done => cases hl

/-- A chunk is appended to a file inside the staging folder. -/
theorem PullTask.act_chunk {i : Nat} {got : Awaited} (h : task.Holds temp fs)
    (hl : task.act temp fs (.chunk i got) = some (fs', task')) :
    ActSpec temp fs fs' task task' := by
  obtain ⟨side, seq, m, pc, wrote⟩ := task
  cases pc with
  | staging current todo =>
    match current with
    | some file =>
      obtain ⟨hcurrent, htodo, hown⟩ := h
      have hpath := hcurrent file rfl
      -- whatever it is that went wrong
      have hfail : some (fs, (⟨side, seq, m, .failing, wrote⟩ : PullTask)) = some (fs', task') →
          ActSpec temp fs fs' ⟨side, seq, m, .staging (some file) todo, wrote⟩ task' := by
        intro hl
        simp only [Option.some.injEq, Prod.mk.injEq] at hl
        obtain ⟨rfl, rfl⟩ := hl
        exact .same_disk rfl rfl hown
      simp only [PullTask.act] at hl
      split at hl
      · cases hl
      · match got with
        | .cancelled | .timedOut | .answered (.err _) => exact hfail hl
        | .answered (.data bytes) =>
          simp only at hl
          split at hl
          · exact hfail hl
          · cases happend : fs.append file.path bytes with
            | none =>
              rw [happend] at hl
              exact hfail hl
            | some fs₁ =>
              simp only [happend, Option.some.injEq, Prod.mk.injEq] at hl
              obtain ⟨rfl, rfl⟩ := hl
              obtain ⟨old, hold, hput⟩ := FileStore.append_eq_some happend
              have hother : ∀ q, q ≠ file.path → fs₁ q = fs q := by
                intro q hq
                rw [hput, FileStore.put_of_ne _ _ hq]
              refine ⟨rfl, rfl, changes_at hother hpath, fun file' hfile => ?_, htodo,
                fun q hq hne => ?_⟩
              · obtain rfl := Option.some.inj hfile
                exact hpath
              · -- a chunk goes into a file that is there
                by_cases hqp : q = file.path
                · exact hown q hq (by rw [hqp, hold]; nofun)
                · exact hown q hq (by rwa [← hother q hqp])
    | none => cases hl
  | ready | failing | failed | done => cases hl

/-- The end of a file writes nothing. -/
theorem PullTask.act_fileDone {i : Nat} (h : task.Holds temp fs)
    (hl : task.act temp fs (.fileDone i) = some (fs', task')) :
    ActSpec temp fs fs' task task' := by
  obtain ⟨side, seq, m, pc, wrote⟩ := task
  cases pc with
  | staging current todo =>
    match current with
    | some file =>
      simp only [PullTask.act, Option.ite_none_right_eq_some, Option.some.injEq,
        Prod.mk.injEq] at hl
      obtain ⟨-, rfl, rfl⟩ := hl
      exact .same_disk rfl rfl ⟨nofun, h.2.1, h.2.2⟩
    | none => cases hl
  | ready | failing | failed | done => cases hl

/-- The end of the pull leaves its note inside the staging folder. -/
theorem PullTask.act_finish {i time : Nat} {peer : String}
    (hl : task.act temp fs (.finish i peer time) = some (fs', task')) :
    ActSpec temp fs fs' task task' := by
  obtain ⟨side, seq, m, pc, wrote⟩ := task
  cases pc with
  | staging current todo =>
    match current, todo with
    | none, [] =>
      simp only [PullTask.act, Option.some.injEq, Prod.mk.injEq] at hl
      obtain ⟨rfl, rfl⟩ := hl
      refine ⟨rfl, rfl, fun q hq => ?_, fun _ _ => rfl⟩
      exact ⟨q, List.prefix_refl q, writeNote_changes hq ▸ List.prefix_append _ _⟩
    | none, _ :: _ | some _, _ => cases hl
  | ready | failing | failed | done => cases hl

/-- Cleaning up takes the staging folder away, and nothing else. -/
theorem PullTask.act_cleanup {i : Nat} (hl : task.act temp fs (.cleanup i) = some (fs', task')) :
    ActSpec temp fs fs' task task' := by
  obtain ⟨side, seq, m, pc, wrote⟩ := task
  cases pc with
  | failing =>
    simp only [PullTask.act, Option.some.injEq, Prod.mk.injEq] at hl
    obtain ⟨rfl, rfl⟩ := hl
    refine ⟨rfl, rfl, fun q hq => ⟨q, List.prefix_refl q, ?_⟩, fun q hq => ?_⟩
    -- nothing outside the folder is removed
    · by_contra hout
      exact hq (if_neg (by simpa using hout))
    · exact if_pos (List.isPrefixOf_iff_prefix.mpr hq)
  | ready | staging | failed | done => cases hl

/-- **Each act of a pull stays in its own staging folder.** -/
theorem PullTask.act_spec (h : task.Holds temp fs) (hl : task.act temp fs l = some (fs', task')) :
    ActSpec temp fs fs' task task' := by
  cases l with
  | start side seq maxBytes m => cases hl
  | createDest i => exact act_createDest h hl
  | cancel i => exact act_cancel h hl
  | entry i => exact act_entry h hl
  | chunk i got => exact act_chunk h hl
  | fileDone i => exact act_fileDone h hl
  | finish i peer time => exact act_finish hl
  | cleanup i => exact act_cleanup hl

end

/-! ## All of them

So each pull finds in its folder what it has put there itself. -/

section

variable {toLowercase : String → String} {temp : List String} {s s' : PullRun} {l : PullLabel}

/-- Every pull has its own number and finds its folder as it left it, and where no pull has its
folder there is nothing. -/
structure PullRun.Inv (temp : List String) (s : PullRun) : Prop where
  holds : ∀ (i : Nat) (task : PullTask), s.tasks[i]? = some task → task.Holds temp s.fs
  apart : ∀ (i j : Nat) (task task' : PullTask), i ≠ j → s.tasks[i]? = some task →
    s.tasks[j]? = some task' → ¬ (task.side = task'.side ∧ task.seq = task'.seq)
  free : ∀ side seq, (∀ task ∈ s.tasks, ¬ (task.side = side ∧ task.seq = seq)) →
    ∀ q, stagingDir temp side seq <+: q → s.fs q = none

/-- What one pull does is not seen in another folder. -/
theorem ActSpec.elsewhere {fs fs' : FileStore String UInt8} {task task' : PullTask}
    {side : PullSide} {seq : Nat} (h : ActSpec temp fs fs' task task')
    (hne : ¬ (task.side = side ∧ task.seq = seq)) (q : List String)
    (hq : stagingDir temp side seq <+: q) : fs' q = fs q := by
  by_contra hchanged
  obtain ⟨p, hqp, hp⟩ := h.changes q hchanged
  exact hne (stagingDir_disjoint hp (hq.trans hqp))

/-- A pull starts with what its folder holds: nothing, as the number is fresh. -/
theorem PullTask.holds_start {fs : FileStore String UInt8} {side : PullSide} {seq maxBytes : Nat}
    {m : FileManifest} (hfree : ∀ q, stagingDir temp side seq <+: q → fs q = none) :
    (⟨side, seq, m, pullChecks toLowercase (stagingDir temp side seq) maxBytes m, []⟩ :
      PullTask).Holds temp fs := by
  unfold PullTask.Holds pullChecks
  by_cases hlarge : 0 < maxBytes ∧ maxBytes < m.totalBytes
  · simp only [if_pos hlarge]
    exact hfree
  · simp only [if_neg hlarge]
    cases hsanitize : sanitizeManifest toLowercase (stagingDir temp side seq) [] m.entries with
    | error e => exact hfree
    | ok resolved =>
      refine ⟨fun path hpath => ?_, hfree⟩
      rw [(sanitizeManifest_ok hsanitize).1] at hpath
      obtain ⟨e, _, rfl⟩ := List.mem_map.mp hpath
      exact List.prefix_append _ _

/-- A start under a fresh number keeps the pulls apart. -/
theorem PullRun.inv_start {side : PullSide} {seq maxBytes : Nat} {m : FileManifest}
    (h : s.Inv temp) (hfresh : ∀ task ∈ s.tasks, ¬ (task.side = side ∧ task.seq = seq))
    (hl : s.step toLowercase temp (.start side seq maxBytes m) = some s') : s'.Inv temp := by
  obtain rfl : _ = s' := Option.some.inj hl
  have hfree := h.free side seq hfresh
  refine ⟨fun i task hi => ?_, fun i j task task' hij hi hj => ?_, fun side' seq' hnone => ?_⟩
  · rcases Table.of_concat hi with hi | ⟨_, rfl⟩
    · exact h.holds i task hi
    · exact PullTask.holds_start hfree
  · rcases Table.of_concat hi with hi | ⟨hilen, rfl⟩
    · rcases Table.of_concat hj with hj | ⟨_, rfl⟩
      · exact h.apart i j task task' hij hi hj
      · exact hfresh task (List.mem_of_getElem? hi)
    · rcases Table.of_concat hj with hj | ⟨hjlen, _⟩
      · intro ⟨hside, hseq⟩
        exact hfresh task' (List.mem_of_getElem? hj) ⟨hside.symm, hseq.symm⟩
      · exact absurd (hilen.trans hjlen.symm) hij
  -- what no pull has now, none had before
  · exact h.free side' seq' fun task htask => hnone task (List.mem_append_left _ htask)

/-- What any other step is. -/
theorem PullRun.step_cases (hstart : ∀ side seq maxBytes m, l ≠ .start side seq maxBytes m)
    (hl : s.step toLowercase temp l = some s') :
    ∃ task fs task', s.tasks[l.task]? = some task ∧ task.act temp s.fs l = some (fs, task')
      ∧ s' = { fs := fs, tasks := s.tasks.set l.task task' } := by
  have hl : (match s.tasks[l.task]? with
      | none => none
      | some task =>
        match task.act temp s.fs l with
        | none => none
        | some (fs, task) => some (⟨fs, s.tasks.set l.task task⟩ : PullRun)) = some s' := by
    cases l with
    | start side seq maxBytes m => exact absurd rfl (hstart side seq maxBytes m)
    | _ => exact hl
  cases htask : s.tasks[l.task]? with
  | none =>
    rw [htask] at hl
    cases hl
  | some task =>
    rw [htask] at hl
    cases hact : task.act temp s.fs l with
    | none => simp [hact] at hl
    | some out =>
      simp only [hact] at hl
      exact ⟨task, out.1, out.2, rfl, hact, (Option.some.inj hl).symm⟩

/-- Every act keeps the pulls apart, as it is in the folder of one of them alone. -/
theorem PullRun.inv_act (h : s.Inv temp)
    (hstart : ∀ side seq maxBytes m, l ≠ .start side seq maxBytes m)
    (hl : s.step toLowercase temp l = some s') : s'.Inv temp := by
  obtain ⟨task, fs, task', htask, hact, rfl⟩ := step_cases hstart hl
  have hspec := PullTask.act_spec (h.holds _ task htask) hact
  have hcases : ∀ (j : Nat) (other : PullTask), (s.tasks.set l.task task')[j]? = some other →
      (j = l.task ∧ other = task') ∨ (j ≠ l.task ∧ s.tasks[j]? = some other) :=
    fun _ _ => Table.of_set htask
  generalize l.task = i at htask hcases ⊢
  refine ⟨fun j other hj => ?_, fun j k a b hjk hj hk => ?_, fun side seq hnone => ?_⟩
  · rcases hcases j other hj with ⟨_, rfl⟩ | ⟨hne, hj⟩
    · exact hspec.holds
    · exact (h.holds j other hj).congr (hspec.elsewhere (h.apart i j task other hne.symm htask hj))
  -- a step leaves each pull its side and its number
  · rcases hcases j a hj with ⟨rfl, rfl⟩ | ⟨_, hja⟩
    · rcases hcases k b hk with ⟨rfl, _⟩ | ⟨_, hkb⟩
      · exact absurd rfl hjk
      · rw [hspec.side, hspec.seq]
        exact h.apart j k task b hjk htask hkb
    · rcases hcases k b hk with ⟨rfl, rfl⟩ | ⟨_, hkb⟩
      · rw [hspec.side, hspec.seq]
        exact h.apart j k a task hjk hja htask
      · exact h.apart j k a b hjk hja hkb
  · obtain ⟨hlt, _⟩ := List.getElem?_eq_some_iff.mp htask
    have hmem : task' ∈ s.tasks.set i task' := List.mem_set hlt task'
    -- so the folder is not that of the pull that moved
    have hmine : ¬ (task.side = side ∧ task.seq = seq) := by
      rw [← hspec.side, ← hspec.seq]
      exact hnone task' hmem
    have hothers : ∀ other ∈ s.tasks, ¬ (other.side = side ∧ other.seq = seq) := by
      intro other hother
      obtain ⟨j, hj⟩ := List.getElem?_of_mem hother
      by_cases hji : j = i
      · subst hji
        obtain rfl : task = other := Option.some.inj (htask.symm.trans hj)
        exact hmine
      · refine hnone other (List.mem_of_getElem? (i := j) ?_)
        rw [List.getElem?_set_ne (Ne.symm hji)]
        exact hj
    intro q hq
    exact (hspec.elsewhere hmine q hq).trans (h.free side seq hothers q hq)

/-- **The pulls are apart in every state reached.** -/
theorem PullRun.inv (hs : (pullRuns toLowercase temp).Reach freshNumber s) : s.Inv temp := by
  refine hs.invariant (P := PullRun.Inv temp) (fun s h => ?_) fun s l s' _ h hok hl => ?_
  · obtain ⟨hfs, hnone⟩ := h
    refine ⟨fun i task hi => ?_, fun i j task _ _ hi => ?_,
      fun side seq _ q hq => hfs side seq q hq⟩
    · rw [hnone] at hi
      cases hi
    · rw [hnone] at hi
      cases hi
  · by_cases hstart : ∃ side seq maxBytes m, l = .start side seq maxBytes m
    · obtain ⟨side, seq, maxBytes, m, rfl⟩ := hstart
      exact inv_start h (hok side seq maxBytes m rfl) hl
    · exact inv_act h (fun side seq maxBytes m heq => hstart ⟨side, seq, maxBytes, m, heq⟩) hl

/-- **Pulls are isolated** in every run in which no number comes twice. -/
theorem pulls_isolated (toLowercase : String → String) (temp : List String) (s : PullRun)
    (hs : (pullRuns toLowercase temp).Reach freshNumber s) : s.Isolated toLowercase temp := by
  have hinv := PullRun.inv hs
  refine ⟨fun i j task task' hij hi hj q => ?_, fun task htask q hfailed hq => ?_,
    fun i task s' q hi hstep hchanged => ?_, fun task htask snap q hdone hq => ?_⟩
  · rintro ⟨hq, hq'⟩
    exact hinv.apart i j task task' hij hi hj (stagingDir_disjoint hq hq')
  · obtain ⟨i, hi⟩ := List.getElem?_of_mem htask
    have hholds := hinv.holds i task hi
    unfold PullTask.Holds at hholds
    cases hpc : task.pc with
    | failed =>
      rw [hpc] at hholds
      exact hholds q hq
    | ready | staging | failing | done => simp [hpc] at hfailed
  · obtain ⟨task₀, fs, task', htask, hact, rfl⟩ :=
      PullRun.step_cases (fun _ _ _ _ h => by cases h) hstep
    obtain rfl : task₀ = task := Option.some.inj (htask.symm.trans hi)
    have hholds := hinv.holds i task₀ hi
    obtain ⟨side, seq, m, pc, wrote⟩ := task₀
    cases pc with
    | failing =>
      simp only [PullTask.act, Option.some.injEq, Prod.mk.injEq] at hact
      obtain ⟨rfl, rfl⟩ := hact
      have hin : stagingDir temp side seq <+: q := by
        by_contra hout
        exact hchanged (if_neg fun hpre => hout (List.isPrefixOf_iff_prefix.mp hpre))
      -- only what is there is removed, and all that is there was written by the pull
      refine ⟨hholds q hin fun hnone => hchanged ?_, hin⟩
      rw [hnone]
      exact if_pos (List.isPrefixOf_iff_prefix.mpr hin)
    | ready | staging | failed | done => cases hact
  · obtain ⟨i, hi⟩ := List.getElem?_of_mem htask
    have hholds := hinv.holds i task hi
    unfold PullTask.Holds at hholds
    rw [hdone] at hholds
    exact hholds q hq

end

/-! ## A whole pull is a run

The function of the code, from end to end, is a run of the steps here. -/

section

variable {toLowercase : String → String} {temp : List String} {fs fs' : FileStore String UInt8}
  {tasks : List PullTask} {task task' : PullTask} {i : Nat} {l : PullLabel}

/-- An act of one pull is a step of the run. -/
theorem PullRun.reach_act (hi : i < tasks.length) (hl : l.task = i)
    (hstart : ∀ side seq maxBytes m, l ≠ .start side seq maxBytes m)
    (hs : (pullRuns toLowercase temp).Reach freshNumber ⟨fs, tasks.set i task⟩)
    (hact : task.act temp fs l = some (fs', task')) :
    (pullRuns toLowercase temp).Reach freshNumber ⟨fs', tasks.set i task'⟩ := by
  refine hs.step (fun side seq maxBytes m heq => absurd heq (hstart side seq maxBytes m)) ?_
  have hget : (tasks.set i task)[l.task]? = some task := by
    rw [hl, List.getElem?_set_self hi]
  have hstep : (⟨fs, tasks.set i task⟩ : PullRun).step toLowercase temp l
      = some ⟨fs', (tasks.set i task).set l.task task'⟩ := by
    cases l with
    | start side seq maxBytes m => exact absurd rfl (hstart side seq maxBytes m)
    | _ => simp only [PullRun.step, hget, hact]
  rw [hl, List.set_set] at hstep
  exact hstep

variable {σ : Type} {fetch : Fetch σ} {side : PullSide} {seq number : Nat} {m : FileManifest}
  {wrote : List (List String)}

/-- The chunks of a file, one access after the other. -/
theorem pullChunks_reached {index rounds offset : Nat} {entry : FileEntry} {path : List String}
    {rest : List (FileEntry × List String)} {p : Pulling σ} (hi : i < tasks.length)
    (hrounds : entry.size - offset ≤ rounds)
    (hs : (pullRuns toLowercase temp).Reach freshNumber
      ⟨p.fs, tasks.set i ⟨side, seq, m, .staging (some ⟨entry, path, offset⟩) rest, wrote⟩⟩) :
    (pullRuns toLowercase temp).Reach freshNumber
      ⟨(pullChunks fetch m number index entry path rounds offset p).1.fs,
        tasks.set i ⟨side, seq, m,
          .following rest (pullChunks fetch m number index entry path rounds offset p).2,
          wrote⟩⟩ := by
  induction rounds generalizing offset p with
  | zero =>
    have hend : entry.size ≤ offset := by omega
    exact PullRun.reach_act (l := .fileDone i) hi rfl (by simp) hs (if_pos hend)
  | succ rounds ih =>
    unfold pullChunks
    by_cases hend : entry.size ≤ offset
    · rw [if_pos hend]
      exact PullRun.reach_act (l := .fileDone i) hi rfl (by simp) hs (if_pos hend)
    · rw [if_neg hend]
      generalize fetch.read p.fetching index offset (min (entry.size - offset) MAX_READ_LEN) = out
      obtain ⟨got, fetching⟩ := out
      have hact : ∀ got fs' task', (⟨side, seq, m, .staging (some ⟨entry, path, offset⟩) rest,
          wrote⟩ : PullTask).act temp p.fs (.chunk i got) = some (fs', task') →
          (pullRuns toLowercase temp).Reach freshNumber ⟨fs', tasks.set i task'⟩ :=
        fun got _ _ => PullRun.reach_act (l := .chunk i got) hi rfl (by simp) hs
      -- what goes wrong with a chunk ends the pull
      have hfail : ∀ got, (⟨side, seq, m, .staging (some ⟨entry, path, offset⟩) rest,
          wrote⟩ : PullTask).act temp p.fs (.chunk i got)
            = some (p.fs, ⟨side, seq, m, .failing, wrote⟩) →
          (pullRuns toLowercase temp).Reach freshNumber
            ⟨p.fs, tasks.set i ⟨side, seq, m, .failing, wrote⟩⟩ := fun got => hact got _ _
      cases got with
      | cancelled => exact hfail .cancelled (if_neg hend)
      | timedOut => exact hfail .timedOut (if_neg hend)
      | answered result =>
      cases result with
      | err e => exact hfail (.answered (.err e)) (if_neg hend)
      | data bytes =>
        by_cases hempty : bytes.isEmpty
        · simp only [hempty, if_true]
          exact hfail (.answered (.data bytes)) (by simp [PullTask.act, hend, hempty])
        · simp only [hempty, Bool.false_eq_true, if_false]
          cases happend : p.fs.append path bytes with
          | none =>
            exact hfail (.answered (.data bytes)) (by simp [PullTask.act, hend, hempty, happend])
          | some fs' =>
            have hpos : 0 < bytes.length := by
              rw [List.length_pos_iff]
              simpa using hempty
            refine ih (by omega) (hact (.answered (.data bytes)) _ _ ?_)
            simp [PullTask.act, hend, hempty, happend]

/-- All the entries, one after the other. -/
theorem pullInto_reached {index : Nat} {todo : List (FileEntry × List String)} {p : Pulling σ}
    (hi : i < tasks.length)
    (hs : (pullRuns toLowercase temp).Reach freshNumber
      ⟨p.fs, tasks.set i ⟨side, seq, m, .staging none todo, wrote⟩⟩) :
    ∃ wrote', (pullRuns toLowercase temp).Reach freshNumber
      ⟨(pullInto fetch m number index todo p).1.fs, tasks.set i ⟨side, seq, m,
        .following [] (pullInto fetch m number index todo p).2, wrote'⟩⟩ := by
  -- on the entries to come, with a step of the run for each that is done
  induction todo generalizing index p wrote with
  | nil => exact ⟨wrote, hs⟩
  | cons e rest ih =>
    obtain ⟨entry, path⟩ := e
    unfold pullInto
    -- the switch is down
    by_cases hcancel : fetch.isCancelled p.fetching
    · rw [if_pos hcancel]
      exact ⟨wrote, PullRun.reach_act (l := .cancel i) hi rfl (by simp) hs rfl⟩
    · rw [if_neg hcancel]
      have hact : ∀ fs' task', (⟨side, seq, m, .staging none ((entry, path) :: rest), wrote⟩ :
          PullTask).act temp p.fs (.entry i) = some (fs', task') →
          (pullRuns toLowercase temp).Reach freshNumber ⟨fs', tasks.set i task'⟩ :=
        fun _ _ => PullRun.reach_act (l := .entry i) hi rfl (by simp) hs
      -- a folder is made
      cases hdir : entry.dir with
      | true =>
        rw [if_pos rfl]
        cases hmake : p.fs.createDirAll path with
        | none => exact ⟨wrote, hact _ _ (by simp [PullTask.act, PullPc.following, hdir, hmake])⟩
        | some fs' =>
          have hmade := hact fs' ⟨side, seq, m, .staging none rest, wrote ++ path.inits⟩
            (by simp [PullTask.act, hdir, hmake])
          exact ih (p := { p with fs := fs' }) hmade
      -- a file is made and its chunks follow
      | false =>
        rw [if_neg Bool.false_ne_true]
        cases hmake : p.fs.create path with
        | none => exact ⟨wrote, hact _ _ (by simp [PullTask.act, PullPc.following, hdir, hmake])⟩
        | some fs' =>
          have hfile := hact fs' ⟨side, seq, m, .staging (some ⟨entry, path, 0⟩) rest,
            wrote ++ [path]⟩ (by simp [PullTask.act, hdir, hmake])
          have hchunks : (pullRuns toLowercase temp).Reach freshNumber
              ⟨(pullChunks fetch m number index entry path entry.size 0 { p with fs := fs' }).1.fs,
                tasks.set i ⟨side, seq, m, .following rest (pullChunks fetch m number index entry
                  path entry.size 0 { p with fs := fs' }).2, wrote ++ [path]⟩⟩ :=
            pullChunks_reached hi (Nat.le_refl _) hfile
          simp only
          -- the pull goes on with the rest, or has failed in this file
          cases hrun : pullChunks fetch m number index entry path entry.size 0
              { p with fs := fs' } with
          | mk p₁ r =>
            rw [hrun] at hchunks
            cases r with
            | some e => exact ⟨_, hchunks⟩
            | none => exact ih (p := { p₁ with fileIndex := p₁.fileIndex + 1 }) hchunks

/-- What a whole pull does to the disk, if nothing else touches it, is what one of the runs
does. -/
theorem pullWithOptions_reached {s : PullRun} {maxBytes : Nat} {fetching : σ}
    (hs : (pullRuns toLowercase temp).Reach freshNumber s)
    (hfresh : ∀ task ∈ s.tasks, ¬ (task.side = side ∧ task.seq = seq)) :
    ∃ task, (pullRuns toLowercase temp).Reach freshNumber
      ⟨(pullWithOptions toLowercase m (stagingDir temp side seq) ⟨maxBytes, seq⟩ fetch s.fs
        fetching).1.fs, s.tasks ++ [task]⟩ := by
  have hstart : (pullRuns toLowercase temp).Reach freshNumber ⟨s.fs, s.tasks
      ++ [⟨side, seq, m, pullChecks toLowercase (stagingDir temp side seq) maxBytes m, []⟩]⟩ :=
    hs.step (l := .start side seq maxBytes m)
      (fun _ _ _ _ heq => by cases heq; exact hfresh) rfl
  -- the new pull is the last one
  have hlast : ∀ task task' : PullTask, (s.tasks ++ [task]).set s.tasks.length task'
      = s.tasks ++ [task'] := by
    intro task task'
    rw [List.set_append_right _ _ (Nat.le_refl _), Nat.sub_self]
    rfl
  unfold pullWithOptions
  by_cases hlarge : 0 < maxBytes ∧ maxBytes < m.totalBytes
  · simp only [if_pos hlarge]
    exact ⟨_, hstart⟩
  · simp only [if_neg hlarge]
    cases hsanitize : sanitizeManifest toLowercase (stagingDir temp side seq) [] m.entries with
    | error e => exact ⟨_, hstart⟩
    | ok resolved =>
      have hpc : pullChecks toLowercase (stagingDir temp side seq) maxBytes m = .ready resolved := by
        rw [pullChecks, if_neg hlarge, hsanitize]
      rw [hpc, ← hlast ⟨side, seq, m, .failed, []⟩] at hstart
      have hi : s.tasks.length
          < (s.tasks ++ [(⟨side, seq, m, .failed, []⟩ : PullTask)]).length := by
        simp
      simp only
      cases hcancel : fetch.isCancelled fetching with
      | true =>
        have hfailed := PullRun.reach_act (l := .cancel s.tasks.length) hi rfl nofun hstart rfl
        rw [hlast] at hfailed
        exact ⟨_, hfailed⟩
      | false =>
        simp only [Bool.false_eq_true, if_false]
        cases hmake : s.fs.createDirAll (stagingDir temp side seq) with
        | none =>
          have hfailed := PullRun.reach_act (l := .createDest s.tasks.length) hi rfl nofun hstart
            (by simp only [PullTask.act, PullTask.dest, hmake]; rfl)
          rw [hlast] at hfailed
          exact ⟨_, hfailed⟩
        | some fs' =>
          have hmade := PullRun.reach_act (l := .createDest s.tasks.length) hi rfl nofun hstart
            (by simp only [PullTask.act, PullTask.dest, hmake]; rfl)
          let p : Pulling σ := { fs := fs', fetching := fetching }
          obtain ⟨wrote, hpulled⟩ : ∃ wrote, (pullRuns toLowercase temp).Reach freshNumber
              ⟨(pullInto fetch m seq 0 (m.entries.zip resolved) p).1.fs,
                (s.tasks ++ [(⟨side, seq, m, .failed, []⟩ : PullTask)]).set s.tasks.length
                  ⟨side, seq, m,
                    .following [] (pullInto fetch m seq 0 (m.entries.zip resolved) p).2,
                    wrote⟩⟩ := pullInto_reached hi hmade
          simp only
          cases hrun : pullInto fetch m seq 0 (m.entries.zip resolved) p with
          | mk p₁ r =>
            rw [hrun] at hpulled
            cases r with
            | none =>
              rw [hlast] at hpulled
              exact ⟨_, hpulled⟩
            | some e =>
              have hclean := PullRun.reach_act (l := .cleanup s.tasks.length) hi rfl nofun
                hpulled rfl
              rw [hlast] at hclean
              exact ⟨_, hclean⟩

end

/-! ### A number that comes again -/

instance (s : PullRun) : (l : PullLabel) → Decidable (freshNumber s l)
  | .start side seq maxBytes m =>
    decidable_of_iff (∀ task ∈ s.tasks, ¬ (task.side = side ∧ task.seq = seq))
      ⟨fun h _ _ _ _ heq => by cases heq; exact h, fun h => h side seq maxBytes m rfl⟩
  | .createDest _ | .cancel _ | .entry _ | .chunk _ _ | .fileDone _ | .finish _ _ _ | .cleanup _ =>
    isTrue nofun

/-- An empty disk with a folder for temporary files. -/
def tempOnly : FileStore String UInt8 :=
  FileStore.put (FileStore.put (fun _ => none) [] .folder) ["tmp"] .folder

/-- A disk with nothing but the temporary folder has nothing staged. -/
theorem unstaged_tempOnly : Unstaged ["tmp"] tempOnly := by
  intro side seq q hq
  have hlen := hq.length_le
  rw [stagingDir_length] at hlen
  have hroot : q ≠ [] := fun h => by simp [h] at hlen
  have htmp : q ≠ ["tmp"] := fun h => by simp [h] at hlen
  exact (FileStore.put_of_ne _ _ htmp).trans (FileStore.put_of_ne _ _ hroot)

/-- The pull of one file of one byte, number `seq`, and one that is cancelled at its first chunk. -/
def pullThenFail (seq seq' : Nat) : List PullLabel :=
  [.start .client seq 0 ⟨[⟨"a", 1, false⟩]⟩, .createDest 0, .entry 0, .chunk 0 (.answered (.data [7])),
    .fileDone 0, .finish 0 "desk" 0, .start .client seq' 0 ⟨[⟨"b", 1, false⟩]⟩, .createDest 1,
    .entry 1, .chunk 1 .cancelled, .cleanup 1]

/-- Two pulls at once, one of each side. -/
theorem pulls_isolated_two : ∃ s : PullRun, s.tasks.length = 2 ∧ s.Isolated id ["tmp"] := by
  have hend : ((pullRuns id ["tmp"]).exec freshNumber ⟨tempOnly, []⟩ (pullThenFail 1 2)).any
      (fun s => s.tasks.length = 2) := by
    decide +kernel
  obtain ⟨s, hs, hlen⟩ := (Option.any_eq_true _ _).mp hend
  have hreach : (pullRuns id ["tmp"]).Reach freshNumber s :=
    Lts.reach_of_exec ⟨unstaged_tempOnly, rfl⟩ hs
  exact ⟨s, by simpa using hlen, pulls_isolated id ["tmp"] s hreach⟩

/-- The first pull has finished with its file, and the file is gone. -/
def PullRun.lost (s : PullRun) : Bool :=
  match s.tasks.head? with
  | some ⟨.client, 1, _, .done snap, _⟩ =>
    decide (snap ["tmp", "geserdesk-clipboard-files", "1", "a"] = some (.file [7]))
      && decide (s.fs ["tmp", "geserdesk-clipboard-files", "1", "a"] = none)
  | _ => false

/-- The server is started again between the two pulls, and both have number 1: the second one's
cleaning up removes the file of the first. -/
theorem second_pull_removes_first : ∃ s,
    (pullRuns id ["tmp"]).Reachable s ∧ ¬ s.Isolated id ["tmp"] := by
  -- the second pull is given the number of the first, and its failure removes their folder
  have hend : ((pullRuns id ["tmp"]).run ⟨tempOnly, []⟩ (pullThenFail 1 1)).any
      PullRun.lost := by
    decide +kernel
  obtain ⟨s, hs, hlost⟩ := (Option.any_eq_true _ _).mp hend
  refine ⟨s, Lts.reachable_of_run ⟨unstaged_tempOnly, rfl⟩ hs, fun h => ?_⟩
  unfold PullRun.lost at hlost
  split at hlost
  · next m snap wrote htask =>
    have hdest : stagingDir ["tmp"] .client 1 ++ ["a"]
        = ["tmp", "geserdesk-clipboard-files", "1", "a"] := by
      decide +kernel
    simp only [Bool.and_eq_true, decide_eq_true_eq] at hlost
    -- the file of the first one should still be there
    have hkept := h.kept _ (List.mem_of_mem_head? htask) snap
      ["tmp", "geserdesk-clipboard-files", "1", "a"] rfl ⟨["a"], hdest⟩
    rw [hlost.1, hlost.2] at hkept
    cases hkept
  · cases hlost

end GeserDesk
