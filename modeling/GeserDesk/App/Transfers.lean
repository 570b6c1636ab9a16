import GeserDesk.Clipboard.Pull
import GeserDesk.Lib.Transition
import Mathlib.Logic.Function.Basic

/-!
# Reports of transfers

`TransferProgress::from_report` and `TransferHub::pull_sink` of `geserdesk-app/src/transfer.rs`,
with the reports `spawn_pull` and `spawn_local_pull` make through it: one sink for every pull of a
session, each report through its store, its load and its send, the pulls between one another in
any order.

* **`transfers_named`**: as long as a pull that ends finds its own number the last one seen, every
  report carries the number and the peer of its pull.
* **`result_of_another`**: a pull that ends while another reports ends that one.
-/

namespace GeserDesk

inductive PullEvent where
  | progress (p : Progress)
  | done
  | cancelled
  | failed (detail : String)
deriving DecidableEq, Repr

structure PullReport where
  peer : String
  event : PullEvent
deriving DecidableEq, Repr

inductive TransferState where
  | running
  | done
  | cancelled
  | failed (detail : String)
deriving DecidableEq, Repr

structure TransferProgress where
  seq : Nat
  peer : String
  file : String
  fileIndex : Nat
  fileCount : Nat
  bytesDone : Nat
  bytesTotal : Nat
  state : TransferState
deriving DecidableEq, Repr

def TransferProgress.fromReport (report : PullReport) (lastSeq : Nat) : TransferProgress :=
  match report.event with
  | .progress p =>
    ⟨p.seq, report.peer, p.file, p.fileIndex, p.fileCount, p.bytesDone, p.bytesTotal, .running⟩
  | .done => ⟨lastSeq, report.peer, "", 0, 0, 0, 0, .done⟩
  | .cancelled => ⟨lastSeq, report.peer, "", 0, 0, 0, 0, .cancelled⟩
  | .failed detail => ⟨lastSeq, report.peer, "", 0, 0, 0, 0, .failed detail⟩

/-- The pull is over with this. -/
def PullEvent.Final : PullEvent → Prop
  | .progress _ => False
  | _ => True

instance : DecidablePred PullEvent.Final := fun ev => by
  unfold PullEvent.Final
  split <;> infer_instance

/-- What one pull reports: its progress, all under its own number, and one end. -/
structure PullStory where
  seq : Nat
  peer : String
  progress : List Progress
  last : PullEvent
  own : ∀ p ∈ progress, p.seq = seq
  final : last.Final

def PullStory.events (j : PullStory) : List PullEvent := j.progress.map .progress ++ [j.last]

/-! ## What a pull reports

All progress a pull reports carries its own number, and its end comes last. -/

section Reported

variable {σ : Type} {fetch : Fetch σ} {m : FileManifest} {seq : Nat}

/-- A chunk is reported under the number given. -/
theorem pullChunks_reported (index : Nat) (entry : FileEntry) (path : List String) (rounds : Nat)
    {offset : Nat} {p : Pulling σ} (h : ∀ r ∈ p.reported, r.seq = seq) :
    ∀ r ∈ (pullChunks fetch m seq index entry path rounds offset p).1.reported, r.seq = seq := by
  induction rounds generalizing offset p with
  | zero => exact h
  | succ rounds ih =>
    unfold pullChunks
    split
    · exact h
    · dsimp only
      split
      · exact h
      · exact h
      · exact h
      · split
        · exact h
        · split
          · exact h
          · refine ih fun r hr => ?_
            rcases List.mem_append.mp hr with hr | hr
            · exact h r hr
            · rw [List.mem_singleton.mp hr]

/-- Every chunk of every entry is reported under the number given. -/
theorem pullInto_reported (entries : List (FileEntry × List String)) {index : Nat} {p : Pulling σ}
    (h : ∀ r ∈ p.reported, r.seq = seq) :
    ∀ r ∈ (pullInto fetch m seq index entries p).1.reported, r.seq = seq := by
  induction entries generalizing index p with
  | nil => exact h
  | cons e entries ih =>
    obtain ⟨entry, path⟩ := e
    unfold pullInto
    split
    · exact h
    · split
      · split
        · exact h
        · exact ih h
      · split
        · exact h
        · next fs _ =>
          have hchunks : ∀ r ∈ (pullChunks fetch m seq index entry path entry.size 0
              { p with fs := fs }).1.reported, r.seq = seq :=
            pullChunks_reported index entry path entry.size h
          split
          · next p' _ hpull =>
            rw [hpull] at hchunks
            exact hchunks
          · next p' hpull =>
            rw [hpull] at hchunks
            exact ih hchunks

/-- Every progress report of a pull carries the number it was given. -/
theorem pullWithOptions_reported (toLowercase : String → String) (dest : List String)
    (options : PullOptions) (fs : FileStore String UInt8) (fetching : σ) :
    ∀ r ∈ (pullWithOptions toLowercase m dest options fetch fs fetching).1.reported,
      r.seq = options.seq := by
  unfold pullWithOptions
  dsimp only
  split
  · exact nofun
  · split
    · exact nofun
    · next resolved _ =>
      split
      · exact nofun
      · split
        · exact nofun
        · next fs' _ =>
          have hinto : ∀ r ∈ (pullInto fetch m options.seq 0 (m.entries.zip resolved)
              { fs := fs', fetching := fetching }).1.reported, r.seq = options.seq :=
            pullInto_reported (m.entries.zip resolved) nofun
          split
          · next p hpull =>
            rw [hpull] at hinto
            exact hinto
          · next p e hpull =>
            rw [hpull] at hinto
            exact hinto

/-- What `spawn_pull` and `spawn_local_pull` report of a pull. `shown` is what comes of putting the
files on the clipboard, and `why` the words for an error. -/
def PullStory.ofPull (toLowercase : String → String) (m : FileManifest) (dest : List String)
    (options : PullOptions) (fetch : Fetch σ) (fs : FileStore String UInt8) (fetching : σ)
    (peer : String) (shown : Except String Unit) (why : PullError → String) : PullStory where
  seq := options.seq
  peer := peer
  progress := (pullWithOptions toLowercase m dest options fetch fs fetching).1.reported
  last :=
    match (pullWithOptions toLowercase m dest options fetch fs fetching).2 with
    | .ok _ =>
      match shown with
      | .ok _ => .done
      | .error detail => .failed detail
    | .error .cancelled => .cancelled
    | .error e => .failed (why e)
  own := pullWithOptions_reported toLowercase dest options fs fetching
  final := by
    split
    · split <;> trivial
    · trivial
    · trivial

end Reported

/-! ## The sink

Several pulls report at once into one sink, which remembers the number last seen. Where pulls do
not overlap, each report carries the number of its own pull. -/

/-- Where a report is: not begun, past the store, or past the load with what it found. -/
inductive SinkPc where
  | idle
  | stored
  | loaded (lastSeq : Nat)
deriving DecidableEq, Repr

/-- A pull, and what of its reports is still to come. -/
structure ReportingPull where
  story : PullStory
  toCome : List PullEvent
  pc : SinkPc := .idle

structure ReportRun where
  lastSeq : Nat := 0
  pulls : Nat → Option ReportingPull := fun _ => none
  /-- What the hub sent, and which pull's report it was (bookkeeping only). -/
  sent : List (Nat × TransferProgress) := []

inductive ReportLabel where
  | start (i : Nat) (story : PullStory)
  | store (i : Nat)
  | load (i : Nat)
  | send (i : Nat)

namespace ReportRun

def setPull (s : ReportRun) (i : Nat) (r : ReportingPull) : ReportRun :=
  { s with pulls := Function.update s.pulls i (some r) }

def step (s : ReportRun) : ReportLabel → Option ReportRun
  | .start i story =>
    match s.pulls i with
    | none => some (s.setPull i ⟨story, story.events, .idle⟩)
    | some _ => none
  | .store i =>
    match s.pulls i with
    | some ⟨story, .progress p :: rest, .idle⟩ =>
      some { s.setPull i ⟨story, .progress p :: rest, .stored⟩ with lastSeq := p.seq }
    | _ => none
  | .load i =>
    match s.pulls i with
    | some ⟨story, .progress p :: rest, .stored⟩ =>
      some (s.setPull i ⟨story, .progress p :: rest, .loaded s.lastSeq⟩)
    | some ⟨story, ev :: rest, .idle⟩ =>
      -- a final report stores nothing
      if ev.Final then some (s.setPull i ⟨story, ev :: rest, .loaded s.lastSeq⟩) else none
    | _ => none
  | .send i =>
    match s.pulls i with
    | some ⟨story, ev :: rest, .loaded lastSeq⟩ =>
      some { s.setPull i ⟨story, rest, .idle⟩ with
        sent := s.sent ++ [(i, .fromReport ⟨story.peer, ev⟩ lastSeq)] }
    | _ => none

end ReportRun

def reportRuns : Lts ReportRun ReportLabel where
  init s := s = {}
  step := ReportRun.step

/-- A pull that ends finds its own number the last one seen. -/
def OwnLast (s : ReportRun) : ReportLabel → Prop
  | .load i =>
    match s.pulls i with
    | some ⟨story, ev :: _, _⟩ => ev.Final → s.lastSeq = story.seq
    | _ => True
  | _ => True

instance (s : ReportRun) (l : ReportLabel) : Decidable (OwnLast s l) := by
  unfold OwnLast
  split
  · split <;> infer_instance
  · infer_instance

def PullEvent.state : PullEvent → TransferState
  | .progress _ => .running
  | .done => .done
  | .cancelled => .cancelled
  | .failed detail => .failed detail

/-- A report has the state of its event and the peer of its pull. -/
theorem fromReport_state (report : PullReport) (lastSeq : Nat) :
    (TransferProgress.fromReport report lastSeq).state = report.event.state
      ∧ (TransferProgress.fromReport report lastSeq).peer = report.peer := by
  unfold TransferProgress.fromReport PullEvent.state
  cases report.event <;> exact ⟨rfl, rfl⟩

namespace ReportRun

/-- The states sent for a pull. -/
def reportsOf (s : ReportRun) (i : Nat) : List TransferState :=
  (s.sent.filter (·.1 = i)).map (·.2.state)

/-- Each pull's reports are what its story tells, as far as they have come. -/
def Told (s : ReportRun) : Prop :=
  ∀ i, match s.pulls i with
    | none => s.reportsOf i = []
    | some r => s.reportsOf i ++ r.toCome.map PullEvent.state = r.story.events.map PullEvent.state

/-- Every report carries the number and the peer of its pull. -/
def Named (s : ReportRun) : Prop :=
  ∀ i t, (i, t) ∈ s.sent → ∃ r, s.pulls i = some r ∧ t.seq = r.story.seq ∧ t.peer = r.story.peer

structure Inv (s : ReportRun) : Prop where
  told : s.Told
  named : s.Named
  /-- What is to come of a pull is under its own number. -/
  own : ∀ i r, s.pulls i = some r → ∀ p, .progress p ∈ r.toCome → p.seq = r.story.seq
  loaded : ∀ i r lastSeq ev, s.pulls i = some r → r.pc = .loaded lastSeq →
    r.toCome.head? = some ev → ev.Final → lastSeq = r.story.seq

variable {s s' : ReportRun}

/-- The pull that was set is the one found. -/
theorem setPull_pulls (s : ReportRun) (i : Nat) (r : ReportingPull) :
    (s.setPull i r).pulls i = some r := Function.update_self _ _ _

/-- The other pulls are as they were. -/
theorem setPull_other {i k : Nat} (hk : k ≠ i) (r : ReportingPull) :
    (s.setPull i r).pulls k = s.pulls k := Function.update_of_ne hk _ _

/-- A pull goes on with the report it is making, and nothing is sent. -/
theorem Inv.goOn (h : s.Inv) {i : Nat} {r : ReportingPull} (hr : s.pulls i = some r) {pc : SinkPc}
    (lastSeq : Nat) (hloaded : ∀ found ev, pc = .loaded found → r.toCome.head? = some ev →
      ev.Final → found = r.story.seq) :
    ({ s.setPull i ⟨r.story, r.toCome, pc⟩ with lastSeq := lastSeq } : ReportRun).Inv := by
  constructor
  · intro k
    have htold := h.told k
    show match (s.setPull i ⟨r.story, r.toCome, pc⟩).pulls k with
      | none => s.reportsOf k = []
      | some r => s.reportsOf k ++ r.toCome.map PullEvent.state
        = r.story.events.map PullEvent.state
    by_cases hk : k = i
    · subst hk
      rw [hr] at htold
      rw [setPull_pulls]
      exact htold
    · rw [setPull_other hk]
      exact htold
  · intro k t ht
    obtain ⟨r', hr', hseq, hpeer⟩ := h.named k t ht
    by_cases hk : k = i
    · subst hk
      rw [hr] at hr'
      cases hr'
      exact ⟨_, setPull_pulls _ _ _, hseq, hpeer⟩
    · exact ⟨r', (setPull_other hk _).trans hr', hseq, hpeer⟩
  · intro k r' hr' p hp
    by_cases hk : k = i
    · subst hk
      cases (setPull_pulls s k _).symm.trans hr'
      exact h.own k r hr p hp
    · exact h.own k r' ((setPull_other hk _).symm.trans hr') p hp
  · intro k r' found ev hr' hpc hhead hfinal
    by_cases hk : k = i
    · subst hk
      cases (setPull_pulls s k _).symm.trans hr'
      exact hloaded found ev hpc hhead hfinal
    · exact h.loaded k r' found ev ((setPull_other hk _).symm.trans hr') hpc hhead hfinal

/-- One report more at the end is a report more of its pull. -/
theorem reportsOf_concat (s : ReportRun) (i k : Nat) (t : TransferProgress) :
    reportsOf { s with sent := s.sent ++ [(i, t)] } k
      = s.reportsOf k ++ if i = k then [t.state] else [] := by
  unfold reportsOf
  dsimp only
  rw [List.filter_append, List.map_append]
  by_cases hk : i = k
  · simp [hk]
  · simp [hk]

/-- A pull sends its next report under its own name. -/
theorem Inv.report (h : s.Inv) {i lastSeq : Nat} {story : PullStory} {ev : PullEvent}
    {rest : List PullEvent} (hr : s.pulls i = some ⟨story, ev :: rest, .loaded lastSeq⟩) :
    ({ s.setPull i ⟨story, rest, .idle⟩ with
      sent := s.sent ++ [(i, .fromReport ⟨story.peer, ev⟩ lastSeq)] } : ReportRun).Inv := by
  obtain ⟨hstate, hpeer⟩ := fromReport_state ⟨story.peer, ev⟩ lastSeq
  -- the number is the one in the report, or the one loaded just before it
  have hseq : (TransferProgress.fromReport ⟨story.peer, ev⟩ lastSeq).seq = story.seq := by
    have hown := h.own i _ hr
    have hloaded := h.loaded i _ lastSeq ev hr rfl rfl
    cases ev with
    | progress p => exact hown p List.mem_cons_self
    | done => exact hloaded trivial
    | cancelled => exact hloaded trivial
    | failed detail => exact hloaded trivial
  generalize TransferProgress.fromReport ⟨story.peer, ev⟩ lastSeq = t at hstate hpeer hseq ⊢
  -- the fields in their order; only pull `i` moves, so the others are as they were
  constructor
  · intro k
    have htold := h.told k
    have hreports := reportsOf_concat (s.setPull i ⟨story, rest, .idle⟩) i k t
    show match (s.setPull i ⟨story, rest, .idle⟩).pulls k with
      | none => reportsOf { s.setPull i ⟨story, rest, .idle⟩ with
          sent := s.sent ++ [(i, t)] } k = []
      | some r => reportsOf { s.setPull i ⟨story, rest, .idle⟩ with
          sent := s.sent ++ [(i, t)] } k ++ r.toCome.map PullEvent.state
        = r.story.events.map PullEvent.state
    rw [show reportsOf { s.setPull i ⟨story, rest, .idle⟩ with sent := s.sent ++ [(i, t)] } k
      = s.reportsOf k ++ if i = k then [t.state] else [] from hreports]
    -- what was told and what is to come, for the pull that reports
    by_cases hk : i = k
    · subst hk
      rw [hr] at htold
      rw [setPull_pulls, if_pos rfl, hstate]
      dsimp only at htold ⊢
      rw [List.append_assoc]
      exact htold
    · rw [setPull_other (Ne.symm hk), if_neg hk, List.append_nil]
      exact htold
  · intro k t' ht'
    -- every report sent names its pull, the new one by the number above
    rcases List.mem_append.mp ht' with ht' | ht'
    · obtain ⟨r', hr', hseq', hpeer'⟩ := h.named k t' ht'
      by_cases hk : k = i
      · subst hk
        rw [hr] at hr'
        cases hr'
        exact ⟨_, setPull_pulls _ _ _, hseq', hpeer'⟩
      · exact ⟨r', (setPull_other hk _).trans hr', hseq', hpeer'⟩
    · cases List.mem_singleton.mp ht'
      exact ⟨_, setPull_pulls _ _ _, hseq, hpeer⟩
  · intro k r' hr' p hp
    by_cases hk : k = i
    · subst hk
      cases (setPull_pulls s k _).symm.trans hr'
      exact h.own k _ hr p (List.mem_cons_of_mem _ hp)
    · exact h.own k r' ((setPull_other hk _).symm.trans hr') p hp
  -- pull `i` has nothing loaded any more
  · intro k r' found ev' hr' hpc hhead hfinal
    by_cases hk : k = i
    · subst hk
      cases (setPull_pulls s k _).symm.trans hr'
      cases hpc
    · exact h.loaded k r' found ev' ((setPull_other hk _).symm.trans hr') hpc hhead hfinal

/-- A new pull has reported nothing. -/
theorem Inv.start (h : s.Inv) {i : Nat} (hnone : s.pulls i = none) (story : PullStory) :
    (s.setPull i ⟨story, story.events, .idle⟩).Inv := by
  -- the fields in their order; pull `i` is new, and the others are as they were
  constructor
  · intro k
    have htold := h.told k
    show match (s.setPull i ⟨story, story.events, .idle⟩).pulls k with
      | none => s.reportsOf k = []
      | some r => s.reportsOf k ++ r.toCome.map PullEvent.state
        = r.story.events.map PullEvent.state
    -- nothing was told of the new pull, so its whole story is still to come
    by_cases hk : k = i
    · subst hk
      rw [hnone] at htold
      rw [setPull_pulls]
      dsimp only at htold ⊢
      rw [htold, List.nil_append]
    · rw [setPull_other hk]
      exact htold
  · intro k t ht
    obtain ⟨r', hr', hnamed⟩ := h.named k t ht
    have hk : k ≠ i := by
      rintro rfl
      rw [hnone] at hr'
      cases hr'
    exact ⟨r', (setPull_other hk _).trans hr', hnamed⟩
  · intro k r' hr' p hp
    by_cases hk : k = i
    · subst hk
      cases (setPull_pulls s k _).symm.trans hr'
      -- its numbers are those of its story, whose end carries none
      rcases List.mem_append.mp hp with hp | hp
      · obtain ⟨q, hq, heq⟩ := List.mem_map.mp hp
        cases heq
        exact story.own p hq
      · have hlast := story.final
        rw [← List.mem_singleton.mp hp] at hlast
        exact hlast.elim
    · exact h.own k r' ((setPull_other hk _).symm.trans hr') p hp
  · intro k r' found ev' hr' hpc hhead hfinal
    by_cases hk : k = i
    · subst hk
      cases (setPull_pulls s k _).symm.trans hr'
      cases hpc
    · exact h.loaded k r' found ev' ((setPull_other hk _).symm.trans hr') hpc hhead hfinal

/-- **Every step under `OwnLast` keeps the reports in step with the pulls.** -/
theorem inv_step (h : s.Inv) {l : ReportLabel} (hown : OwnLast s l) (hl : s.step l = some s') :
    s'.Inv := by
  cases l with
  | start i story =>
    dsimp only [step] at hl
    split at hl
    · next hnone => cases hl; exact h.start hnone story
    · cases hl
  | store i =>
    dsimp only [step] at hl
    split at hl
    · next hr => cases hl; exact h.goOn hr _ nofun
    · cases hl
  | load i =>
    dsimp only [step] at hl
    split at hl
    · next story p rest hr =>
      cases hl
      refine h.goOn hr s.lastSeq fun found ev _ hhead hfinal => ?_
      cases hhead
      exact hfinal.elim
    · next _ story ev rest hr =>
      split_ifs at hl with hfinal
      cases hl
      simp only [OwnLast, hr] at hown
      refine h.goOn hr s.lastSeq fun found ev' hfound _ _ => ?_
      cases hfound
      exact hown hfinal
    · cases hl
  | send i =>
    dsimp only [step] at hl
    split at hl
    · next hr => cases hl; exact h.report hr
    · cases hl

/-- The invariant holds in every state reached. -/
theorem inv_reach (hs : reportRuns.Reach OwnLast s) : s.Inv := by
  refine Lts.Reach.invariant (P := Inv) ?_ (fun _ _ _ _ ih hok hl => inv_step ih hok hl) hs
  rintro s rfl
  exact ⟨fun _ => rfl, nofun, nofun, nofun⟩

end ReportRun

/-- A pull's reports: running, and once it has nothing more to say, one end. -/
def ReportRun.Ended (s : ReportRun) : Prop :=
  ∀ i r, s.pulls i = some r →
    (∃ n, s.reportsOf i = List.replicate n .running ∧ r.toCome ≠ [])
    ∨ (r.toCome = [] ∧ ∃ n, s.reportsOf i
      = List.replicate n .running ++ [r.story.last.state] ∧ r.story.last.state ≠ .running)

/-- What a pull has told is that it runs, and then one end, as far as it has got. -/
theorem ReportRun.Inv.ended {s : ReportRun} (h : s.Inv) : s.Ended := by
  intro i r hr
  have htold := h.told i
  rw [hr] at htold
  dsimp only at htold
  have hrunning : r.story.progress.map (PullEvent.state ∘ .progress)
      = List.replicate r.story.progress.length .running := by
    rw [List.eq_replicate_iff]
    refine ⟨List.length_map _, fun x hx => ?_⟩
    obtain ⟨p, -, rfl⟩ := List.mem_map.mp hx
    rfl
  unfold PullStory.events at htold
  rw [List.map_append, List.map_map, hrunning, List.map_singleton] at htold
  rcases List.eq_nil_or_concat r.toCome with hnil | ⟨init, ev, hconcat⟩
  · rw [hnil, List.map_nil, List.append_nil] at htold
    refine .inr ⟨hnil, _, htold, fun hlast => ?_⟩
    have hfinal := r.story.final
    unfold PullEvent.state at hlast
    split at hlast
    · next hev =>
      rw [hev] at hfinal
      exact hfinal
    all_goals cases hlast
  · left
    rw [hconcat, List.concat_eq_append, List.map_append, List.map_singleton,
      ← List.append_assoc] at htold
    have hfront := (List.append_inj' htold rfl).1
    have hrunning : s.reportsOf i <+: List.replicate r.story.progress.length .running :=
      ⟨_, hfront⟩
    refine ⟨(s.reportsOf i).length, ?_, by rw [hconcat]; simp⟩
    rw [List.eq_replicate_iff]
    exact ⟨rfl, fun x hx => List.eq_of_mem_replicate (hrunning.subset hx)⟩

/-- **Reports name their transfer**, in every run in which a pull that ends finds its own number
the last one seen; and each pull's reports are running, and then one end. -/
theorem transfers_named {s : ReportRun} (hs : reportRuns.Reach OwnLast s) : s.Named ∧ s.Ended :=
  ⟨(ReportRun.inv_reach hs).named, (ReportRun.inv_reach hs).ended⟩

/-- One file of one byte. -/
def oneByteFile : FileManifest := ⟨[⟨"a.txt", 1, false⟩]⟩

/-- An owner that answers every read with one byte. -/
def oneByteAtATime : Fetch Unit where
  read _ _ _ _ := (.answered (.data [0]), ())
  isCancelled _ := false

/-- A pull of one chunk from "desk", onto an empty disk. -/
def chunkStory (seq : Nat) : PullStory :=
  .ofPull id oneByteFile ["in"] ⟨0, seq⟩ oneByteAtATime (fun _ => none) () "desk" (.ok ())
    fun _ => ""

/-- Two pulls, one after the other. -/
theorem transfers_named_in_turn :
    ∃ s : ReportRun, s.Named ∧ s.Ended ∧ s.sent.map (·.2.seq) = [1, 1, 2, 2] := by
  have hend : (reportRuns.exec OwnLast {} [.start 0 (chunkStory 1), .store 0, .load 0, .send 0,
      .load 0, .send 0, .start 1 (chunkStory 2), .store 1, .load 1, .send 1, .load 1,
      .send 1]).map (fun s => decide (s.sent.map (·.2.seq) = [1, 1, 2, 2])) = some true := by
    decide +kernel
  obtain ⟨s, hrun, hd⟩ := Option.map_eq_some_iff.mp hend
  obtain ⟨hnamed, hended⟩ := transfers_named (Lts.reach_of_exec rfl hrun)
  exact ⟨s, hnamed, hended, of_decide_eq_true hd⟩

/-- A pull that ends after another reported is told under the other's number. -/
theorem result_of_another : ¬ ∀ s, reportRuns.Reachable s → s.Named := by
  intro hall
  have hend : (reportRuns.run {} [.start 0 (chunkStory 1), .start 1 (chunkStory 2), .store 0,
      .load 0, .send 0, .store 1, .load 1, .send 1, .load 0, .send 0]).map (fun s =>
        decide ((s.pulls 0).map (·.story.seq) = some 1
          ∧ ∃ t ∈ s.sent, t.1 = 0 ∧ t.2.seq = 2)) = some true := by decide +kernel
  obtain ⟨s, hrun, hd⟩ := Option.map_eq_some_iff.mp hend
  obtain ⟨hfirst, ⟨i, t⟩, ht, rfl, hseq⟩ := of_decide_eq_true hd
  obtain ⟨r, hr, hown, -⟩ := hall s (Lts.reachable_of_run rfl hrun) 0 t ht
  rw [hr] at hfirst
  rw [hseq] at hown
  simp only [Option.map_some, Option.some.injEq] at hfirst
  omega

end GeserDesk
