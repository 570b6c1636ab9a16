import GeserDesk.Clipboard.Sync
import GeserDesk.Lib.Transition

/-!
# Runs of change detection

One `ClipboardSync` and the user of the machine. The calls hold the lock, so they come one after
another; each asks the OS two or three things, and the user may copy before any of them. A read of
the clipboard may fail.

* **`copies_noticed`**: nothing that this program put on the clipboard is ever returned; and the
  user's last copy is, once polling has caught up, if its contents were not what was last seen of
  their kind (`Fresh`) and no poll that began after it failed to read them (`Undisturbed`). Whatever
  became of the copies before it does not count.
-/

namespace GeserDesk

/-- Where the call under way stands. -/
inductive SyncPc where
  | idle
  /-- The change count was read; the clipboard is next. -/
  | primeRead (k : CopyKind)
  | pollRead (k : CopyKind)
  /-- It was written, and is to be read back; -/
  | applyRead (given : Held)
  /-- then the change count. -/
  | applyCount (k : CopyKind)
deriving DecidableEq, Repr

/-- The kind an `apply` under way is about. -/
def SyncPc.applying : SyncPc → Option CopyKind
  | .applyRead given => some given.kind
  | .applyCount k => some k
  | _ => none

inductive SyncCall where
  | prime
  | primeFiles
  | poll
  | pollFiles
  /-- `ok` tells whether the clipboard could be set. -/
  | apply (content : ClipboardContent) (ok : Bool)
  | applyFiles (paths : List String) (ok : Bool)

inductive SyncLabel where
  /-- The user copies something. -/
  | copy (h : Held)
  /-- A call begins, with the first thing it asks of the OS; -/
  | call (c : SyncCall)
  /-- and goes on with the next, which the OS answers or not. -/
  | go (ok : Bool)

structure SyncRun where
  os : OsClipboard := {}
  sync : ClipboardSync := {}
  pc : SyncPc := .idle
  /-- The kinds that have been primed (this and the rest are bookkeeping only). -/
  primed : List CopyKind := []
  /-- The user's last copy, if it was made after priming and nothing was put in its place. -/
  due : Option Held := none
  /-- What polls have returned since that copy. -/
  since : List Held := []
  /-- The change count with which the last poll of a kind to return had begun. -/
  looked : CopyKind → Option Nat := fun _ => none
  /-- What is on the clipboard was not put there by `apply` or `apply_files`. -/
  byUser : Bool := true
  /-- What polls have returned of what was. -/
  echoes : List Held := []

namespace SyncRun

variable (p : Platform) (cd : Codec) (maxBytes : Nat)

def setWatch (s : SyncRun) (k : CopyKind) (w : Watch) : SyncRun :=
  { s with sync := s.sync.setWatch k w }

/-- No copy of kind `k` is due any more: it is not one made after priming. -/
def undue (s : SyncRun) (k : CopyKind) : SyncRun :=
  { s with due := s.due.filter fun h => h.kind ≠ k }

/-- A poll of kind `k` returns, with `w` remembered and perhaps something to share. -/
def finishPoll (s : SyncRun) (k : CopyKind) (w : Watch) (out : Option Held) : SyncRun :=
  { s.setWatch k w with
    pc := .idle
    since := s.since ++ out.toList
    looked := fun k' => if k' = k then w.count else s.looked k'
    echoes := s.echoes ++ if s.byUser then [] else out.toList }

def beginPrime (s : SyncRun) (k : CopyKind) : SyncRun :=
  { (s.setWatch k ((s.sync.watch k).recount s.os)).undue k with pc := .primeRead k }

def beginPoll (s : SyncRun) (k : CopyKind) : SyncRun :=
  match (s.sync.watch k).poll s.os with
  | none => s.finishPoll k (s.sync.watch k) none
  | some w => { s.setWatch k w with pc := .pollRead k }

def beginApply (s : SyncRun) (given : Held) (ok : Bool) : SyncRun :=
  if ok then { s with
    os := s.os.write (p.handsBack given)
    pc := .applyRead given
    due := none
    since := []
    byUser := false }
  else s

def call (s : SyncRun) : SyncCall → SyncRun
  | .prime => s.beginPrime .data
  | .primeFiles => s.beginPrime .files
  | .poll => s.beginPoll .data
  | .pollFiles => s.beginPoll .files
  | .apply content ok => s.beginApply p (.data content) ok
  | .applyFiles paths ok => s.beginApply p (.files paths) ok

/-- What the OS answers to a read of kind `k`. -/
def answer (s : SyncRun) (k : CopyKind) (ok : Bool) : Except Unit (Option Held) :=
  if ok then .ok (s.os.read k) else .error ()

def go (s : SyncRun) (ok : Bool) : Option SyncRun :=
  match s.pc with
  | .idle => none
  | .primeRead k => some { (s.setWatch k ((s.sync.watch k).primed p (s.answer k ok))).undue k with
      pc := .idle, primed := k :: s.primed }
  | .pollRead k =>
    let (w, out) := (s.sync.watch k).polled p cd maxBytes (s.answer k ok)
    some (s.finishPoll k w out)
  | .applyRead given => some { s.setWatch given.kind
        ((s.sync.watch given.kind).applied p given (s.answer given.kind ok)) with
      pc := .applyCount given.kind }
  | .applyCount k => some { s.setWatch k ((s.sync.watch k).recount s.os) with pc := .idle }

def step (s : SyncRun) : SyncLabel → Option SyncRun
  | .copy h => some { s with
      os := s.os.write (some h)
      due := if h.kind ∈ s.primed then some h else none
      since := []
      byUser := true }
  | .call c => if s.pc = .idle then some (s.call p c) else none
  | .go ok => s.go p cd maxBytes ok

/-- Polling for kind `k` has caught up: no call is under way, and nothing was put on the clipboard
since the last poll began. -/
def CaughtUp (s : SyncRun) (k : CopyKind) : Prop := s.pc = .idle ∧ s.looked k = some s.os.count

instance (s : SyncRun) (k : CopyKind) : Decidable (s.CaughtUp k) := by
  unfold CaughtUp; infer_instance

/-- A copy made now is told from what was last seen or written of its kind: it differs from that,
and no `apply` of its kind is under way. -/
def Fresh (s : SyncRun) (h : Held) : Prop :=
  (s.sync.watch h.kind).seen ≠ some (p.fingerprint h) ∧ s.pc.applying ≠ some h.kind

instance (s : SyncRun) (h : Held) : Decidable (s.Fresh p h) := by unfold Fresh; infer_instance

/-- The user copies nothing more; and no read fails of a poll for kind `k` that has seen the count of
the last write. -/
def Undisturbed (k : CopyKind) (s : SyncRun) : SyncLabel → Prop
  | .copy _ => False
  | .go ok => ok = true ∨ s.pc ≠ .pollRead k ∨ (s.sync.watch k).count ≠ some s.os.count
  | .call _ => True

instance (k : CopyKind) (s : SyncRun) (l : SyncLabel) : Decidable (Undisturbed k s l) := by
  unfold Undisturbed
  cases l <;> infer_instance

end SyncRun

/-- Change detection over a clipboard that holds anything at the start, as a transition system. -/
def syncRuns (p : Platform) (cd : Codec) (maxBytes : Nat) : Lts SyncRun SyncLabel where
  init s := ∃ os, s = { os := os }
  step := SyncRun.step p cd maxBytes

/-- The same, from here on. -/
def syncRunsFrom (p : Platform) (cd : Codec) (maxBytes : Nat) (s : SyncRun) :
    Lts SyncRun SyncLabel where
  init t := t = s
  step := SyncRun.step p cd maxBytes

/-! ## No echo

What the watcher has written itself is not taken for a copy of the person's. -/

namespace SyncRun

variable {p : Platform} {cd : Codec} {maxBytes : Nat} {s : SyncRun}

/-- A watch that is set is found under its kind. -/
@[simp] theorem watch_setWatch (s : SyncRun) (k k' : CopyKind) (w : Watch) :
    (s.setWatch k w).sync.watch k' = if k' = k then w else s.sync.watch k' :=
  ClipboardSync.watch_setWatch _ _ _ _

/-- The other kind's watch is the one of before. -/
theorem watch_setWatch_of_ne {k k' : CopyKind} (h : k' ≠ k) (w : Watch) :
    (s.setWatch k w).sync.watch k' = s.sync.watch k' := by
  rw [watch_setWatch, if_neg h]

/-- What is on the clipboard is remembered: as what was seen last, or because no write has come
after the last read; or an `apply` is about to. -/
def Known (p : Platform) (s : SyncRun) (h : Held) : Prop :=
  s.pc.applying = some h.kind
  ∨ ((s.sync.watch h.kind).seen = some (p.fingerprint h) ∧ s.pc ≠ .primeRead h.kind)
  ∨ ((s.sync.watch h.kind).count = some s.os.count ∧ s.pc ≠ .pollRead h.kind)

/-- What is known stays known in a step that keeps what is remembered of its kind. -/
theorem Known.other {h : Held} (hknown : s.Known p h) (happlying : s.pc.applying ≠ some h.kind)
    {t : SyncRun} (hos : t.os = s.os) (hwatch : t.sync.watch h.kind = s.sync.watch h.kind)
    (hprime : t.pc ≠ .primeRead h.kind) (hpoll : t.pc ≠ .pollRead h.kind) : t.Known p h := by
  rcases hknown with hnow | ⟨hseen, -⟩ | ⟨hcount, -⟩
  · exact absurd hnow happlying
  · refine .inr (.inl ⟨?_, hprime⟩)
    rw [hwatch]
    exact hseen
  · refine .inr (.inr ⟨?_, hpoll⟩)
    rw [hwatch, hos]
    exact hcount

structure Quiet (p : Platform) (s : SyncRun) : Prop where
  counts : ∀ k n, (s.sync.watch k).count = some n → n ≤ s.os.count
  looked : ∀ k n, s.looked k = some n → n ≤ s.os.count
  silent : s.echoes = []
  known : s.byUser = false → ∀ h, s.os.held = some h → s.Known p h

/-- Reading the count again keeps the counts in order. -/
theorem Quiet.recounted (h : Quiet p s) (k : CopyKind) (n : Nat) (k' : CopyKind)
    (hn : ((s.setWatch k ((s.sync.watch k).recount s.os)).sync.watch k').count = some n) :
    n ≤ s.os.count := by
  rw [watch_setWatch] at hn
  split at hn
  · exact Nat.le_of_eq (Option.some.inj hn).symm
  · exact h.counts k' n hn

/-- Priming has read a change count and nothing else, so no application's contents are lost sight
of. -/
theorem Quiet.beginPrime (h : Quiet p s) (hpc : s.pc = .idle) (k : CopyKind) :
    Quiet p (s.beginPrime k) := by
  refine ⟨fun k' n => h.recounted k n k', h.looked, h.silent, fun hown held hheld => ?_⟩
  have hknown := h.known hown held hheld
  by_cases hk : held.kind = k
  · -- what it is about to read has no later write
    refine .inr (.inr ⟨?_, by simp [SyncRun.beginPrime]⟩)
    show ((s.setWatch k _).sync.watch held.kind).count = _
    rw [watch_setWatch, if_pos hk]
    rfl
  · exact hknown.other (by rw [hpc]; nofun) rfl (watch_setWatch_of_ne hk _)
      (fun heq => hk (SyncPc.primeRead.inj heq).symm) nofun

/-- A poll that begins takes the count of the clipboard it is about to read. -/
theorem Quiet.beginPoll (h : Quiet p s) (hpc : s.pc = .idle) (k : CopyKind) :
    Quiet p (s.beginPoll k) := by
  unfold SyncRun.beginPoll Watch.poll
  by_cases hcount : (s.sync.watch k).count = some s.os.count
  · -- the count is the same: nothing is read
    rw [if_pos hcount]
    have hsame : ∀ k', ((s.setWatch k (s.sync.watch k)).sync.watch k') = s.sync.watch k' := by
      intro k'
      rw [watch_setWatch]
      split
      · next heq => rw [heq]
      · rfl
    refine ⟨fun k' n hn => h.counts k' n (hsame k' ▸ hn), fun k' n hn => ?_, ?_,
      fun hown held hheld => ?_⟩
    · change (if k' = k then (s.sync.watch k).count else s.looked k') = some n at hn
      split at hn
      · exact h.counts k n hn
      · exact h.looked k' n hn
    · show s.echoes ++ (if s.byUser then [] else Option.toList none) = []
      rw [h.silent]
      simp
    · exact (h.known hown held hheld).other (by rw [hpc]; nofun) rfl (hsame held.kind) nofun nofun
  · rw [if_neg hcount]
    refine ⟨fun k' n => h.recounted k n k', h.looked, h.silent, fun hown held hheld => ?_⟩
    have hknown := h.known hown held hheld
    by_cases hk : held.kind = k
    · -- its count is not the one on record, so it is known by what was seen of it
      rcases hknown with happlying | ⟨hseen, -⟩ | ⟨hcounted, -⟩
      · rw [hpc] at happlying
        cases happlying
      · refine .inr (.inl ⟨?_, nofun⟩)
        show ((s.setWatch k _).sync.watch held.kind).seen = _
        rw [watch_setWatch, if_pos hk]
        exact hk ▸ hseen
      · exact absurd (hk ▸ hcounted) hcount
    · exact hknown.other (by rw [hpc]; nofun) rfl (watch_setWatch_of_ne hk _) nofun
        (fun heq => hk (SyncPc.pollRead.inj heq).symm)

/-- What is about to be applied is put on the clipboard, and is nobody's copy. -/
theorem Quiet.beginApply (h : Quiet p s) (given : Held) (ok : Bool) :
    Quiet p (s.beginApply p given ok) := by
  unfold SyncRun.beginApply
  cases ok with
  | false => exact h
  | true =>
    refine ⟨fun k n hn => Nat.le_trans (h.counts k n hn) (Nat.le_succ _),
      fun k n hn => Nat.le_trans (h.looked k n hn) (Nat.le_succ _), h.silent,
      fun _ held hheld => .inl ?_⟩
    exact congrArg some (p.kind_handsBack given held hheld).symm

/-- Each call begins with one OS call, which keeps the invariant. -/
theorem Quiet.call (h : Quiet p s) (hpc : s.pc = .idle) (c : SyncCall) : Quiet p (s.call p c) := by
  cases c with
  | prime => exact h.beginPrime hpc .data
  | primeFiles => exact h.beginPrime hpc .files
  | poll => exact h.beginPoll hpc .data
  | pollFiles => exact h.beginPoll hpc .files
  | apply content ok => exact h.beginApply _ ok
  | applyFiles paths ok => exact h.beginApply _ ok

/-- A watch that keeps its count keeps the counts in order. -/
theorem Quiet.kept (h : Quiet p s) (k : CopyKind) (w : Watch)
    (hw : w.count = (s.sync.watch k).count) (k' : CopyKind) (n : Nat)
    (hn : ((s.setWatch k w).sync.watch k').count = some n) : n ≤ s.os.count := by
  rw [watch_setWatch] at hn
  split at hn
  · rw [hw] at hn
    exact h.counts k n hn
  · exact h.counts k' n hn

/-- What priming reads is what the clipboard held at its count or later: either way it is not news.
-/
theorem Quiet.endPrime (h : Quiet p s) {k : CopyKind} (hpc : s.pc = .primeRead k) (ok : Bool) :
    Quiet p { (s.setWatch k ((s.sync.watch k).primed p (s.answer k ok))).undue k with
      pc := .idle, primed := k :: s.primed } := by
  refine ⟨fun k' n => h.kept k ((s.sync.watch k).primed p _) rfl k' n, h.looked, h.silent,
    fun hown held hheld => ?_⟩
  have hknown := h.known hown held hheld
  by_cases hk : held.kind = k
  · -- what is seen of it now is overwritten, but no write came after the count
    rcases hknown with happlying | ⟨-, hother⟩ | ⟨hcount, -⟩
    · rw [hpc] at happlying
      cases happlying
    · exact absurd (hpc.trans (congrArg _ hk.symm)) hother
    · refine .inr (.inr ⟨?_, nofun⟩)
      show ((s.setWatch k _).sync.watch held.kind).count = _
      rw [watch_setWatch, if_pos hk]
      exact hk ▸ hcount
  · exact hknown.other (by rw [hpc]; nofun) rfl (watch_setWatch_of_ne hk _) nofun nofun

/-- What is known is not returned. -/
theorem polled_of_known {k : CopyKind} {h : Held} (hheld : s.os.held = some h)
    (hseen : h.kind = k → (s.sync.watch k).seen = some (p.fingerprint h)) (ok : Bool) :
    (s.sync.watch k).polled p cd maxBytes (s.answer k ok) = (s.sync.watch k, none) := by
  unfold SyncRun.answer
  cases ok with
  | false => rfl
  | true =>
    rw [if_pos rfl]
    cases hread : s.os.read k with
    | none => rfl
    | some h' =>
      obtain ⟨hheld', hk⟩ := OsClipboard.read_eq_some hread
      obtain rfl : h = h' := Option.some.inj (hheld.symm.trans hheld')
      rw [Watch.polled, if_pos (hseen hk)]

/-- A clipboard that holds nothing gives nothing. -/
theorem polled_of_empty {k : CopyKind} (hheld : s.os.held = none) (ok : Bool) :
    (s.sync.watch k).polled p cd maxBytes (s.answer k ok) = (s.sync.watch k, none) := by
  unfold SyncRun.answer
  cases ok with
  | false => rfl
  | true =>
    rw [if_pos rfl]
    cases hread : s.os.read k with
    | none => rfl
    | some h' => rw [(OsClipboard.read_eq_some hread).1] at hheld; cases hheld

/-- Comparing what was read leaves the count alone. -/
theorem count_polled (w : Watch) (got : Except Unit (Option Held)) :
    (w.polled p cd maxBytes got).1.count = w.count := by
  unfold Watch.polled
  split
  · split <;> rfl
  · rfl

/-- What a poll reads is compared with what was last seen: contents that only `apply` put there are
equal to it. -/
theorem Quiet.endPoll (h : Quiet p s) {k : CopyKind} (hpc : s.pc = .pollRead k) (ok : Bool) :
    Quiet p (s.finishPoll k ((s.sync.watch k).polled p cd maxBytes (s.answer k ok)).1
      ((s.sync.watch k).polled p cd maxBytes (s.answer k ok)).2) := by
  -- what was put there by `apply` is known, by what was seen of it
  have hsame : s.byUser = false →
      (s.sync.watch k).polled p cd maxBytes (s.answer k ok) = (s.sync.watch k, none) := by
    intro hown
    cases hheld : s.os.held with
    | none => exact polled_of_empty hheld ok
    | some held =>
      refine polled_of_known hheld (fun hk => ?_) ok
      rcases h.known hown held hheld with happlying | ⟨hseen, -⟩ | ⟨-, hother⟩
      · rw [hpc] at happlying
        cases happlying
      · exact hk ▸ hseen
      · exact absurd (hpc.trans (congrArg _ hk.symm)) hother
  refine ⟨fun k' n => h.kept k _ (count_polled _ _) k' n, fun k' n hn => ?_, ?_,
    fun hown held hheld => ?_⟩
  · change (if k' = k then ((s.sync.watch k).polled p cd maxBytes (s.answer k ok)).1.count
      else s.looked k') = some n at hn
    rw [count_polled] at hn
    split at hn
    · exact h.counts k n hn
    · exact h.looked k' n hn
  · show s.echoes ++ (if s.byUser then [] else _) = []
    rw [h.silent]
    cases hown : s.byUser with
    | true => rfl
    | false => rw [hsame hown]; rfl
  · refine (h.known hown held hheld).other (by rw [hpc]; nofun) rfl ?_ nofun nofun
    show (s.setWatch k _).sync.watch held.kind = _
    rw [hsame hown, watch_setWatch]
    split
    · next hk => rw [hk]
    · rfl

/-- `apply` reads back what it wrote and takes it for seen. -/
theorem Quiet.readBack (h : Quiet p s) {given : Held} (hpc : s.pc = .applyRead given) (ok : Bool) :
    Quiet p { s.setWatch given.kind
        ((s.sync.watch given.kind).applied p given (s.answer given.kind ok)) with
      pc := .applyCount given.kind } := by
  refine ⟨fun k' n => h.kept given.kind ((s.sync.watch given.kind).applied p given _) rfl k' n,
    h.looked, h.silent, fun hown held hheld => ?_⟩
  by_cases hk : held.kind = given.kind
  · exact .inl (congrArg some hk.symm)
  · have happlying : s.pc.applying ≠ some held.kind := by
      rw [hpc]
      exact fun heq => hk (Option.some.inj heq).symm
    exact (h.known hown held hheld).other happlying rfl (watch_setWatch_of_ne hk _) nofun nofun

/-- After its write `apply` takes the change count. -/
theorem Quiet.endApply (h : Quiet p s) {k : CopyKind} (hpc : s.pc = .applyCount k) :
    Quiet p { s.setWatch k ((s.sync.watch k).recount s.os) with pc := .idle } := by
  refine ⟨fun k' n => h.recounted k n k', h.looked, h.silent, fun hown held hheld => ?_⟩
  by_cases hk : held.kind = k
  · -- what is there is what was written, and the count read now is its
    refine .inr (.inr ⟨?_, nofun⟩)
    show ((s.setWatch k _).sync.watch held.kind).count = _
    rw [watch_setWatch, if_pos hk]
    rfl
  · have happlying : s.pc.applying ≠ some held.kind := by
      rw [hpc]
      exact fun heq => hk (Option.some.inj heq).symm
    exact (h.known hown held hheld).other happlying rfl (watch_setWatch_of_ne hk _) nofun nofun

/-- Going on with a call keeps quiet contents quiet. -/
theorem Quiet.go (h : Quiet p s) {ok : Bool} {t : SyncRun} (ht : s.go p cd maxBytes ok = some t) :
    Quiet p t := by
  unfold SyncRun.go at ht
  split at ht
  · cases ht
  · next hpc => cases ht; exact h.endPrime hpc ok
  · next hpc => cases ht; exact h.endPoll hpc ok
  · next hpc => cases ht; exact h.readBack hpc ok
  · next hpc => cases ht; exact h.endApply hpc

/-- Every step keeps quiet contents quiet, a user's copy included. -/
theorem Quiet.step (h : Quiet p s) {l : SyncLabel} {t : SyncRun}
    (ht : s.step p cd maxBytes l = some t) : Quiet p t := by
  cases l with
  | copy held =>
    cases ht
    exact ⟨fun k n hn => Nat.le_trans (h.counts k n hn) (Nat.le_succ _),
      fun k n hn => Nat.le_trans (h.looked k n hn) (Nat.le_succ _), h.silent, nofun⟩
  | call c =>
    simp only [SyncRun.step] at ht
    split at ht
    · next hpc => cases ht; exact h.call hpc c
    · cases ht
  | go ok => exact h.go ht

end SyncRun

/-- **In every state reached the contents an `apply` put there are not news.** -/
theorem quiet_reach {p : Platform} {cd : Codec} {maxBytes : Nat} {s : SyncRun}
    (hs : (syncRuns p cd maxBytes).Reachable s) : s.Quiet p := by
  refine hs.invariant ?_ fun _ _ _ _ hq _ hl => hq.step hl
  rintro s ⟨os, rfl⟩
  refine ⟨fun k n hn => ?_, nofun, rfl, nofun⟩
  cases k <;> cases hn

/-! ## No loss

A copy made stays noticed or to be noticed, until the watcher returns it. -/

namespace SyncRun

variable {p : Platform} {cd : Codec} {maxBytes : Nat} {s : SyncRun} {h : Held}

/-- A poll is still to return the copy `h`. -/
def Pending (p : Platform) (s : SyncRun) (h : Held) : Prop :=
  s.pc = .primeRead h.kind
  ∨ (s.sync.watch h.kind).seen ≠ some (p.fingerprint h)
    ∧ s.looked h.kind ≠ some s.os.count ∧ s.pc.applying ≠ some h.kind
    ∧ ((s.sync.watch h.kind).count ≠ some s.os.count ∨ s.pc = .pollRead h.kind)

/-- So long as the copy `h` is due it is still there, and a poll has returned it or is to. -/
def NewsKept (p : Platform) (cd : Codec) (maxBytes : Nat) (h : Held) (s : SyncRun) : Prop :=
  ∀ w, s.due = some h → h.worth cd maxBytes = some w →
    s.os.held = some h ∧ (w ∈ s.since ∨ s.Pending p h)

/-- A step of a call about another kind. -/
theorem Pending.other (hp : s.Pending p h) (hpc : s.pc ≠ .primeRead h.kind)
    (hpoll : s.pc ≠ .pollRead h.kind) {t : SyncRun} (hos : t.os = s.os)
    (hwatch : t.sync.watch h.kind = s.sync.watch h.kind)
    (hlooked : t.looked h.kind = s.looked h.kind)
    (happlying : t.pc.applying ≠ some h.kind) : t.Pending p h := by
  rcases hp with hprime | ⟨hseen, hlook, -, hread⟩
  · exact absurd hprime hpc
  · refine .inr ⟨?_, ?_, happlying, .inl ?_⟩
    · rw [hwatch]
      exact hseen
    · rw [hlooked, hos]
      exact hlook
    · rw [hwatch, hos]
      exact hread.resolve_right hpoll

/-- After a kind has been primed a copy that is still due is of the other kind. -/
theorem kind_of_undue {k : CopyKind} (hdue : (s.undue k).due = some h) :
    s.due = some h ∧ h.kind ≠ k := by
  obtain ⟨hdue, hk⟩ := Option.filter_eq_some_iff.mp hdue
  exact ⟨hdue, of_decide_eq_true hk⟩

/-- Priming one kind loses nothing of a copy that has been made. -/
theorem newsKept_beginPrime (hn : s.NewsKept p cd maxBytes h) (hpc : s.pc = .idle) (k : CopyKind) :
    (s.beginPrime k).NewsKept p cd maxBytes h := by
  intro w hdue hw
  obtain ⟨hdue, hk⟩ := kind_of_undue (s := s.setWatch k _) hdue
  obtain ⟨hheld, hnews⟩ := hn w hdue hw
  exact ⟨hheld, hnews.imp_right fun hp =>
    hp.other (by simp [hpc]) (by simp [hpc]) rfl (watch_setWatch_of_ne hk _) rfl nofun⟩

/-- A poll that begins takes the count, and is then to read the contents. -/
theorem newsKept_beginPoll (hn : s.NewsKept p cd maxBytes h) (hpc : s.pc = .idle) (k : CopyKind) :
    (s.beginPoll k).NewsKept p cd maxBytes h := by
  intro w hdue hw
  unfold SyncRun.beginPoll Watch.poll at hdue ⊢
  by_cases hcount : (s.sync.watch k).count = some s.os.count
  · rw [if_pos hcount] at hdue ⊢
    obtain ⟨hheld, hnews⟩ := hn w hdue hw
    refine ⟨hheld, ?_⟩
    rcases hnews with hin | hp
    · exact .inl (List.mem_append_left _ hin)
    · -- there is something to read, so it is the other kind
      have hk : h.kind ≠ k := by
        rintro rfl
        rcases hp with hprime | ⟨-, -, -, hread⟩
        · rw [hpc] at hprime
          cases hprime
        · exact hread.elim (absurd hcount) (by simp [hpc])
      exact .inr (hp.other (by simp [hpc]) (by simp [hpc]) rfl (watch_setWatch_of_ne hk _)
        (if_neg hk) nofun)
  · rw [if_neg hcount] at hdue ⊢
    obtain ⟨hheld, hnews⟩ := hn w hdue hw
    refine ⟨hheld, hnews.imp_right fun hp => ?_⟩
    by_cases hk : h.kind = k
    · rcases hp with hprime | ⟨hseen, hlook, -, -⟩
      · rw [hpc] at hprime
        cases hprime
      · refine .inr ⟨?_, hlook, nofun, .inr (congrArg _ hk.symm)⟩
        show ((s.setWatch k _).sync.watch h.kind).seen ≠ _
        rw [watch_setWatch, if_pos hk, ← hk]
        exact hseen
    · exact hp.other (by simp [hpc]) (by simp [hpc]) rfl (watch_setWatch_of_ne hk _) rfl nofun

/-- What an `apply` puts on the clipboard overwrites the copy, and nothing is due any more. -/
theorem newsKept_beginApply (hn : s.NewsKept p cd maxBytes h) (given : Held) (ok : Bool) :
    (s.beginApply p given ok).NewsKept p cd maxBytes h := by
  unfold SyncRun.beginApply
  cases ok with
  | false => exact hn
  | true => exact nofun

/-- The start of a call loses nothing of a copy that has been made. -/
theorem newsKept_call (hn : s.NewsKept p cd maxBytes h) (hpc : s.pc = .idle) (c : SyncCall) :
    (s.call p c).NewsKept p cd maxBytes h := by
  cases c with
  | prime => exact newsKept_beginPrime hn hpc .data
  | primeFiles => exact newsKept_beginPrime hn hpc .files
  | poll => exact newsKept_beginPoll hn hpc .data
  | pollFiles => exact newsKept_beginPoll hn hpc .files
  | apply content ok => exact newsKept_beginApply hn _ ok
  | applyFiles paths ok => exact newsKept_beginApply hn _ ok

/-- Priming of one kind leaves a copy of the other kind due, and one of its own kind is not due any
more. -/
theorem newsKept_endPrime (hn : s.NewsKept p cd maxBytes h) {k : CopyKind}
    (hpc : s.pc = .primeRead k) (ok : Bool) :
    { (s.setWatch k ((s.sync.watch k).primed p (s.answer k ok))).undue k with
      pc := .idle, primed := k :: s.primed : SyncRun }.NewsKept p cd maxBytes h := by
  intro w hdue hw
  obtain ⟨hdue, hk⟩ := kind_of_undue (s := s.setWatch k _) hdue
  obtain ⟨hheld, hnews⟩ := hn w hdue hw
  refine ⟨hheld, hnews.imp_right fun hp => ?_⟩
  have hprime : s.pc ≠ .primeRead h.kind := by
    rw [hpc]
    exact fun heq => hk (SyncPc.primeRead.inj heq).symm
  exact hp.other hprime (by simp [hpc]) rfl (watch_setWatch_of_ne hk _) rfl nofun

/-- A poll that ends was about another kind, or it returns what is pending of its kind, or it could
not read and had begun before the last write: then the next one will. -/
theorem newsKept_endPoll (hn : s.NewsKept p cd maxBytes h) {k : CopyKind} (hpc : s.pc = .pollRead k)
    {ok : Bool} (hok : ok = true ∨ k ≠ h.kind ∨ (s.sync.watch h.kind).count ≠ some s.os.count) :
    (s.finishPoll k ((s.sync.watch k).polled p cd maxBytes (s.answer k ok)).1
      ((s.sync.watch k).polled p cd maxBytes (s.answer k ok)).2).NewsKept p cd maxBytes h := by
  intro w hdue hw
  obtain ⟨hheld, hnews⟩ := hn w hdue hw
  refine ⟨hheld, ?_⟩
  rcases hnews with hin | hp
  · exact .inl (List.mem_append_left _ hin)
  by_cases hk : h.kind = k
  · subst hk
    rcases hp with hprime | ⟨hseen, -, -, -⟩
    · rw [hpc] at hprime
      cases hprime
    cases ok with
    | true =>
      have hread : s.answer h.kind true = .ok (some h) := by
        rw [SyncRun.answer, if_pos rfl, OsClipboard.read_of_worth hheld hw]
      -- what it reads is not what was seen, so it is shared
      have hout : ((s.sync.watch h.kind).polled p cd maxBytes (s.answer h.kind true)).2 = some w := by
        rw [hread, Watch.polled, if_neg hseen]
        exact hw
      refine .inl (List.mem_append_right _ ?_)
      rw [hout]
      exact List.mem_singleton_self w
    | false =>
      have hcount : (s.sync.watch h.kind).count ≠ some s.os.count :=
        (hok.resolve_left nofun).resolve_left fun hne => hne rfl
      have hwatch : (s.finishPoll h.kind ((s.sync.watch h.kind).polled p cd maxBytes
          (s.answer h.kind false)).1 ((s.sync.watch h.kind).polled p cd maxBytes
          (s.answer h.kind false)).2).sync.watch h.kind = s.sync.watch h.kind := by
        show (s.setWatch h.kind _).sync.watch h.kind = _
        rw [watch_setWatch, if_pos rfl]
        rfl
      refine .inr (.inr ⟨?_, ?_, nofun, .inl ?_⟩)
      · rw [hwatch]
        exact hseen
      · show (if h.kind = h.kind then _ else _) ≠ _
        rw [if_pos rfl]
        exact hcount
      · rw [hwatch]
        exact hcount
  · have hpoll : s.pc ≠ .pollRead h.kind := by
      rw [hpc]
      exact fun heq => hk (SyncPc.pollRead.inj heq).symm
    exact .inr (hp.other (by simp [hpc]) hpoll rfl (watch_setWatch_of_ne hk _) (if_neg hk) nofun)

/-- Nothing is pending of the kind that is being applied. -/
theorem Pending.not_applying (hp : s.Pending p h) {k : CopyKind}
    (happlying : s.pc.applying = some k) : h.kind ≠ k := by
  rintro rfl
  rcases hp with hprime | ⟨-, -, hnot, -⟩
  · rw [hprime] at happlying
    cases happlying
  · exact hnot happlying

/-- The later parts of an `apply`. -/
theorem newsKept_applying (hn : s.NewsKept p cd maxBytes h) {k : CopyKind}
    (happlying : s.pc.applying = some k) (w : Watch) {pc : SyncPc}
    (hpc : pc.applying = some k ∨ pc = .idle) :
    { s.setWatch k w with pc := pc }.NewsKept p cd maxBytes h := by
  intro out hdue hout
  obtain ⟨hheld, hnews⟩ := hn out hdue hout
  refine ⟨hheld, hnews.imp_right fun hp => ?_⟩
  have hk := hp.not_applying happlying
  refine hp.other ?_ ?_ rfl (watch_setWatch_of_ne hk w) rfl ?_
  · exact fun heq => by rw [heq] at happlying; cases happlying
  · exact fun heq => by rw [heq] at happlying; cases happlying
  · show pc.applying ≠ some h.kind
    rcases hpc with hpc | rfl
    · rw [hpc]
      exact fun heq => hk (Option.some.inj heq).symm
    · nofun

/-- Going on with a call keeps the news of a copy in every step that leaves it undisturbed. -/
theorem newsKept_go (hn : s.NewsKept p cd maxBytes h) {ok : Bool} {t : SyncRun}
    (hok : Undisturbed h.kind s (.go ok)) (ht : s.go p cd maxBytes ok = some t) :
    t.NewsKept p cd maxBytes h := by
  unfold SyncRun.go at ht
  split at ht
  · cases ht
  · next hpc => cases ht; exact newsKept_endPrime hn hpc ok
  · next k hpc =>
    cases ht
    refine newsKept_endPoll hn hpc (hok.imp_right (Or.imp_left fun hne hk => hne ?_))
    rw [hpc, hk]
  · next given hpc =>
    cases ht
    exact newsKept_applying hn (by rw [hpc]; rfl) _ (.inl rfl)
  · next hpc =>
    cases ht
    exact newsKept_applying hn (by rw [hpc]; rfl) _ (.inr rfl)

/-- **What one step preserves.** -/
theorem newsKept_step (hn : s.NewsKept p cd maxBytes h) {l : SyncLabel}
    (hok : Undisturbed h.kind s l) {t : SyncRun} (ht : s.step p cd maxBytes l = some t) :
    t.NewsKept p cd maxBytes h := by
  cases l with
  | copy held => cases hok
  | call c =>
    simp only [SyncRun.step] at ht
    split at ht
    · next hpc => cases ht; exact newsKept_call hn hpc c
    · cases ht
  | go ok => exact newsKept_go hn hok ht

/-- A fresh copy is news: every count on record is older than its write. -/
theorem newsKept_copy (hq : s.Quiet p) (hfresh : s.Fresh p h) {t : SyncRun}
    (ht : s.step p cd maxBytes (.copy h) = some t) : t.NewsKept p cd maxBytes h := by
  cases ht
  intro w hdue hw
  obtain ⟨hseen, happlying⟩ := hfresh
  have hlook : s.looked h.kind ≠ some (s.os.count + 1) := fun heq =>
    absurd (hq.looked _ _ heq) (by omega)
  have hcount : (s.sync.watch h.kind).count ≠ some (s.os.count + 1) := fun heq =>
    absurd (hq.counts _ _ heq) (by omega)
  exact ⟨rfl, .inr (.inr ⟨hseen, hlook, happlying, .inl hcount⟩)⟩

end SyncRun

/-- **So does every such run that goes on from the copy.** -/
theorem newsKept_reach {p : Platform} {cd : Codec} {maxBytes : Nat} {s t : SyncRun} {h : Held}
    (hs : s.NewsKept p cd maxBytes h)
    (ht : (syncRunsFrom p cd maxBytes s).Reach (SyncRun.Undisturbed h.kind) t) :
    t.NewsKept p cd maxBytes h :=
  ht.invariant (fun _ h0 => h0 ▸ hs) fun _ _ _ _ hn hok hl => SyncRun.newsKept_step hn hok hl

/-- **No echo and no loss**: in every run, nothing that is on the clipboard by `apply` or
`apply_files` is returned by a poll. And wherever a run has come to, a copy the user makes there, if
it is fresh, is the last and is followed by no failed read as `Undisturbed` has it, was made after
priming and is still there, has been returned once polling has caught up, as far as it is within the
limit. -/
theorem copies_noticed (p : Platform) (cd : Codec) (maxBytes : Nat) :
    (∀ s, (syncRuns p cd maxBytes).Reachable s → s.echoes = [])
    ∧ ∀ s h s' t w, (syncRuns p cd maxBytes).Reachable s → s.Fresh p h →
      s.step p cd maxBytes (.copy h) = some s' →
      (syncRunsFrom p cd maxBytes s').Reach (SyncRun.Undisturbed h.kind) t →
      t.due = some h → h.worth cd maxBytes = some w → t.CaughtUp h.kind → w ∈ t.since := by
  refine ⟨fun s hs => (quiet_reach hs).silent, fun s h s' t w hs hfresh hcopy ht hdue hw hcaught => ?_⟩
  obtain ⟨hidle, hlooked⟩ := hcaught
  have hcopied := SyncRun.newsKept_copy (quiet_reach hs) hfresh hcopy
  rcases (newsKept_reach hcopied ht w hdue hw).2 with hin | hprime | ⟨-, hnot, -⟩
  · exact hin
  · rw [hidle] at hprime
    cases hprime
  · exact absurd hlooked hnot

/-- A clipboard that hands back what it was given, and a hash that adds up. -/
def plainPlatform : Platform where
  fingerprint
    | .data content => (content.items.map fun i => (i.data.map UInt8.toNat).sum).sum
    | .files paths => (paths.map String.length).sum
  handsBack := some
  kind_handsBack := by
    intro given now h
    rw [Option.some.inj h]

def textCopy (text : String) : Held := .data (.new (some text) none)

/-- Both kinds are primed. -/
def primeLabels : List SyncLabel := [.call .prime, .go true, .call .primeFiles, .go true]

/-- A text copied twice, which is returned once, a poll that cannot read, and a text from a peer;
then the user copies another text, a poll begun before that fails, and the next returns it. -/
theorem copies_noticed_after_losses : ∃ s t,
    (syncRuns plainPlatform .postcard 100).Reachable s
      ∧ (syncRunsFrom plainPlatform .postcard 100 s).Reach (SyncRun.Undisturbed .data) t
      ∧ t.echoes = [] ∧ t.since = [textCopy "b"] ∧ textCopy "b" ∈ t.since := by
  -- an early repeat, a failed read and a write of its own come before the last copy
  let before : List SyncLabel := primeLabels
    ++ [.copy (textCopy "a"), .call .poll, .go true, .copy (textCopy "a"), .call .poll, .go true,
      .copy (.files ["f"]), .call .pollFiles, .go false,
      .call (.apply (.new (some "c") none) true), .go true, .go true, .copy (.files ["g"]),
      .call .poll]
  let later : List SyncLabel := [.go false, .call .pollFiles, .go false, .call .poll, .go true]
  obtain ⟨s₀, hs₀, hfresh⟩ : ∃ s₀, (syncRuns plainPlatform .postcard 100).run {} before = some s₀
      ∧ s₀.Fresh plainPlatform (textCopy "b") := by
    have hrun : ((syncRuns plainPlatform .postcard 100).run {} before).map (fun s =>
        decide (s.Fresh plainPlatform (textCopy "b"))) = some true := by decide +kernel
    obtain ⟨s₀, hs₀, hfresh⟩ := Option.map_eq_some_iff.mp hrun
    exact ⟨s₀, hs₀, of_decide_eq_true hfresh⟩
  have hrun : (((syncRuns plainPlatform .postcard 100).run {} (before ++ [.copy (textCopy "b")])).bind
      fun s => (syncRunsFrom plainPlatform .postcard 100 s).exec (SyncRun.Undisturbed .data) s
        later).map (fun t => (t.due, t.since, decide (t.CaughtUp .data)))
      = some (some (textCopy "b"), [textCopy "b"], true) := by decide +kernel
  obtain ⟨t, hbind, hstate⟩ := Option.map_eq_some_iff.mp hrun
  obtain ⟨s, hs, ht⟩ := Option.bind_eq_some_iff.mp hbind
  simp only [Prod.mk.injEq] at hstate
  obtain ⟨hdue, hsince, hcaught⟩ := hstate
  -- the run is cut where the last copy is made
  have hreach₀ := Lts.reachable_of_run (M := syncRuns plainPlatform .postcard 100) ⟨{}, rfl⟩ hs₀
  have hcopy : (syncRuns plainPlatform .postcard 100).step s₀ (.copy (textCopy "b")) = some s := by
    rw [Lts.run_append hs₀] at hs
    exact hs
  have hlater : (syncRunsFrom plainPlatform .postcard 100 s).Reach (SyncRun.Undisturbed .data) t :=
    Lts.reach_of_exec rfl ht
  have hreach : (syncRuns plainPlatform .postcard 100).Reachable s := .step hreach₀ trivial hcopy
  have hend : (syncRuns plainPlatform .postcard 100).Reachable t :=
    hlater.invariant (fun _ h0 => h0 ▸ hreach) fun _ _ _ _ hr _ hl => .step hr trivial hl
  obtain ⟨hquiet, hnews⟩ := copies_noticed plainPlatform .postcard 100
  exact ⟨s, t, hreach, hlater, hquiet t hend, hsince,
    hnews s₀ (textCopy "b") s t _ hreach₀ hfresh hcopy hlater hdue (by decide +kernel)
      (of_decide_eq_true hcaught)⟩

/-- The user copies a text twice: only the first copy is returned. -/
theorem copied_again_unnoticed : ¬ ∀ (p : Platform) (cd : Codec) (maxBytes : Nat) (s : SyncRun),
    (syncRuns p cd maxBytes).Reachable s → ∀ h w, s.due = some h →
      h.worth cd maxBytes = some w → s.CaughtUp h.kind → w ∈ s.since := by
  intro hall
  -- "a" is copied, returned, and copied again
  let labels : List SyncLabel := primeLabels
    ++ [.copy (textCopy "a"), .call .poll, .go true, .copy (textCopy "a"), .call .poll, .go true]
  have hrun : ((syncRuns plainPlatform .postcard 100).run {} labels).map (fun s =>
        (s.due, s.since, decide (s.CaughtUp .data))) = some (some (textCopy "a"), [], true) := by
    decide +kernel
  obtain ⟨s, hs, hstate⟩ := Option.map_eq_some_iff.mp hrun
  simp only [Prod.mk.injEq] at hstate
  obtain ⟨hdue, hsince, hcaught⟩ := hstate
  have hreach : (syncRuns plainPlatform .postcard 100).Reachable s :=
    Lts.reachable_of_run ⟨{}, rfl⟩ hs
  have hin := hall _ _ _ s hreach _ (textCopy "a") hdue (by decide +kernel)
    (of_decide_eq_true hcaught)
  rw [hsince] at hin
  cases hin

end GeserDesk
