import GeserDesk.App.Received

/-!
# Runs over the received copies

Requests to remove copies come from windows and from the daemon's own cleaning, while pulls go on and
put folders and files on the disk.

* **`gone_was_asked`**: what is gone was below a copy that a request named, listed, or found too old,
  on the disk as it was then.
* **`spared_copy_stays`**: a pulled copy stays as it was left until it is asked for or old.
-/

namespace GeserDesk

section Requests

variable (os : FolderOps) (roots : List (List String))

inductive CopyRequest where
  | remove (path : String)
  | removeAll
  | clean (days now : Nat)

/-- What happens to the disk. A pull that goes on puts a folder or a file somewhere. -/
inductive CopyEvent where
  | request (r : CopyRequest)
  | put (path : List String) (node : StoreNode UInt8)

def CopyRequest.run (fs : FileStore String UInt8) : CopyRequest → FileStore String UInt8
  | .remove path => (removeIn os roots fs path).1
  | .removeAll => (GeserDesk.removeAll os roots fs).1
  | .clean days now => (cleanIn os roots days now fs).1

def CopyEvent.run (fs : FileStore String UInt8) : CopyEvent → FileStore String UInt8
  | .request r => r.run os roots fs
  | .put path node => fs.put path node

/-- The folders a request is for, of the disk as it finds it. -/
def CopyRequest.Asks (fs : FileStore String UInt8) (folder : List String) : CopyRequest → Prop
  | .remove path => folder.dropLast ∈ roots ∧ components path = absolute folder
  | .removeAll => folder ∈ copies os roots fs
  | .clean days now => folder ∈ copies os roots fs ∧ days ≠ 0
    ∧ (receivedAt os fs folder).time < now - days * 24 * 60 * 60

end Requests

variable {os : FolderOps} {temp : List String}

/-! ## Runs

What is gone was asked for, over whole runs. -/

/-- What a request asks for lies in one of the folders looked through. -/
theorem CopyRequest.Asks.under {roots : List (List String)} (hos : os.Lawful)
    {fs : FileStore String UInt8} {r : CopyRequest} {folder : List String}
    (h : r.Asks os roots fs folder) : folder.dropLast ∈ roots := by
  have hcopy : folder ∈ copies os roots fs → folder.dropLast ∈ roots := by
    intro hmem
    obtain ⟨root, hroot, name, -, rfl, -⟩ := mem_copies hos hmem
    simpa using hroot
  cases r with
  | remove path => exact h.1
  | removeAll => exact hcopy h
  | clean days now => exact hcopy h.1

/-- What a request takes away was below a folder it asks for. -/
theorem request_takes (hos : os.Lawful) (htemp : ∀ name ∈ temp, FileName name)
    (fs : FileStore String UInt8) (r : CopyRequest) (q : List String) :
    r.run os (receivedRoots temp) fs q = fs q
      ∨ ∃ folder, r.Asks os (receivedRoots temp) fs folder ∧ folder <+: q := by
  cases r with
  | remove path =>
    show (removeIn os (receivedRoots temp) fs path).1 q = _ ∨ _
    cases hinside : insideOf (receivedRoots temp) path with
    | none =>
      unfold removeIn
      rw [hinside]
      exact .inl rfl
    | some folder =>
      rw [(removeIn_folder os fs hinside).1]
      rcases hos.removed fs folder q with h | ⟨hq, -⟩
      · exact .inl h
      · exact .inr ⟨folder, (insideOf_eq_some.mp hinside).2, hq⟩
  | removeAll =>
    obtain ⟨folders, outcomes, hperm, hremoved, -⟩ := removeAll_removed hos htemp fs
    rcases hremoved.changed q with h | ⟨-, folder, hfolder, hq⟩
    · exact .inl h
    · exact .inr ⟨folder, hperm.mem_iff.mp hfolder, hq⟩
  | clean days now =>
    obtain ⟨folders, outcomes, hperm, hremoved, -⟩ := cleanIn_removed hos htemp days now fs
    rcases hremoved.changed q with h | ⟨-, folder, hfolder, hq⟩
    · exact .inl h
    · have hold := hperm.mem_iff.mp hfolder
      rw [oldCopies, List.mem_filter, decide_eq_true_eq] at hold
      exact .inr ⟨folder, hold, hq⟩

/-- **What is gone was asked for.** Over any run of requests, and of pulls that put things down
between them, whatever is there at first and not at last was below a folder directly under a staging
folder: one that was named, or listed, or older than was said, when a request came. -/
theorem gone_was_asked (hos : os.Lawful) (htemp : ∀ name ∈ temp, FileName name)
    {fs : FileStore String UInt8} {events : List CopyEvent} {q : List String} (hq : fs q ≠ none)
    (hgone : events.foldl (CopyEvent.run os (receivedRoots temp)) fs q = none) :
    ∃ before r after folder, events = before ++ .request r :: after
      ∧ r.Asks os (receivedRoots temp)
        (before.foldl (CopyEvent.run os (receivedRoots temp)) fs) folder
      ∧ folder.dropLast ∈ receivedRoots temp ∧ folder <+: q := by
  -- on the events: the one after which the path is gone, or a later one
  induction events generalizing fs with
  | nil => exact absurd hgone hq
  | cons e events ih =>
    by_cases hstep : e.run os (receivedRoots temp) fs q = none
    · cases e with
      -- putting something there takes nothing away
      | put path node =>
        exfalso
        have hput : fs.put path node q = none := hstep
        unfold FileStore.put at hput
        split at hput
        · cases hput
        · exact hq hput
      | request r =>
        rcases request_takes hos htemp fs r q with h | ⟨folder, hasks, hprefix⟩
        · exact absurd (h.symm.trans hstep) hq
        · exact ⟨[], r, events, folder, rfl, hasks, hasks.under hos, hprefix⟩
    · obtain ⟨before, r, after, folder, rfl, hasks, hunder, hprefix⟩ := ih hstep hgone
      exact ⟨e :: before, r, after, folder, rfl, hasks, hunder, hprefix⟩

/-- A copy named by a path with more in it than it needs, while another one arrives. -/
theorem gone_was_asked_named : ∃ before r after folder,
    [CopyEvent.put ["tmp", "geserdesk-clipboard-files", "8"] .folder,
        .request (.remove "/tmp//geserdesk-clipboard-files/./7/")] = before ++ .request r :: after
      ∧ r.Asks plainFolders (receivedRoots ["tmp"])
        (before.foldl (CopyEvent.run plainFolders (receivedRoots ["tmp"])) oneCopy) folder
      ∧ folder.dropLast ∈ receivedRoots ["tmp"]
      ∧ folder <+: ["tmp", "geserdesk-clipboard-files", "7", "a.txt"] :=
  gone_was_asked plainFolders_lawful tmp_name (by decide) (by decide +kernel)

/-! ## A copy with its note

A copy that is spared stays, with its note. -/

/-- What goes on that has nothing to do with a copy pulled at this time: things put down elsewhere,
others removed by name, and cleaning for which it is not old enough. -/
def CopyEvent.Spares (dest : List String) (time : Nat) : CopyEvent → Prop
  | .put path _ => ¬dest <+: path
  | .request (.remove path) => components path ≠ absolute dest
  | .request .removeAll => False
  | .request (.clean days now) => days = 0 ∨ now ≤ time + days * 24 * 60 * 60

/-- The time of a copy is what its note says. -/
theorem receivedAt_note {fs : FileStore String UInt8} {dest : List String} {note : StagedNote}
    (hnote : readNote fs dest = some note) (htime : 0 < note.time) :
    (receivedAt os fs dest).time = note.time := by
  unfold receivedAt
  simp [hnote, Option.filter, htime]

/-- **A copy stays as it was pulled, until it is old.** The note a pull leaves says when it finished;
through any run of pulls elsewhere, of removals of other copies, and of cleaning that comes before
its time, everything in the folder is as it was left. -/
theorem spared_copy_stays (hos : os.Lawful) (htemp : ∀ name ∈ temp, FileName name) (side : PullSide)
    (seq : Nat) {fs : FileStore String UInt8} (peer : String) {time : Nat} (m : FileManifest)
    (hdest : fs (stagingDir temp side seq) = some .folder)
    (hnote : fs (stagingDir temp side seq ++ [NOTE]) ≠ some .folder)
    (htime : 0 < time ∧ time < 2 ^ 64) {events : List CopyEvent}
    (hspares : ∀ e ∈ events, e.Spares (stagingDir temp side seq) time) (q : List String)
    (hq : stagingDir temp side seq <+: q) :
    events.foldl (CopyEvent.run os (receivedRoots temp))
        (writeNote fs (stagingDir temp side seq) peer time m) q
      = writeNote fs (stagingDir temp side seq) peer time m q := by
  have hwritten := writeNote_eq peer time m hdest hnote
  have hread : readNote (writeNote fs (stagingDir temp side seq) peer time m)
      (stagingDir temp side seq)
      = some { peer := oneLine peer, time := time, names := (topNames m).map oneLine } := by
    rw [hwritten, readNote_put, ofText_noteText peer htime.2]
  generalize writeNote fs (stagingDir temp side seq) peer time m = fs₀ at hread ⊢
  clear hwritten hdest hnote
  -- the note is in the folder, so it is read the same all along
  have hrun : ∀ (events : List CopyEvent) (fs : FileStore String UInt8),
      (∀ e ∈ events, e.Spares (stagingDir temp side seq) time) →
      (∀ q, stagingDir temp side seq <+: q → fs q = fs₀ q) → ∀ q, stagingDir temp side seq <+: q →
        events.foldl (CopyEvent.run os (receivedRoots temp)) fs q = fs₀ q := by
    intro events
    induction events with
    | nil => exact fun fs _ hsame => hsame
    | cons e events ih =>
      intro fs hspares hsame
      refine ih _ (fun e he => hspares e (List.mem_cons_of_mem _ he)) fun q hq => ?_
      have hspare := hspares e List.mem_cons_self
      cases e with
      | put path node =>
        have hne : q ≠ path := by
          rintro rfl
          exact hspare hq
        exact (FileStore.put_of_ne fs node hne).trans (hsame q hq)
      | request r =>
        rcases request_takes hos htemp fs r q with h | ⟨folder, hasks, hprefix⟩
        · exact h.trans (hsame q hq)
        exfalso
        have hlen : folder.length = (stagingDir temp side seq).length := by
          have hroot := (fileName_of_mem_receivedRoots htemp (hasks.under hos)).1
          rw [List.length_dropLast] at hroot
          rw [stagingDir_length]
          omega
        obtain rfl : folder = stagingDir temp side seq :=
          (List.prefix_of_prefix_length_le hprefix hq hlen.le).eq_of_length hlen
        have hsame_note : readNote fs (stagingDir temp side seq)
            = readNote fs₀ (stagingDir temp side seq) := by
          unfold readNote
          rw [hsame _ (List.prefix_append _ _)]
        cases r with
        | remove path => exact hspare hasks.2
        | removeAll => exact hspare
        | clean days now =>
          obtain ⟨-, hdays, hold⟩ := hasks
          rw [receivedAt_note (hsame_note.trans hread) htime.1] at hold
          rcases hspare with hnone | hyoung
          · exact hdays hnone
          · have hlimit : time < now - days * 24 * 60 * 60 := hold
            omega
  exact hrun events fs₀ hspares (fun _ _ => rfl) q hq

/-- The file of a copy of today, when what is older than thirty days goes. -/
theorem spared_copy_stays_cleaned :
    (cleanIn plainFolders (receivedRoots ["tmp"]) 30 1800000001
        (writeNote oneCopy (stagingDir ["tmp"] .client 7) "desk" 1800000000 ⟨[]⟩)).1
        ["tmp", "geserdesk-clipboard-files", "7", "a.txt"]
      = writeNote oneCopy (stagingDir ["tmp"] .client 7) "desk" 1800000000 ⟨[]⟩
        ["tmp", "geserdesk-clipboard-files", "7", "a.txt"] := by
  have hspares : ∀ e ∈ [CopyEvent.request (.clean 30 1800000001)],
      e.Spares (stagingDir ["tmp"] .client 7) 1800000000 := by
    intro e he
    obtain rfl := List.mem_singleton.mp he
    exact .inr (by decide)
  exact spared_copy_stays plainFolders_lawful tmp_name .client 7 "desk" ⟨[]⟩ (by decide) (by decide)
    ⟨by decide, by decide⟩ hspares _ (by decide)

end GeserDesk
