import GeserDesk.Clipboard.Pull

/-!
# How much a pull writes

Whoever serves a pull may answer anything at all. `Fetch.logged` keeps what it answered, and the
pull notes what it wrote.

* **`pull_bounds`**: a pull keeps within what was announced and allowed exactly when no answer is
  longer than what is missing of its entry (`Fetched.Fits`) and the sizes of a manifest that is
  not refused add up without wrapping around.
* **`long_answer_is_written`**: a chunk is written as it comes, however much was asked for; and
  sizes whose sum wraps around pass for a small manifest.
-/

namespace GeserDesk

/-- A chunk asked for, and what came of it. -/
structure Fetched where
  index : Nat
  offset : Nat
  answer : Awaited
deriving DecidableEq, Repr

/-- The answer is not longer than what is missing of the entry. -/
def Fetched.Fits (m : FileManifest) (x : Fetched) : Prop :=
  match x.answer, m.entries[x.index]? with
  | .answered (.data bytes), some entry => bytes.length ≤ entry.size - x.offset
  | _, _ => True

instance Fetched.decidableFits (m : FileManifest) (x : Fetched) : Decidable (x.Fits m) := by
  unfold Fetched.Fits
  split <;> infer_instance

/-- The same fetch, with a record of what it answered. -/
def Fetch.logged {σ : Type} (fetch : Fetch σ) : Fetch (σ × List Fetched) where
  read s index offset want :=
    let (answer, s') := fetch.read s.1 index offset want
    (answer, s', s.2 ++ [⟨index, offset, answer⟩])
  isCancelled s := fetch.isCancelled s.1

/-- What was written for one entry. -/
def writtenFor (ws : List (Nat × Nat)) (index : Nat) : Nat :=
  ((ws.filter fun w => w.1 = index).map Prod.snd).sum

/-- What was written altogether. -/
def writtenTotal (ws : List (Nat × Nat)) : Nat := (ws.map Prod.snd).sum

/-- The mathematical sum of the sizes announced. -/
def FileManifest.announced (m : FileManifest) : Nat :=
  ((m.entries.filter fun e => !e.dir).map (·.size)).sum

/-- What two stretches wrote for a file adds up. -/
theorem writtenFor_append (ws ws' : List (Nat × Nat)) (index : Nat) :
    writtenFor (ws ++ ws') index = writtenFor ws index + writtenFor ws' index := by
  simp [writtenFor]

/-- What two stretches wrote in all adds up. -/
theorem writtenTotal_append (ws ws' : List (Nat × Nat)) :
    writtenTotal (ws ++ ws') = writtenTotal ws + writtenTotal ws' := by
  simp [writtenTotal]

/-- Writes for other files are none for this one. -/
theorem writtenFor_of_ne {ws : List (Nat × Nat)} {index : Nat} (h : ∀ w ∈ ws, w.1 ≠ index) :
    writtenFor ws index = 0 := by
  have hnone : ws.filter (fun w => w.1 = index) = [] := by
    rw [List.filter_eq_nil_iff]
    intro w hw
    simpa using h w hw
  rw [writtenFor, hnone]
  rfl

/-- Writes for one file alone are all for it. -/
theorem writtenFor_chunks (index : Nat) (lens : List Nat) :
    writtenFor (lens.map fun n => (index, n)) index = lens.sum := by
  induction lens with
  | nil => rfl
  | cons n lens ih =>
    rw [List.map_cons, List.sum_cons, ← ih]
    simp [writtenFor]

/-- Writes for one file alone are all there are. -/
theorem writtenTotal_chunks (index : Nat) (lens : List Nat) :
    writtenTotal (lens.map fun n => (index, n)) = lens.sum := by
  induction lens with
  | nil => rfl
  | cons n lens ih =>
    rw [List.map_cons, List.sum_cons, ← ih]
    simp [writtenTotal]

/-- At every moment no more was written than at the end. -/
theorem writtenFor_take (ws : List (Nat × Nat)) (k index : Nat) :
    writtenFor (ws.take k) index ≤ writtenFor ws index := by
  have h := writtenFor_append (ws.take k) (ws.drop k) index
  rw [List.take_append_drop] at h
  omega

/-- A part of the writes is no more than all of them. -/
theorem writtenTotal_take (ws : List (Nat × Nat)) (k : Nat) :
    writtenTotal (ws.take k) ≤ writtenTotal ws := by
  have h := writtenTotal_append (ws.take k) (ws.drop k)
  rw [List.take_append_drop] at h
  omega

/-! ## From one state of a pull to a later one

The reports of a pull only grow, and those already made stay. This is what the loops below keep.
-/

variable {σ : Type} {fetch : Fetch σ} {m : FileManifest} {seq : Nat}

/-- Between two states of a pull, `ws` was written and `xs` exchanged. -/
structure Advanced (m : FileManifest) (p p' : Pulling (σ × List Fetched))
    (ws : List (Nat × Nat)) (xs : List Fetched) : Prop where
  written : p'.written = p.written ++ ws
  bytesDone : p'.bytesDone = p.bytesDone + writtenTotal ws
  log : p'.fetching.2 = p.fetching.2 ++ xs
  reported : ∀ r ∈ p'.reported,
    r ∈ p.reported ∨ r.bytesTotal = m.totalBytes ∧ r.bytesDone ≤ p'.bytesDone

namespace Advanced

variable {p p' p'' : Pulling (σ × List Fetched)} {ws ws' : List (Nat × Nat)}
  {xs xs' : List Fetched}

/-- Going nowhere writes nothing. -/
theorem refl (p : Pulling (σ × List Fetched)) : Advanced m p p [] [] :=
  ⟨by simp, by simp [writtenTotal], by simp, fun r hr => .inl hr⟩

/-- Two stretches write what each of them does. -/
theorem trans (h : Advanced m p p' ws xs) (h' : Advanced m p' p'' ws' xs') :
    Advanced m p p'' (ws ++ ws') (xs ++ xs') where
  written := by rw [h'.written, h.written, List.append_assoc]
  bytesDone := by rw [h'.bytesDone, h.bytesDone, writtenTotal_append, Nat.add_assoc]
  log := by rw [h'.log, h.log, List.append_assoc]
  reported r hr := by
    have hmore := h'.bytesDone
    rcases h'.reported r hr with hr | hnew
    · rcases h.reported r hr with hr | ⟨htotal, hdone⟩
      · exact .inl hr
      · exact .inr ⟨htotal, by omega⟩
    · exact .inr hnew

/-- What only changes the disk, or the number of files done. -/
theorem of_same (hwritten : p'.written = p.written) (hdone : p'.bytesDone = p.bytesDone)
    (hfetching : p'.fetching = p.fetching) (hreported : p'.reported = p.reported) :
    Advanced m p p' [] [] :=
  ⟨by simp [hwritten], by simp [hdone, writtenTotal], by simp [hfetching],
    fun r hr => .inl (hreported ▸ hr)⟩

/-- What is on the disk at the start does not matter. -/
theorem of_disk {fs : FileStore String UInt8} (h : Advanced m { p with fs := fs } p' ws xs) :
    Advanced m p p' ws xs :=
  ⟨h.written, h.bytesDone, h.log, h.reported⟩

end Advanced

/-! ## The chunks of one file

The loop over the chunks of a file: what it asks for, what it writes, and how far it gets before a
failure. -/

/-- What the loop over the chunks of an entry comes to, from `offset` on. The file grows by what
was written; the answers fit exactly when that keeps within the announced size; and a loop that
ends without an error has got that far. -/
structure Filled (m : FileManifest) (index : Nat) (entry : FileEntry) (path : List String)
    (rounds offset : Nat) (old : Bytes) (p : Pulling (σ × List Fetched))
    (out : Pulling (σ × List Fetched) × Option PullError) (data : Bytes) (lens : List Nat)
    (xs : List Fetched) : Prop where
  advanced : Advanced m p out.1 (lens.map fun n => (index, n)) xs
  fs : out.1.fs = p.fs.put path (.file (old ++ data))
  length : data.length = lens.sum
  fits : (∀ x ∈ xs, x.Fits m) ↔ offset + lens.sum ≤ entry.size
  whole : out.2 = none → entry.size - offset ≤ rounds → entry.size ≤ offset + lens.sum

section

variable {index : Nat} {entry : FileEntry} {path : List String} {rounds offset : Nat} {old : Bytes}
  {p : Pulling (σ × List Fetched)}

/-- Nothing was written. -/
theorem Filled.nothing {p' : Pulling (σ × List Fetched)} {e : Option PullError}
    {xs : List Fetched} (hp : p.fs path = some (.file old)) (hoff : offset ≤ entry.size)
    (hadv : Advanced m p p' [] xs) (hfs : p'.fs = p.fs) (hfits : ∀ x ∈ xs, x.Fits m)
    (hend : e = none → entry.size - offset ≤ rounds → entry.size ≤ offset) :
    Filled m index entry path rounds offset old p (p', e) [] [] xs where
  advanced := hadv
  fs := by rw [List.append_nil, FileStore.put_same hp, hfs]
  length := rfl
  fits := ⟨fun _ => by simpa using hoff, fun _ => hfits⟩
  whole he hr := by simpa using hend he hr

/-- Where the offset has reached the announced size, nothing more is asked for. -/
theorem pullChunks_end (hend : entry.size ≤ offset) :
    pullChunks fetch.logged m seq index entry path rounds offset p = (p, none) := by
  cases rounds with
  | zero => rfl
  | succ rounds => exact if_pos hend

/-- The chunks of one file: the disk holds what was there and the data that came, at most what the
entry announces. -/
theorem pullChunks_spec (hentry : m.entries[index]? = some entry)
    (hp : p.fs path = some (.file old)) (hoff : offset ≤ entry.size) : ∃ data lens xs,
      Filled m index entry path rounds offset old p
        (pullChunks fetch.logged m seq index entry path rounds offset p) data lens xs := by
  induction rounds generalizing offset old p with
  | zero =>
    refine ⟨[], [], [], .nothing hp hoff (.refl p) rfl (by simp) fun _ h => ?_⟩
    omega
  | succ rounds ih =>
    by_cases hend : entry.size ≤ offset
    · rw [pullChunks_end hend]
      exact ⟨[], [], [], .nothing hp hoff (.refl p) rfl (by simp) fun _ _ => hend⟩
    · unfold pullChunks
      rw [if_neg hend]
      -- the answer is logged, whatever it is
      have hlogged : fetch.logged.read p.fetching index offset
          (min (entry.size - offset) MAX_READ_LEN)
          = ((fetch.read p.fetching.1 index offset (min (entry.size - offset) MAX_READ_LEN)).1,
            (fetch.read p.fetching.1 index offset (min (entry.size - offset) MAX_READ_LEN)).2,
            p.fetching.2 ++ [⟨index, offset,
              (fetch.read p.fetching.1 index offset
                (min (entry.size - offset) MAX_READ_LEN)).1⟩]) := rfl
      rw [hlogged]
      generalize fetch.read p.fetching.1 index offset (min (entry.size - offset) MAX_READ_LEN)
        = got
      obtain ⟨answer, s'⟩ := got
      have hadv : Advanced m p { p with fetching := (s', p.fetching.2 ++ [⟨index, offset, answer⟩]) }
          [] [⟨index, offset, answer⟩] :=
        ⟨by simp, by simp [writtenTotal], rfl, fun r hr => .inl hr⟩
      -- no bytes, and so no more of the file
      have hnone : ∀ e : PullError, (⟨index, offset, answer⟩ : Fetched).Fits m →
          ∃ data lens xs, Filled m index entry path (rounds + 1) offset old p
            ({ p with fetching := (s', p.fetching.2 ++ [⟨index, offset, answer⟩]) }, some e)
            data lens xs := by
        intro e hfits
        exact ⟨[], [], _, .nothing hp hoff hadv rfl (by simpa using hfits) (by simp)⟩
      cases answer with
      | cancelled => exact hnone .cancelled trivial
      | timedOut => exact hnone .timeout trivial
      | answered result =>
        cases result with
        | err e => exact hnone (.read e) trivial
        | data bytes =>
          have hfit : (⟨index, offset, .answered (.data bytes)⟩ : Fetched).Fits m ↔
              offset + bytes.length ≤ entry.size := by
            unfold Fetched.Fits
            simp only [hentry]
            omega
          by_cases hempty : bytes.isEmpty
          · have hfits : (⟨index, offset, .answered (.data bytes)⟩ : Fetched).Fits m := by
              rw [hfit, List.isEmpty_iff.mp hempty]
              exact hoff
            simp only [hempty, if_true]
            exact hnone .shortRead hfits
          · have happ : p.fs.append path bytes = some (p.fs.put path (.file (old ++ bytes))) := by
              unfold FileStore.append
              rw [hp]
            simp only [hempty, Bool.false_eq_true, if_false, happ]
            -- the state the loop goes on with
            generalize hp₁ : ({ p with
              fs := p.fs.put path (.file (old ++ bytes))
              fetching := (s', p.fetching.2 ++ [⟨index, offset, .answered (.data bytes)⟩])
              bytesDone := p.bytesDone + bytes.length
              reported := p.reported ++ [⟨seq, lastPart entry.path, p.fileIndex, m.fileCount,
                p.bytesDone + bytes.length, m.totalBytes⟩]
              written := p.written ++ [(index, bytes.length)] } : Pulling (σ × List Fetched)) = p₁
            have hfile : p₁.fs path = some (.file (old ++ bytes)) := by
              rw [← hp₁]
              exact FileStore.put_self _ _ _
            have hstep : Advanced m p p₁ [(index, bytes.length)]
                [⟨index, offset, .answered (.data bytes)⟩] := by
              rw [← hp₁]
              refine ⟨rfl, by simp [writtenTotal], rfl, fun r hr => ?_⟩
              rcases List.mem_append.mp hr with hr | hr
              · exact .inl hr
              · rw [List.mem_singleton] at hr
                exact .inr (by simp [hr])
            by_cases hover : offset + bytes.length ≤ entry.size
            · obtain ⟨data, lens, xs, h⟩ := ih hfile hover
              refine ⟨bytes ++ data, bytes.length :: lens,
                ⟨index, offset, .answered (.data bytes)⟩ :: xs, ?_, ?_, ?_, ?_, ?_⟩
              · exact hstep.trans h.advanced
              · rw [h.fs, ← hp₁, FileStore.put_put, List.append_assoc]
              · rw [List.length_append, h.length, List.sum_cons]
              · rw [List.forall_mem_cons, hfit, h.fits, List.sum_cons]
                omega
              · intro hr hrounds
                have hpos : 0 < bytes.length := by
                  rw [List.length_pos_iff]
                  simpa using hempty
                have := h.whole hr (by omega)
                rw [List.sum_cons]
                omega
            · -- more than was missing: the loop ends here
              rw [pullChunks_end (by omega)]
              refine ⟨bytes, [bytes.length], [⟨index, offset, .answered (.data bytes)⟩], hstep, ?_,
                by simp, ?_, fun _ _ => ?_⟩
              · rw [← hp₁]
              · rw [List.forall_mem_singleton, hfit, List.sum_singleton]
              · rw [List.sum_singleton]
                omega

end

/-! ## All the entries

The loop over the entries, with one rule for a folder, a file that comes whole and a file that
fails. -/

/-- The sizes of the files among these. -/
def fileSizes (l : List (FileEntry × List String)) : Nat :=
  ((l.filter fun e => !e.1.dir).map fun e => e.1.size).sum

/-- What putting down the entries `l`, the first of them number `index`, comes to. -/
structure Pulled (m : FileManifest) (index : Nat) (l : List (FileEntry × List String))
    (p : Pulling (σ × List Fetched)) (out : Pulling (σ × List Fetched) × Option PullError)
    (ws : List (Nat × Nat)) (xs : List Fetched) : Prop where
  advanced : Advanced m p out.1 ws xs
  from_index : ∀ w ∈ ws, index ≤ w.1
  fits : (∀ x ∈ xs, x.Fits m) ↔
    ∀ k (e : FileEntry × List String), l[k]? = some e → writtenFor ws (index + k) ≤ e.1.size
  total : (∀ x ∈ xs, x.Fits m) → writtenTotal ws ≤ fileSizes l
  whole : out.2 = none → (∀ x ∈ xs, x.Fits m) → ∀ e ∈ l, e.1.dir = false →
    ∃ data, out.1.fs e.2 = some (.file data) ∧ data.length = e.1.size
  kept : ∀ q data, q ∉ l.map Prod.snd → p.fs q = some (.file data) →
    out.1.fs q = some (.file data)

section

variable {index : Nat} {entry : FileEntry} {path : List String}
  {rest : List (FileEntry × List String)} {p p₁ : Pulling (σ × List Fetched)}
  {out : Pulling (σ × List Fetched) × Option PullError} {ws : List (Nat × Nat)}
  {xs : List Fetched}

/-- It stopped before anything was written. -/
theorem Pulled.stopped (l : List (FileEntry × List String)) (e : PullError) :
    Pulled m index l p (p, some e) [] [] where
  advanced := .refl p
  from_index := nofun
  fits := ⟨fun _ _ _ _ => Nat.zero_le _, fun _ => nofun⟩
  total _ := Nat.zero_le _
  whole := nofun
  kept _ _ _ h := h

/-- A folder first, the rest after it. -/
theorem Pulled.folder (hdir : entry.dir = true) (hsame : Advanced m p p₁ [] [])
    (hkept : ∀ q data, p.fs q = some (.file data) → p₁.fs q = some (.file data))
    (h : Pulled m (index + 1) rest p₁ out ws xs) :
    Pulled m index ((entry, path) :: rest) p out ws xs where
  advanced := hsame.trans h.advanced
  from_index w hw := by
    have := h.from_index w hw
    omega
  fits := by
    rw [h.fits]
    refine ⟨fun hall k e hk => ?_, fun hall k e hk => ?_⟩
    · cases k with
      | zero =>
        -- nothing is written for a folder
        have hnone : writtenFor ws index = 0 := writtenFor_of_ne fun w hw => by
          have := h.from_index w hw
          omega
        exact hnone.trans_le (Nat.zero_le _)
      | succ k =>
        rw [show index + (k + 1) = index + 1 + k by omega]
        exact hall k e hk
    · have := hall (k + 1) e hk
      rwa [show index + (k + 1) = index + 1 + k by omega] at this
  total hfits := by
    have hskip : fileSizes ((entry, path) :: rest) = fileSizes rest := by
      simp [fileSizes, hdir]
    rw [hskip]
    exact h.total hfits
  whole hout hfits e he hfile := by
    rcases List.mem_cons.mp he with he | he
    · rw [he, hdir] at hfile
      cases hfile
    · exact h.whole hout hfits e he hfile
  kept q data hq hdata := by
    rw [List.map_cons, List.mem_cons, not_or] at hq
    exact h.kept q data hq.2 (hkept q data hdata)

/-- A file whose loop ended in an error: nothing after it was tried. -/
theorem Pulled.failed {fs : FileStore String UInt8} {data : Bytes} {lens : List Nat}
    {e : PullError} (hfile : entry.dir = false)
    (hfs : fs = p.fs.put path (.file []))
    (h : Filled m index entry path entry.size 0 [] { p with fs := fs } (p₁, some e) data lens xs) :
    Pulled m index ((entry, path) :: rest) p (p₁, some e) (lens.map fun n => (index, n)) xs where
  advanced := h.advanced.of_disk
  from_index w hw := by
    obtain ⟨n, _, rfl⟩ := List.mem_map.mp hw
    exact Nat.le_refl _
  fits := by
    rw [h.fits, Nat.zero_add]
    -- within the limit nothing asked for this file exceeds it, and the later ones were never asked
    -- for
    refine ⟨fun hsum k e hk => ?_, fun hall => ?_⟩
    · cases k with
      | zero =>
        obtain rfl : (entry, path) = e := by simpa using hk
        rw [Nat.add_zero, writtenFor_chunks]
        exact hsum
      | succ k =>
        have hnone : writtenFor (lens.map fun n => (index, n)) (index + (k + 1)) = 0 :=
          writtenFor_of_ne fun w hw => by
            obtain ⟨n, _, rfl⟩ := List.mem_map.mp hw
            show index ≠ index + (k + 1)
            omega
        exact hnone.trans_le (Nat.zero_le _)
    · have := hall 0 (entry, path) rfl
      rwa [Nat.add_zero, writtenFor_chunks] at this
  -- the file that failed is one of those summed
  total hfits := by
    have hsum := h.fits.mp hfits
    have hsize : fileSizes ((entry, path) :: rest) = entry.size + fileSizes rest := by
      simp [fileSizes, hfile]
    rw [writtenTotal_chunks, hsize]
    omega
  whole := nofun
  -- only the file's own path was written
  kept q data hq hdata := by
    rw [List.map_cons, List.mem_cons, not_or] at hq
    show p₁.fs q = _
    have hput : p₁.fs = _ := h.fs
    rw [hput, FileStore.put_of_ne _ _ hq.1]
    show fs q = _
    rw [hfs, FileStore.put_of_ne _ _ hq.1]
    exact hdata

/-- A file first, the rest after it. -/
theorem Pulled.file {fs : FileStore String UInt8} {data : Bytes} {lens : List Nat}
    {p₂ : Pulling (σ × List Fetched)} {xs' : List Fetched} (hfile : entry.dir = false)
    (hnew : path ∉ rest.map Prod.snd) (hfs : fs = p.fs.put path (.file []))
    (h : Filled m index entry path entry.size 0 [] { p with fs := fs } (p₁, none) data lens xs)
    (hsame : Advanced m p₁ p₂ [] []) (hp₂ : p₂.fs = p₁.fs)
    (hrest : Pulled m (index + 1) rest p₂ out ws xs') :
    Pulled m index ((entry, path) :: rest) p out ((lens.map fun n => (index, n)) ++ ws)
      (xs ++ xs') where
  advanced := h.advanced.of_disk.trans (hsame.trans hrest.advanced)
  from_index w hw := by
    rcases List.mem_append.mp hw with hw | hw
    · obtain ⟨n, _, rfl⟩ := List.mem_map.mp hw
      exact Nat.le_refl _
    · have := hrest.from_index w hw
      omega
  fits := by
    rw [List.forall_mem_append, h.fits, hrest.fits, Nat.zero_add]
    -- the chunks of this entry and those of the later ones do not count for each other
    have hhead : writtenFor ((lens.map fun n => (index, n)) ++ ws) index = lens.sum := by
      have hnone : writtenFor ws index = 0 := writtenFor_of_ne fun w hw => by
        have := hrest.from_index w hw
        omega
      rw [writtenFor_append, writtenFor_chunks, hnone, Nat.add_zero]
    have htail : ∀ k, writtenFor ((lens.map fun n => (index, n)) ++ ws) (index + (k + 1))
        = writtenFor ws (index + 1 + k) := by
      intro k
      have hnone : writtenFor (lens.map fun n => (index, n)) (index + (k + 1)) = 0 :=
        writtenFor_of_ne fun w hw => by
          obtain ⟨n, _, rfl⟩ := List.mem_map.mp hw
          show index ≠ index + (k + 1)
          omega
      rw [writtenFor_append, hnone, Nat.zero_add, show index + (k + 1) = index + 1 + k by omega]
    refine ⟨fun ⟨hsum, hall⟩ k e hk => ?_, fun hall => ⟨?_, fun k e hk => ?_⟩⟩
    · cases k with
      | zero =>
        obtain rfl : (entry, path) = e := by simpa using hk
        rw [Nat.add_zero, hhead]
        exact hsum
      | succ k =>
        rw [htail]
        exact hall k e hk
    · have := hall 0 (entry, path) rfl
      rwa [Nat.add_zero, hhead] at this
    · have := hall (k + 1) e hk
      rwa [htail] at this
  total hfits := by
    rw [List.forall_mem_append] at hfits
    have hsum := h.fits.mp hfits.1
    have hrestSum := hrest.total hfits.2
    have hsize : fileSizes ((entry, path) :: rest) = entry.size + fileSizes rest := by
      simp [fileSizes, hfile]
    rw [writtenTotal_append, writtenTotal_chunks, hsize]
    omega
  whole hout hfits e he hfile := by
    rw [List.forall_mem_append] at hfits
    rcases List.mem_cons.mp he with he | he
    · subst he
      refine ⟨data, hrest.kept path data hnew ?_, ?_⟩
      · rw [hp₂]
        have hput : p₁.fs = _ := h.fs
        rw [hput, FileStore.put_self]
        rfl
      · have hle := h.fits.mp hfits.1
        have hge := h.whole rfl (Nat.le_refl _)
        show data.length = entry.size
        rw [h.length]
        omega
    · exact hrest.whole hout hfits.2 e he hfile
  kept q data hq hdata := by
    rw [List.map_cons, List.mem_cons, not_or] at hq
    refine hrest.kept q data hq.2 ?_
    have hput : p₁.fs = _ := h.fs
    rw [hp₂, hput, FileStore.put_of_ne _ _ hq.1]
    show fs q = _
    rw [hfs, FileStore.put_of_ne _ _ hq.1]
    exact hdata

end

/-- All entries, one after another: each goes as `Pulled` says, until one ends the pull. -/
theorem pullInto_spec {l : List (FileEntry × List String)} {index : Nat}
    {p : Pulling (σ × List Fetched)}
    (hl : ∀ k (e : FileEntry × List String), l[k]? = some e → m.entries[index + k]? = some e.1)
    (hnodup : (l.map Prod.snd).Nodup) :
    ∃ ws xs, Pulled m index l p (pullInto fetch.logged m seq index l p) ws xs := by
  -- on the entries still to come
  induction l generalizing index p with
  | nil =>
    refine ⟨[], [], .refl p, nofun, ⟨fun _ k e hk => ?_, fun _ => nofun⟩, fun _ => Nat.zero_le _,
      fun _ _ => nofun, fun _ _ _ h => h⟩
    cases hk
  | cons e rest ih =>
    obtain ⟨entry, path⟩ := e
    rw [List.map_cons, List.nodup_cons] at hnodup
    have hentry : m.entries[index]? = some entry := hl 0 _ rfl
    have hrest : ∀ k (e : FileEntry × List String), rest[k]? = some e →
        m.entries[index + 1 + k]? = some e.1 := by
      intro k e hk
      rw [show index + 1 + k = index + (k + 1) by omega]
      exact hl (k + 1) e hk
    unfold pullInto
    -- the switch is looked at before every entry
    by_cases hcancel : fetch.logged.isCancelled p.fetching
    · rw [if_pos hcancel]
      exact ⟨[], [], .stopped _ _⟩
    · rw [if_neg hcancel]
      -- a folder is made, and nothing is fetched for it
      cases hdir : entry.dir with
      | true =>
        rw [if_pos rfl]
        cases hmake : p.fs.createDirAll path with
        | none => exact ⟨[], [], .stopped _ _⟩
        | some fs =>
          obtain ⟨ws, xs, h⟩ := ih (p := { p with fs := fs }) hrest hnodup.2
          have hsame : Advanced m p { p with fs := fs } [] [] := .of_same rfl rfl rfl rfl
          exact ⟨ws, xs, .folder hdir hsame
            (fun q data hq => FileStore.createDirAll_kept hmake hq) h⟩
      -- a file is made empty and then filled chunk by chunk
      | false =>
        rw [if_neg Bool.false_ne_true]
        cases hmake : p.fs.create path with
        | none => exact ⟨[], [], .stopped _ _⟩
        | some fs =>
          have hfs := FileStore.create_eq_some hmake
          have hfile : fs path = some (.file []) := by
            rw [hfs, FileStore.put_self]
          obtain ⟨data, lens, xs, hfill⟩ : ∃ data lens xs,
              Filled m index entry path entry.size 0 [] { p with fs := fs }
                (pullChunks fetch.logged m seq index entry path entry.size 0
                  { p with fs := fs }) data lens xs :=
            pullChunks_spec hentry hfile (Nat.zero_le _)
          simp only
          cases hrun : pullChunks fetch.logged m seq index entry path entry.size 0
              { p with fs := fs } with
          | mk p₁ r =>
            rw [hrun] at hfill
            cases r with
            | some e => exact ⟨_, xs, .failed hdir hfs hfill⟩
            | none =>
              -- the file is whole: the rest follows, one file further on
              obtain ⟨ws, xs', h⟩ := ih (p := { p₁ with fileIndex := p₁.fileIndex + 1 })
                hrest hnodup.2
              have hsame : Advanced m p₁ { p₁ with fileIndex := p₁.fileIndex + 1 } [] [] :=
                .of_same rfl rfl rfl rfl
              exact ⟨_, _, .file hdir hnodup.1 hfs hfill hsame rfl h⟩

/-! ## A whole pull

The total a manifest announces is checked before anything is fetched, so what a pull writes in all
is bounded by it. The sum wraps, as in a release build, which is where the exception lies. -/

/-- The pull is not refused before anything is asked for: the limit, the paths and the cancel
switch let it through, and there is a folder for it. -/
def GoesAhead {σ : Type} (toLowercase : String → String) (m : FileManifest) (dest : List String)
    (options : PullOptions) (fetch : Fetch σ) (fs : FileStore String UInt8) (s : σ) : Prop :=
  ¬ (0 < options.maxBytes ∧ options.maxBytes < m.totalBytes)
    ∧ (∃ resolved, sanitizeManifest toLowercase dest [] m.entries = .ok resolved)
    ∧ fetch.isCancelled s = false ∧ ∃ fs', fs.createDirAll dest = some fs'

section

variable {toLowercase : String → String} {dest : List String} {options : PullOptions}
  {fs : FileStore String UInt8} {s : σ}

/-- A pull is refused with nothing asked for, or runs through the entries and, if that fails,
removes its folder. -/
theorem pullWithOptions_cases (toLowercase : String → String) (m : FileManifest)
    (dest : List String) (options : PullOptions) (fetch : Fetch σ) (fs : FileStore String UInt8)
    (s : σ) :
    (¬ GoesAhead toLowercase m dest options fetch fs s ∧ ∃ e,
      pullWithOptions toLowercase m dest options fetch fs s
        = ({ fs := fs, fetching := s }, .error e))
    ∨ GoesAhead toLowercase m dest options fetch fs s ∧ ∃ resolved fs',
      sanitizeManifest toLowercase dest [] m.entries = .ok resolved
      ∧ fs.createDirAll dest = some fs'
      ∧ ∀ out, out = pullInto fetch m options.seq 0 (m.entries.zip resolved)
          { fs := fs', fetching := s } →
        (out.2 = none ∧ pullWithOptions toLowercase m dest options fetch fs s
          = (out.1, .ok (topLevel m resolved)))
        ∨ ∃ e, out.2 = some e ∧ pullWithOptions toLowercase m dest options fetch fs s
          = ({ out.1 with fs := out.1.fs.removeDirAll dest }, .error e) := by
  unfold pullWithOptions GoesAhead
  by_cases hlarge : 0 < options.maxBytes ∧ options.maxBytes < m.totalBytes
  · exact .inl ⟨fun h => h.1 hlarge, _, if_pos hlarge⟩
  · simp only [if_neg hlarge]
    cases hsanitize : sanitizeManifest toLowercase dest [] m.entries with
    | error e => exact .inl ⟨by simp, _, rfl⟩
    | ok resolved =>
      cases hcancel : fetch.isCancelled s with
      | true => exact .inl ⟨by simp, _, rfl⟩
      | false =>
        cases hdir : fs.createDirAll dest with
        | none => exact .inl ⟨by simp, _, rfl⟩
        | some fs' =>
          refine .inr ⟨⟨hlarge, ⟨_, rfl⟩, rfl, _, rfl⟩, resolved, fs', rfl, rfl, ?_⟩
          rintro ⟨p, r⟩ hout
          simp only [← hout, Bool.false_eq_true, if_false]
          cases r with
          | none => exact .inl ⟨rfl, rfl⟩
          | some e => exact .inr ⟨e, rfl, rfl⟩

/-- Nothing beyond what was announced and allowed: at every moment of the pull, for every entry
and altogether, for every report, and at its end. -/
structure WithinBounds (m : FileManifest) (maxBytes : Nat) (goesAhead : Prop)
    (resolved : Except SanitizeError (List (List String)))
    (out : Pulling (σ × List Fetched) × Except PullError (List (List String))) : Prop where
  each : ∀ k index (entry : FileEntry), m.entries[index]? = some entry →
    writtenFor (out.1.written.take k) index ≤ entry.size
  altogether : ∀ k, writtenTotal (out.1.written.take k) ≤ m.announced
  allowed : goesAhead → m.announced ≤ maxBytes
  exact_size : ∀ top paths, out.2 = .ok top → resolved = .ok paths →
    ∀ e ∈ m.entries.zip paths, e.1.dir = false →
      ∃ data, out.1.fs e.2 = some (.file data) ∧ data.length = e.1.size
  reports : ∀ r ∈ out.1.reported, r.bytesDone ≤ r.bytesTotal

/-- The sizes are those of the entries, whatever their paths. -/
theorem fileSizes_zip {entries : List FileEntry} {paths : List (List String)}
    (hlen : entries.length = paths.length) :
    fileSizes (entries.zip paths) = ((entries.filter fun e => !e.dir).map (·.size)).sum := by
  induction entries generalizing paths with
  | nil => rfl
  | cons e entries ih =>
    cases paths with
    | nil => cases hlen
    | cons path paths =>
      have hrest := ih (Nat.succ.inj hlen)
      unfold fileSizes at hrest ⊢
      cases hdir : e.dir with
      | true => simpa [hdir] using hrest
      | false => simpa [hdir] using hrest

/-- The bounds of a pull that ran through its entries, in what it wrote and was answered. -/
theorem Pulled.withinBounds_iff {resolved : List (List String)}
    {p p' : Pulling (σ × List Fetched)} {out : Pulling (σ × List Fetched) × Option PullError}
    {result : Except PullError (List (List String))} {ws : List (Nat × Nat)} {xs : List Fetched}
    {maxBytes : Nat} {goesAhead : Prop} (hmax : maxBytes < 2 ^ 64) (hgo : goesAhead)
    (hlimit : m.totalBytes ≤ maxBytes) (hlen : m.entries.length = resolved.length)
    (hstart : p.written = [] ∧ p.bytesDone = 0 ∧ p.fetching.2 = [] ∧ p.reported = [])
    (h : Pulled m 0 (m.entries.zip resolved) p out ws xs)
    (hp' : p'.written = out.1.written ∧ p'.fetching = out.1.fetching
      ∧ p'.reported = out.1.reported)
    (hok : ∀ top, result = .ok top → p'.fs = out.1.fs ∧ out.2 = none) :
    WithinBounds m maxBytes goesAhead (.ok resolved) (p', result)
      ↔ (goesAhead → m.announced < 2 ^ 64) ∧ ∀ x ∈ p'.fetching.2, x.Fits m := by
  obtain ⟨hnoneWritten, hnoneDone, hnoneLog, hnoneReported⟩ := hstart
  have hwritten : p'.written = ws := by
    rw [hp'.1, h.advanced.written, hnoneWritten, List.nil_append]
  have hlog : p'.fetching.2 = xs := by
    rw [hp'.2.1, h.advanced.log, hnoneLog, List.nil_append]
  have hzip : ∀ (k : Nat) (entry : FileEntry), m.entries[k]? = some entry →
      ∃ path, (m.entries.zip resolved)[k]? = some (entry, path) := by
    intro k entry hk
    obtain ⟨hk', _⟩ := List.getElem?_eq_some_iff.mp hk
    have hlt : k < resolved.length := hlen ▸ hk'
    exact ⟨resolved[k], List.getElem?_zip_eq_some.mpr ⟨hk, List.getElem?_eq_getElem hlt⟩⟩
  rw [hlog]
  constructor
  · intro hbounds
    refine ⟨fun hgo => (hbounds.allowed hgo).trans_lt hmax, h.fits.mpr fun k e hk => ?_⟩
    -- the bound holds at the last moment, when all of `ws` is written
    have hk := (List.getElem?_zip_eq_some.mp hk).1
    have hall : writtenFor (p'.written.take ws.length) k ≤ e.1.size := hbounds.each _ k e.1 hk
    rw [hwritten, List.take_length] at hall
    rwa [Nat.zero_add]
  · intro ⟨hwrap, hfits⟩
    have htotal : m.totalBytes = m.announced := Nat.mod_eq_of_lt (hwrap hgo)
    have hsum : writtenTotal ws ≤ m.announced := by
      have := h.total hfits
      rwa [fileSizes_zip hlen] at this
    refine ⟨fun k index entry hentry => ?_, fun k => ?_, fun _ => htotal ▸ hlimit, ?_, ?_⟩
    · obtain ⟨path, hpath⟩ := hzip index entry hentry
      have hall := h.fits.mp hfits index _ hpath
      rw [Nat.zero_add] at hall
      show writtenFor (p'.written.take k) index ≤ entry.size
      rw [hwritten]
      exact (writtenFor_take ws k index).trans hall
    · show writtenTotal (p'.written.take k) ≤ m.announced
      rw [hwritten]
      exact (writtenTotal_take ws k).trans hsum
    · intro top paths hresult hpaths e he hfile
      obtain ⟨hfs, hnone⟩ := hok top hresult
      obtain rfl : resolved = paths := Except.ok.inj hpaths
      show ∃ data, p'.fs e.2 = _ ∧ _
      rw [hfs]
      exact h.whole hnone hfits e he hfile
    · intro r hr
      have hr : r ∈ out.1.reported := hp'.2.2 ▸ hr
      rcases h.advanced.reported r hr with hr | ⟨hbytes, hdone⟩
      · rw [hnoneReported] at hr
        cases hr
      · rw [h.advanced.bytesDone, hnoneDone] at hdone
        omega

/-- A pull keeps within the bounds if and only if every answer fits what is missing of its entry
and the sizes of a manifest that is not refused add up to less than `2 ^ 64`. -/
theorem pull_bounds (options : PullOptions) (hmax : 0 < options.maxBytes)
    (hmax' : options.maxBytes < 2 ^ 64) (toLowercase : String → String) (m : FileManifest)
    (dest : List String) (fetch : Fetch σ) (fs : FileStore String UInt8) (s : σ) :
    WithinBounds m options.maxBytes (GoesAhead toLowercase m dest options fetch fs s)
        (sanitizeManifest toLowercase dest [] m.entries)
        (pullWithOptions toLowercase m dest options fetch.logged fs (s, []))
      ↔ (GoesAhead toLowercase m dest options fetch fs s → m.announced < 2 ^ 64)
        ∧ ∀ x ∈ (pullWithOptions toLowercase m dest options fetch.logged fs (s, [])).1.fetching.2,
          x.Fits m := by
  have hsame : GoesAhead toLowercase m dest options fetch.logged fs (s, [])
      ↔ GoesAhead toLowercase m dest options fetch fs s := Iff.rfl
  rcases pullWithOptions_cases toLowercase m dest options fetch.logged fs (s, []) with
    ⟨hstay, e, hout⟩ | ⟨hgo, resolved, fs', hresolved, _, hout⟩
  · -- refused: nothing was asked for and nothing written
    rw [hsame] at hstay
    rw [hout]
    have hnone : ∀ k, ([] : List (Nat × Nat)).take k = [] := fun k => List.take_nil
    refine ⟨fun _ => ⟨fun hgo => absurd hgo hstay, nofun⟩, fun _ => ⟨?_, ?_, ?_, nofun, nofun⟩⟩
    · intro k index entry _
      show writtenFor (([] : List (Nat × Nat)).take k) index ≤ entry.size
      rw [hnone]
      exact Nat.zero_le _
    · intro k
      show writtenTotal (([] : List (Nat × Nat)).take k) ≤ m.announced
      rw [hnone]
      exact Nat.zero_le _
    · exact fun hgo => absurd hgo hstay
  -- it goes ahead: the announced total is within the limit, and the loop does the rest
  · have hlimit : m.totalBytes ≤ options.maxBytes := by
      have := hgo.1
      omega
    have hlen : m.entries.length = resolved.length := by
      rw [(sanitizeManifest_ok hresolved).1, List.length_map]
    have hfirst : ∀ k (e : FileEntry × List String), (m.entries.zip resolved)[k]? = some e →
        m.entries[0 + k]? = some e.1 := by
      intro k e hk
      rw [Nat.zero_add]
      exact (List.getElem?_zip_eq_some.mp hk).1
    have hnodup : ((m.entries.zip resolved).map Prod.snd).Nodup := by
      rw [List.map_snd_zip (Nat.le_of_eq hlen.symm)]
      exact sanitizeManifest_nodup hresolved
    obtain ⟨ws, xs, hpulled⟩ : ∃ ws xs, Pulled m 0 (m.entries.zip resolved)
        { fs := fs', fetching := (s, []) } (pullInto fetch.logged m options.seq 0
          (m.entries.zip resolved) { fs := fs', fetching := (s, []) }) ws xs :=
      pullInto_spec hfirst hnodup
    rw [hresolved]
    -- the pull ends well or fails on the way
    rcases hout _ rfl with ⟨hend, hout⟩ | ⟨e, hend, hout⟩
    · rw [hout]
      exact hpulled.withinBounds_iff hmax' (hsame.mp hgo) hlimit hlen ⟨rfl, rfl, rfl, rfl⟩
        ⟨rfl, rfl, rfl⟩ fun _ _ => ⟨rfl, hend⟩
    · rw [hout]
      exact hpulled.withinBounds_iff hmax' (hsame.mp hgo) hlimit hlen ⟨rfl, rfl, rfl, rfl⟩
        ⟨rfl, rfl, rfl⟩ nofun

end

/-! ### A reader that answers too long, and sizes that wrap around -/

/-- A reader that answers every request with these bytes. -/
def Fetch.always (bytes : Bytes) : Fetch Unit where
  read _ _ _ _ := (.answered (.data bytes), ())
  isCancelled _ := false

/-- An empty disk. -/
def rootOnly : FileStore String UInt8 := FileStore.put (fun _ => none) [] .folder

def oneByte : FileManifest := ⟨[⟨"a", 1, false⟩]⟩

/-- Two files of `2 ^ 63` bytes. -/
def twoHalves : FileManifest := ⟨[⟨"a", 2 ^ 63, false⟩, ⟨"b", 2 ^ 63, false⟩]⟩

/-- A pull of one byte from a reader that gives one. -/
theorem pull_bounds_one_byte :
    WithinBounds oneByte 10 (GoesAhead id oneByte ["in"] ⟨10, 1⟩ (.always [7]) rootOnly ())
      (sanitizeManifest id ["in"] [] oneByte.entries)
      (pullWithOptions id oneByte ["in"] ⟨10, 1⟩ (Fetch.always [7]).logged rootOnly ((), [])) :=
  (pull_bounds ⟨10, 1⟩ (by decide) (by decide) id oneByte ["in"] (.always [7])
    rootOnly ()).mpr ⟨fun _ => by decide +kernel, by decide +kernel⟩

/-- The file of one byte gets three, which the report says too; and two files of `2 ^ 63` bytes
each pass a limit of ten. -/
theorem long_answer_is_written :
    ¬ WithinBounds oneByte 10
        (GoesAhead id oneByte ["in"] ⟨10, 1⟩ (.always [1, 2, 3]) rootOnly ())
        (sanitizeManifest id ["in"] [] oneByte.entries)
        (pullWithOptions id oneByte ["in"] ⟨10, 1⟩ (Fetch.always [1, 2, 3]).logged rootOnly
          ((), []))
      ∧ ¬ WithinBounds twoHalves 10
        (GoesAhead id twoHalves ["in"] ⟨10, 1⟩ (.always []) rootOnly ())
        (sanitizeManifest id ["in"] [] twoHalves.entries)
        (pullWithOptions id twoHalves ["in"] ⟨10, 1⟩ (Fetch.always []).logged rootOnly
          ((), [])) := by
  constructor
  -- three bytes come for a file of one
  · intro h
    have hone : writtenFor _ 0 ≤ 1 := h.each 1 0 ⟨"a", 1, false⟩ rfl
    revert hone
    decide +kernel
  -- the two sizes add up to zero
  · intro h
    have hgo : GoesAhead id twoHalves ["in"] ⟨10, 1⟩ (.always []) rootOnly () := by
      refine ⟨by decide +kernel, ⟨[["in", "a"], ["in", "b"]], by decide +kernel⟩, rfl, ?_⟩
      exact Option.isSome_iff_exists.mp (by decide +kernel)
    have hsum := h.allowed hgo
    revert hsum
    decide +kernel

end GeserDesk
