import Mathlib.Data.List.Infix
import Mathlib.Data.List.Basic

/-!
# Folders and files by path

A store holds a folder or a file at some of its paths; a path is the list of its components,
the empty list the root. Creating a file needs its folder, creating a folder with
everything above it does not.

* `createDirAll_eq_some`: what creating a folder and everything above it leaves.
* `createDirAll_changes`, `create_eq_some`, `append_eq_some`: what an operation has done where it
  went well.
* `stage_of_mem`, `stage_of_not_mem`: what is found after putting down a list of nodes, each at
  a path of its own.
-/

universe u v

/-- What is at a path. -/
inductive StoreNode (β : Type v) where
  | folder
  | file (bytes : List β)
deriving DecidableEq, Repr

/-- What is at each path. -/
def FileStore (κ : Type u) (β : Type v) : Type (max u v) := List κ → Option (StoreNode β)

namespace FileStore

variable {κ : Type u} {β : Type v} [DecidableEq κ]

/-- Put a node at a path, whatever was there. -/
def put (fs : FileStore κ β) (path : List κ) (node : StoreNode β) : FileStore κ β :=
  fun q => if q = path then some node else fs q

/-- What was put at a path is there. -/
@[simp] theorem put_self (fs : FileStore κ β) (path : List κ) (node : StoreNode β) :
    fs.put path node path = some node := if_pos rfl

/-- Everything but what was put is as it was. -/
theorem put_of_ne (fs : FileStore κ β) {path q : List κ} (node : StoreNode β) (h : q ≠ path) :
    fs.put path node q = fs q := if_neg h

/-- Of two nodes put at one path the last stays. -/
theorem put_put (fs : FileStore κ β) (path : List κ) (node node' : StoreNode β) :
    (fs.put path node).put path node' = fs.put path node' := by
  funext q
  unfold put
  split <;> rfl

/-- Putting what is there changes nothing. -/
theorem put_same {fs : FileStore κ β} {path : List κ} {node : StoreNode β}
    (h : fs path = some node) : fs.put path node = fs := by
  funext q
  by_cases hq : q = path
  · rw [hq, put_self, h]
  · exact put_of_ne fs node hq

/-- One folder: fine where there is one, refused where there is a file. -/
def createDir (fs : FileStore κ β) (path : List κ) : Option (FileStore κ β) :=
  match fs path with
  | some .folder => some fs
  | some (.file _) => none
  | none => some (fs.put path .folder)

/-- A folder and everything above it. -/
def createDirAll (fs : FileStore κ β) (path : List κ) : Option (FileStore κ β) :=
  path.inits.foldlM createDir fs

/-- An empty file in a folder that exists, in place of any file of that name. -/
def create (fs : FileStore κ β) (path : List κ) : Option (FileStore κ β) :=
  match fs path.dropLast, fs path with
  | some .folder, some .folder => none
  | some .folder, _ => some (fs.put path (.file []))
  | _, _ => none

/-- Write at the end of a file. -/
def append (fs : FileStore κ β) (path : List κ) (bytes : List β) : Option (FileStore κ β) :=
  match fs path with
  | some (.file old) => some (fs.put path (.file (old ++ bytes)))
  | _ => none

/-- Write a whole file. -/
def write (fs : FileStore κ β) (path : List κ) (bytes : List β) : Option (FileStore κ β) :=
  (fs.create path).bind fun fs => fs.append path bytes

/-- Remove a folder and everything under it. -/
def removeDirAll (fs : FileStore κ β) (path : List κ) : FileStore κ β :=
  fun q => if path.isPrefixOf q then none else fs q

/-! ## What the operations leave

Each operation changes the paths it names and no others. -/

/-- Making a list of folders, none of which is in the way of a file, makes them all and touches
nothing else. -/
theorem foldlM_createDir {fs : FileStore κ β} {paths : List (List κ)}
    (h : ∀ q ∈ paths, fs q = none ∨ fs q = some .folder) :
    paths.foldlM createDir fs = some fun q => if q ∈ paths then some .folder else fs q := by
  induction paths generalizing fs with
  | nil => rfl
  | cons p paths ih =>
    have hstep : fs.createDir p = some (fs.put p .folder) := by
      unfold createDir
      rcases h p List.mem_cons_self with hp | hp
      · rw [hp]
      · rw [hp]
        refine congrArg some (funext fun q => ?_)
        unfold put
        split
        · next hq => rw [hq, hp]
        · rfl
    rw [List.foldlM_cons, hstep]
    -- what is below the folder just made is as it was
    have hrest : ∀ q ∈ paths, fs.put p .folder q = none ∨ fs.put p .folder q = some .folder := by
      intro q hq
      by_cases hqp : q = p
      · subst hqp
        exact .inr (put_self fs q _)
      · rw [put_of_ne fs _ hqp]
        exact h q (List.mem_cons_of_mem p hq)
    refine (ih hrest).trans (congrArg some (funext fun q => ?_))
    by_cases hqp : q = p
    · subst hqp
      simp
    · simp [hqp, put_of_ne fs _ hqp]

/-- Where no file is in the way, every path down to the folder is a folder and nothing else
changes. -/
theorem createDirAll_eq_some {fs : FileStore κ β} {path : List κ}
    (h : ∀ q, q <+: path → fs q = none ∨ fs q = some .folder) :
    fs.createDirAll path = some fun q => if q <+: path then some .folder else fs q := by
  unfold createDirAll
  rw [foldlM_createDir fun q hq => h q ((List.mem_inits q path).mp hq)]
  refine congrArg some (funext fun q => ?_)
  simp only [List.mem_inits]

/-- A new folder in a folder. -/
theorem createDirAll_new {fs : FileStore κ β} {path : List κ}
    (habove : ∀ q, q <+: path → q ≠ path → fs q = some .folder) (hnew : fs path = none) :
    fs.createDirAll path = some (fs.put path .folder) := by
  have h : ∀ q, q <+: path → fs q = none ∨ fs q = some .folder := by
    intro q hq
    by_cases hqp : q = path
    · exact .inl (hqp ▸ hnew)
    · exact .inr (habove q hq hqp)
  rw [createDirAll_eq_some h]
  refine congrArg some (funext fun q => ?_)
  by_cases hqp : q = path
  · subst hqp
    simp
  · rw [put_of_ne fs _ hqp]
    by_cases hq : q <+: path
    · rw [if_pos hq, habove q hq hqp]
    · rw [if_neg hq]

/-- A file can be created in a folder that is there, unless a folder has its name. -/
theorem create_new {fs : FileStore κ β} {path : List κ}
    (habove : fs path.dropLast = some .folder) (hnew : fs path ≠ some .folder) :
    fs.create path = some (fs.put path (.file [])) := by
  unfold create
  rw [habove]
  cases hp : fs path with
  | none => rfl
  | some node =>
    cases node with
    | folder => exact absurd hp hnew
    | file _ => rfl

/-- Appending goes at the end of the file. -/
@[simp] theorem append_put (fs : FileStore κ β) (path : List κ) (old bytes : List β) :
    (fs.put path (.file old)).append path bytes = some (fs.put path (.file (old ++ bytes))) := by
  unfold append
  rw [put_self]
  exact congrArg some (put_put fs path _ _)

/-- The same of a write, which creates its file. -/
theorem write_new {fs : FileStore κ β} {path : List κ} {bytes : List β}
    (habove : fs path.dropLast = some .folder) (hnew : fs path ≠ some .folder) :
    fs.write path bytes = some (fs.put path (.file bytes)) := by
  rw [write, create_new habove hnew]
  exact append_put fs path [] bytes

/-! ## What an operation that went well has done

The other direction: from success to what stands at the path now. -/

/-- Making a folder adds it or finds it. -/
theorem createDir_eq_some {fs fs' : FileStore κ β} {path : List κ}
    (h : fs.createDir path = some fs') :
    fs' = fs ∨ fs path = none ∧ fs' = fs.put path .folder := by
  unfold createDir at h
  split at h
  · exact .inl (Option.some.inj h).symm
  · cases h
  · next hnone => exact .inr ⟨hnone, (Option.some.inj h).symm⟩

/-- Making folders changes nothing but what was not there above and at the last of them. -/
theorem createDirAll_changes {fs fs' : FileStore κ β} {path q : List κ}
    (h : fs.createDirAll path = some fs') (hq : fs' q ≠ fs q) : q <+: path ∧ fs q = none := by
  rw [← List.mem_inits]
  unfold createDirAll at h
  generalize path.inits = paths at h ⊢
  induction paths generalizing fs with
  | nil =>
    obtain rfl : fs = fs' := Option.some.inj h
    exact absurd rfl hq
  | cons dir paths ih =>
    rw [List.foldlM_cons] at h
    obtain ⟨fs₁, hdir, hrest⟩ := Option.bind_eq_some_iff.mp h
    rcases createDir_eq_some hdir with rfl | ⟨hnone, rfl⟩
    · obtain ⟨hmem, hnew⟩ := ih hq hrest
      exact ⟨List.mem_cons_of_mem _ hmem, hnew⟩
    · by_cases hqd : q = dir
      · subst hqd
        exact ⟨List.mem_cons_self, hnone⟩
      · rw [← put_of_ne fs .folder hqd] at hq
        obtain ⟨hmem, hnew⟩ := ih hq hrest
        rw [put_of_ne fs .folder hqd] at hnew
        exact ⟨List.mem_cons_of_mem _ hmem, hnew⟩

/-- Making folders leaves the files there are. -/
theorem createDirAll_kept {fs fs' : FileStore κ β} {path q : List κ} {data : List β}
    (h : fs.createDirAll path = some fs') (hq : fs q = some (.file data)) :
    fs' q = some (.file data) := by
  by_contra hne
  have hnone := (createDirAll_changes h (by rwa [hq])).2
  rw [hq] at hnone
  cases hnone

/-- Creating a file empties it. -/
theorem create_eq_some {fs fs' : FileStore κ β} {path : List κ} (h : fs.create path = some fs') :
    fs' = fs.put path (.file []) := by
  unfold create at h
  split at h
  · cases h
  · exact (Option.some.inj h).symm
  · cases h

/-- Appending needs a file and adds to that one. -/
theorem append_eq_some {fs fs' : FileStore κ β} {path : List κ} {bytes : List β}
    (h : fs.append path bytes = some fs') :
    ∃ old, fs path = some (.file old) ∧ fs' = fs.put path (.file (old ++ bytes)) := by
  unfold append at h
  split at h
  · next old hold => exact ⟨old, hold, (Option.some.inj h).symm⟩
  · cases h

/-- A write changes its own path only. -/
theorem write_changes {fs fs' : FileStore κ β} {path q : List κ} {bytes : List β}
    (h : fs.write path bytes = some fs') (hq : fs' q ≠ fs q) : q = path := by
  obtain ⟨fs₁, hcreate, happend⟩ := Option.bind_eq_some_iff.mp h
  obtain ⟨old, _, rfl⟩ := append_eq_some happend
  by_contra hne
  rw [put_of_ne _ _ hne, create_eq_some hcreate, put_of_ne _ _ hne] at hq
  exact hq rfl

/-! ## Nodes put down one after another -/

/-- Put down a list of nodes, each at its path. -/
def stage (fs : FileStore κ β) (nodes : List (List κ × StoreNode β)) : FileStore κ β :=
  nodes.foldl (fun fs n => fs.put n.1 n.2) fs

@[simp] theorem stage_nil (fs : FileStore κ β) : fs.stage [] = fs := rfl

/-- Staging changes its own paths only. -/
theorem stage_of_not_mem {fs : FileStore κ β} {nodes : List (List κ × StoreNode β)} {q : List κ}
    (h : q ∉ nodes.map Prod.fst) : fs.stage nodes q = fs q := by
  induction nodes generalizing fs with
  | nil => rfl
  | cons n nodes ih =>
    rw [List.map_cons, List.mem_cons, not_or] at h
    have hrest : (fs.put n.1 n.2).stage nodes q = fs.put n.1 n.2 q := ih h.2
    exact hrest.trans (put_of_ne fs _ h.1)

/-- Each path that is staged once holds its node. -/
theorem stage_of_mem {fs : FileStore κ β} {nodes : List (List κ × StoreNode β)} {q : List κ}
    {node : StoreNode β} (hnd : (nodes.map Prod.fst).Nodup) (h : (q, node) ∈ nodes) :
    fs.stage nodes q = some node := by
  induction nodes generalizing fs with
  | nil => cases h
  | cons n nodes ih =>
    rw [List.map_cons, List.nodup_cons] at hnd
    rcases List.mem_cons.mp h with h | h
    · subst h
      have hrest : (fs.put q node).stage nodes q = fs.put q node q := stage_of_not_mem hnd.1
      exact hrest.trans (put_self fs q node)
    · have hrest : (fs.put n.1 n.2).stage nodes q = some node := ih hnd.2 h
      exact hrest

end FileStore
