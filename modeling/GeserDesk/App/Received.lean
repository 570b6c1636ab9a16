import GeserDesk.Clipboard.Note
import GeserDesk.System.PullRuns

/-!
# The copies of files a machine received

`list_in`, `remove_in`, `remove_all` and `clean_in` of `geserdesk-app/src/received.rs`. The folders
pulls stage into are listed and removed from the disk directly, by any text that is asked for as a
path; what the system does to folders (`FolderOps`) may go wrong half-way.

* **`insideOf_eq_some`**: which texts are taken for a path directly under a staging folder.
* **`cleanIn_count`**: cleaning says how many old copies are gone, and leaves everything else.
* **`removeAll_ok_iff`**: removing all went well if and only if no copy that was listed is there.
-/

namespace GeserDesk

/-! ## Paths by component

A path as the standard library takes it apart: root, current folder, parent folder, names. -/

/-- `std::path::Component`, of a Unix path. -/
inductive PathComponent where
  | rootDir
  | curDir
  | parentDir
  | normal (name : String)
deriving DecidableEq

def PathComponent.ofPart (part : String) : PathComponent :=
  if part = ".." then .parentDir else .normal part

/-- `Path::components`: an empty part is skipped, and `.` but for the first of a relative path. -/
def components (path : String) : List PathComponent :=
  let parts := pathParts path
  let rest := (parts.filter fun part => part ≠ "" ∧ part ≠ ".").map .ofPart
  if path.toList.head? = some '/' then .rootDir :: rest
  else if parts.head? = some "." then .curDir :: rest
  else rest

/-- `Path::parent`. -/
def parentOf (path : List PathComponent) : Option (List PathComponent) :=
  match path.getLast? with
  | none => none
  | some .rootDir => none
  | some _ => some path.dropLast

/-- `Path::file_name`. -/
def nameOf (path : List PathComponent) : Option String :=
  match path.getLast? with
  | some (.normal name) => some name
  | _ => none

/-- The components of an absolute path. -/
def absolute (names : List String) : List PathComponent := .rootDir :: names.map .normal

/-- The text of an absolute path. -/
def absText (names : List String) : String := "/" ++ pathOf names

/-- A name that a folder can list. -/
structure FileName (name : String) : Prop where
  not_empty : name ≠ ""
  not_dot : name ≠ "."
  not_dots : name ≠ ".."
  no_slash : '/' ∉ name.toList

/-! ## The code

The calls of `received.rs`, over a file system given by what it lists and removes. -/

/-- What the system does to folders. The second half of a removal is what went wrong. -/
structure FolderOps where
  readDir : FileStore String UInt8 → List String → Option (List String)
  modified : FileStore String UInt8 → List String → Nat
  removeDirAll : FileStore String UInt8 → List String → FileStore String UInt8 × Option String

/-- A folder lists things in it, each once. A removal takes away nothing but what is below the
folder, which itself goes last. -/
structure FolderOps.Lawful (os : FolderOps) : Prop where
  listed : ∀ {fs dir names}, os.readDir fs dir = some names →
    names.Nodup ∧ ∀ name ∈ names, FileName name ∧ fs (dir ++ [name]) ≠ none
  removed : ∀ fs folder q, (os.removeDirAll fs folder).1 q = fs q
    ∨ folder <+: q ∧ (os.removeDirAll fs folder).1 q = none
  gone : ∀ {fs folder}, (os.removeDirAll fs folder).2 = none → ∀ q, folder <+: q →
    (os.removeDirAll fs folder).1 q = none
  left : ∀ {fs folder}, (os.removeDirAll fs folder).2 ≠ none →
    (os.removeDirAll fs folder).1 folder = fs folder

/-- One received copy: one pulled folder. -/
structure ReceivedCopy where
  path : String
  peer : String
  time : Nat
  names : List String

/-- The folders pulls stage into: one per transfer under each of these. -/
def receivedRoots (temp : List String) : List (List String) :=
  [(stagingDir temp .client 0).dropLast, (stagingDir temp .server 0).dropLast]

section Folders

variable (os : FolderOps) (roots : List (List String))

/-- The folders there are under the roots. -/
def copies (fs : FileStore String UInt8) : List (List String) :=
  roots.flatMap fun root =>
    (((os.readDir fs root).getD []).map fun name => root ++ [name]).filter
      fun path => fs path = some .folder

def receivedAt (fs : FileStore String UInt8) (path : List String) : ReceivedCopy :=
  let note := readNote fs path
  { path := absText path
    peer := (note.map (·.peer)).getD ""
    time := ((note.map (·.time)).filter (0 < ·)).getD (os.modified fs path)
    names := (note.map (·.names)).getD (((os.readDir fs path).getD []).filter (· ≠ NOTE)) }

/-- Every received copy, the newest first. -/
def listIn (fs : FileStore String UInt8) : List ReceivedCopy :=
  ((copies os roots fs).map (receivedAt os fs)).mergeSort fun a b => b.time ≤ a.time

/-- The folder a path names, if it is one directly under a root. -/
def insideOf (path : String) : Option (List String) := do
  let parent ← parentOf (components path)
  let root ← roots.find? fun root => absolute root = parent
  let name ← nameOf (components path)
  if name ≠ "." ∧ name ≠ ".." then some (root ++ [name]) else none

def removeIn (fs : FileStore String UInt8) (path : String) :
    FileStore String UInt8 × Option String :=
  match insideOf roots path with
  | none => (fs, some (path ++ ": not a received copy"))
  | some folder =>
    let (fs, problem) := os.removeDirAll fs folder
    (fs, problem.map fun e => path ++ ": " ++ e)

/-- One after another, with what went wrong with each. -/
def removeEach : List String → FileStore String UInt8 →
    FileStore String UInt8 × List (Option String)
  | [], fs => (fs, [])
  | path :: paths, fs =>
    let (fs, problem) := removeIn os roots fs path
    let (fs, problems) := removeEach paths fs
    (fs, problem :: problems)

/-- Remove every received copy; what could not be removed is named. -/
def removeAll (fs : FileStore String UInt8) : FileStore String UInt8 × Option String :=
  let (fs, outcomes) := removeEach os roots ((listIn os roots fs).map (·.path)) fs
  let problems := outcomes.filterMap id
  (fs, if problems = [] then none else some ("; ".intercalate problems))

/-- Remove the copies received more than `days` days ago (0 keeps everything). How many were
removed. -/
def cleanIn (days now : Nat) (fs : FileStore String UInt8) : FileStore String UInt8 × Nat :=
  if days = 0 then (fs, 0)
  else
    let limit := now - days * 24 * 60 * 60
    let old := (listIn os roots fs).filter (·.time < limit)
    let (fs, outcomes) := removeEach os roots (old.map (·.path)) fs
    (fs, outcomes.count none)

end Folders

/-! ## Paths

A text path names a copy when its components are those of the root with one name behind. -/

/-- An absolute path is its names. -/
@[simp] theorem absolute_inj {names names' : List String} :
    absolute names = absolute names' ↔ names = names' := by
  have hnormal : Function.Injective PathComponent.normal := fun _ _ h => PathComponent.normal.inj h
  rw [absolute, absolute, List.cons.injEq, (List.map_injective_iff.mpr hnormal).eq_iff]
  exact ⟨fun h => h.2, fun h => ⟨rfl, h⟩⟩

/-- A name more at the end is a component more. -/
theorem absolute_concat (root : List String) (name : String) :
    absolute (root ++ [name]) = absolute root ++ [.normal name] := by
  simp [absolute]

/-- The text of a path says the path. -/
theorem components_absText {names : List String} (h : ∀ name ∈ names, FileName name) :
    components (absText names) = absolute names := by
  have hhead : (absText names).toList.head? = some '/' := by
    simp [absText, String.toList_append]
  have hkept : (pathParts (absText names)).filter (fun part => part ≠ "" ∧ part ≠ ".") = names := by
    cases names with
    | nil => rfl
    | cons name rest =>
      have htext : absText (name :: rest) = pathOf ("" :: name :: rest) := by
        have hjoined : "/".intercalate ([""] ++ name :: rest) = _ :=
          String.intercalate_append_of_ne_nil (List.cons_ne_nil "" []) (List.cons_ne_nil name rest)
        show "/" ++ pathOf (name :: rest) = "/".intercalate ([""] ++ name :: rest)
        rw [hjoined]
        simp [pathOf]
      have hslash : ∀ part ∈ "" :: name :: rest, '/' ∉ part.toList := by
        intro part hpart
        rcases List.mem_cons.mp hpart with rfl | hpart
        · simp
        · exact (h part hpart).no_slash
      rw [htext, pathParts_pathOf (List.cons_ne_nil _ _) hslash, List.filter_cons_of_neg (by simp)]
      refine List.filter_eq_self.mpr fun part hpart => ?_
      simpa using ⟨(h part hpart).not_empty, (h part hpart).not_dot⟩
  unfold components absolute
  rw [if_pos hhead, hkept]
  refine congrArg (_ :: ·) (List.map_congr_left fun name hname => ?_)
  exact if_neg (h name hname).not_dots

/-- A component is never called `.` or `..`. -/
theorem normal_mem_components {path name : String} (h : .normal name ∈ components path) :
    name ≠ "." ∧ name ≠ ".." := by
  have hrest : .normal name ∈ ((pathParts path).filter fun part => part ≠ "" ∧ part ≠ ".").map
      PathComponent.ofPart := by
    unfold components at h
    simp only at h
    split_ifs at h
    · simpa using h
    · simpa using h
    · exact h
  obtain ⟨part, hpart, hname⟩ := List.mem_map.mp hrest
  rw [List.mem_filter, decide_eq_true_eq] at hpart
  unfold PathComponent.ofPart at hname
  split at hname
  · cases hname
  · next hdots =>
    obtain rfl : part = name := PathComponent.normal.inj hname
    exact ⟨hpart.2.2, hdots⟩

/-- What a request to remove something is for. -/
theorem insideOf_eq_some {roots : List (List String)} {path : String} {folder : List String} :
    insideOf roots path = some folder
      ↔ folder ≠ [] ∧ folder.dropLast ∈ roots ∧ components path = absolute folder := by
  constructor
  -- what the function looks at, one after another
  · intro h
    unfold insideOf at h
    simp only [Option.bind_eq_bind, Option.bind_eq_some_iff, Option.ite_none_right_eq_some,
      Option.some.injEq] at h
    obtain ⟨parent, hparent, root, hroot, name, hname, -, rfl⟩ := h
    have hmem := List.mem_of_find?_eq_some hroot
    have habs : absolute root = parent := by simpa using List.find?_some hroot
    unfold nameOf at hname
    split at hname
    -- the name is the last part, the root the parts before it
    · next name' hlast =>
      obtain rfl := Option.some.inj hname
      unfold parentOf at hparent
      rw [hlast] at hparent
      obtain rfl := Option.some.inj hparent
      refine ⟨by simp, by simpa using hmem, ?_⟩
      rw [absolute_concat, habs]
      exact (List.dropLast_append_getLast? _ hlast).symm
    · cases hname
  -- a path with these components gives that parent, that root and that name
  · rintro ⟨hne, hroot, hcomponents⟩
    obtain ⟨root, name, rfl⟩ : ∃ root name, folder = root ++ [name] :=
      ⟨folder.dropLast, folder.getLast hne, (List.dropLast_append_getLast hne).symm⟩
    rw [List.dropLast_concat] at hroot
    rw [absolute_concat] at hcomponents
    have hnormal : .normal name ∈ components path := by simp [hcomponents]
    have hname := normal_mem_components hnormal
    have hparent : parentOf (components path) = some (absolute root) := by
      simp [parentOf, hcomponents]
    have hlast : nameOf (components path) = some name := by
      simp [nameOf, hcomponents]
    have hfind : (roots.find? fun r => absolute r = absolute root) = some root := by
      cases hfound : roots.find? fun r => absolute r = absolute root with
      | none => exact absurd (List.find?_eq_none.mp hfound root hroot) (by simp)
      | some r =>
        have hr : r = root := by simpa using List.find?_some hfound
        rw [hr]
    unfold insideOf
    simp only [hparent, hlast, Option.bind_eq_bind, Option.bind_some, hfind, if_pos hname]

/-! ## What there is

The copies are the folders under the roots, each once, and the list shows them all. -/

/-- The folders that are looked through lie in the temporary one, under names of their own. -/
theorem fileName_of_mem_receivedRoots {temp root : List String}
    (htemp : ∀ name ∈ temp, FileName name) (h : root ∈ receivedRoots temp) :
    root.length = temp.length + 1 ∧ ∀ name ∈ root, FileName name := by
  have hroot : ∀ last, FileName last →
      (temp ++ [last]).length = temp.length + 1 ∧ ∀ name ∈ temp ++ [last], FileName name := by
    intro last hlast
    refine ⟨List.length_append, fun name hname => ?_⟩
    rcases List.mem_append.mp hname with hname | hname
    · exact htemp name hname
    · exact List.mem_singleton.mp hname ▸ hlast
  have htext : receivedRoots temp
      = [temp ++ ["geserdesk-clipboard-files"], temp ++ ["geserdesk-clipboard-files-server"]] := by
    simp [receivedRoots, stagingDir]
  rw [htext, List.mem_pair] at h
  rcases h with rfl | rfl
  · exact hroot _ ⟨by decide, by decide, by decide, by decide⟩
  · exact hroot _ ⟨by decide, by decide, by decide, by decide⟩

/-- No folder is looked through twice. -/
theorem nodup_receivedRoots (temp : List String) : (receivedRoots temp).Nodup := by
  simp [receivedRoots, stagingDir]

variable {os : FolderOps} {temp : List String}

/-- A copy is a folder with a name of its own in one of the folders looked through. -/
theorem mem_copies {roots : List (List String)} {fs : FileStore String UInt8} (hos : os.Lawful)
    {folder : List String} (h : folder ∈ copies os roots fs) :
    ∃ root ∈ roots, ∃ name, FileName name ∧ folder = root ++ [name] ∧ fs folder = some .folder := by
  obtain ⟨root, hroot, h⟩ := List.mem_flatMap.mp h
  rw [List.mem_filter, decide_eq_true_eq] at h
  obtain ⟨name, hname, rfl⟩ := List.mem_map.mp h.1
  cases hdir : os.readDir fs root with
  | none => simp [hdir] at hname
  | some names =>
    rw [hdir, Option.getD_some] at hname
    exact ⟨root, hroot, name, ((hos.listed hdir).2 name hname).1, rfl, h.2⟩

/-- No copy is listed twice. -/
theorem nodup_copies {roots : List (List String)} (hos : os.Lawful) (hroots : roots.Nodup)
    (fs : FileStore String UInt8) : (copies os roots fs).Nodup := by
  refine List.nodup_flatMap.mpr ⟨fun root hroot => ?_, ?_⟩
  · refine (List.Nodup.map (fun _ _ h => by simpa using h) ?_).filter _
    cases hdir : os.readDir fs root with
    | none => exact List.nodup_nil
    | some names => exact (hos.listed hdir).1
  · refine hroots.imp fun {root root'} hne folder h h' => hne ?_
    obtain ⟨name, -, rfl⟩ := List.mem_map.mp (List.mem_filter.mp h).1
    obtain ⟨name', -, heq⟩ := List.mem_map.mp (List.mem_filter.mp h').1
    exact (List.append_inj_left' heq rfl).symm

/-- The text a copy is listed by names its folder. -/
theorem insideOf_copy {fs : FileStore String UInt8} (hos : os.Lawful)
    (htemp : ∀ name ∈ temp, FileName name) {folder : List String}
    (h : folder ∈ copies os (receivedRoots temp) fs) :
    insideOf (receivedRoots temp) (absText folder) = some folder
      ∧ folder.length = temp.length + 2 := by
  obtain ⟨root, hroot, name, hname, rfl, -⟩ := mem_copies hos h
  obtain ⟨hlen, hnames⟩ := fileName_of_mem_receivedRoots htemp hroot
  refine ⟨insideOf_eq_some.mpr ⟨by simp, by simpa using hroot, components_absText ?_⟩, ?_⟩
  · intro part hpart
    rcases List.mem_append.mp hpart with hpart | hpart
    · exact hnames part hpart
    · exact List.mem_singleton.mp hpart ▸ hname
  · rw [List.length_append, hlen, List.length_singleton]

/-- The folders in the order they are listed. -/
def inOrder (os : FolderOps) (roots : List (List String)) (fs : FileStore String UInt8) :
    List (List String) :=
  (copies os roots fs).mergeSort fun a b =>
    (receivedAt os fs b).time ≤ (receivedAt os fs a).time

/-- Sorting by age neither loses nor doubles a copy. -/
theorem inOrder_perm (os : FolderOps) (roots : List (List String)) (fs : FileStore String UInt8) :
    (inOrder os roots fs).Perm (copies os roots fs) := List.mergeSort_perm _ _

/-- The list that is shown is of the copies, in that order. -/
theorem listIn_eq (os : FolderOps) (roots : List (List String)) (fs : FileStore String UInt8) :
    listIn os roots fs = (inOrder os roots fs).map (receivedAt os fs) :=
  (List.map_mergeSort (f := receivedAt os fs) fun _ _ _ _ => rfl).symm

/-! ## A system that removes what it is asked to

An example of a file system that meets what is assumed of one. -/

/-- Folders in which these names are looked for. -/
def knownNames : List String := ["7", "8", "a.txt", NOTE]

def plainFolders : FolderOps where
  readDir fs dir :=
    if fs dir = some .folder then some (knownNames.filter fun name => fs (dir ++ [name]) ≠ none)
    else none
  modified _ _ := 1700000000
  removeDirAll fs folder :=
    if fs folder = some .folder then (fs.removeDirAll folder, none)
    else (fs, some "not a directory")

/-- A system whose folders list what is in them, and that removes them whole, behaves as documented.
-/
theorem plainFolders_lawful : plainFolders.Lawful where
  listed {fs dir names} h := by
    have hknown : ∀ name ∈ knownNames, FileName name := by
      intro name hname
      simp only [knownNames, List.mem_cons, List.not_mem_nil, or_false] at hname
      rcases hname with rfl | rfl | rfl | rfl <;> exact ⟨by decide, by decide, by decide, by decide⟩
    obtain ⟨-, hnames⟩ := Option.ite_none_right_eq_some.mp h
    obtain rfl := Option.some.inj hnames
    refine ⟨(by decide : knownNames.Nodup).filter _, fun name hname => ?_⟩
    rw [List.mem_filter, decide_eq_true_eq] at hname
    exact ⟨hknown name hname.1, hname.2⟩
  removed fs folder q := by
    simp only [plainFolders]
    split_ifs
    · by_cases hq : folder.isPrefixOf q
      · exact .inr ⟨List.isPrefixOf_iff_prefix.mp hq, if_pos hq⟩
      · exact .inl (if_neg hq)
    · exact .inl rfl
  gone {fs folder} h q hq := by
    simp only [plainFolders] at h ⊢
    split_ifs at h ⊢
    exact if_pos (List.isPrefixOf_iff_prefix.mpr hq)
  left {fs folder} h := by
    simp only [plainFolders] at h ⊢
    split_ifs at h ⊢
    · exact absurd rfl h
    · rfl

/-- One copy of one file, without a note. -/
def oneCopy : FileStore String UInt8 := fun path =>
  if path ∈ [["tmp"], ["tmp", "geserdesk-clipboard-files"], ["tmp", "geserdesk-clipboard-files", "7"]]
  then some .folder
  else if path = ["tmp", "geserdesk-clipboard-files", "7", "a.txt"] then some (.file [97])
  else none

/-- The temporary folder's name is a name. -/
theorem tmp_name : ∀ name ∈ ["tmp"], FileName name := by
  intro name hname
  obtain rfl := List.mem_singleton.mp hname
  exact ⟨by decide, by decide, by decide, by decide⟩

/-! ## Removing

A removal takes away one copy or fails with a message. Several are removed one after another,
whether or not one fails. -/

/-- Removing a path that is inside is removing its folder, and is told as that went. -/
theorem removeIn_folder (os : FolderOps) {roots : List (List String)} (fs : FileStore String UInt8)
    {path : String} {folder : List String} (h : insideOf roots path = some folder) :
    (removeIn os roots fs path).1 = (os.removeDirAll fs folder).1
      ∧ ((removeIn os roots fs path).2 = none ↔ (os.removeDirAll fs folder).2 = none) := by
  unfold removeIn
  rw [h]
  exact ⟨rfl, Option.map_eq_none_iff⟩

/-- Removing a list is removing its first and then the others. -/
theorem removeEach_cons (os : FolderOps) (roots : List (List String)) (path : String)
    (paths : List String) (fs : FileStore String UInt8) :
    removeEach os roots (path :: paths) fs
      = ((removeEach os roots paths (removeIn os roots fs path).1).1,
        (removeIn os roots fs path).2
          :: (removeEach os roots paths (removeIn os roots fs path).1).2) := rfl

/-- What removing folders one after another has done, and what is told of it. -/
structure Removed (fs fs' : FileStore String UInt8) (folders : List (List String))
    (outcomes : List (Option String)) : Prop where
  changed : ∀ q, fs' q = fs q ∨ fs' q = none ∧ ∃ folder ∈ folders, folder <+: q
  told : List.Forall₂ (fun folder outcome => outcome = none ↔ fs' folder = none) folders outcomes
  whole : ∀ folder ∈ folders, fs' folder = none → ∀ q, folder <+: q → fs' q = none

/-- Of folders none of which is in another, whatever the system does. -/
theorem removeEach_removed (hos : os.Lawful) {roots : List (List String)} {n : Nat}
    {folders : List (List String)} {fs : FileStore String UInt8} (hnodup : folders.Nodup)
    (hin : ∀ folder ∈ folders, insideOf roots (absText folder) = some folder
      ∧ folder.length = n)
    (hthere : ∀ folder ∈ folders, fs folder ≠ none) :
    Removed fs (removeEach os roots (folders.map absText) fs).1 folders
      (removeEach os roots (folders.map absText) fs).2 := by
  induction folders generalizing fs with
  | nil => exact ⟨fun q => .inl rfl, .nil, fun _ h => nomatch h⟩
  | cons folder folders ih =>
    rw [List.nodup_cons] at hnodup
    obtain ⟨hfolder, hlen⟩ := hin folder List.mem_cons_self
    obtain ⟨hfs, hok⟩ := removeIn_folder os fs hfolder
    -- nothing is below two of the folders
    have hapart : ∀ other ∈ folders, ∀ q, folder <+: q → ¬other <+: q := by
      intro other hother q hq hq'
      have heq : folder = other := (List.prefix_of_prefix_length_le hq hq' (by
        rw [hlen, (hin other (List.mem_cons_of_mem _ hother)).2])).eq_of_length (by
        rw [hlen, (hin other (List.mem_cons_of_mem _ hother)).2])
      exact hnodup.1 (heq ▸ hother)
    have hthere' : ∀ other ∈ folders, (removeIn os roots fs (absText folder)).1 other ≠ none := by
      intro other hother
      rw [hfs]
      rcases hos.removed fs folder other with h | ⟨h, -⟩
      · rw [h]
        exact hthere other (List.mem_cons_of_mem _ hother)
      · exact absurd (List.prefix_refl other) (hapart other hother other h)
    have hrest := ih hnodup.2 (fun other hother => hin other (List.mem_cons_of_mem _ hother))
      hthere'
    have hkept : ∀ q, folder <+: q → (removeEach os roots (folders.map absText)
        (removeIn os roots fs (absText folder)).1).1 q = (os.removeDirAll fs folder).1 q := by
      intro q hq
      rcases hrest.changed q with h | ⟨-, other, hother, hq'⟩
      · rw [h, hfs]
      · exact absurd hq' (hapart other hother q hq)
    have hgone : (removeIn os roots fs (absText folder)).2 = none
        ↔ (os.removeDirAll fs folder).1 folder = none := by
      rw [hok]
      refine ⟨fun h => hos.gone h folder (List.prefix_refl _), fun h => ?_⟩
      by_contra hfailed
      rw [hos.left hfailed] at h
      exact hthere folder List.mem_cons_self h
    rw [List.map_cons, removeEach_cons]
    refine ⟨fun q => ?_, .cons ?_ hrest.told, fun other hother hnone q hq => ?_⟩
    · rcases hrest.changed q with h | ⟨h, other, hother, hq⟩
      · have hstep := hos.removed fs folder q
        rw [← hfs] at hstep
        rcases hstep with h' | ⟨hq, h'⟩
        · exact .inl (h.trans h')
        · exact .inr ⟨h.trans h', folder, List.mem_cons_self, hq⟩
      · exact .inr ⟨h, other, List.mem_cons_of_mem _ hother, hq⟩
    · rw [hgone, hkept folder (List.prefix_refl _)]
    · rcases List.mem_cons.mp hother with rfl | hother
      · have hnone' := (hkept other (List.prefix_refl _)).symm.trans hnone
        exact (hkept q hq).trans (hos.gone (hok.mp (hgone.mpr hnone')) q hq)
      · exact hrest.whole other hother hnone q hq

/-! ## Cleaning

What the calls report is what was done: the number removed, the copies left, and nothing else on
the disk touched. -/

/-- The number of removals told as done is the number of folders gone. -/
theorem told_count {fs : FileStore String UInt8} {folders : List (List String)}
    {outcomes : List (Option String)}
    (h : List.Forall₂ (fun folder outcome => outcome = none ↔ fs folder = none) folders outcomes) :
    outcomes.count none = (folders.filter fun folder => fs folder = none).length := by
  induction h with
  | nil => rfl
  | @cons folder outcome folders outcomes hhead htail ih =>
    by_cases hnone : fs folder = none
    · rw [hhead.mpr hnone, List.count_cons_self, ih, List.filter_cons_of_pos (by simpa using hnone),
        List.length_cons]
    · rw [List.count_cons_of_ne (fun h => hnone (hhead.mp h)), ih,
        List.filter_cons_of_neg (by simpa using hnone)]

/-- Nothing is told as failed if and only if all of them are gone. -/
theorem told_all {fs : FileStore String UInt8} {folders : List (List String)}
    {outcomes : List (Option String)}
    (h : List.Forall₂ (fun folder outcome => outcome = none ↔ fs folder = none) folders outcomes) :
    outcomes.filterMap id = [] ↔ ∀ folder ∈ folders, fs folder = none := by
  induction h with
  | nil => simp
  | @cons folder outcome folders outcomes hhead htail ih =>
    rw [List.forall_mem_cons, ← ih, ← hhead]
    cases outcome <;> simp

/-- Removing some of the copies in the order they are listed. -/
theorem removeEach_copies (hos : os.Lawful) (htemp : ∀ name ∈ temp, FileName name)
    (fs : FileStore String UInt8) (p : List String → Bool) :
    Removed fs
      (removeEach os (receivedRoots temp)
        (((inOrder os (receivedRoots temp) fs).filter p).map absText) fs).1
      ((inOrder os (receivedRoots temp) fs).filter p)
      (removeEach os (receivedRoots temp)
        (((inOrder os (receivedRoots temp) fs).filter p).map absText) fs).2 := by
  have hmem : ∀ folder ∈ (inOrder os (receivedRoots temp) fs).filter p,
      folder ∈ copies os (receivedRoots temp) fs := fun folder h =>
    (inOrder_perm _ _ _).mem_iff.mp (List.mem_filter.mp h).1
  refine removeEach_removed (n := temp.length + 2) hos ?_
    (fun folder h => insideOf_copy hos htemp (hmem folder h)) fun folder h => ?_
  · exact ((inOrder_perm _ _ _).nodup_iff.mpr (nodup_copies hos (nodup_receivedRoots temp) fs)).filter p
  · obtain ⟨-, -, -, -, -, hfolder⟩ := mem_copies hos (hmem folder h)
    rw [hfolder]
    exact Option.some_ne_none _

/-- The copies that cleaning is for. -/
def oldCopies (os : FolderOps) (roots : List (List String)) (days now : Nat)
    (fs : FileStore String UInt8) : List (List String) :=
  (copies os roots fs).filter fun folder =>
    days ≠ 0 ∧ (receivedAt os fs folder).time < now - days * 24 * 60 * 60

/-- What cleaning removes, and what it tells. -/
theorem cleanIn_removed (hos : os.Lawful) (htemp : ∀ name ∈ temp, FileName name) (days now : Nat)
    (fs : FileStore String UInt8) :
    ∃ folders outcomes, folders.Perm (oldCopies os (receivedRoots temp) days now fs)
      ∧ Removed fs (cleanIn os (receivedRoots temp) days now fs).1 folders outcomes
      ∧ (cleanIn os (receivedRoots temp) days now fs).2 = outcomes.count none := by
  by_cases hdays : days = 0
  · have hcleaned : cleanIn os (receivedRoots temp) days now fs = (fs, 0) := if_pos hdays
    have hold : oldCopies os (receivedRoots temp) days now fs = [] :=
      List.filter_eq_nil_iff.mpr fun folder _ => by simp [hdays]
    rw [hcleaned, hold]
    exact ⟨[], [], .refl _, ⟨fun q => .inl rfl, .nil, by simp⟩, rfl⟩
  let isOld := fun folder => decide ((receivedAt os fs folder).time < now - days * 24 * 60 * 60)
  have hold : oldCopies os (receivedRoots temp) days now fs
      = (copies os (receivedRoots temp) fs).filter isOld :=
    List.filter_congr fun folder _ => by simp [isOld, hdays]
  have hpaths : ((listIn os (receivedRoots temp) fs).filter
      (·.time < now - days * 24 * 60 * 60)).map (·.path)
      = ((inOrder os (receivedRoots temp) fs).filter isOld).map absText := by
    rw [listIn_eq, List.filter_map, List.map_map]
    rfl
  have hcleaned : cleanIn os (receivedRoots temp) days now fs = _ := if_neg hdays
  simp only [hpaths] at hcleaned
  rw [hcleaned, hold]
  exact ⟨_, _, (inOrder_perm _ _ _).filter _, removeEach_copies hos htemp fs isOld, rfl⟩

/-- Removing everything removes copies, each as the system lets it, and says yes if and only if none
failed. -/
theorem removeAll_removed (hos : os.Lawful) (htemp : ∀ name ∈ temp, FileName name)
    (fs : FileStore String UInt8) :
    ∃ folders outcomes, folders.Perm (copies os (receivedRoots temp) fs)
      ∧ Removed fs (removeAll os (receivedRoots temp) fs).1 folders outcomes
      ∧ ((removeAll os (receivedRoots temp) fs).2 = none ↔ outcomes.filterMap id = []) := by
  have hpaths : (listIn os (receivedRoots temp) fs).map (·.path)
      = ((inOrder os (receivedRoots temp) fs).filter fun _ => true).map absText := by
    rw [listIn_eq, List.map_map, List.filter_true]
    rfl
  have hperm : ((inOrder os (receivedRoots temp) fs).filter fun _ => true).Perm
      (copies os (receivedRoots temp) fs) := by
    rw [List.filter_true]
    exact inOrder_perm _ _ _
  have hremoved := removeEach_copies hos htemp fs fun _ => true
  rw [← hpaths] at hremoved
  refine ⟨_, _, hperm, hremoved, ?_⟩
  show (if _ then none else some _) = none ↔ _
  simp only [ite_eq_left_iff, reduceCtorEq, imp_false, not_not]

/-- **Cleaning takes old copies, whole, and says how many are gone**, whatever the system could not
remove: everything else is as it was. -/
theorem cleanIn_count (hos : os.Lawful) (htemp : ∀ name ∈ temp, FileName name) (days now : Nat)
    (fs : FileStore String UInt8) :
    let cleaned := cleanIn os (receivedRoots temp) days now fs
    let old := oldCopies os (receivedRoots temp) days now fs
    cleaned.2 = (old.filter fun folder => cleaned.1 folder = none).length
      ∧ (∀ folder ∈ old, cleaned.1 folder = none → ∀ q, folder <+: q → cleaned.1 q = none)
      ∧ ∀ q, cleaned.1 q = fs q ∨ cleaned.1 q = none ∧ ∃ folder ∈ old, folder <+: q := by
  intro cleaned old
  obtain ⟨folders, outcomes, hperm, hremoved, hcount⟩ := cleanIn_removed hos htemp days now fs
  refine ⟨?_, fun folder hfolder => hremoved.whole folder (hperm.mem_iff.mpr hfolder), fun q => ?_⟩
  · rw [← (hperm.filter _).length_eq]
    exact hcount.trans (told_count hremoved.told)
  · rcases hremoved.changed q with h | ⟨h, folder, hfolder, hq⟩
    · exact .inl h
    · exact .inr ⟨h, folder, hperm.mem_iff.mp hfolder, hq⟩

/-- A copy that is older than thirty days. -/
theorem cleanIn_count_old :
    (cleanIn plainFolders (receivedRoots ["tmp"]) 30 1800000000 oneCopy).2 = 1
      ∧ (cleanIn plainFolders (receivedRoots ["tmp"]) 30 1800000000 oneCopy).1
        ["tmp", "geserdesk-clipboard-files", "7", "a.txt"] = none := by
  obtain ⟨hcount, hwhole, -⟩ := cleanIn_count plainFolders_lawful tmp_name 30 1800000000 oneCopy
  have hold : ["tmp", "geserdesk-clipboard-files", "7"]
      ∈ oldCopies plainFolders (receivedRoots ["tmp"]) 30 1800000000 oneCopy := by decide +kernel
  exact ⟨hcount.trans (by decide +kernel), hwhole _ hold (by decide +kernel) _ (by decide)⟩

/-- **Removing all goes well if and only if nothing is left of the copies that were listed**, and
takes away nothing else. -/
theorem removeAll_ok_iff (hos : os.Lawful) (htemp : ∀ name ∈ temp, FileName name)
    (fs : FileStore String UInt8) :
    let removed := removeAll os (receivedRoots temp) fs
    (removed.2 = none ↔ ∀ folder ∈ copies os (receivedRoots temp) fs, ∀ q, folder <+: q →
        removed.1 q = none)
      ∧ ∀ q, removed.1 q = fs q
        ∨ removed.1 q = none ∧ ∃ folder ∈ copies os (receivedRoots temp) fs, folder <+: q := by
  intro removed
  obtain ⟨folders, outcomes, hperm, hremoved, hok⟩ := removeAll_removed hos htemp fs
  rw [hok, told_all hremoved.told]
  refine ⟨⟨fun h folder hfolder => ?_, fun h folder hfolder => ?_⟩, fun q => ?_⟩
  · have hin := hperm.mem_iff.mpr hfolder
    exact hremoved.whole folder hin (h folder hin)
  · exact h folder (hperm.mem_iff.mp hfolder) folder (List.prefix_refl _)
  · rcases hremoved.changed q with h | ⟨h, folder, hfolder, hq⟩
    · exact .inl h
    · exact .inr ⟨h, folder, hperm.mem_iff.mp hfolder, hq⟩

/-- A disk with one copy is left without it. -/
theorem removeAll_ok_iff_one :
    (removeAll plainFolders (receivedRoots ["tmp"]) oneCopy).1
      ["tmp", "geserdesk-clipboard-files", "7", "a.txt"] = none :=
  (removeAll_ok_iff plainFolders_lawful tmp_name oneCopy).1.mp (by decide +kernel)
    ["tmp", "geserdesk-clipboard-files", "7"] (by decide +kernel) _ (by decide)

end GeserDesk
