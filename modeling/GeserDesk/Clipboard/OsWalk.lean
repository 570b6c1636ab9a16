import GeserDesk.Clipboard.Collect

/-!
# The walk of a disk

`collect` and `walk` of `geserdesk-clipboard/src/files.rs` once more, with the paths and names of
the system the files are copied from: a name is not text, and what travels of it is only its lossy
conversion (`OsNames`). Where names are text this is the walk of `Clipboard.Collect`
(`collect_text`).

* **What is found.** `OsNames.found` is what a walk goes through, and `OsCollected.Adds` what it
  puts together of it, limits and all (`walk_adds`, `collect_adds`).
* **Names that are apart.** No two things found have one path if and only if no two roots travel
  under one name and no two names of a folder do (`nodup_labels_iff`).
-/

namespace GeserDesk

/-- The paths and names of a system, and the text of a name. -/
structure OsNames (P N : Type) where
  join : P → N → P
  fileName : P → Option N
  lossy : N → String
  no_slash : ∀ name, '/' ∉ (lossy name).toList

/-- What is at a path, a link not followed. A folder that cannot be read has no listing. -/
inductive OsKind (N : Type) where
  | symlink
  | dir (listing : Option (List N))
  | file (bytes : Bytes)
  | other

/-- The file system that is copied from. -/
abbrev OsTree (P N : Type) := P → Option (OsKind N)

/-- What a walk has put together so far: `abs[i]` is the path of entry `i`. -/
structure OsCollected (P : Type) where
  entries : List FileEntry := []
  abs : List P := []
  total : Nat := 0

variable {P N : Type}

/-- One more entry, unless there are too many. -/
def OsCollected.push (c : OsCollected P) (path : P) (entry : FileEntry) :
    Except CollectError (OsCollected P) :=
  if MAX_ENTRIES < c.entries.length + 1 then .error (.tooManyEntries MAX_ENTRIES)
  else .ok { c with entries := c.entries ++ [entry], abs := c.abs ++ [path] }

/-- What is copied of a path itself: links and devices are not. -/
def OsKind.node : OsKind N → Option Node
  | .dir _ => some .folder
  | .file bytes => some (.file bytes)
  | .symlink => none
  | .other => none

namespace OsNames

section Walking

variable [LE N] [DecidableLE N] (o : OsNames P N) (t : OsTree P N) (maxBytes : Nat)

/-- Walk one path. The first argument is how many more levels may be entered: `MAX_DEPTH + 1`
less the depth. -/
def walk : Nat → P → String → OsCollected P → Except CollectError (OsCollected P)
  | 0, _, _, _ => .error (.tooDeep MAX_DEPTH)
  | levels + 1, path, rel, c =>
    match t path with
    | none => .ok c
    | some .symlink => .ok c
    | some (.dir listing) => do
      let c ← c.push path ⟨rel, 0, true⟩
      ((listing.getD []).insertionSort (· ≤ ·)).foldlM
        (fun c name => walk levels (o.join path name) (rel ++ "/" ++ o.lossy name) c) c
    | some (.file bytes) =>
      if 2 ^ 64 ≤ c.total + bytes.length then .error (.tooLarge maxBytes)
      else if 0 < maxBytes ∧ maxBytes < c.total + bytes.length then .error (.tooLarge maxBytes)
      else { c with total := c.total + bytes.length }.push path ⟨rel, bytes.length, false⟩
    | some .other => .ok c

/-- The name a top-level path travels under. -/
def topName (root : P) : String := ((o.fileName root).map o.lossy).getD "item"

def collect (roots : List P) : Except CollectError (FileManifest × List P) := do
  let c ← roots.foldlM (fun c root => walk o t maxBytes (MAX_DEPTH + 1) root (o.topName root) c) {}
  return (⟨c.entries⟩, c.abs)

end Walking

end OsNames

/-! ## What is found

The walk over names that need not be text, and the list of what it finds. -/

/-- There is a file or a folder at a path. -/
def OsTree.Shows (t : OsTree P N) (path : P) : Prop := (t path).bind OsKind.node ≠ none

/-- One thing a walk comes across: what it is called in the manifest, where it is, what it is. -/
structure Found (P : Type) where
  parts : List String
  path : P
  node : Node

/-- The same with the path it has in the manifest. -/
def Found.item (i : Found P) : Item := ⟨i.parts, pathOf i.parts, i.node⟩

namespace OsNames

/-- Following names down folders that list them leads from one path to another. -/
def Leads (o : OsNames P N) (t : OsTree P N) : P → List N → P → Prop
  | path, [], p => p = path
  | path, name :: rest, p => ∃ names, t path = some (.dir (some names)) ∧ name ∈ names
      ∧ Leads o t (o.join path name) rest p

/-- Nothing is deeper than this many levels. -/
def Fits (o : OsNames P N) (t : OsTree P N) : Nat → P → Prop
  | 0, _ => False
  | levels + 1, path => ∀ names, t path = some (.dir (some names)) →
      ∀ name ∈ names, Fits o t levels (o.join path name)

section Finding

variable [LE N] [DecidableLE N] (o : OsNames P N) (t : OsTree P N)

/-- What a walk from a path comes across, in its order. -/
def found : Nat → P → List String → List (Found P)
  | 0, _, _ => []
  | levels + 1, path, parts =>
    match t path with
    | some (.dir listing) =>
      ⟨parts, path, .folder⟩ :: ((listing.getD []).insertionSort (· ≤ ·)).flatMap fun name =>
        found levels (o.join path name) (parts ++ [o.lossy name])
    | some (.file bytes) => [⟨parts, path, .file bytes⟩]
    | _ => []

/-- What there is to copy under all the roots. -/
def allFound (roots : List P) : List (Found P) :=
  roots.flatMap fun root => o.found t (MAX_DEPTH + 1) root [o.topName root]

end Finding

end OsNames

/-- What a walk adds: its entries and paths, within the limits if it started within them. -/
structure OsCollected.Adds (maxBytes : Nat) (c : OsCollected P) (found : List (Found P))
    (c' : OsCollected P) : Prop where
  entries : c'.entries = c.entries ++ found.map fun i => i.item.entry
  abs : c'.abs = c.abs ++ found.map Found.path
  total : c'.total = c.total + (found.map fun i => nodeSize i.node).sum
  count : c.entries.length ≤ MAX_ENTRIES → c'.entries.length ≤ MAX_ENTRIES
  bytes : (0 < maxBytes → c.total ≤ maxBytes) → 0 < maxBytes → c'.total ≤ maxBytes

namespace OsCollected.Adds

variable {maxBytes : Nat} {c c' c'' : OsCollected P} {xs ys : List (Found P)}

/-- Nothing more adds nothing. -/
theorem nil (c : OsCollected P) : c.Adds maxBytes [] c where
  entries := by simp
  abs := by simp
  total := by simp
  count := id
  bytes := id

/-- What two stretches add, one after the other, both add together. -/
theorem append (h : c.Adds maxBytes xs c') (h' : c'.Adds maxBytes ys c'') :
    c.Adds maxBytes (xs ++ ys) c'' where
  entries := by rw [h'.entries, h.entries, List.map_append, List.append_assoc]
  abs := by rw [h'.abs, h.abs, List.map_append, List.append_assoc]
  total := by rw [h'.total, h.total, List.map_append, List.sum_append, Nat.add_assoc]
  count := h'.count ∘ h.count
  bytes := h'.bytes ∘ h.bytes

end OsCollected.Adds

/-- An entry is pushed whole, and only below the limit. -/
theorem OsCollected.push_eq_ok {c c' : OsCollected P} {path : P} {entry : FileEntry}
    (h : c.push path entry = .ok c') :
    c.entries.length < MAX_ENTRIES
      ∧ c' = { c with entries := c.entries ++ [entry], abs := c.abs ++ [path] } := by
  unfold push at h
  split_ifs at h with hfull
  exact ⟨Nat.lt_of_not_le fun hle => hfull (by omega), (Except.ok.inj h).symm⟩

namespace OsNames

section Adding

variable [LE N] [DecidableLE N] {o : OsNames P N} {t : OsTree P N} {maxBytes : Nat}

/-- A walk that goes through puts together what it finds, in order. -/
theorem walk_adds {levels : Nat} {path : P} {parts : List String} {c c' : OsCollected P}
    (hne : parts ≠ []) (h : o.walk t maxBytes levels path (pathOf parts) c = .ok c') :
    c.Adds maxBytes (o.found t levels path parts) c' := by
  -- on the levels left, so a tree that is too deep has no case
  induction levels generalizing path parts c c' with
  | zero => cases h
  | succ levels ih =>
    unfold walk at h
    unfold found
    cases hk : t path with
    | none =>
      rw [hk] at h
      obtain rfl : c = c' := Except.ok.inj h
      exact .nil c
    | some kind =>
      rw [hk] at h
      cases kind with
      | symlink | other =>
        obtain rfl : c = c' := Except.ok.inj h
        exact .nil c
      -- a file is counted and must fit the rest of the limit
      | file bytes =>
        dsimp only at h ⊢
        split_ifs at h with hword hbytes
        obtain ⟨hlen, rfl⟩ := OsCollected.push_eq_ok h
        have hlen : c.entries.length < MAX_ENTRIES := hlen
        constructor
        · rfl
        · rfl
        · simp [nodeSize]
        · intro _
          rw [List.length_append]
          exact hlen
        · intro _ hpos
          show c.total + bytes.length ≤ maxBytes
          by_contra hmore
          exact hbytes ⟨hpos, by omega⟩
      -- a folder is listed itself first, then each of its names
      | dir listing =>
        dsimp only at h ⊢
        cases hp : c.push path ⟨pathOf parts, 0, true⟩ with
        | error e => rw [hp] at h; cases h
        | ok c₁ =>
          rw [hp] at h
          have hself : c.Adds maxBytes [⟨parts, path, .folder⟩] c₁ := by
            obtain ⟨hlen, rfl⟩ := OsCollected.push_eq_ok hp
            constructor
            · rfl
            · rfl
            · simp [nodeSize]
            · intro _
              rw [List.length_append]
              exact hlen
            · exact id
          refine hself.append ?_
          refine foldlM_flatMap OsCollected.Adds.nil (fun h h' => h.append h') h ?_
          intro name _ c c' hwalk
          -- the path of a child is its folder's with the name at its end
          rw [← pathOf_concat hne] at hwalk
          exact ih (by simp) hwalk

/-- A walk that goes through has been everywhere. -/
theorem walk_fits {levels : Nat} {path : P} {rel : String} {c c' : OsCollected P}
    (h : o.walk t maxBytes levels path rel c = .ok c') : o.Fits t levels path := by
  induction levels generalizing path rel c c' with
  | zero => cases h
  | succ levels ih =>
    intro names hk name hname
    unfold walk at h
    rw [hk] at h
    dsimp only at h
    cases hp : c.push path ⟨rel, 0, true⟩ with
    | error e => rw [hp] at h; cases h
    | ok c₁ =>
      rw [hp] at h
      obtain ⟨a, b, hwalk⟩ := exists_ok_of_foldlM h ((List.mem_insertionSort _).mpr hname)
      exact ih hwalk

end Adding

/-! ## Where names lead

Names along a path, and what stands there. Everything found was led to by such names. -/

section Leading

variable {o : OsNames P N} {t : OsTree P N}

/-- What a folder leads to is itself and what its entries lead to. -/
theorem forall_leads_dir {path : P} {names : List N} (hk : t path = some (.dir (some names)))
    {Q : P → Prop} : (∀ rest p, o.Leads t path rest p → Q p) ↔
      Q path ∧ ∀ name ∈ names, ∀ rest p, o.Leads t (o.join path name) rest p → Q p := by
  constructor
  · intro h
    refine ⟨h [] path rfl, fun name hname rest p hleads => ?_⟩
    exact h (name :: rest) p ⟨names, hk, hname, hleads⟩
  · rintro ⟨hself, hchild⟩ rest p hleads
    cases rest with
    | nil =>
      obtain rfl : p = path := hleads
      exact hself
    | cons name rest =>
      obtain ⟨names', hk', hname, hleads⟩ := hleads
      obtain rfl : names = names' := by simpa [hk] using hk'
      exact hchild name hname rest p hleads

/-- What is no folder that can be read leads to itself only. -/
theorem forall_leads_leaf {path : P} (hk : ∀ names, t path ≠ some (.dir (some names)))
    {Q : P → Prop} : (∀ rest p, o.Leads t path rest p → Q p) ↔ Q path := by
  constructor
  · exact fun h => h [] path rfl
  · intro hself rest p hleads
    cases rest with
    | nil =>
      obtain rfl : p = path := hleads
      exact hself
    | cons name rest =>
      obtain ⟨names, hk', -⟩ := hleads
      exact absurd hk' (hk names)

variable [LE N] [DecidableLE N]

/-- Names lead to everything that is found. -/
theorem leads_of_mem_found {levels : Nat} {path : P} {parts : List String} {i : Found P}
    (h : i ∈ o.found t levels path parts) : (t i.path).bind OsKind.node = some i.node
      ∧ ∃ rest, o.Leads t path rest i.path ∧ i.parts = parts ++ rest.map o.lossy := by
  induction levels generalizing path parts with
  | zero => cases h
  | succ levels ih =>
    unfold found at h
    cases hk : t path with
    | none => rw [hk] at h; cases h
    | some kind =>
      rw [hk] at h
      cases kind with
      | symlink | other => cases h
      | file bytes =>
        obtain rfl := List.mem_singleton.mp h
        exact ⟨by simp [hk, OsKind.node], [], rfl, by simp⟩
      | dir listing =>
        rcases List.mem_cons.mp h with rfl | h
        · exact ⟨by simp [hk, OsKind.node], [], rfl, by simp⟩
        · obtain ⟨name, hname, hi⟩ := List.mem_flatMap.mp h
          rw [List.mem_insertionSort] at hname
          obtain ⟨hnode, rest, hleads, hparts⟩ := ih hi
          cases listing with
          | none => cases hname
          | some names =>
            refine ⟨hnode, name :: rest, ⟨names, hk, hname, hleads⟩, ?_⟩
            rw [hparts, List.map_cons, List.append_assoc]
            rfl

/-- Everything found below a folder is listed below that folder's own name. -/
theorem base_prefix_of_mem_found {levels : Nat} {path : P} {parts : List String} {i : Found P}
    (h : i ∈ o.found t levels path parts) : parts <+: i.parts := by
  obtain ⟨-, rest, -, hparts⟩ := leads_of_mem_found h
  exact ⟨rest.map o.lossy, hparts.symm⟩

/-- A path where there is something is found first. -/
theorem found_head {levels : Nat} {path : P} {parts : List String} :
    (t.Shows path → ∃ i ∈ o.found t (levels + 1) path parts, i.parts = parts)
      ∧ (o.found t (levels + 1) path parts ≠ [] → t.Shows path) := by
  unfold OsTree.Shows found
  cases hk : t path with
  | none => simp
  | some kind => cases kind <;> simp [OsKind.node]

/-! ## Names that are apart

Two names may become the same once they are made into text. The labels of a copy are all different
exactly when names in one folder that show anything stay apart. -/

/-- A folder's files and folders travel under names that `f` keeps apart. -/
def Separate (o : OsNames P N) (t : OsTree P N) (f : String → String) (path : P) : Prop :=
  ∀ names, t path = some (.dir (some names)) → names.Pairwise fun name name' =>
    t.Shows (o.join path name) → t.Shows (o.join path name') → f (o.lossy name) ≠ f (o.lossy name')

end Leading

/-- What travels is under names that `f` keeps apart, at the top and in every folder. -/
def Apart (o : OsNames P N) (t : OsTree P N) (f : String → String) (roots : List P) : Prop :=
  (roots.Pairwise fun r r' => t.Shows r → t.Shows r' → f (o.topName r) ≠ f (o.topName r'))
    ∧ ∀ root ∈ roots, ∀ rest path, o.Leads t root rest path → o.Separate t f path

/-- The paths of what is found, part by part under `f`. -/
def labels (f : String → String) (found : List (Found P)) : List (List String) :=
  found.map fun i => i.parts.map f

/-- Found one after another, things are under different paths if they are in each place and the
places are under different names. -/
theorem nodup_labels_flatMap {α : Type} {f : String → String} (xs : List α)
    {g : α → List (Found P)} (base : List String) (name : α → String)
    (hbase : ∀ x, ∀ i ∈ g x, base ++ [name x] <+: i.parts)
    (hhead : ∀ x, g x ≠ [] → ∃ i ∈ g x, i.parts = base ++ [name x]) :
    (labels f (xs.flatMap g)).Nodup ↔ (∀ x ∈ xs, (labels f (g x)).Nodup)
      ∧ xs.Pairwise fun x y => g x ≠ [] → g y ≠ [] → f (name x) ≠ f (name y) := by
  unfold labels
  rw [List.map_flatMap, List.nodup_flatMap]
  refine and_congr Iff.rfl (List.Pairwise.iff fun x y => ?_)
  constructor
  · intro hdisjoint hx hy hsame
    obtain ⟨i, hi, hiparts⟩ := hhead x hx
    obtain ⟨j, hj, hjparts⟩ := hhead y hy
    refine hdisjoint (List.mem_map.mpr ⟨i, hi, rfl⟩) (List.mem_map.mpr ⟨j, hj, ?_⟩)
    simp [hiparts, hjparts, hsame]
  · intro hdiffer label hx hy
    obtain ⟨i, hi, rfl⟩ := List.mem_map.mp hx
    obtain ⟨j, hj, hlabel⟩ := List.mem_map.mp hy
    -- both places begin the one path, and they are of one length
    have hi' : (base ++ [name x]).map f <+: i.parts.map f := (hbase x i hi).map f
    have hj' : (base ++ [name y]).map f <+: i.parts.map f := hlabel ▸ (hbase y j hj).map f
    have hsame := (List.prefix_of_prefix_length_le hi' hj' (by simp)).eq_of_length (by simp)
    refine hdiffer (List.ne_nil_of_mem hi) (List.ne_nil_of_mem hj) ?_
    simpa using hsame

section Nodup

variable {o : OsNames P N} {t : OsTree P N} {f : String → String} [LE N] [DecidableLE N]

/-- Where anything is found at all, the folder or file itself is. -/
theorem found_head_of_ne_nil {levels : Nat} {path : P} {parts : List String}
    (h : o.found t levels path parts ≠ []) :
    ∃ i ∈ o.found t levels path parts, i.parts = parts := by
  cases levels with
  | zero => exact absurd rfl h
  | succ levels => exact found_head.1 (found_head.2 h)

/-- Something is found if and only if the folder or file is one that is shown. -/
theorem shows_of_found_ne_nil {levels : Nat} {path : P} {parts : List String}
    (hfits : o.Fits t levels path) : o.found t levels path parts ≠ [] ↔ t.Shows path := by
  cases levels with
  | zero => exact hfits.elim
  | succ levels =>
    refine ⟨found_head.2, fun hshows => ?_⟩
    obtain ⟨i, hi, -⟩ : ∃ i ∈ o.found t (levels + 1) path parts, i.parts = parts :=
      found_head.1 hshows
    exact List.ne_nil_of_mem hi

/-- What is found under one path is under different paths exactly if every folder keeps its names
apart. -/
theorem nodup_labels_found_iff {levels : Nat} {path : P} {parts : List String}
    (hfits : o.Fits t levels path) : (labels f (o.found t levels path parts)).Nodup ↔
      ∀ rest p, o.Leads t path rest p → o.Separate t f p := by
  -- on the levels left to walk
  induction levels generalizing path parts with
  | zero => exact hfits.elim
  | succ levels ih =>
    by_cases hdir : ∃ names, t path = some (.dir (some names))
    · obtain ⟨names, hk⟩ := hdir
      have hchildren : ∀ name ∈ names, o.Fits t levels (o.join path name) := hfits names hk
      rw [forall_leads_dir hk]
      have hfound : o.found t (levels + 1) path parts = ⟨parts, path, .folder⟩ ::
          (names.insertionSort (· ≤ ·)).flatMap fun name =>
            o.found t levels (o.join path name) (parts ++ [o.lossy name]) := by
        rw [found, hk]
        rfl
      -- nothing below the folder has the folder's own label: it is longer
      have hself : parts.map f ∉ labels f ((names.insertionSort (· ≤ ·)).flatMap fun name =>
          o.found t levels (o.join path name) (parts ++ [o.lossy name])) := by
        intro hmem
        obtain ⟨i, hi, hlabel⟩ := List.mem_map.mp hmem
        obtain ⟨name, -, hi⟩ := List.mem_flatMap.mp hi
        have hlen := (base_prefix_of_mem_found hi).length_le
        have heq := congrArg List.length hlabel
        simp only [List.length_map, List.length_append, List.length_singleton] at hlen heq
        omega
      -- inside each entry, by induction
      have hchild : (∀ name ∈ names.insertionSort (· ≤ ·), (labels f
          (o.found t levels (o.join path name) (parts ++ [o.lossy name]))).Nodup)
          ↔ ∀ name ∈ names, ∀ rest p, o.Leads t (o.join path name) rest p → o.Separate t f p := by
        refine forall_congr' fun name => ?_
        rw [List.mem_insertionSort]
        exact forall_congr' fun hname => ih (hchildren name hname)
      -- two entries have labels in common just if their names are one and both are shown
      have hpairs : (names.insertionSort (· ≤ ·)).Pairwise (fun name name' =>
          o.found t levels (o.join path name) (parts ++ [o.lossy name]) ≠ [] →
          o.found t levels (o.join path name') (parts ++ [o.lossy name']) ≠ [] →
          f (o.lossy name) ≠ f (o.lossy name')) ↔ o.Separate t f path := by
        rw [(List.perm_insertionSort (· ≤ ·) names).pairwise_iff
          fun h hy hx hsame => h hx hy hsame.symm]
        have hiff : ∀ name ∈ names,
            o.found t levels (o.join path name) (parts ++ [o.lossy name]) ≠ []
              ↔ t.Shows (o.join path name) := fun name hname =>
          shows_of_found_ne_nil (hchildren name hname)
        constructor
        · intro h names' hk'
          obtain rfl : names = names' := by simpa [hk] using hk'
          refine h.imp_of_mem fun {x y} hx hy hdiffer hshows hshows' => ?_
          exact hdiffer ((hiff x hx).mpr hshows) ((hiff y hy).mpr hshows')
        · intro h
          refine (h names hk).imp_of_mem fun {x y} hx hy hdiffer hfound hfound' => ?_
          exact hdiffer ((hiff x hx).mp hfound) ((hiff y hy).mp hfound')
      rw [hfound]
      show (parts.map f :: labels f _).Nodup ↔ _
      rw [List.nodup_cons, nodup_labels_flatMap _ parts o.lossy
        (fun name i hi => base_prefix_of_mem_found hi) (fun name h => found_head_of_ne_nil h),
        hchild, hpairs]
      exact ⟨fun h => ⟨h.2.2, h.2.1⟩, fun h => ⟨hself, h.2, h.1⟩⟩
    -- anything else is one item, or none
    · rw [not_exists] at hdir
      rw [forall_leads_leaf hdir]
      have hseparate : o.Separate t f path := fun names hk => absurd hk (hdir names)
      refine iff_of_true ?_ hseparate
      unfold found
      cases hk : t path with
      | none => exact List.nodup_nil
      | some kind =>
        cases kind with
        | symlink | other => exact List.nodup_nil
        | file bytes => exact List.nodup_singleton _
        | dir listing =>
          cases listing with
          | none => exact List.nodup_singleton _
          | some names => exact absurd hk (hdir names)

end Nodup

/-- The name a root is listed under is a single component. -/
theorem topName_no_slash (o : OsNames P N) (root : P) : '/' ∉ (o.topName root).toList := by
  unfold topName
  cases o.fileName root with
  | none =>
    show '/' ∉ "item".toList
    decide
  | some name => exact o.no_slash name

section Collecting

variable [LE N] [DecidableLE N] {o : OsNames P N} {t : OsTree P N} {roots : List P}
  {maxBytes : Nat} {m : FileManifest} {abs : List P}

/-- **The condition on names is exact**: the labels are apart if and only if the names on the disk
are. -/
theorem nodup_labels_iff {f : String → String}
    (hfits : ∀ root ∈ roots, o.Fits t (MAX_DEPTH + 1) root) :
    (labels f (o.allFound t roots)).Nodup ↔ o.Apart t f roots := by
  unfold allFound Apart
  show (labels f (roots.flatMap fun root =>
    o.found t (MAX_DEPTH + 1) root ([] ++ [o.topName root]))).Nodup ↔ _
  rw [nodup_labels_flatMap roots [] o.topName (fun root i hi => base_prefix_of_mem_found hi)
    (fun root h => found_head_of_ne_nil h), and_comm]
  refine and_congr ?_ (forall₂_congr fun root hroot => nodup_labels_found_iff (hfits root hroot))
  have hiff : ∀ root ∈ roots, o.found t (MAX_DEPTH + 1) root [o.topName root] ≠ []
      ↔ t.Shows root := fun root hroot => shows_of_found_ne_nil (hfits root hroot)
  constructor
  · intro h
    refine h.imp_of_mem fun {x y} hx hy hdiffer hshows hshows' => ?_
    exact hdiffer ((hiff x hx).mpr hshows) ((hiff y hy).mpr hshows')
  · intro h
    refine h.imp_of_mem fun {x y} hx hy hdiffer hfound hfound' => ?_
    exact hdiffer ((hiff x hx).mp hfound) ((hiff y hy).mp hfound')

/-- What `collect` lists is what is found below the roots, each of which fits the depth it walks. -/
theorem collect_adds (h : o.collect t maxBytes roots = .ok (m, abs)) :
    ∃ c : OsCollected P, m = ⟨c.entries⟩ ∧ abs = c.abs
      ∧ OsCollected.Adds maxBytes {} (o.allFound t roots) c
      ∧ ∀ root ∈ roots, o.Fits t (MAX_DEPTH + 1) root := by
  unfold collect at h
  cases hc : roots.foldlM
      (fun c root => o.walk t maxBytes (MAX_DEPTH + 1) root (o.topName root) c) {} with
  | error e => rw [hc] at h; cases h
  | ok c =>
    rw [hc] at h
    obtain ⟨rfl, rfl⟩ := Prod.mk.inj (Except.ok.inj h)
    refine ⟨c, rfl, rfl, ?_, fun root hroot => ?_⟩
    · refine foldlM_flatMap OsCollected.Adds.nil (fun h h' => h.append h') hc ?_
      intro root _ c c' hwalk
      rw [← pathOf_singleton (o.topName root)] at hwalk
      exact walk_adds (List.cons_ne_nil _ _) hwalk
    · obtain ⟨a, b, hwalk⟩ := exists_ok_of_foldlM hc hroot
      exact walk_fits hwalk

/-- What is above something that is found comes before it. -/
theorem grounded_found (levels : Nat) (path : P) (parts : List String) (seen : List Item) :
    Grounded parts.length seen ((o.found t levels path parts).map Found.item) := by
  induction levels generalizing path parts seen with
  | zero => trivial
  | succ levels ih =>
    unfold found
    cases hk : t path with
    | none => trivial
    | some kind =>
      cases kind with
      | symlink | other => trivial
      | file bytes =>
        exact ⟨Item.groundedIn_self (Found.item ⟨parts, path, .file bytes⟩) seen, trivial⟩
      | dir listing =>
        refine ⟨Item.groundedIn_self (Found.item ⟨parts, path, .folder⟩) seen, Grounded.up ?_ ?_ ?_⟩
        · rw [List.map_flatMap]
          refine Grounded.flatMap fun name _ => ?_
          have hchild := ih (o.join path name) (parts ++ [o.lossy name])
            (seen ++ [Found.item ⟨parts, path, .folder⟩])
          rwa [List.length_append] at hchild
        · intro i hi
          obtain ⟨j, hj, rfl⟩ := List.mem_map.mp hi
          obtain ⟨name, -, hj⟩ := List.mem_flatMap.mp hj
          exact (List.prefix_append parts [o.lossy name]).trans (base_prefix_of_mem_found hj)
        · exact ⟨_, List.mem_append_right _ List.mem_cons_self, rfl, rfl⟩

/-- Everything found stands below its own root. -/
theorem grounded_allFound : Grounded 1 [] ((o.allFound t roots).map Found.item) := by
  rw [allFound, List.map_flatMap]
  exact Grounded.flatMap fun root _ => grounded_found (MAX_DEPTH + 1) root [o.topName root] []

/-- What is found is on the disk, as what it is listed, at the end of a path that leads there from a
root. -/
theorem leads_of_mem_allFound {i : Found P} (h : i ∈ o.allFound t roots) :
    (t i.path).bind OsKind.node = some i.node ∧ ∃ root ∈ roots, ∃ rest, o.Leads t root rest i.path
      ∧ i.parts = o.topName root :: rest.map o.lossy := by
  obtain ⟨root, hroot, hi⟩ := List.mem_flatMap.mp h
  obtain ⟨hnode, rest, hleads, hparts⟩ := leads_of_mem_found hi
  exact ⟨hnode, root, hroot, rest, hleads, hparts⟩

/-- The parts it is listed under are components. -/
theorem parts_of_mem_allFound {i : Found P} (h : i ∈ o.allFound t roots) :
    i.parts ≠ [] ∧ ∀ part ∈ i.parts, '/' ∉ part.toList := by
  obtain ⟨-, root, -, rest, -, hparts⟩ := leads_of_mem_allFound h
  rw [hparts]
  refine ⟨List.cons_ne_nil _ _, fun part hpart => ?_⟩
  rcases List.mem_cons.mp hpart with rfl | hpart
  · exact topName_no_slash o root
  · obtain ⟨name, -, rfl⟩ := List.mem_map.mp hpart
    exact o.no_slash name

end Collecting

end OsNames

/-! ## Names that are text

Where every name is text, this walk is the one over texts. -/

/-- Names that are text. -/
abbrev TextName := {name : String // '/' ∉ name.toList}

/-- The separator is in no name given as text. -/
theorem TextName.no_slash (name : TextName) : '/' ∉ name.val.toList := name.property

instance : DecidableLE TextName := fun a b => inferInstanceAs (Decidable (a.val ≤ b.val))

/-- The separator is not in a path's last component. -/
theorem fileName_no_slash {path name : String} (h : fileName path = some name) :
    '/' ∉ name.toList := by
  have hlast : ((pathParts path).filter fun part => part ≠ "" ∧ part ≠ ".").getLast?
      = some name := by
    unfold fileName at h
    split at h
    · cases h
    · exact h
  exact slash_notMem_pathParts path name (List.mem_filter.mp (List.mem_of_getLast? hlast)).1

/-- Paths that are text, with names put after a separator. -/
def textPaths : OsNames String TextName where
  join path name := joinPath path name.val
  fileName path := (fileName path).attach.map fun name =>
    ⟨name.val, fileName_no_slash name.property⟩
  lossy name := name.val
  no_slash := TextName.no_slash

def OsKind.text : OsKind TextName → FileKind
  | .symlink => .symlink
  | .dir listing => .dir (listing.map (List.map Subtype.val))
  | .file bytes => .file bytes
  | .other => .other

def OsTree.text (t : OsTree String TextName) : FileTree := fun path => (t path).map OsKind.text

def OsCollected.text (c : OsCollected String) : Collected := ⟨c.entries, c.abs, c.total⟩

/-- The text of what was collected weighs the same. -/
theorem OsCollected.text_total (c : OsCollected String) : c.text.total = c.total := rfl

/-- The text of a push is a push of the text. -/
theorem OsCollected.push_text (c : OsCollected String) (path : String) (entry : FileEntry) :
    c.text.push path entry = (c.push path entry).map OsCollected.text := by
  unfold OsCollected.push Collected.push OsCollected.text
  dsimp only
  split_ifs
  · rfl
  · rfl

/-- Where paths and names are text the two walks are one. -/
theorem walk_text (t : OsTree String TextName) (maxBytes levels : Nat) (path rel : String)
    (c : OsCollected String) : Files.walk t.text maxBytes levels path rel c.text
      = (textPaths.walk t maxBytes levels path rel c).map OsCollected.text := by
  induction levels generalizing path rel c with
  | zero => rfl
  | succ levels ih =>
    unfold Files.walk OsNames.walk OsTree.text
    cases t path with
    | none => rfl
    | some kind =>
      cases kind with
      | symlink | other => rfl
      | file bytes =>
        dsimp only [Option.map_some, OsKind.text]
        rw [OsCollected.text_total]
        split_ifs
        · rfl
        · rfl
        · exact OsCollected.push_text { c with total := c.total + bytes.length } path _
      | dir listing =>
        dsimp only [Option.map_some, OsKind.text]
        rw [OsCollected.push_text]
        cases c.push path ⟨rel, 0, true⟩ with
        | error e => rfl
        | ok c₁ =>
          have hsorted : sortedNames (listing.map (List.map Subtype.val))
              = ((listing.getD []).insertionSort (· ≤ ·)).map Subtype.val := by
            cases listing with
            | none => rfl
            | some names =>
              exact (List.map_insertionSort (· ≤ ·) (· ≤ ·) Subtype.val names
                fun _ _ _ _ => Iff.rfl).symm
          rw [hsorted]
          exact foldlM_map_map (fun c name => ih _ _ c) _ c₁

/-- A root's name is the last component of its text. -/
theorem topName_text (root : String) : textPaths.topName root = topName root := by
  simp [OsNames.topName, topName, textPaths, Function.comp_def]

/-- **Where paths are text the walk is `Files.collect`**, so the results here are about it as well.
-/
theorem collect_text (t : OsTree String TextName) (roots : List String) (maxBytes : Nat) :
    Files.collect t.text roots maxBytes = textPaths.collect t maxBytes roots := by
  unfold Files.collect OsNames.collect
  have hfold := foldlM_map_map (φ := OsCollected.text) (ψ := id)
    (f := fun c root => textPaths.walk t maxBytes (MAX_DEPTH + 1) root (textPaths.topName root) c)
    (g := fun c root => Files.walk t.text maxBytes (MAX_DEPTH + 1) root (topName root) c)
    (fun c root => by rw [topName_text]; exact walk_text t maxBytes _ root _ c) roots {}
  rw [List.map_id] at hfold
  show (roots.foldlM _ (OsCollected.text {}) >>= _) = _
  rw [hfold]
  cases roots.foldlM (fun c root => textPaths.walk t maxBytes (MAX_DEPTH + 1) root
    (textPaths.topName root) c) {} with
  | error e => rfl
  | ok c => rfl

end GeserDesk
