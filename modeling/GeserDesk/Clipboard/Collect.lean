import GeserDesk.Clipboard.FileOwner
import GeserDesk.Lib.FileStore
import GeserDesk.Lib.FoldM
import GeserDesk.Lib.Paths
import Mathlib.Data.List.Sort

/-!
# From copied paths to a manifest

`collect` and `walk` of `geserdesk-clipboard/src/files.rs`: the top-level paths the clipboard
named are walked depth-first into a manifest, each folder's own entry before its contents.

* **What there is to copy.** `FileTree.shown` says what a path under a root leads to, without a
  word about walking: through folders that list the next name, never through a link.
* **What is collected.** `FileTree.items` is the list the walk goes through (`walk_eq_ok`); every
  item is something shown and, since a walk that goes too deep fails, everything shown is an item
  (`shown_of_mem_items`, `exists_item_of_shown`).
* **Order.** What is above an item comes before it (`grounded_allItems`).
-/

namespace GeserDesk

def MAX_ENTRIES : Nat := 10000

def MAX_DEPTH : Nat := 32

inductive CollectError where
  | tooManyEntries (max : Nat)
  | tooDeep (max : Nat)
  | tooLarge (max : Nat)
deriving DecidableEq, Repr

/-- What is at a path, a link not followed. A folder that cannot be read has no listing. -/
inductive FileKind where
  | symlink
  | dir (listing : Option (List String))
  | file (bytes : Bytes)
  | other
deriving DecidableEq, Repr

/-- The file system that is copied from. -/
abbrev FileTree := String → Option FileKind

/-- `Path::join` with a plain name. -/
def joinPath (path name : String) : String :=
  if path.isEmpty ∨ path.toList.getLast? = some '/' then path ++ name else path ++ "/" ++ name

/-- `Path::file_name`: the last component, if it is a name. -/
def fileName (path : String) : Option String :=
  match ((pathParts path).filter fun part => part ≠ "" ∧ part ≠ ".").getLast? with
  | some ".." => none
  | last => last

/-- What a walk has put together so far: `abs[i]` is the path of entry `i`. -/
structure Collected where
  entries : List FileEntry := []
  abs : List String := []
  total : Nat := 0
deriving DecidableEq, Repr

/-- One more entry, unless there are too many. -/
def Collected.push (c : Collected) (path : String) (entry : FileEntry) :
    Except CollectError Collected :=
  if MAX_ENTRIES < c.entries.length + 1 then .error (.tooManyEntries MAX_ENTRIES)
  else .ok { c with entries := c.entries ++ [entry], abs := c.abs ++ [path] }

/-- A folder's names in order. -/
def sortedNames (listing : Option (List String)) : List String :=
  (listing.getD []).insertionSort (· ≤ ·)

/-- Walk one path. The first argument is how many more levels may be entered: `MAX_DEPTH + 1`
less the depth. -/
def Files.walk (t : FileTree) (maxBytes : Nat) :
    Nat → String → String → Collected → Except CollectError Collected
  | 0, _, _, _ => .error (.tooDeep MAX_DEPTH)
  | levels + 1, path, rel, c =>
    match t path with
    | none => .ok c
    | some .symlink => .ok c
    | some (.dir listing) => do
      let c ← c.push path ⟨rel, 0, true⟩
      (sortedNames listing).foldlM
        (fun c name => Files.walk t maxBytes levels (joinPath path name) (rel ++ "/" ++ name) c) c
    | some (.file bytes) =>
      if 2 ^ 64 ≤ c.total + bytes.length then .error (.tooLarge maxBytes)
      else if 0 < maxBytes ∧ maxBytes < c.total + bytes.length then .error (.tooLarge maxBytes)
      else { c with total := c.total + bytes.length }.push path ⟨rel, bytes.length, false⟩
    | some .other => .ok c

/-- The name a top-level path travels under. -/
def topName (root : String) : String := (fileName root).getD "item"

def Files.collect (t : FileTree) (roots : List String) (maxBytes : Nat) :
    Except CollectError (FileManifest × List String) := do
  let c ← roots.foldlM (fun c root => Files.walk t maxBytes (MAX_DEPTH + 1) root (topName root) c) {}
  return (⟨c.entries⟩, c.abs)

/-! ## What there is to copy

The items of a tree, without limits: every file and folder that can be reached, with the names
that lead to it. The walk is compared with this. -/

abbrev Node := StoreNode UInt8

/-- What is copied of a path itself: links and devices are not. -/
def FileKind.node : FileKind → Option Node
  | .dir _ => some .folder
  | .file bytes => some (.file bytes)
  | .symlink => none
  | .other => none

/-- What is found under a path by following names down its folders. -/
def FileTree.shown (t : FileTree) : String → List String → Option Node
  | path, [] => (t path).bind FileKind.node
  | path, name :: rest =>
    match t path with
    | some (.dir (some names)) =>
      if name ∈ names then FileTree.shown t (joinPath path name) rest else none
    | _ => none

/-- One thing to copy: what it is called under the top level, where it is, and what it is. -/
structure Item where
  parts : List String
  path : String
  node : Node
deriving DecidableEq, Repr

/-- The length of a file; a folder has none. -/
def nodeSize : Node → Nat
  | .folder => 0
  | .file bytes => bytes.length

def Item.entry (i : Item) : FileEntry := ⟨pathOf i.parts, nodeSize i.node, i.node = .folder⟩

/-- What a walk from a path goes through, in its order. -/
def FileTree.items (t : FileTree) : Nat → String → List String → List Item
  | 0, _, _ => []
  | levels + 1, path, parts =>
    match t path with
    | some (.dir listing) => ⟨parts, path, .folder⟩ :: (sortedNames listing).flatMap fun name =>
        FileTree.items t levels (joinPath path name) (parts ++ [name])
    | some (.file bytes) => [⟨parts, path, .file bytes⟩]
    | _ => []

/-- What there is to copy under all the roots. -/
def FileTree.allItems (t : FileTree) (roots : List String) : List Item :=
  roots.flatMap fun root => t.items (MAX_DEPTH + 1) root [topName root]

/-- Sorting neither adds a name nor loses one. -/
theorem mem_sortedNames {name : String} {listing : Option (List String)} :
    name ∈ sortedNames listing ↔ name ∈ listing.getD [] :=
  List.mem_insertionSort _

/-! ## The walk goes through the items

A walk that ends well has listed exactly the items, in their order. It may stop early at a limit,
and then lists nothing. -/

/-- What has been put together is followed by these items. -/
def Collected.Followed (c c' : Collected) (items : List Item) : Prop :=
  c'.entries = c.entries ++ items.map Item.entry ∧ c'.abs = c.abs ++ items.map Item.path

/-- No items follow what was collected if nothing more was. -/
theorem Collected.Followed.nil (c : Collected) : c.Followed c [] := by
  constructor <;> simp

/-- Two stretches are followed by the items of both. -/
theorem Collected.Followed.append {c c' c'' : Collected} {is js : List Item}
    (h : c.Followed c' is) (h' : c'.Followed c'' js) : c.Followed c'' (is ++ js) := by
  constructor
  · rw [h'.1, h.1, List.map_append, List.append_assoc]
  · rw [h'.2, h.2, List.map_append, List.append_assoc]

/-- A push that succeeds adds the entry and its path at the end. -/
theorem Collected.push_eq_ok {c c' : Collected} {path : String} {entry : FileEntry}
    (h : c.push path entry = .ok c') :
    c' = { c with entries := c.entries ++ [entry], abs := c.abs ++ [path] } := by
  unfold push at h
  split at h
  · cases h
  · exact (Except.ok.inj h).symm

/-- A fold that goes through: every element is taken from some state to some state. -/
theorem Collected.followed_foldlM {α : Type} {f : Collected → α → Except CollectError Collected}
    {g : α → List Item} {xs : List α} {c c' : Collected} (h : xs.foldlM f c = .ok c')
    (hf : ∀ x ∈ xs, ∀ c c', f c x = .ok c' → c.Followed c' (g x)) :
    c.Followed c' (xs.flatMap g) :=
  foldlM_flatMap (R := fun c items c' => c.Followed c' items) Collected.Followed.nil
    (fun h h' => h.append h') h hf

/-- A walk that goes through puts together the items, in order. -/
theorem walk_eq_ok {t : FileTree} {maxBytes levels : Nat} {path : String} {parts : List String}
    {c c' : Collected} (hne : parts ≠ [])
    (h : Files.walk t maxBytes levels path (pathOf parts) c = .ok c') :
    c.Followed c' (t.items levels path parts) := by
  -- on the levels left
  induction levels generalizing path parts c c' with
  | zero => cases h
  | succ levels ih =>
    unfold Files.walk at h
    unfold FileTree.items
    cases hk : t path with
    | none =>
      rw [hk] at h
      obtain rfl : c = c' := Except.ok.inj h
      exact .nil c
    | some kind =>
      rw [hk] at h
      cases kind with
      | symlink | other =>
        obtain rfl : c = c' := Except.ok.inj h
        exact .nil c
      -- a file that fits is pushed, and is the only item
      | file bytes =>
        dsimp only at h ⊢
        split at h
        · cases h
        · split at h
          · cases h
          · rw [Collected.push_eq_ok h]
            exact ⟨rfl, rfl⟩
      -- a folder is pushed, and then its names are walked
      | dir listing =>
        dsimp only at h ⊢
        cases hp : c.push path ⟨pathOf parts, 0, true⟩ with
        | error e => rw [hp] at h; cases h
        | ok c₁ =>
          rw [hp] at h
          have hself : c.Followed c₁ [⟨parts, path, .folder⟩] := by
            rw [Collected.push_eq_ok hp]
            exact ⟨rfl, rfl⟩
          refine hself.append (Collected.followed_foldlM h fun name _ c c' hwalk => ?_)
          rw [← pathOf_concat hne name] at hwalk
          exact ih (by simp) hwalk

/-- What is collected are all the items, in order. -/
theorem collect_eq_ok {t : FileTree} {roots : List String} {maxBytes : Nat} {m : FileManifest}
    {abs : List String} (h : Files.collect t roots maxBytes = .ok (m, abs)) :
    m.entries = (t.allItems roots).map Item.entry ∧ abs = (t.allItems roots).map Item.path := by
  unfold Files.collect at h
  cases hc : roots.foldlM
      (fun c root => Files.walk t maxBytes (MAX_DEPTH + 1) root (topName root) c) {} with
  | error e => rw [hc] at h; cases h
  | ok c =>
    rw [hc] at h
    obtain ⟨rfl, rfl⟩ := Prod.mk.inj (Except.ok.inj h)
    have hf : Collected.Followed {} c (t.allItems roots) := by
      refine Collected.followed_foldlM hc fun root _ c c' hwalk => ?_
      rw [← pathOf_singleton (topName root)] at hwalk
      exact walk_eq_ok (List.cons_ne_nil _ _) hwalk
    exact ⟨hf.1.trans (List.nil_append _), hf.2.trans (List.nil_append _)⟩

/-! ## The items are what is shown

The items are the places a reader of the disk is shown, no more and no less. -/

/-- An item is something shown, and a file item has the bytes of the file at its path. -/
theorem shown_of_mem_items {t : FileTree} {levels : Nat} {path : String} {parts : List String}
    {i : Item} (h : i ∈ t.items levels path parts) :
    (∃ rest, i.parts = parts ++ rest ∧ t.shown path rest = some i.node)
      ∧ (t i.path).bind FileKind.node = some i.node := by
  -- on the levels left
  induction levels generalizing path parts with
  | zero => cases h
  | succ levels ih =>
    unfold FileTree.items at h
    cases hk : t path with
    | none => rw [hk] at h; cases h
    | some kind =>
      rw [hk] at h
      cases kind with
      | symlink | other => cases h
      -- a file is the only item there
      | file bytes =>
        obtain rfl := List.mem_singleton.mp h
        refine ⟨⟨[], (List.append_nil _).symm, ?_⟩, ?_⟩
        · show (t path).bind FileKind.node = _
          rw [hk]
          rfl
        · show (t path).bind FileKind.node = _
          rw [hk]
          rfl
      -- a folder is the first item, and the others lie below one of its names
      | dir listing =>
        rcases List.mem_cons.mp h with rfl | h
        · refine ⟨⟨[], (List.append_nil _).symm, ?_⟩, ?_⟩
          · show (t path).bind FileKind.node = _
            rw [hk]
            rfl
          · show (t path).bind FileKind.node = _
            rw [hk]
            rfl
        · obtain ⟨name, hname, hi⟩ := List.mem_flatMap.mp h
          obtain ⟨⟨rest, hparts, hshown⟩, hat⟩ := ih hi
          refine ⟨⟨name :: rest, by rw [hparts, List.append_assoc]; rfl, ?_⟩, hat⟩
          rw [mem_sortedNames] at hname
          cases listing with
          | none => cases hname
          | some names =>
            show (match t path with
              | some (.dir (some names)) =>
                if name ∈ names then t.shown (joinPath path name) rest else none
              | _ => none) = _
            rw [hk]
            exact (if_pos hname).trans hshown

/-- Everything shown is an item, when the walk goes through: it fails sooner than leave out what
is too deep. -/
theorem exists_item_of_shown {t : FileTree} {maxBytes levels : Nat} {path rel : String}
    {parts rest : List String} {c c' : Collected} {node : Node}
    (h : Files.walk t maxBytes levels path rel c = .ok c') (hs : t.shown path rest = some node) :
    ∃ i ∈ t.items levels path parts, i.parts = parts ++ rest ∧ i.node = node := by
  -- on the levels left, with the whole walk having gone well
  induction levels generalizing path rel parts rest c c' with
  | zero => cases h
  | succ levels ih =>
    unfold Files.walk at h
    unfold FileTree.items
    -- the path itself: whatever is shown there is an item
    cases rest with
    | nil =>
      have hnode : (t path).bind FileKind.node = some node := hs
      cases hk : t path with
      | none => rw [hk] at hnode; cases hnode
      | some kind =>
        rw [hk] at hnode
        cases kind with
        | symlink | other => cases hnode
        | file bytes =>
          exact ⟨_, List.mem_cons_self, (List.append_nil _).symm, Option.some.inj hnode⟩
        | dir listing =>
          exact ⟨_, List.mem_cons_self, (List.append_nil _).symm, Option.some.inj hnode⟩
    -- a path below it: only a listed folder shows one
    | cons name rest =>
      unfold FileTree.shown at hs
      cases hk : t path with
      | none => rw [hk] at hs; cases hs
      | some kind =>
        rw [hk] at hs h
        cases kind with
        | symlink | other | file => cases hs
        | dir listing =>
          cases listing with
          | none => cases hs
          | some names =>
            dsimp only at hs h ⊢
            have hname : name ∈ names := by
              by_contra hn
              rw [if_neg hn] at hs
              cases hs
            rw [if_pos hname] at hs
            -- the walk visits every listed name
            have hsorted : name ∈ sortedNames (some names) := mem_sortedNames.mpr hname
            cases hp : c.push path ⟨rel, 0, true⟩ with
            | error e => rw [hp] at h; cases h
            | ok c₁ =>
              rw [hp] at h
              obtain ⟨a, b, hwalk⟩ := exists_ok_of_foldlM h hsorted
              -- so it went well below the name too
              have hchild : ∃ i ∈ t.items levels (joinPath path name) (parts ++ [name]),
                  i.parts = parts ++ [name] ++ rest ∧ i.node = node := ih hwalk hs
              obtain ⟨i, hi, hparts, hnode⟩ := hchild
              refine ⟨i, List.mem_cons_of_mem _ (List.mem_flatMap.mpr ⟨name, hsorted, hi⟩), ?_,
                hnode⟩
              rw [hparts, List.append_assoc]
              rfl

/-! ## Order

A folder comes before what is in it, so that the pull can make every folder before it needs it. -/

/-- Everything above an item, from `n` parts on, is a folder among these. -/
def Item.GroundedIn (n : Nat) (seen : List Item) (i : Item) : Prop :=
  ∀ q, n ≤ q.length → q <+: i.parts → q ≠ i.parts → ∃ j ∈ seen, j.parts = q ∧ j.node = .folder

/-- Each item comes after what is above it, given what came before the list. -/
def Grounded (n : Nat) : List Item → List Item → Prop
  | _, [] => True
  | seen, i :: rest => i.GroundedIn n seen ∧ Grounded n (seen ++ [i]) rest

/-- An item that is grounded stays so when more is listed before it. -/
theorem Item.GroundedIn.mono {n : Nat} {seen seen' : List Item} {i : Item}
    (h : i.GroundedIn n seen) (hsub : ∀ j ∈ seen, j ∈ seen') : i.GroundedIn n seen' := by
  intro q hn hq hne
  obtain ⟨j, hj, hjq⟩ := h q hn hq hne
  exact ⟨j, hsub j hj, hjq⟩

/-- A grounded list stays so when more is listed before it. -/
theorem Grounded.mono {n : Nat} {items seen seen' : List Item} (h : Grounded n seen items)
    (hsub : ∀ j ∈ seen, j ∈ seen') : Grounded n seen' items := by
  induction items generalizing seen seen' with
  | nil => trivial
  | cons i items ih =>
    refine ⟨h.1.mono hsub, ih h.2 fun j hj => ?_⟩
    rcases List.mem_append.mp hj with hj | hj
    · exact List.mem_append_left _ (hsub j hj)
    · exact List.mem_append_right _ hj

/-- Two grounded lists, the second on the first, are grounded one after the other. -/
theorem Grounded.append {n : Nat} {xs ys seen : List Item} (hx : Grounded n seen xs)
    (hy : Grounded n (seen ++ xs) ys) : Grounded n seen (xs ++ ys) := by
  induction xs generalizing seen with
  | nil => rwa [List.append_nil] at hy
  | cons x xs ih =>
    refine ⟨hx.1, ih hx.2 ?_⟩
    rwa [List.append_assoc]

/-- Any number of lists that are grounded, each by itself, are grounded together. -/
theorem Grounded.flatMap {α : Type} {n : Nat} {g : α → List Item} {xs : List α}
    {seen : List Item} (h : ∀ x ∈ xs, Grounded n seen (g x)) : Grounded n seen (xs.flatMap g) := by
  induction xs generalizing seen with
  | nil => trivial
  | cons x xs ih =>
    rw [List.flatMap_cons]
    refine (h x List.mem_cons_self).append (ih fun y hy => ?_)
    exact (h y (List.mem_cons_of_mem x hy)).mono fun j hj => List.mem_append_left _ hj

/-- One level up: the folder the items are in came before them. -/
theorem Grounded.up {base : List String} {items seen : List Item}
    (h : Grounded (base.length + 1) seen items) (hbase : ∀ i ∈ items, base <+: i.parts)
    (hfolder : ∃ j ∈ seen, j.parts = base ∧ j.node = .folder) :
    Grounded base.length seen items := by
  induction items generalizing seen with
  | nil => trivial
  | cons i items ih =>
    constructor
    · intro q hn hq hne
      by_cases hlen : q.length = base.length
      · have hqb : q = base :=
          (List.prefix_of_prefix_length_le hq (hbase i List.mem_cons_self) hlen.le).eq_of_length hlen
        rw [hqb]
        exact hfolder
      · have hn' : base.length + 1 ≤ q.length := by omega
        exact h.1 q hn' hq hne
    · refine ih h.2 (fun j hj => hbase j (List.mem_cons_of_mem i hj)) ?_
      obtain ⟨j, hj, hjq⟩ := hfolder
      exact ⟨j, List.mem_append_left _ hj, hjq⟩

/-- Everything below a folder is listed below its name. -/
theorem base_prefix_of_mem_items {t : FileTree} {levels : Nat} {path : String}
    {parts : List String} {i : Item} (h : i ∈ t.items levels path parts) : parts <+: i.parts := by
  obtain ⟨⟨rest, hparts, -⟩, -⟩ := shown_of_mem_items h
  exact ⟨rest, hparts.symm⟩

/-- An item has nothing above it from itself on. -/
theorem Item.groundedIn_self (i : Item) (seen : List Item) :
    i.GroundedIn i.parts.length seen := fun _ hn hq hne =>
  absurd (hq.eq_of_length (Nat.le_antisymm hq.length_le hn)) hne

/-- What is above an item of a walk, from where the walk started, comes before it. -/
theorem grounded_items (t : FileTree) (levels : Nat) (path : String) (parts : List String)
    (seen : List Item) : Grounded parts.length seen (t.items levels path parts) := by
  induction levels generalizing path parts seen with
  | zero => trivial
  | succ levels ih =>
    unfold FileTree.items
    cases hk : t path with
    | none => trivial
    | some kind =>
      cases kind with
      | symlink | other => trivial
      | file bytes => exact ⟨Item.groundedIn_self ⟨parts, path, .file bytes⟩ seen, trivial⟩
      | dir listing =>
        refine ⟨Item.groundedIn_self ⟨parts, path, .folder⟩ seen, Grounded.up ?_ ?_ ?_⟩
        · refine Grounded.flatMap fun name _ => ?_
          have hchild := ih (joinPath path name) (parts ++ [name]) (seen ++ [⟨parts, path, .folder⟩])
          rwa [List.length_append] at hchild
        · intro i hi
          obtain ⟨name, -, hi⟩ := List.mem_flatMap.mp hi
          exact (List.prefix_append parts [name]).trans (base_prefix_of_mem_items hi)
        · exact ⟨_, List.mem_append_right _ List.mem_cons_self, rfl, rfl⟩

/-- All items are grounded in their roots. -/
theorem grounded_allItems (t : FileTree) (roots : List String) :
    Grounded 1 [] (t.allItems roots) :=
  Grounded.flatMap fun root _ => grounded_items t (MAX_DEPTH + 1) root [topName root] []

/-! ## The top level -/

/-- No item is listed under nothing. -/
theorem parts_ne_nil_of_mem {t : FileTree} {roots : List String} {i : Item}
    (h : i ∈ t.allItems roots) : i.parts ≠ [] := by
  obtain ⟨root, -, hi⟩ := List.mem_flatMap.mp h
  exact (base_prefix_of_mem_items hi).ne_nil (List.cons_ne_nil _ _)

/-- The items of one root that have no folder above them: the root itself, if it is shown. -/
theorem top_items (t : FileTree) (levels : Nat) (path name : String) :
    ((t.items (levels + 1) path [name]).filter fun i => i.parts.length = 1).map Item.parts
      = if (t.shown path []).isSome then [[name]] else [] := by
  have hshown : t.shown path [] = (t path).bind FileKind.node := rfl
  rw [hshown]
  unfold FileTree.items
  cases hk : t path with
  | none => rfl
  | some kind =>
    cases kind with
    | symlink | other => rfl
    | file bytes => rfl
    | dir listing =>
      have hdeep : ((sortedNames listing).flatMap fun child =>
          t.items levels (joinPath path child) ([name] ++ [child])).filter
            (fun i => i.parts.length = 1) = [] := by
        refine List.filter_eq_nil_iff.mpr fun i hi => ?_
        obtain ⟨child, -, hi⟩ := List.mem_flatMap.mp hi
        have hlen := (base_prefix_of_mem_items hi).length_le
        have htwo : ([name] ++ [child]).length = 2 := rfl
        rw [decide_eq_true_eq]
        omega
      dsimp only
      rw [List.filter_cons_of_pos (by simp), hdeep]
      rfl

end GeserDesk
