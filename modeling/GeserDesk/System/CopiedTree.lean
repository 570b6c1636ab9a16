import GeserDesk.Clipboard.Collect
import GeserDesk.Clipboard.Pull

/-!
# Copy, serve, pull

Files copied on one machine arrive on another: `collect` makes the manifest, the `FileOwner`
serves reads of it from the disk, and a pull reads chunk by chunk into a destination of its own.

* **Every place is free and its folder there.** The walk puts what is above an entry before it, and
  no two entries have one path, so each can be put down in turn (`placeable_placed`).
* **Every read is answered.** The owner finds an entry and its path under the same index, and the
  disk still has the bytes the walk saw (`serves_of_keeps`).
* **The destination.** `Arrived` says what it holds, in terms of what the copied tree shows
  (`stage_placed_eq_some`).
-/

namespace GeserDesk

/-- The destination of a copy of these roots, by path under it. -/
def Arrived (t : FileTree) (roots : List String) (p : List String) (node : Node) : Prop :=
  (p = [] ∧ node = .folder)
    ∨ ∃ root ∈ roots, ∃ rest, p = topName root :: rest ∧ t.shown root rest = some node

/-- The files behind these paths are as they were in the tree. -/
def Disk.Keeps (disk : Disk) (t : FileTree) (paths : List String) : Prop :=
  ∀ path ∈ paths, ∀ bytes, t path = some (.file bytes) →
    disk.symlinkMetadata path = some ⟨false, bytes.length⟩ ∧ disk.openNoFollow path = some bytes

/-- There is nothing under `dest`, and no file where it or a folder above it should be. -/
def EmptyAt (fs : FileStore String UInt8) (dest : List String) : Prop :=
  (∀ q, q <+: dest → fs q = none ∨ fs q = some .folder) ∧ ∀ p, p ≠ [] → fs (dest ++ p) = none

/-- Reads of one transfer go to its owner, whose disk may be another at every read. -/
def serving (owner : FileOwner) (seq : Nat) (disks : Nat → Disk) : Fetch Nat where
  read n index offset len := (.answered (owner.read (disks n) ⟨seq, index, offset, len⟩), n + 1)
  isCancelled _ := false

/-- Where an item goes. -/
def Item.placed (dest : List String) (i : Item) : Placed := ⟨i.entry, dest ++ i.parts, i.node⟩

/-! ## Every place is free and its folder there

The destination is new, and each entry comes after its folder. -/

/-- The store when some items are down and the rest of the destination is empty. -/
structure Holds (fs : FileStore String UInt8) (dest : List String) (seen : List Item) : Prop where
  folders : ∀ q, q <+: dest → fs q = some .folder
  there : ∀ j ∈ seen, fs (dest ++ j.parts) = some j.node
  free : ∀ p, p ≠ [] → p ∉ seen.map Item.parts → fs (dest ++ p) = none

/-- One more item put in its place. -/
theorem Holds.put {fs : FileStore String UInt8} {dest : List String} {seen : List Item}
    (h : Holds fs dest seen) {i : Item} (hne : i.parts ≠ []) (hnew : i.parts ∉ seen.map Item.parts) :
    Holds (fs.put (dest ++ i.parts) i.node) dest (seen ++ [i]) := by
  constructor
  · intro q hq
    have hlen : q ≠ dest ++ i.parts := by
      rintro rfl
      have := hq.length_le
      rw [List.length_append] at this
      exact hne (List.length_eq_zero_iff.mp (by omega))
    rw [FileStore.put_of_ne fs _ hlen]
    exact h.folders q hq
  · intro j hj
    rcases List.mem_append.mp hj with hj | hj
    · have hother : dest ++ j.parts ≠ dest ++ i.parts := fun heq =>
        hnew (List.append_cancel_left heq ▸ List.mem_map_of_mem hj)
      rw [FileStore.put_of_ne fs _ hother]
      exact h.there j hj
    · obtain rfl := List.mem_singleton.mp hj
      exact FileStore.put_self fs _ _
  · intro p hp hmem
    rw [List.map_append, List.mem_append, not_or] at hmem
    have hother : dest ++ p ≠ dest ++ i.parts := fun heq =>
      hmem.2 (List.mem_singleton.mpr (List.append_cancel_left heq))
    rw [FileStore.put_of_ne fs _ hother]
    exact h.free p hp hmem.1

/-- A proper prefix of a path under the destination is above the destination or under it. -/
theorem prefix_append_cases {dest parts q : List String} (h : q <+: dest ++ parts) :
    q <+: dest ∨ ∃ r, r ≠ [] ∧ q = dest ++ r ∧ r <+: parts := by
  by_cases hlen : q.length ≤ dest.length
  · exact .inl (List.prefix_of_prefix_length_le h (List.prefix_append dest parts) hlen)
  · have hdest : dest <+: q :=
      List.prefix_of_prefix_length_le (List.prefix_append dest parts) h (by omega)
    obtain ⟨r, rfl⟩ := hdest
    refine .inr ⟨r, ?_, rfl, (List.prefix_append_right_inj dest).mp h⟩
    rintro rfl
    exact hlen (by rw [List.append_nil])

/-- Items that stand on one another can be put on a disk one after the other. -/
theorem placeable_placed {dest : List String} {items seen : List Item}
    {fs : FileStore String UInt8} (hg : Grounded 1 seen items) (hne : ∀ i ∈ items, i.parts ≠ [])
    (hnd : ((seen ++ items).map Item.parts).Nodup) (h : Holds fs dest seen) :
    Placeable fs (items.map (Item.placed dest)) := by
  induction items generalizing seen fs with
  | nil => trivial
  | cons i items ih =>
    have hi := hne i List.mem_cons_self
    have hnew : i.parts ∉ seen.map Item.parts := by
      rw [List.map_append, List.map_cons, List.nodup_append] at hnd
      intro hmem
      exact hnd.2.2 _ hmem _ List.mem_cons_self rfl
    refine ⟨⟨h.free i.parts hi hnew, ?_, ?_⟩, ?_⟩
    · exact List.append_ne_nil_of_right_ne_nil dest hi
    · intro q hq hqne
      rcases prefix_append_cases hq with hq | ⟨r, hr, rfl, hrp⟩
      · exact h.folders q hq
      · -- a folder of the copy itself: it was put down before
        have hrne : r ≠ i.parts := fun heq => hqne (congrArg (dest ++ ·) heq)
        obtain ⟨j, hj, rfl, hnode⟩ := hg.1 r (List.length_pos_iff.mpr hr) hrp hrne
        rw [h.there j hj, hnode]
    · refine ih hg.2 (fun j hj => hne j (List.mem_cons_of_mem i hj)) ?_ (h.put hi hnew)
      rwa [List.append_assoc]

/-- An empty destination, once it is created. -/
theorem holds_created {fs : FileStore String UInt8} {dest : List String} (h : EmptyAt fs dest) :
    Holds (fun q => if q <+: dest then some .folder else fs q) dest [] where
  folders q hq := if_pos hq
  there j hj := by cases hj
  free p hp _ := by
    have hnot : ¬ dest ++ p <+: dest := fun hpre => hp <| by
      have hlen := hpre.length_le
      rw [List.length_append] at hlen
      exact List.length_eq_zero_iff.mp (by omega)
    exact (if_neg hnot).trans (h.2 p hp)

/-! ## Every read is answered

A disk that keeps its files answers every read with their bytes. -/

/-- A disk that has the file as the walk saw it gives what is asked for. -/
theorem readAt_of_kept {disk : Disk} {path : String} {entry : FileEntry} {bytes : Bytes}
    {offset len : Nat}
    (hmeta : disk.symlinkMetadata path = some ⟨false, bytes.length⟩)
    (hopen : disk.openNoFollow path = some bytes) (hsize : entry.size = bytes.length)
    (hoff : offset ≤ bytes.length) (hmax : len ≤ MAX_READ_LEN) (hlen : len ≤ bytes.length - offset) :
    readAt disk path entry offset len = .data ((bytes.drop offset).take len) := by
  have hwant : min (min len MAX_READ_LEN) (entry.size - offset) = len := by
    rw [hsize]
    omega
  have hgot : ((bytes.drop offset).take len).length = len := by
    rw [List.length_take, List.length_drop]
    omega
  unfold readAt
  rw [hmeta, hopen]
  dsimp only
  rw [if_neg (by rw [hsize]; simpa using hoff), hwant, if_pos hgot]

/-- The owner reads what was copied, for as long as the disk keeps it. -/
theorem serves_of_keeps {t : FileTree} {items : List Item} {o : FileOwner} {seq index : Nat}
    {disks : Nat → Disk} {i : Item} {bytes : Bytes}
    (hkeep : ∀ n, (disks n).Keeps t (items.map Item.path)) (hi : items[index]? = some i)
    (hnode : i.node = .file bytes) (hat : (t i.path).bind FileKind.node = some i.node) :
    (serving (o.set seq ⟨items.map Item.entry⟩ (items.map Item.path)) seq disks).Serves index
      bytes := by
  intro n offset want hoff hmax hwant
  have hfile : t i.path = some (.file bytes) := by
    rw [hnode] at hat
    cases hk : t i.path with
    | none => rw [hk] at hat; cases hat
    | some kind =>
      rw [hk] at hat
      cases kind with
      | symlink | dir | other => cases hat
      | file b => rw [StoreNode.file.inj (Option.some.inj hat)]
  have hmem : i.path ∈ items.map Item.path := List.mem_map_of_mem (List.mem_of_getElem? hi)
  obtain ⟨hmeta, hopen⟩ := hkeep n i.path hmem bytes hfile
  have hentry : (items.map Item.entry)[index]? = some i.entry := by rw [List.getElem?_map, hi]; rfl
  have hpath : (items.map Item.path)[index]? = some i.path := by rw [List.getElem?_map, hi]; rfl
  have hdir : i.entry.dir = false := by
    show decide (i.node = .folder) = false
    rw [hnode]
    rfl
  have hsize : i.entry.size = bytes.length := by
    show nodeSize i.node = _
    rw [hnode]
    rfl
  show Awaited.answered (FileOwner.read _ (disks n) ⟨seq, index, offset, want⟩) = _
  unfold FileOwner.read FileOwner.set
  dsimp only
  rw [if_neg (not_not.mpr rfl), hentry]
  dsimp only
  rw [hdir, if_neg Bool.false_ne_true, hpath]
  exact congrArg Awaited.answered (readAt_of_kept hmeta hopen hsize hoff hmax hwant)

/-- So every item is served as it was announced. -/
theorem placed_servedBy {t : FileTree} {items : List Item} {o : FileOwner} {seq : Nat}
    {disks : Nat → Disk} (dest : List String)
    (hkeep : ∀ n, (disks n).Keeps t (items.map Item.path))
    (hat : ∀ i ∈ items, (t i.path).bind FileKind.node = some i.node) (k : Nat) (d : Placed)
    (hk : (items.map (Item.placed dest))[k]? = some d) :
    d.ServedBy (serving (o.set seq ⟨items.map Item.entry⟩ (items.map Item.path)) seq disks) k := by
  rw [List.getElem?_map] at hk
  obtain ⟨i, hi, rfl⟩ := Option.map_eq_some_iff.mp hk
  have hplaced : (i.placed dest).node = i.node := rfl
  unfold Placed.ServedBy
  rw [hplaced]
  cases hnode : i.node with
  | folder =>
    show decide (i.node = .folder) = true
    rw [hnode]
    rfl
  | file bytes =>
    refine ⟨?_, ?_, serves_of_keeps hkeep hi hnode (hat i (List.mem_of_getElem? hi))⟩
    · show decide (i.node = .folder) = false
      rw [hnode]
      rfl
    · show nodeSize i.node = _
      rw [hnode]
      rfl

/-! ## What the destination holds

After the pull the destination shows the tree that was copied, and nothing else. -/

variable {t : FileTree} {roots : List String} {maxBytes : Nat} {m : FileManifest}
  {abs : List String}

/-- Everything that is to arrive is an item of the walk, and the other way round. -/
theorem exists_item_iff (hc : Files.collect t roots maxBytes = .ok (m, abs)) {p : List String}
    {node : Node} : (∃ i ∈ t.allItems roots, i.parts = p ∧ i.node = node)
      ↔ ∃ root ∈ roots, ∃ rest, p = topName root :: rest ∧ t.shown root rest = some node := by
  constructor
  · rintro ⟨i, hi, rfl, rfl⟩
    obtain ⟨root, hroot, hi⟩ := List.mem_flatMap.mp hi
    obtain ⟨⟨rest, hparts, hshown⟩, -⟩ := shown_of_mem_items hi
    exact ⟨root, hroot, rest, hparts, hshown⟩
  · rintro ⟨root, hroot, rest, rfl, hshown⟩
    unfold Files.collect at hc
    cases hf : roots.foldlM
        (fun c root => Files.walk t maxBytes (MAX_DEPTH + 1) root (topName root) c) {} with
    | error e => rw [hf] at hc; cases hc
    | ok c =>
      obtain ⟨a, b, hwalk⟩ := exists_ok_of_foldlM hf hroot
      have hitem : ∃ i ∈ t.items (MAX_DEPTH + 1) root [topName root],
          i.parts = [topName root] ++ rest ∧ i.node = node := exists_item_of_shown hwalk hshown
      obtain ⟨i, hi, hparts, hnode⟩ := hitem
      exact ⟨i, List.mem_flatMap.mpr ⟨root, hroot, hi⟩, hparts, hnode⟩

/-- An empty destination with every item put down holds what is to arrive. -/
theorem stage_placed_eq_some (hc : Files.collect t roots maxBytes = .ok (m, abs))
    {fs : FileStore String UInt8} {dest : List String} (h : Holds fs dest [])
    (hnd : ((t.allItems roots).map Item.parts).Nodup) (p : List String) (node : Node) :
    fs.stage ((t.allItems roots).map fun i => (dest ++ i.parts, i.node)) (dest ++ p) = some node
      ↔ Arrived t roots p node := by
  -- the paths staged are those of the items, below `dest`, and all different
  have hkeys : ((t.allItems roots).map fun i => (dest ++ i.parts, i.node)).map Prod.fst
      = ((t.allItems roots).map Item.parts).map (dest ++ ·) := by
    rw [List.map_map, List.map_map]
    rfl
  have hnd' : (((t.allItems roots).map fun i => (dest ++ i.parts, i.node)).map Prod.fst).Nodup := by
    rw [hkeys]
    exact hnd.map fun _ _ heq => List.append_cancel_left heq
  unfold Arrived
  rw [← exists_item_iff hc]
  -- a path at which an item was staged
  by_cases hmem : ∃ i ∈ t.allItems roots, i.parts = p
  · obtain ⟨i, hi, rfl⟩ := hmem
    have hstage : fs.stage ((t.allItems roots).map fun i => (dest ++ i.parts, i.node))
        (dest ++ i.parts) = some i.node :=
      FileStore.stage_of_mem hnd'
        (List.mem_map_of_mem (f := fun i => (dest ++ i.parts, i.node)) hi)
    rw [hstage]
    constructor
    · intro heq
      exact .inr ⟨i, hi, rfl, Option.some.inj heq⟩
    · rintro (⟨hnil, -⟩ | ⟨j, hj, hparts, rfl⟩)
      · exact absurd hnil (parts_ne_nil_of_mem hi)
      · rw [List.inj_on_of_nodup_map hnd hj hi hparts]
  -- any other path shows what was there before: the folder itself, and nothing below it
  · have hnot : dest ++ p ∉ ((t.allItems roots).map fun i => (dest ++ i.parts, i.node)).map
        Prod.fst := by
      rw [hkeys, List.map_map]
      intro hp
      obtain ⟨i, hi, heq⟩ := List.mem_map.mp hp
      exact hmem ⟨i, hi, List.append_cancel_left heq⟩
    rw [FileStore.stage_of_not_mem hnot]
    by_cases hp : p = []
    · subst hp
      rw [List.append_nil, h.folders dest (List.prefix_refl dest)]
      constructor
      · intro heq
        exact .inl ⟨rfl, (Option.some.inj heq).symm⟩
      · rintro (⟨-, rfl⟩ | ⟨i, hi, hparts, -⟩)
        · rfl
        · exact absurd ⟨i, hi, hparts⟩ hmem
    · rw [h.free p hp (List.not_mem_nil)]
      constructor
      · exact nofun
      · rintro (⟨hnil, -⟩ | ⟨i, hi, hparts, -⟩)
        · exact absurd hnil hp
        · exact absurd ⟨i, hi, hparts⟩ hmem

/-- The entries without a separator are the roots there were, in order. -/
theorem topLevel_placed (hports : ∀ i ∈ t.allItems roots, ∀ part ∈ i.parts, Portable part)
    (hm : m.entries = (t.allItems roots).map Item.entry) (dest : List String) :
    topLevel m ((t.allItems roots).map fun i => dest ++ i.parts)
      = (roots.filter fun root => (t.shown root []).isSome).map fun root =>
          dest ++ [topName root] := by
  have htop : ∀ i ∈ t.allItems roots,
      (!i.entry.path.toList.contains '/') = decide (i.parts.length = 1) := by
    intro i hi
    have hslash := slash_mem_pathOf_iff (parts_ne_nil_of_mem hi) fun part hpart =>
      (hports i hi part hpart).no_slash
    have hpath : i.entry.path = pathOf i.parts := rfl
    rw [hpath, List.contains_eq_mem, ← decide_not, decide_eq_decide, hslash, not_not]
  have hzip : m.entries.zip ((t.allItems roots).map fun i => dest ++ i.parts)
      = (t.allItems roots).map fun i => (i.entry, dest ++ i.parts) := by
    rw [hm, List.zip_map']
  unfold topLevel
  rw [hzip, List.filter_map, List.map_map]
  have hfilter : (t.allItems roots).filter
      ((fun e : FileEntry × List String => !e.1.path.toList.contains '/')
        ∘ fun i => (i.entry, dest ++ i.parts))
      = (t.allItems roots).filter fun i => i.parts.length = 1 := List.filter_congr htop
  have hcomp : (Prod.snd ∘ fun i : Item => (i.entry, dest ++ i.parts))
      = (dest ++ ·) ∘ Item.parts := rfl
  rw [hfilter, hcomp, ← List.map_map]
  clear hm hports htop hzip hfilter hcomp
  unfold FileTree.allItems
  induction roots with
  | nil => rfl
  | cons root roots ih =>
    rw [List.flatMap_cons, List.filter_append, List.map_append, List.map_append, ih,
      top_items t MAX_DEPTH root (topName root)]
    by_cases hs : (t.shown root []).isSome
    · rw [if_pos hs, List.filter_cons, if_pos hs]
      rfl
    · rw [if_neg hs, List.filter_cons, if_neg hs]
      rfl

/-- **Copy, serve, pull.** A tree of portable names, no two of its paths equal once case is
ignored, is collected, served from a disk that keeps its files, and pulled into an empty
destination: the pull succeeds and returns the top-level entries in order, and the destination
holds what there was to copy, afterwards with the note beside it. -/
theorem copy_serve_pull (toLowercase : String → String)
    (hc : Files.collect t roots maxBytes = .ok (m, abs))
    (hport : ∀ root ∈ roots, ∀ rest node, t.shown root rest = some node →
      ∀ name ∈ topName root :: rest, Portable name)
    (hcase : (m.entries.map fun e => toLowercase e.path).Nodup)
    (hnote : ∀ root ∈ roots, (t.shown root []).isSome → topName root ≠ NOTE)
    (o : FileOwner) (seq : Nat) (disks : Nat → Disk) (hkeep : ∀ n, (disks n).Keeps t abs)
    (options : PullOptions)
    (hlimit : options.maxBytes = 0 ∨ m.totalBytes ≤ options.maxBytes)
    (fs : FileStore String UInt8) (dest : List String) (hempty : EmptyAt fs dest) (n : Nat)
    (peer : String) (time : Nat) :
    let (p, result) := pullWithOptions toLowercase m dest options
      (serving (o.set seq m abs) seq disks) fs n
    result = .ok ((roots.filter fun root => (t.shown root []).isSome).map fun root =>
        dest ++ [topName root])
      ∧ (∀ q node, p.fs (dest ++ q) = some node ↔ Arrived t roots q node)
      ∧ (∀ q, q ≠ [NOTE] → writeNote p.fs dest peer time m (dest ++ q) = p.fs (dest ++ q))
      ∧ writeNote p.fs dest peer time m (dest ++ [NOTE])
          = some (.file (noteText peer time m).toUTF8.data.toList) := by
  obtain ⟨hm, habs⟩ := collect_eq_ok hc
  have hne : ∀ i ∈ t.allItems roots, i.parts ≠ [] := fun i hi => parts_ne_nil_of_mem hi
  have hports : ∀ i ∈ t.allItems roots, ∀ part ∈ i.parts, Portable part := by
    intro i hi part hpart
    obtain ⟨root, hroot, rest, hparts, hshown⟩ := (exists_item_iff hc).mp ⟨i, hi, rfl, rfl⟩
    rw [hparts] at hpart
    exact hport root hroot rest i.node hshown part hpart
  have hparts : ∀ i ∈ t.allItems roots, pathParts i.entry.path = i.parts := fun i hi =>
    pathParts_pathOf (hne i hi) fun part hpart => (hports i hi part hpart).no_slash
  have hnd : ((t.allItems roots).map Item.parts).Nodup := by
    rw [hm, List.map_map] at hcase
    have hlower : (((t.allItems roots).map Item.parts).map
        fun parts => toLowercase (pathOf parts)).Nodup := by
      rw [List.map_map]
      exact hcase
    exact List.Nodup.of_map _ hlower
  -- every entry resolves under the destination
  have hresolve : sanitizeManifest toLowercase dest [] m.entries
      = .ok ((t.allItems roots).map fun i => dest ++ i.parts) := by
    have hf : ∀ e ∈ m.entries, e.path = pathOf (pathParts e.path) ∧ pathParts e.path ≠ []
        ∧ ∀ part ∈ pathParts e.path, Portable part := by
      intro e he
      rw [hm] at he
      obtain ⟨i, hi, rfl⟩ := List.mem_map.mp he
      rw [hparts i hi]
      exact ⟨rfl, hne i hi, hports i hi⟩
    rw [sanitizeManifest_eq_ok hf hcase fun _ _ => List.not_mem_nil, hm, List.map_map]
    refine congrArg Except.ok (List.map_congr_left fun i hi => ?_)
    exact congrArg (dest ++ ·) (hparts i hi)
  -- the destination is created, and everything put down
  have hcreated : fs.createDirAll dest = some fun q => if q <+: dest then some .folder else fs q :=
    FileStore.createDirAll_eq_some hempty.1
  have hholds := holds_created hempty
  have hplace : Placeable (fun q => if q <+: dest then some .folder else fs q)
      ((t.allItems roots).map (Item.placed dest)) := by
    refine placeable_placed (grounded_allItems t roots) hne ?_ hholds
    rwa [List.nil_append]
  have hserved : ∀ k (d : Placed), ((t.allItems roots).map (Item.placed dest))[k]? = some d →
      d.ServedBy (serving (o.set seq m abs) seq disks) (0 + k) := by
    intro k d hk
    have hat : ∀ i ∈ t.allItems roots, (t i.path).bind FileKind.node = some i.node := by
      intro i hi
      obtain ⟨root, -, hi⟩ := List.mem_flatMap.mp hi
      exact (shown_of_mem_items hi).2
    rw [Nat.zero_add, habs, show m = ⟨(t.allItems roots).map Item.entry⟩ by rw [← hm]]
    exact placed_servedBy dest (by rwa [habs] at hkeep) hat k d hk
  have hpulled : ∃ p, pullInto (serving (o.set seq m abs) seq disks) m options.seq 0
      (((t.allItems roots).map (Item.placed dest)).map fun d => (d.entry, d.path))
      { fs := fun q => if q <+: dest then some .folder else fs q, fetching := n } = (p, none)
      ∧ p.fs = FileStore.stage (fun q => if q <+: dest then some .folder else fs q)
        (((t.allItems roots).map (Item.placed dest)).map fun d => (d.path, d.node)) :=
    pullInto_of_served (fun _ => rfl) hplace hserved
  obtain ⟨p, hrun, hfs⟩ := hpulled
  have hzip : m.entries.zip ((t.allItems roots).map fun i => dest ++ i.parts)
      = ((t.allItems roots).map (Item.placed dest)).map fun d => (d.entry, d.path) := by
    rw [hm, List.zip_map', List.map_map]
    rfl
  have hpull : pullWithOptions toLowercase m dest options (serving (o.set seq m abs) seq disks) fs n
      = (p, .ok (topLevel m ((t.allItems roots).map fun i => dest ++ i.parts))) := by
    unfold pullWithOptions
    rw [if_neg (by omega), hresolve]
    dsimp only
    rw [if_neg (by exact Bool.false_ne_true), hcreated]
    dsimp only
    rw [hzip, hrun]
  have hstage : p.fs = FileStore.stage (fun q => if q <+: dest then some .folder else fs q)
      ((t.allItems roots).map fun i => (dest ++ i.parts, i.node)) := by
    rw [hfs, List.map_map]
    rfl
  have harrived : ∀ q node, p.fs (dest ++ q) = some node ↔ Arrived t roots q node := by
    intro q node
    rw [hstage]
    exact stage_placed_eq_some hc hholds hnd q node
  -- no entry is where the note goes
  have hfree : p.fs (dest ++ [NOTE]) ≠ some .folder := by
    intro hfolder
    rcases (harrived [NOTE] .folder).mp hfolder with ⟨hnil, -⟩ | ⟨root, hroot, rest, heq, hshown⟩
    · cases hnil
    · obtain ⟨htop, rfl⟩ := List.cons.inj heq
      exact hnote root hroot (by rw [hshown]; rfl) htop.symm
  have hdest : p.fs (dest ++ [NOTE]).dropLast = some .folder := by
    rw [List.dropLast_concat, ← List.append_nil dest]
    exact (harrived [] .folder).mpr (.inl ⟨rfl, rfl⟩)
  have hwrite : writeNote p.fs dest peer time m
      = p.fs.put (dest ++ [NOTE]) (.file (noteText peer time m).toUTF8.data.toList) := by
    unfold writeNote
    rw [FileStore.write_new hdest hfree]
    rfl
  rw [hpull]
  refine ⟨congrArg Except.ok (topLevel_placed hports hm dest), harrived, ?_, ?_⟩
  · intro q hq
    rw [hwrite]
    exact FileStore.put_of_ne p.fs _ fun heq => hq (List.append_cancel_left heq)
  · rw [hwrite]
    exact FileStore.put_self p.fs _ _

/-! ## A folder and a file -/

/-- The disk as the tree has it. -/
def FileTree.disk (t : FileTree) : Disk where
  symlinkMetadata path := (t path).map fun kind =>
    match kind with
    | .file bytes => ⟨false, bytes.length⟩
    | .symlink => ⟨true, 0⟩
    | .dir _ => ⟨false, 0⟩
    | .other => ⟨false, 0⟩
  openNoFollow path :=
    match t path with
    | some (.file bytes) => some bytes
    | _ => none

/-- The disk the tree was copied from keeps it. -/
theorem FileTree.disk_keeps (t : FileTree) (paths : List String) : t.disk.Keeps t paths := by
  intro path _ bytes hfile
  constructor
  · show (t path).map _ = _
    rw [hfile]
    rfl
  · show (match t path with | some (.file bytes) => some bytes | _ => none) = _
    rw [hfile]

/-- Lower-casing of text that is plain ASCII. -/
def asciiLower (text : String) : String := String.ofList (text.toList.map Char.toLower)

/-- A folder with a file, a folder and a link in it, and a file. -/
def homeTree : FileTree := fun path =>
  if path = "/home/notes" then some (.dir (some ["sub", "link", "b.txt"]))
  else if path = "/home/notes/sub" then some (.dir (some []))
  else if path = "/home/notes/link" then some .symlink
  else if path = "/home/notes/b.txt" then some (.file [1, 2, 3])
  else if path = "/home/a.txt" then some (.file [])
  else none

def homeManifest : FileManifest :=
  ⟨[⟨"notes", 0, true⟩, ⟨"notes/b.txt", 3, false⟩, ⟨"notes/sub", 0, true⟩, ⟨"a.txt", 0, false⟩]⟩

def homePaths : List String :=
  ["/home/notes", "/home/notes/b.txt", "/home/notes/sub", "/home/a.txt"]

/-- What is collected of two roots of the tree. -/
theorem collect_home :
    Files.collect homeTree ["/home/notes", "/home/a.txt"] 0 = .ok (homeManifest, homePaths) := by
  decide +kernel

/-- The two roots, pulled. -/
theorem copy_serve_pull_home :
    let (p, result) := pullWithOptions asciiLower homeManifest ["tmp", "in"] ⟨0, 7⟩
      (serving (FileOwner.set {} 7 homeManifest homePaths) 7 fun _ => homeTree.disk)
      (fun _ => none) 0
    result = .ok [["tmp", "in", "notes"], ["tmp", "in", "a.txt"]]
      ∧ (∀ q node, p.fs (["tmp", "in"] ++ q) = some node
          ↔ Arrived homeTree ["/home/notes", "/home/a.txt"] q node)
      ∧ (∀ q, q ≠ [NOTE] → writeNote p.fs ["tmp", "in"] "desk" 5 homeManifest (["tmp", "in"] ++ q)
          = p.fs (["tmp", "in"] ++ q))
      ∧ writeNote p.fs ["tmp", "in"] "desk" 5 homeManifest (["tmp", "in"] ++ [NOTE])
          = some (.file (noteText "desk" 5 homeManifest).toUTF8.data.toList) := by
  have hitems : ∀ i ∈ homeTree.allItems ["/home/notes", "/home/a.txt"],
      ∀ part ∈ i.parts, Portable part := by decide +kernel
  refine copy_serve_pull asciiLower collect_home ?_ (by decide +kernel) (by decide +kernel) {} 7
    (fun _ => homeTree.disk) (fun _ => homeTree.disk_keeps homePaths) ⟨0, 7⟩ (.inl rfl)
    (fun _ => none) ["tmp", "in"] ⟨fun _ _ => .inl rfl, fun _ _ => rfl⟩ 0 "desk" 5
  intro root hroot rest node hshown name hname
  obtain ⟨i, hi, hparts, -⟩ :=
    (exists_item_iff collect_home).mpr ⟨root, hroot, rest, rfl, hshown⟩
  exact hitems i hi name (hparts ▸ hname)

/-! ## Names the premise on the top level does not reach -/

/-- A folder with two files whose names differ in case only, and a file called like the note. -/
def pairTree : FileTree := fun path =>
  if path = "/home/pair" then some (.dir (some ["Read.me", "read.me"]))
  else if path = "/home/pair/Read.me" then some (.file [1])
  else if path = "/home/pair/read.me" then some (.file [2])
  else if path = "/home/.geserdesk-transfer" then some (.file [3])
  else none

def pairManifest : FileManifest :=
  ⟨[⟨"pair", 0, true⟩, ⟨"pair/Read.me", 1, false⟩, ⟨"pair/read.me", 1, false⟩]⟩

def pairPaths : List String := ["/home/pair", "/home/pair/Read.me", "/home/pair/read.me"]

/-- A folder is collected whose two files differ in case only: the pull is refused. A pulled
folder has one file more than was copied, the note; and a copied file called like the note has
the note's bytes once it is written. -/
theorem copy_serve_pull_differs :
    (Files.collect pairTree ["/home/pair"] 0 = .ok (pairManifest, pairPaths)
      ∧ (∀ e ∈ pairManifest.entries, ∀ part ∈ pathParts e.path, Portable part)
      ∧ (pullWithOptions asciiLower pairManifest ["in"] ⟨0, 7⟩
          (serving (FileOwner.set {} 7 pairManifest pairPaths) 7 fun _ => pairTree.disk)
          (fun _ => none) 0).2 = .error (.sanitize .duplicate))
    ∧ (let p := (pullWithOptions asciiLower homeManifest ["in"] ⟨0, 7⟩
          (serving (FileOwner.set {} 7 homeManifest homePaths) 7 fun _ => homeTree.disk)
          (fun _ => none) 0).1
       p.fs ["in", NOTE] = none ∧ writeNote p.fs ["in"] "desk" 5 homeManifest ["in", NOTE] ≠ none)
    ∧ (Files.collect pairTree ["/home/.geserdesk-transfer"] 0
          = .ok (⟨[⟨NOTE, 1, false⟩]⟩, ["/home/.geserdesk-transfer"])
      ∧ (let p := (pullWithOptions asciiLower ⟨[⟨NOTE, 1, false⟩]⟩ ["in"] ⟨0, 7⟩
          (serving (FileOwner.set {} 7 ⟨[⟨NOTE, 1, false⟩]⟩ ["/home/.geserdesk-transfer"]) 7
            fun _ => pairTree.disk) (fun _ => none) 0).1
         p.fs ["in", NOTE] = some (.file [3])
          ∧ writeNote p.fs ["in"] "desk" 5 ⟨[⟨NOTE, 1, false⟩]⟩ ["in", NOTE]
              ≠ some (.file [3]))) := by
  refine ⟨⟨?_, ?_, ?_⟩, ⟨?_, ?_⟩, ?_, ?_, ?_⟩ <;> decide +kernel

end GeserDesk
