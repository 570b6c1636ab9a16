import GeserDesk.Clipboard.OsWalk
import GeserDesk.Clipboard.StageSafety

/-!
# What is collected can be pulled

The manifest that `collect` puts together is checked by `sanitize_manifest` on the other machine.

* **Small letters.** `str::to_lowercase` goes part by part (`toLowercase_pathOf`), so paths are
  apart in small letters if the names in them are.
* **`collect_pullable`** says what holds of a collected manifest; `letter_case_refused` is a folder
  with two names that differ in case only, `shared_name_refused` two roots of one name.
-/

namespace GeserDesk

variable {P N : Type}

/-! ## Small letters, part by part

The paths of a manifest are compared in small letters. Where the case of a letter does not depend
on what follows the next slash, that is the case of every part by itself. -/

/-- Tables in which a separator is no letter: it has no case, and ends a word. -/
structure PathCasing extends Casing where
  lower_slash : lower '/' = ['/']
  no_slash : ∀ c, c ≠ '/' → '/' ∉ lower c
  slash_not_cased : cased '/' = false
  slash_not_ignorable : caseIgnorable '/' = false

namespace PathCasing

variable (u : PathCasing)

/-- Whether a letter ends a word is not decided past a separator. -/
theorem thenCased_slash (l l' : List Char) : u.thenCased (l ++ '/' :: l') = u.thenCased l := by
  unfold Casing.thenCased
  induction l with
  | nil => simp [u.slash_not_ignorable, u.slash_not_cased]
  | cons c l ih =>
    rw [List.cons_append, List.dropWhile_cons, List.dropWhile_cons]
    split
    · exact ih
    · rfl

/-- What is before a separator has no say in what comes after it. -/
theorem smallFrom_before (b b' l : List Char) :
    u.smallFrom (b ++ '/' :: b') l = u.smallFrom b l := by
  induction l generalizing b with
  | nil => rfl
  | cons c l ih =>
    rw [Casing.smallFrom, Casing.smallFrom, thenCased_slash, ← List.cons_append, ih]

/-- A path is lowered component by component. -/
theorem smallFrom_slash (b l l' : List Char) :
    u.smallFrom b (l ++ '/' :: l') = u.smallFrom b l ++ '/' :: u.smallFrom [] l' := by
  induction l generalizing b with
  | nil =>
    show (if '/' = 'Σ' then _ else u.lower '/') ++ u.smallFrom ([] ++ '/' :: b) l'
      = '/' :: u.smallFrom [] l'
    rw [if_neg (by decide), u.lower_slash, smallFrom_before]
    rfl
  | cons c l ih =>
    rw [List.cons_append, Casing.smallFrom, Casing.smallFrom, thenCased_slash, ih,
      List.append_assoc]

/-- A path and a component more are lowered each by itself. -/
theorem toLowercase_concat (path part : String) :
    u.toLowercase (path ++ "/" ++ part) = u.toLowercase path ++ "/" ++ u.toLowercase part := by
  unfold Casing.toLowercase
  have hlist : (path ++ "/" ++ part).toList = path.toList ++ '/' :: part.toList := by simp
  rw [hlist, smallFrom_slash]
  apply String.toList_inj.mp
  simp

/-- A path of components is lowered component by component. -/
theorem toLowercase_pathOf {parts : List String} (hne : parts ≠ []) :
    u.toLowercase (pathOf parts) = pathOf (parts.map u.toLowercase) := by
  induction parts using List.reverseRecOn with
  | nil => exact absurd rfl hne
  | append_singleton parts part ih =>
    by_cases hparts : parts = []
    · subst hparts
      simp
    · rw [pathOf_concat hparts, toLowercase_concat, ih hparts, List.map_append, List.map_singleton,
        pathOf_concat (by simpa using hparts)]

/-- Lowering brings no separator into a name. -/
theorem toLowercase_no_slash {name : String} (h : '/' ∉ name.toList) :
    '/' ∉ (u.toLowercase name).toList := by
  have hfrom : ∀ l b, '/' ∉ l → '/' ∉ u.smallFrom b l := by
    intro l
    induction l with
    | nil => simp [Casing.smallFrom]
    | cons c l ih =>
      intro b hl
      rw [List.mem_cons, not_or] at hl
      rw [Casing.smallFrom, List.mem_append, not_or]
      refine ⟨?_, ih (c :: b) hl.2⟩
      split_ifs
      · decide
      · decide
      · exact u.no_slash c (Ne.symm hl.1)
  rw [Casing.toLowercase, String.toList_ofList]
  exact hfrom _ _ h

end PathCasing

/-! ## What is collected can be pulled

A manifest that was collected passes the receiver's checks when its names pass them one by one and
stay apart in small letters. -/

/-- What there is of an entry on the disk: a node at this path, where names lead to it from a root,
and the entry is of that node under the text of these names. -/
def Located (o : OsNames P N) (t : OsTree P N) (roots : List P) (e : FileEntry) (path : P) : Prop :=
  ∃ root ∈ roots, ∃ rest node, o.Leads t root rest path ∧ (t path).bind OsKind.node = some node
    ∧ e = ⟨pathOf (o.topName root :: rest.map o.lossy), nodeSize node, node = .folder⟩

structure Listed (o : OsNames P N) (t : OsTree P N) (roots : List P) (maxBytes : Nat)
    (m : FileManifest) (abs : List P) : Prop where
  paths : m.entries.length = abs.length
  located : ∀ (i : Nat) e path, m.entries[i]? = some e → abs[i]? = some path →
    Located o t roots e path
  /-- Every folder above an entry is listed before it. -/
  parents : ∀ (i : Nat) e, m.entries[i]? = some e → ∀ q, q ≠ [] → q <+: pathParts e.path →
    q ≠ pathParts e.path → ∃ j < i, ∃ d, m.entries[j]? = some d ∧ d.dir = true ∧ d.path = pathOf q
  count : m.entries.length ≤ MAX_ENTRIES
  bytes : 0 < maxBytes → (m.entries.map FileEntry.size).sum ≤ maxBytes

/-- One entry a path, and a folder's before those of its contents. -/
structure OneByOne (m : FileManifest) : Prop where
  distinct : (m.entries.map FileEntry.path).Nodup
  folders_first : ∀ (i j : Nat) d e, m.entries[i]? = some d → m.entries[j]? = some e →
    d.dir = true → pathParts d.path <+: pathParts e.path → d.path ≠ e.path → i < j

/-- Every name met is portable. -/
def NamesPortable (o : OsNames P N) (t : OsTree P N) (roots : List P) : Prop :=
  ∀ root ∈ roots, Portable (o.topName root)
    ∧ ∀ rest path, o.Leads t root rest path → ∀ name ∈ rest, Portable (o.lossy name)

/-- The receiving side resolves every entry. -/
def Accepted (u : Casing) (dest : List String) (m : FileManifest) : Prop :=
  sanitizeManifest u.toLowercase dest [] m.entries
    = .ok (m.entries.map fun e => dest ++ pathParts e.path)

/-- A manifest that was collected is listed as it lies on the disk, once a path, and resolved on the
other side where its names are portable. -/
structure Pullable (o : OsNames P N) (t : OsTree P N) (roots : List P) (maxBytes : Nat)
    (u : Casing) (dest : List String) (m : FileManifest) (abs : List P) : Prop where
  listed : Listed o t roots maxBytes m abs
  one_by_one : OneByOne m
  accepted : NamesPortable o t roots → Accepted u dest m

/-- Every item of a grounded list stands on the folders listed before it. -/
theorem Grounded.groundedIn_getElem {n : Nat} {seen items : List Item} (h : Grounded n seen items)
    {k : Nat} {i : Item} (hi : items[k]? = some i) : i.GroundedIn n (seen ++ items.take k) := by
  induction items generalizing seen k with
  | nil => cases hi
  | cons x items ih =>
    cases k with
    | zero =>
      obtain rfl : x = i := by simpa using hi
      simpa using h.1
    | succ k =>
      have hrest := ih h.2 (by simpa using hi)
      rwa [List.append_assoc] at hrest

section Collected

variable [LE N] [DecidableLE N] {o : OsNames P N} {t : OsTree P N} {roots : List P}
  {maxBytes : Nat} {m : FileManifest} {abs : List P}

/-- What `collect` lists is what is shown on the disk, folders first. -/
theorem listed_of_collect (h : o.collect t maxBytes roots = .ok (m, abs)) :
    Listed o t roots maxBytes m abs := by
  obtain ⟨c, rfl, rfl, hadds, -⟩ := OsNames.collect_adds h
  have hentries : c.entries = (o.allFound t roots).map fun i => i.item.entry := by
    simpa using hadds.entries
  have habs : c.abs = (o.allFound t roots).map Found.path := by simpa using hadds.abs
  constructor
  · rw [hentries, habs, List.length_map, List.length_map]
  · intro k e path he hpath
    simp only [hentries, habs, List.getElem?_map, Option.map_eq_some_iff] at he hpath
    obtain ⟨i, hi, rfl⟩ := he
    obtain ⟨i', hi', rfl⟩ := hpath
    obtain rfl : i = i' := Option.some.inj (hi.symm.trans hi')
    obtain ⟨hnode, root, hroot, rest, hleads, hparts⟩ :=
      OsNames.leads_of_mem_allFound (List.mem_of_getElem? hi)
    exact ⟨root, hroot, rest, i.node, hleads, hnode, by rw [← hparts]; rfl⟩
  · intro k e he q hq hprefix hne
    simp only [hentries, List.getElem?_map, Option.map_eq_some_iff] at he
    obtain ⟨i, hi, rfl⟩ := he
    obtain ⟨hparts, hslash⟩ := OsNames.parts_of_mem_allFound (List.mem_of_getElem? hi)
    have hpath : pathParts i.item.entry.path = i.parts := pathParts_pathOf hparts hslash
    rw [hpath] at hprefix hne
    have hat : ((o.allFound t roots).map Found.item)[k]? = some i.item := by simp [hi]
    have hground := OsNames.grounded_allFound.groundedIn_getElem hat
    obtain ⟨x, hx, hxparts, hxnode⟩ := hground q (List.length_pos_iff.mpr hq) hprefix hne
    obtain ⟨j, hj⟩ := List.mem_iff_getElem?.mp hx
    rw [List.nil_append, List.getElem?_take] at hj
    split_ifs at hj with hlt
    rw [List.getElem?_map, Option.map_eq_some_iff] at hj
    obtain ⟨y, hy, rfl⟩ := hj
    refine ⟨j, hlt, y.item.entry, by simp [hentries, hy], ?_, congrArg pathOf hxparts⟩
    exact decide_eq_true hxnode
  · exact hadds.count (Nat.zero_le _)
  · intro hpos
    have htotal := hadds.bytes (fun _ => Nat.zero_le _) hpos
    rw [hadds.total] at htotal
    rw [hentries, List.map_map]
    show ((o.allFound t roots).map fun i => nodeSize i.node).sum ≤ maxBytes
    simpa using htotal

/-- Where names are apart no file of the list can be taken for another. -/
theorem one_by_one_of_apart (h : o.collect t maxBytes roots = .ok (m, abs))
    (hapart : o.Apart t id roots) : OneByOne m := by
  have hlisted := listed_of_collect h
  obtain ⟨c, rfl, -, hadds, hfits⟩ := OsNames.collect_adds h
  have hnodup : (c.entries.map FileEntry.path).Nodup := by
    have hpaths : c.entries.map FileEntry.path
        = (OsNames.labels id (o.allFound t roots)).map pathOf := by
      rw [hadds.entries, OsNames.labels]
      simp [Found.item, Item.entry]
    rw [hpaths]
    refine ((OsNames.nodup_labels_iff hfits).mpr hapart).map_on fun x hx y hy hxy => ?_
    obtain ⟨i, hi, rfl⟩ := List.mem_map.mp hx
    obtain ⟨j, hj, rfl⟩ := List.mem_map.mp hy
    rw [List.map_id, List.map_id] at hxy ⊢
    exact pathOf_inj (OsNames.parts_of_mem_allFound hi) (OsNames.parts_of_mem_allFound hj) hxy
  refine ⟨hnodup, fun i j d e hd he _ hprefix hne => ?_⟩
  have hparts : pathParts d.path ≠ pathParts e.path := fun heq => hne (pathParts_injective heq)
  obtain ⟨k, hkj, d', hd', -, hpath⟩ :=
    hlisted.parents j e he (pathParts d.path) (pathParts_ne_nil d.path) hprefix hparts
  -- the folder listed before is this one, as there is one entry a path
  have hlt : i < (c.entries.map FileEntry.path).length := by
    rw [List.length_map]
    exact (List.getElem?_eq_some_iff.mp hd).1
  have hsame : (c.entries.map FileEntry.path)[i]? = (c.entries.map FileEntry.path)[k]? := by
    rw [List.getElem?_map, List.getElem?_map, hd, hd', Option.map_some, Option.map_some, hpath,
      pathOf_pathParts]
  rwa [(List.getElem?_inj hlt hnodup).mp hsame]

/-- Where names are apart and portable, the list passes the checks of a pull. -/
theorem accepted_of_apart {u : PathCasing} {dest : List String}
    (h : o.collect t maxBytes roots = .ok (m, abs)) (hportable : NamesPortable o t roots)
    (hapart : o.Apart t u.toLowercase roots) : Accepted u.toCasing dest m := by
  obtain ⟨c, rfl, -, hadds, hfits⟩ := OsNames.collect_adds h
  have hentries : c.entries = (o.allFound t roots).map fun i => i.item.entry := by
    simpa using hadds.entries
  have hparts : ∀ i ∈ o.allFound t roots, pathParts i.item.entry.path = i.parts := fun i hi =>
    pathParts_pathOf (OsNames.parts_of_mem_allFound hi).1 (OsNames.parts_of_mem_allFound hi).2
  refine sanitizeManifest_eq_ok (f := fun e => pathParts e.path) ?_ ?_ (fun _ _ => List.not_mem_nil)
  · intro e he
    refine ⟨(pathOf_pathParts e.path).symm, pathParts_ne_nil e.path, ?_⟩
    rw [hentries] at he
    obtain ⟨i, hi, rfl⟩ := List.mem_map.mp he
    obtain ⟨-, root, hroot, rest, hleads, hnames⟩ := OsNames.leads_of_mem_allFound hi
    intro part hpart
    have hpart : part ∈ pathParts i.item.entry.path := hpart
    rw [hparts i hi, hnames] at hpart
    rcases List.mem_cons.mp hpart with rfl | hpart
    · exact (hportable root hroot).1
    · obtain ⟨name, hname, rfl⟩ := List.mem_map.mp hpart
      exact (hportable root hroot).2 rest i.path hleads name hname
  · have hpaths : c.entries.map (fun e => u.toLowercase e.path)
        = (OsNames.labels u.toLowercase (o.allFound t roots)).map pathOf := by
      rw [hentries, OsNames.labels, List.map_map, List.map_map]
      exact List.map_congr_left fun i hi =>
        u.toLowercase_pathOf (OsNames.parts_of_mem_allFound hi).1
    dsimp only
    rw [hpaths]
    refine ((OsNames.nodup_labels_iff hfits).mpr hapart).map_on fun x hx y hy hxy => ?_
    have hsmall : ∀ label ∈ OsNames.labels u.toLowercase (o.allFound t roots),
        label ≠ [] ∧ ∀ part ∈ label, '/' ∉ part.toList := by
      intro label hlabel
      obtain ⟨i, hi, rfl⟩ := List.mem_map.mp hlabel
      obtain ⟨hne, hslash⟩ := OsNames.parts_of_mem_allFound hi
      refine ⟨by simpa using hne, fun part hpart => ?_⟩
      obtain ⟨name, hname, rfl⟩ := List.mem_map.mp hpart
      exact u.toLowercase_no_slash (hslash name hname)
    exact pathOf_inj (hsmall x hx) (hsmall y hy) hxy

/-- **A collected manifest can be pulled** if its names are apart: what is listed is there, below
its folders and within the limits; every path is listed once if no two roots, and no two things of
a folder, travel under one name; and the other side accepts portable names that are apart in small
letters. -/
theorem collect_pullable (o : OsNames P N) (t : OsTree P N) (roots : List P) (maxBytes : Nat)
    (u : PathCasing) (dest : List String) (h : o.collect t maxBytes roots = .ok (m, abs)) :
    Listed o t roots maxBytes m abs ∧ (o.Apart t id roots → OneByOne m)
      ∧ (NamesPortable o t roots → o.Apart t u.toLowercase roots → Accepted u.toCasing dest m) :=
  ⟨listed_of_collect h, one_by_one_of_apart h, accepted_of_apart h⟩

end Collected

/-! ## Two copies -/

/-- A path is the list of its names. -/
def textNames : OsNames (List TextName) TextName where
  join path name := path ++ [name]
  fileName := List.getLast?
  lossy name := name.val
  no_slash := TextName.no_slash

/-- Tables in which no letter has case. -/
def plainCasing : PathCasing where
  lower c := [c]
  cased _ := false
  caseIgnorable _ := false
  fold c := [c]
  lower_slash := rfl
  no_slash c hc := by simpa using hc.symm
  slash_not_cased := rfl
  slash_not_ignorable := rfl

/-- A folder with a file in it. -/
def boxTree : OsTree (List TextName) TextName := fun path =>
  if path.map Subtype.val = ["box"] then some (.dir (some [⟨"a.txt", by decide⟩]))
  else if path.map Subtype.val = ["box", "a.txt"] then some (.file [1, 2])
  else none

def boxPath : List TextName := [⟨"box", by decide⟩]

def boxManifest : FileManifest := ⟨[⟨"box", 0, true⟩, ⟨"box/a.txt", 2, false⟩]⟩

def boxPaths : List (List TextName) := [boxPath, boxPath ++ [⟨"a.txt", by decide⟩]]

/-- The names met below the one root are those of the one folder of the tree. -/
theorem portable_of_names {t : OsTree (List TextName) TextName} {listing : List TextName}
    (hdir : ∀ path names, t path = some (.dir (some names)) → names = listing)
    (hportable : ∀ name ∈ listing, Portable name.val) : NamesPortable textNames t [boxPath] := by
  have hnames : ∀ rest path p, textNames.Leads t path rest p → ∀ name ∈ rest, name ∈ listing := by
    intro rest
    induction rest with
    | nil => simp
    | cons name rest ih =>
      rintro path p ⟨names, hk, hname, hleads⟩ name' hname'
      rcases List.mem_cons.mp hname' with rfl | hname'
      · rwa [hdir path names hk] at hname
      · exact ih _ _ hleads name' hname'
  intro root hroot
  rw [List.mem_singleton.mp hroot]
  exact ⟨by decide, fun rest path hleads name hname =>
    hportable name (hnames rest boxPath path hleads name hname)⟩

/-- The one folder of the tree has one name in it. -/
theorem names_of_box (path names : List TextName)
    (h : boxTree path = some (.dir (some names))) : names = [⟨"a.txt", by decide⟩] := by
  unfold boxTree at h
  split_ifs at h
  · simpa using h.symm
  · cases h

/-- The box holds no two names that are one in lower case. -/
theorem boxTree_apart (f : String → String) : textNames.Apart boxTree f [boxPath] := by
  refine ⟨List.pairwise_singleton _ _, fun root _ rest path _ names hk => ?_⟩
  rw [names_of_box path names hk]
  exact List.pairwise_singleton _ _

/-- Each name in the box may stand on any system. -/
theorem boxTree_portable : NamesPortable textNames boxTree [boxPath] :=
  portable_of_names names_of_box (by decide)

/-- A folder with a file in it, collected and accepted. -/
theorem collect_pullable_box :
    textNames.collect boxTree 10 [boxPath] = .ok (boxManifest, boxPaths)
      ∧ Listed textNames boxTree [boxPath] 10 boxManifest boxPaths ∧ OneByOne boxManifest
      ∧ Accepted plainCasing.toCasing ["in"] boxManifest := by
  have hcollect : textNames.collect boxTree 10 [boxPath] = .ok (boxManifest, boxPaths) := rfl
  obtain ⟨hlisted, hone, haccepted⟩ :=
    collect_pullable textNames boxTree [boxPath] 10 plainCasing ["in"] hcollect
  exact ⟨hcollect, hlisted, hone (boxTree_apart id),
    haccepted boxTree_portable (boxTree_apart plainCasing.toLowercase)⟩

/-- Tables in which the one letter with case is `A`. -/
def letterCasing : PathCasing where
  lower c := if c = 'A' then ['a'] else [c]
  cased c := c = 'A' || c = 'a'
  caseIgnorable _ := false
  fold c := if c = 'A' then ['a'] else [c]
  lower_slash := rfl
  no_slash c hc := by
    split_ifs
    · decide
    · simpa using hc.symm
  slash_not_cased := rfl
  slash_not_ignorable := rfl

/-- A folder with two files whose names differ in case only. -/
def caseTree : OsTree (List TextName) TextName := fun path =>
  if path.map Subtype.val = ["box"] then
    some (.dir (some [⟨"A.txt", by decide⟩, ⟨"a.txt", by decide⟩]))
  else if path.map Subtype.val = ["box", "A.txt"] ∨ path.map Subtype.val = ["box", "a.txt"] then
    some (.file [])
  else none

/-- What the folder with two spellings of one name holds. -/
theorem names_of_case (path names : List TextName) (h : caseTree path = some (.dir (some names))) :
    names = [⟨"A.txt", by decide⟩, ⟨"a.txt", by decide⟩] := by
  unfold caseTree at h
  split_ifs at h
  · simpa using h.symm
  · cases h

/-- Both files are listed, under portable names, and the other side refuses the second: it could be
the same file there. -/
theorem letter_case_refused : ¬ ∀ (P N : Type) [LE N] [DecidableLE N] (o : OsNames P N)
    (t : OsTree P N) (roots : List P) (maxBytes : Nat) (u : PathCasing) (dest : List String)
    (m : FileManifest) (abs : List P), o.collect t maxBytes roots = .ok (m, abs) →
      Pullable o t roots maxBytes u.toCasing dest m abs := by
  intro hall
  have hpullable := hall (List TextName) TextName textNames caseTree [boxPath] 0 letterCasing []
    _ _ rfl
  have haccepted := hpullable.accepted (portable_of_names names_of_case (by decide))
  revert haccepted
  unfold Accepted
  decide

/-- Two folders, each with a file of the same name. -/
def twoFolders : OsTree (List TextName) TextName := fun path =>
  if (path.map Subtype.val).getLast? = some "x.txt" then some (.file []) else none

/-- Both files are listed as `x.txt`: two entries, one path. -/
theorem shared_name_refused : ¬ ∀ (P N : Type) [LE N] [DecidableLE N] (o : OsNames P N)
    (t : OsTree P N) (roots : List P) (maxBytes : Nat) (u : PathCasing) (dest : List String)
    (m : FileManifest) (abs : List P), o.collect t maxBytes roots = .ok (m, abs) →
      Pullable o t roots maxBytes u.toCasing dest m abs := by
  intro hall
  have hpullable := hall (List TextName) TextName textNames twoFolders
    [[⟨"a", by decide⟩, ⟨"x.txt", by decide⟩], [⟨"b", by decide⟩, ⟨"x.txt", by decide⟩]] 0
    plainCasing [] _ _ rfl
  have hnodup := hpullable.one_by_one.distinct
  revert hnodup
  decide

end GeserDesk
