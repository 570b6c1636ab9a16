import GeserDesk.System.CopyRuns
import GeserDesk.System.TurnedOff

/-!
# The last copy wins

In every run of copies, cursor moves and pulls in which data is copied before any files are, and
files while nobody pulls or is about to, files are pulled and put on a clipboard only while they
are the last copy (`last_copy_wins`). Nothing takes an announcement of files back: after a copy of
text they are pulled as before, and served (`text_takes_nothing_back`).

What a client has to pull once it has handled all that is queued for it is `CopyClient.comes`; that
it is the last copy, and that nothing is announced behind an arrival, is the invariant.
-/

namespace GeserDesk

/-! ## What a client makes of a transfer

A client that hears a transfer has its content and what it announces, once whole. -/

/-- The files a transfer of `content` announces to a client. -/
def SharingConfig.announces (cfg : SharingConfig) (content : ClipboardContent) :
    Option FileManifest :=
  if cfg.Carries content ∧ cfg.options.clipboardFiles = true then content.files cfg.codec else none

/-- Data announces no files. -/
theorem SharingConfig.announces_of_data {cfg : SharingConfig} {content : ClipboardContent}
    (h : content.files cfg.codec = none) : cfg.announces content = none := by
  unfold SharingConfig.announces
  rw [h, ite_self]

namespace ClientClipboard

variable {cfg : SharingConfig} {c : ClientClipboard}

/-- A whole transfer. -/
def gets (cfg : SharingConfig) (c : ClientClipboard) (x : Nat × ClipboardContent) :
    ClientClipboard :=
  match x.2.files cfg.codec with
  | some manifest => c.onFilesAnnounced cfg x.1 manifest
  | none => c

/-- What a client's receiver holds does not change what it gets. -/
theorem gets_inbound (i : Inbound) (x : Nat × ClipboardContent) :
    gets cfg { c with inbound := i } x = { gets cfg c x with inbound := i } := by
  unfold gets onFilesAnnounced
  cases x.2.files cfg.codec with
  | none => rfl
  | some manifest =>
    dsimp only
    split
    · rfl
    · cases c.pendingOwnFiles <;> rfl

/-- What its receiver holds does not change what a client gets over a list of transfers. -/
theorem foldl_gets_inbound (i : Inbound) (xs : List (Nat × ClipboardContent)) :
    xs.foldl (gets cfg) { c with inbound := i } = { xs.foldl (gets cfg) c with inbound := i } := by
  induction xs generalizing c with
  | nil => rfl
  | cons x xs ih => rw [List.foldl_cons, List.foldl_cons, gets_inbound, ih]

/-- Messages are taken in one by one, and each transfer they complete is had whole. -/
theorem foldl_hear (ps : List Push) :
    ps.foldl (fun c p => c.hear cfg p) c
      = { (feed cfg.take c.inbound ps).2.foldl (gets cfg) c with
          inbound := (feed cfg.take c.inbound ps).1 } := by
  induction ps generalizing c with
  | nil => rfl
  | cons p ps ih =>
    have hhear : c.hear cfg p = { (cfg.take c.inbound p).2.toList.foldl (gets cfg) c with
        inbound := (cfg.take c.inbound p).1 } := by
      rw [c.hear_eq cfg p]
      cases (cfg.take c.inbound p).2 with
      | none => rfl
      | some x =>
        rw [Option.toList_some, List.foldl_cons, List.foldl_nil, ← gets_inbound]
        rfl
    rw [List.foldl_cons, ih, hhear, feed_cons]
    dsimp only
    rw [foldl_gets_inbound, List.foldl_append]

/-- The files and the owner after a whole push: as they were, or as it announced them. -/
theorem hear_push (cfg : SharingConfig) (c : ClientClipboard) (seq : Nat)
    (content : ClipboardContent) :
    (cfg.announces content = none →
      ((pushes cfg.codec seq content).foldl (fun c p => c.hear cfg p) c).remoteFiles = c.remoteFiles
      ∧ ((pushes cfg.codec seq content).foldl (fun c p => c.hear cfg p) c).filesOwner
        = c.filesOwner)
    ∧ ∀ manifest, cfg.announces content = some manifest →
      ((pushes cfg.codec seq content).foldl (fun c p => c.hear cfg p) c).remoteFiles = none
      ∨ ((pushes cfg.codec seq content).foldl (fun c p => c.hear cfg p) c).remoteFiles
        = some (seq, manifest) := by
  rw [foldl_hear, cfg.feed_take_pushes]
  unfold SharingConfig.announces
  by_cases hcarries : cfg.Carries content
  · rw [if_pos hcarries, List.foldl_cons, List.foldl_nil]
    dsimp only
    unfold gets onFilesAnnounced
    by_cases hon : cfg.options.clipboardFiles = true
    · rw [if_pos ⟨hcarries, hon⟩]
      refine ⟨fun hnone => ?_, fun manifest hsome => ?_⟩
      · rw [hnone]
        exact ⟨rfl, rfl⟩
      · rw [hsome]
        dsimp only
        rw [hon]
        cases c.pendingOwnFiles with
        | none => exact .inr rfl
        | some own => exact .inl rfl
    · rw [if_neg fun h => hon h.2]
      rw [Bool.not_eq_true] at hon
      refine ⟨fun _ => ?_, nofun⟩
      rw [hon]
      cases content.files cfg.codec <;> exact ⟨rfl, rfl⟩
  · rw [if_neg hcarries, if_neg fun h => hcarries h.1]
    exact ⟨fun _ => ⟨rfl, rfl⟩, nofun⟩

/-- A pull on entry takes the files announced last, and leaves both owners alone. -/
theorem pullOnEnter_spec (cfg : SharingConfig) (c : ClientClipboard) :
    (c.pullOnEnter cfg).1.remoteFiles = c.remoteFiles
    ∧ (c.pullOnEnter cfg).1.filesOwner = c.filesOwner
    ∧ ∀ x, (c.pullOnEnter cfg).2 = some x → c.remoteFiles = some x := by
  unfold pullOnEnter
  split
  · exact ⟨rfl, rfl, nofun⟩
  · split
    · exact ⟨rfl, rfl, nofun⟩
    · next seq manifest hremote =>
      split
      · exact ⟨rfl, rfl, nofun⟩
      · exact ⟨rfl, rfl, fun x hx => hremote.trans hx⟩

/-- What there is to pull and to serve stays as it is, and at most one push of such contents is
sent. -/
def Pushes (cfg : SharingConfig) (c : ClientClipboard) (p : ClipboardContent → Prop)
    (out : ClientClipboard × List Push) : Prop :=
  out.1.remoteFiles = c.remoteFiles ∧ out.1.filesOwner = c.filesOwner
    ∧ (out.2 = [] ∨ ∃ content, out.2 = pushes cfg.codec (c.seq + 1) content ∧ p content)

/-- A change of data, or none, pushes data. -/
theorem pushed_data (cfg : SharingConfig) (c : ClientClipboard) {data : Option ClipboardContent}
    (hdata : data.all fun c => (c.files cfg.codec).isNone) :
    Pushes cfg c (fun content => content.files cfg.codec = none)
      (match (if cfg.options.clipboardSharing then data else none) with
      | some content => c.push cfg content
      | none => (c, [])) := by
  by_cases hon : cfg.options.clipboardSharing
  · rw [if_pos hon]
    cases data with
    | none => exact ⟨rfl, rfl, .inl rfl⟩
    | some content => exact ⟨rfl, rfl, .inr ⟨content, rfl, by simpa using hdata⟩⟩
  · rw [if_neg hon]
    exact ⟨rfl, rfl, .inl rfl⟩

/-- A change of files pushes their manifest where files are shared, and else the data. -/
theorem changed_pushes (cfg : SharingConfig) (c : ClientClipboard)
    (files : Option (FileManifest × List String)) {data : Option ClipboardContent}
    (hdata : data.all fun c => (c.files cfg.codec).isNone) :
    Pushes cfg c (fun content => if c.pushesFiles cfg files then
        cfg.options.clipboardFiles = true ∧ ∃ manifest, content.files cfg.codec = some manifest
      else content.files cfg.codec = none) (c.changed cfg files data) := by
  have hpushed := pushed_data cfg c hdata
  unfold changed pushesFiles
  cases files with
  | none =>
    simp only [ite_self, Bool.false_eq_true, if_false]
    exact hpushed
  | some found =>
    obtain ⟨⟨entries⟩, abs⟩ := found
    by_cases hlooks : c.looksForFiles cfg
    · simp only [hlooks, if_true, Bool.true_and]
      refine ⟨rfl, rfl, .inr ⟨_, rfl, ?_⟩⟩
      cases entries with
      | nil => exact ClipboardContent.files_withFiles_empty cfg.codec
      | cons entry rest =>
        simp only [looksForFiles, Bool.and_eq_true] at hlooks
        exact ⟨hlooks.1, _, ClipboardContent.files_withFiles cfg.codec (List.cons_ne_nil _ _)⟩
    · simp only [hlooks, Bool.false_eq_true, if_false, Bool.false_and]
      exact hpushed

end ClientClipboard

/-! ## What is queued for a client

What a client will have once its queue is empty. -/

/-- The files a queued transfer announces. -/
def Queued.files (cfg : SharingConfig) : Queued → Option (Nat × FileManifest)
  | .copy seq content => (cfg.announces content).map (seq, ·)
  | .enter => none

namespace CopyClient

variable {cfg : SharingConfig} {m : CopyClient}

/-- What a client has to pull at most, once it has handled all that is queued for it. -/
def comes (cfg : SharingConfig) (m : CopyClient) : Option (Nat × FileManifest) :=
  ((m.inbox.filterMap (Queued.files cfg)).getLast?).or m.clip.remoteFiles

/-- A message that announces no files leaves what comes to be pulled as it is. -/
theorem comes_of_none {x : Queued} {inbox : List Queued} (hx : x.files cfg = none) :
    comes cfg { m with inbox := inbox ++ [x] } = comes cfg { m with inbox := inbox } := by
  unfold comes
  dsimp only
  rw [List.filterMap_append, List.filterMap_cons_none hx, List.filterMap_nil, List.append_nil]

/-- A message that announces files is what comes to be pulled. -/
theorem comes_of_some {x : Queued} {inbox : List Queued} {y : Nat × FileManifest}
    (hx : x.files cfg = some y) : comes cfg { m with inbox := inbox ++ [x] } = some y := by
  unfold comes
  dsimp only
  rw [List.filterMap_append, List.filterMap_cons_some hx, List.filterMap_nil, List.getLast?_concat]
  rfl

/-- Nothing new comes of handling a transfer. -/
theorem comes_copy {seq : Nat} {content : ClipboardContent} {rest : List Queued}
    {x : Nat × FileManifest} (hinbox : m.inbox = .copy seq content :: rest)
    (hx : comes cfg { m with
      clip := (pushes cfg.codec seq content).foldl (fun c p => c.hear cfg p) m.clip
      inbox := rest } = some x) : m.comes cfg = some x := by
  obtain ⟨hdata, hfiles⟩ := ClientClipboard.hear_push cfg m.clip seq content
  unfold comes at hx ⊢
  rw [hinbox]
  dsimp only at hx
  cases hann : cfg.announces content with
  | none =>
    have hnone : Queued.files cfg (.copy seq content) = none := by rw [Queued.files, hann]; rfl
    rw [(hdata hann).1] at hx
    rwa [List.filterMap_cons_none hnone]
  | some manifest =>
    have hsome : Queued.files cfg (.copy seq content) = some (seq, manifest) := by
      rw [Queued.files, hann]
      rfl
    rw [List.filterMap_cons_some hsome]
    cases hrest : rest.filterMap (Queued.files cfg) with
    | nil =>
      rw [hrest] at hx
      have hx : _ = some x := hx
      -- it was the last announcement: the client would pull it, or it was an echo
      rcases hfiles manifest hann with hnone | hthis
      · rw [List.getLast?_nil, Option.none_or, hnone] at hx
        cases hx
      · rw [List.getLast?_nil, Option.none_or, hthis] at hx
        exact hx
    | cons y ys =>
      -- another one comes after it
      rw [hrest] at hx
      rwa [List.getLast?_cons_cons]

/-- On entry a client takes the files that were to come: none have come after it. -/
theorem comes_enter {clip : ClientClipboard} {rest : List Queued}
    (hinbox : m.inbox = .enter :: rest) (hclip : clip.remoteFiles = m.clip.remoteFiles) :
    comes cfg { m with clip := clip, inbox := rest } = m.comes cfg := by
  unfold comes
  rw [hinbox, List.filterMap_cons_none rfl]
  dsimp only
  rw [hclip]

/-- All that can come is the last copy, and nothing is announced behind an arrival. -/
structure Ready (cfg : SharingConfig) (latest : LatestCopy) (m : CopyClient) : Prop where
  comes : ∀ seq manifest, m.comes cfg = some (seq, manifest) → latest = .files seq manifest
  behind : m.inbox.Pairwise fun x y => x = .enter → y.files cfg = none

/-- No files have come, nor will. -/
def Idle (cfg : SharingConfig) (m : CopyClient) : Prop :=
  m.clip.filesOwner.current = none ∧ m.comes cfg = none

end CopyClient

namespace CopyRun

structure Inv (cfg : SharingConfig) (s : CopyRun) : Prop where
  clients : ∀ name m, s.clients.get? name = some m → m.Ready cfg s.latest
  current : ∀ owner seq manifest, s.router.current = some (owner, seq, manifest) →
    s.latest = .files seq manifest
  /-- Until the first copy of files. -/
  before : s.router.current = none → (∀ seq manifest, s.latest ≠ .files seq manifest)
    ∧ s.router.localOwner.current = none
    ∧ ∀ name m, s.clients.get? name = some m → m.Idle cfg
  pulling : ∀ p ∈ s.pulling, s.latest = .files p.seq p.manifest
  started : ∀ e ∈ s.started, e.2 = .files e.1.seq e.1.manifest
  pasted : ∀ e ∈ s.pasted, e.2 = .files e.1.seq e.1.manifest

variable {cfg : SharingConfig} {s s' : CopyRun}

/-- Where the invariant holds, the last copy wins. -/
theorem Inv.wins (h : s.Inv cfg) : s.LastCopyWins := by
  refine ⟨h.started, h.pasted, fun hdata => ?_⟩
  -- a copy of data is the last only where no files were copied
  have hnone : s.router.current = none := by
    cases hcur : s.router.current with
    | none => rfl
    | some x =>
      have hfiles := h.current x.1 x.2.1 x.2.2 hcur
      rw [hdata] at hfiles
      cases hfiles
  obtain ⟨-, hlocal, hclients⟩ := h.before hnone
  exact ⟨hlocal, fun name m hm => (hclients name m hm).1⟩

/-- One client changes. -/
theorem Inv.put {name : String} {m k : CopyClient} (h : s.Inv cfg)
    (hm : s.clients.get? name = some m) (hready : k.Ready cfg s.latest)
    (hidle : m.Idle cfg → k.Idle cfg) :
    ({ s with clients := s.clients.put name k } : CopyRun).Inv cfg := by
  refine ⟨fun n x hx => ?_, h.current, fun hnone => ?_, h.pulling, h.started, h.pasted⟩
  · have hx : (s.clients.put name k).get? n = some x := hx
    rw [Dict.get?_put] at hx
    split at hx
    · obtain rfl := Option.some.inj hx
      exact hready
    · exact h.clients n x hx
  · obtain ⟨hlatest, hlocal, hall⟩ := h.before hnone
    refine ⟨hlatest, hlocal, fun n x hx => ?_⟩
    have hx : (s.clients.put name k).get? n = some x := hx
    rw [Dict.get?_put] at hx
    split at hx
    · obtain rfl := Option.some.inj hx
      exact hidle (hall name m hm)
    · exact hall n x hx

/-- A pull is started of what is the last copy. -/
theorem Inv.start {screen : Option String} {pull : Option (Nat × FileManifest)} (h : s.Inv cfg)
    (hpull : ∀ seq manifest, pull = some (seq, manifest) → s.latest = .files seq manifest) :
    (s.start screen pull).Inv cfg := by
  cases pull with
  | none => exact h
  | some x =>
    obtain ⟨seq, manifest⟩ := x
    have hlatest := hpull seq manifest rfl
    refine ⟨h.clients, h.current, h.before, fun p hp => ?_, fun e he => ?_, h.pasted⟩
    · rcases List.mem_append.mp hp with hp | hp
      · exact h.pulling p hp
      · obtain rfl := List.mem_singleton.mp hp
        exact hlatest
    · rcases List.mem_append.mp he with he | he
      · exact h.started e he
      · obtain rfl := List.mem_singleton.mp he
        exact hlatest

/-! ## Copies

A copy anywhere is the last one from then on, and every queue brings it. -/

/-- What a client has queued, after a broadcast. -/
theorem get?_broadcast {except_ : Option String} {content : ClipboardContent} {name : String}
    {m : CopyClient} (hm : (s.broadcast except_ content).clients.get? name = some m) :
    ∃ k, s.clients.get? name = some k
      ∧ m = if some name = except_ then k
        else { k with inbox := k.inbox ++ [.copy (s.seq + 1) content] } := by
  have hm : (s.clients.mapVals fun name m => if some name = except_ then m
      else { m with inbox := m.inbox ++ [.copy (s.seq + 1) content] }).get? name = some m := hm
  rw [Dict.get?_mapVals] at hm
  obtain ⟨k, hk, rfl⟩ := Option.map_eq_some_iff.mp hm
  exact ⟨k, hk, rfl⟩

/-- A copy of data, before any files are copied. -/
theorem Inv.data {except_ : Option String} {content : ClipboardContent} (h : s.Inv cfg)
    (hnone : s.router.current = none) (hdata : content.files cfg.codec = none) :
    (({ s with latest := .data } : CopyRun).broadcast except_ content).Inv cfg := by
  obtain ⟨hlatest, hlocal, hall⟩ := h.before hnone
  have hfiles : Queued.files cfg (.copy (s.seq + 1) content) = none := by
    rw [Queued.files, SharingConfig.announces_of_data hdata]
    rfl
  have hclient : ∀ name m,
      (({ s with latest := .data } : CopyRun).broadcast except_ content).clients.get? name = some m →
      m.Idle cfg ∧ m.inbox.Pairwise fun x y => x = .enter → y.files cfg = none := by
    intro name m hm
    obtain ⟨k, hk, rfl⟩ := get?_broadcast hm
    have hidle := hall name k hk
    have hbehind := (h.clients name k hk).behind
    split
    · exact ⟨hidle, hbehind⟩
    · refine ⟨⟨hidle.1, (CopyClient.comes_of_none hfiles).trans hidle.2⟩, ?_⟩
      rw [List.pairwise_append]
      refine ⟨hbehind, List.pairwise_singleton _ _, fun x _ y hy _ => ?_⟩
      rw [List.mem_singleton.mp hy]
      exact hfiles
  refine ⟨fun name m hm => ⟨fun seq manifest hcomes => ?_, (hclient name m hm).2⟩,
    fun owner seq manifest hcur => ?_, fun _ => ⟨nofun, hlocal, fun name m hm =>
      (hclient name m hm).1⟩, fun p hp => ?_, h.started, h.pasted⟩
  · rw [(hclient name m hm).1.2] at hcomes
    cases hcomes
  · have hcur : s.router.current = _ := hcur
    rw [hnone] at hcur
    cases hcur
  -- there is nothing to pull yet
  · exact absurd (h.pulling p hp) (hlatest _ _)

/-- While the cursor stays nobody has an entry to handle. -/
theorem Still.enter (hstill : s.Still) {name : String} {m : CopyClient}
    (hm : s.clients.get? name = some m) : .enter ∉ m.inbox :=
  hstill.2 name ((Dict.mem_keys_iff _ _).mpr (by rw [hm]; rfl)) m hm

/-- A copy of files while nobody pulls, nor is about to. -/
theorem Inv.files {router : FileRouter Waiting} {owner : Owner} {manifest : FileManifest}
    {content : ClipboardContent} (h : s.Inv cfg) (hstill : s.Still)
    (hcurrent : router.current = some (owner, s.seq + 1, manifest))
    (htaken : Queued.files cfg (.copy (s.seq + 1) content) = some (s.seq + 1, manifest)
      ∨ s.router.current = none ∧ Queued.files cfg (.copy (s.seq + 1) content) = none) :
    (({ s with router := router, latest := .files (s.seq + 1) manifest } : CopyRun).broadcast none
      content).Inv cfg := by
  refine ⟨fun name m hm => ?_, fun o seq m hcur => ?_, fun hnone => ?_, fun p hp => ?_, h.started,
    h.pasted⟩
  · obtain ⟨k, hk, rfl⟩ := get?_broadcast hm
    rw [if_neg nofun]
    refine ⟨fun seq m hcomes => ?_, ?_⟩
    -- each client hears of it last, or of no files at all
    · rcases htaken with hfiles | ⟨hnone, hfiles⟩
      · rw [CopyClient.comes_of_some hfiles] at hcomes
        obtain ⟨rfl, rfl⟩ := Prod.mk.inj (Option.some.inj hcomes)
        rfl
      · rw [CopyClient.comes_of_none hfiles] at hcomes
        have hidle := ((h.before hnone).2.2 name k hk).2
        rw [show ({ k with inbox := k.inbox } : CopyClient).comes cfg = k.comes cfg from rfl,
          hidle] at hcomes
        cases hcomes
    · -- nothing queued is an arrival
      refine List.Pairwise.imp_of_mem (R := fun _ _ => True) (fun {x y} hx _ _ henter => ?_)
        (List.pairwise_of_forall fun _ _ => trivial)
      subst henter
      rcases List.mem_append.mp hx with hx | hx
      · exact absurd hx (hstill.enter hk)
      · cases List.mem_singleton.mp hx
  · have hcur : router.current = some (o, seq, m) := hcur
    rw [hcurrent] at hcur
    cases hcur
    rfl
  · have hnone : router.current = none := hnone
    rw [hcurrent] at hnone
    cases hnone
  · rw [hstill.1] at hp
    cases hp

/-- The relay takes a push: of files, or of data before any. -/
theorem Inv.relayed {from_ : String} {content : ClipboardContent} (h : s.Inv cfg)
    (hcarries : cfg.Carries content)
    (hkind : (s.Still ∧ cfg.options.clipboardFiles = true
        ∧ ∃ manifest, content.files cfg.codec = some manifest)
      ∨ s.router.current = none ∧ content.files cfg.codec = none)
    (hl : s.relayed cfg from_ content = some s') : s'.Inv cfg := by
  unfold CopyRun.relayed SharingConfig.relay at hl
  rcases hkind with ⟨hstill, hon, manifest, hfiles⟩ | ⟨hnone, hdata⟩
  -- files are announced to all, the one that pushed them included
  · rw [hfiles] at hl
    dsimp only at hl
    rw [if_pos hon] at hl
    obtain rfl := Option.some.inj hl
    refine h.files hstill rfl (.inl ?_)
    rw [Queued.files, SharingConfig.announces, if_pos ⟨hcarries, hon⟩, hfiles]
    rfl
  · rw [hdata] at hl
    obtain rfl := Option.some.inj hl
    exact h.data hnone hdata

/-- A copy on a client is its own from then on, and what it heard before gives way to it. -/
theorem Inv.copyOn {name : String} {files : Option (FileManifest × List String)}
    {data : Option ClipboardContent} (h : s.Inv cfg) (hok : s.Timely cfg (.copyOn name files data))
    (hl : s.step cfg (.copyOn name files data) = some s') : s'.Inv cfg := by
  unfold CopyRun.step at hl
  cases hm : s.clients.get? name with
  | none => simp [hm] at hl
  | some m =>
    simp only [hm, Option.ite_none_right_eq_some] at hl
    obtain ⟨hdata, hl⟩ := hl
    have hkind := hok m hm
    obtain ⟨hremote, howner, hpushed⟩ := ClientClipboard.changed_pushes cfg m.clip files hdata
    generalize m.clip.changed cfg files data = out at hl hremote howner hpushed
    obtain ⟨clip, msgs⟩ := out
    -- nothing is pushed, or one transfer that comes through whole
    rcases hpushed with rfl | ⟨content, rfl, hcontent⟩
    · simp [feed] at hl
    · have hout := cfg.feed_take_pushes m.pushed (m.clip.seq + 1) content
      generalize feed cfg.take m.pushed (pushes cfg.codec (m.clip.seq + 1) content) = received
        at hl hout
      obtain ⟨pushed, transfers⟩ := received
      by_cases hcarries : cfg.Carries content
      · rw [if_pos hcarries] at hout
        obtain rfl : transfers = [(m.clip.seq + 1, content)] := hout
        simp only [Option.ite_none_right_eq_some] at hl
        have hready := h.clients name m hm
        have hcomes : CopyClient.comes cfg { m with clip := clip, pushed := pushed }
            = m.comes cfg := by
          unfold CopyClient.comes
          exact congrArg _ hremote
        have hput := h.put hm (k := { m with clip := clip, pushed := pushed })
          ⟨fun seq manifest hc => hready.comes seq manifest (hcomes ▸ hc), hready.behind⟩
          fun hidle => ⟨(congrArg FileOwner.current howner).trans hidle.1, hcomes.trans hidle.2⟩
        -- what is pushed is of the kind the step allows
        refine hput.relayed hcarries ?_ hl.2
        by_cases hfiles : m.clip.pushesFiles cfg files = true
        · rw [if_pos hfiles] at hkind hcontent
          have harrivals := hkind.enter hm
          refine .inl ⟨⟨hkind.1, fun n _ k hk => ?_⟩, hcontent⟩
          have hk : (s.clients.put name { m with clip := clip, pushed := pushed }).get? n
              = some k := hk
          rw [Dict.get?_put] at hk
          split at hk
          · obtain rfl := Option.some.inj hk
            exact harrivals
          · exact hkind.enter hk
        · rw [if_neg hfiles] at hkind hcontent
          exact .inr ⟨hkind, hcontent⟩
      · rw [if_neg hcarries] at hout
        obtain rfl : transfers = [] := hout
        cases hl

/-- A copy of files on the server's desktop announces itself to everybody. -/
theorem Inv.copyFiles {manifest : FileManifest} {abs : List String} (h : s.Inv cfg)
    (hok : s.Timely cfg (.copyFiles manifest abs))
    (hl : s.step cfg (.copyFiles manifest abs) = some s') : s'.Inv cfg := by
  obtain ⟨hon, hl⟩ := Option.ite_none_right_eq_some.mp hl
  obtain rfl := Option.some.inj hl
  refine h.files hok.1 rfl ?_
  unfold Queued.files SharingConfig.announces
  by_cases htaken : manifest.entries ≠ [] ∧ cfg.Carries (.withFiles cfg.codec manifest)
  · left
    dsimp only
    rw [if_pos ⟨htaken.2, hon⟩, ClipboardContent.files_withFiles cfg.codec htaken.1]
    rfl
  · -- the first copy of files, and clients do not take it in
    refine .inr ⟨hok.2.resolve_right htaken, ?_⟩
    dsimp only
    split
    · next hcarries =>
      obtain ⟨_ | ⟨entry, rest⟩⟩ := manifest
      · rw [ClipboardContent.files_withFiles_empty]
        rfl
      · exact absurd ⟨List.cons_ne_nil _ _, hcarries.1⟩ htaken
    · rfl

/-! ## The cursor, and what is queued

A move of the cursor may make a machine pull; hearing takes one message off its queue. -/

/-- A pull on return takes what was announced last. -/
theorem Inv.pullOnReturn (h : s.Inv cfg) : (s.pullOnReturn cfg).Inv cfg := by
  unfold CopyRun.pullOnReturn
  split
  · exact h
  · split
    · next owner seq manifest hcur =>
      split
      · exact h
      · have hmarked : ({ s with lastPulledSeq := some seq } : CopyRun).Inv cfg :=
          ⟨h.clients, h.current, h.before, h.pulling, h.started, h.pasted⟩
        refine hmarked.start fun seq' manifest' heq => ?_
        obtain ⟨rfl, rfl⟩ := Prod.mk.inj (Option.some.inj heq)
        exact h.current _ _ _ hcur
    · exact h

/-- The cursor's move sends one entry to the client it goes to. -/
theorem Inv.move {screen : Option String} (h : s.Inv cfg)
    (hl : s.step cfg (.move screen) = some s') : s'.Inv cfg := by
  simp only [CopyRun.step] at hl
  split at hl
  · cases hl
  · cases screen with
    | none =>
      obtain rfl := Option.some.inj hl
      have hhome : ({ s with active := none } : CopyRun).Inv cfg :=
        ⟨h.clients, h.current, h.before, h.pulling, h.started, h.pasted⟩
      exact hhome.pullOnReturn
    | some name =>
      cases hm : s.clients.get? name with
      | none => simp [hm] at hl
      | some m =>
        simp only [hm] at hl
        obtain rfl := Option.some.inj hl
        have hready := h.clients name m hm
        have hcomes : CopyClient.comes cfg { m with inbox := m.inbox ++ [.enter] } = m.comes cfg :=
          CopyClient.comes_of_none rfl
        have hput := h.put hm (k := { m with inbox := m.inbox ++ [.enter] })
          ⟨fun seq manifest hc => hready.comes seq manifest (hcomes ▸ hc), ?_⟩
          fun hidle => ⟨hidle.1, hcomes.trans hidle.2⟩
        · exact ⟨hput.clients, hput.current, hput.before, hput.pulling, hput.started, hput.pasted⟩
        · rw [List.pairwise_append]
          refine ⟨hready.behind, List.pairwise_singleton _ _, fun x _ y hy _ => ?_⟩
          rw [List.mem_singleton.mp hy]
          rfl

/-- A client hears its messages in the order they were sent. -/
theorem Inv.hear {name : String} (h : s.Inv cfg) (hl : s.step cfg (.hear name) = some s') :
    s'.Inv cfg := by
  unfold CopyRun.step at hl
  cases hm : s.clients.get? name with
  | none => simp [hm] at hl
  | some m =>
    have hready := h.clients name m hm
    have hbehind := hready.behind
    cases hinbox : m.inbox with
    | nil => simp [hm, hinbox] at hl
    | cons x rest =>
      rw [hinbox, List.pairwise_cons] at hbehind
      obtain ⟨hrest, hbehind⟩ := hbehind
      cases x with
      | copy seq content =>
        simp only [hm, hinbox] at hl
        obtain rfl := Option.some.inj hl
        refine h.put hm ⟨fun seq' manifest hc => ?_, hbehind⟩ fun hidle => ⟨?_, ?_⟩
        · exact hready.comes seq' manifest (CopyClient.comes_copy hinbox hc)
        · -- the copy announces nothing: the owner is as it was
          have hnone : cfg.announces content = none := by
            have hcomes := (Option.or_eq_none_iff.mp hidle.2).1
            rw [List.getLast?_eq_none_iff, List.filterMap_eq_nil_iff] at hcomes
            have hfiles := hcomes (.copy seq content) (by rw [hinbox]; exact List.mem_cons_self)
            exact Option.map_eq_none_iff.mp hfiles
          have howner := ((ClientClipboard.hear_push cfg m.clip seq content).1 hnone).2
          exact (congrArg FileOwner.current howner).trans hidle.1
        · cases hcomes : CopyClient.comes cfg { m with
            clip := (pushes cfg.codec seq content).foldl (fun c p => c.hear cfg p) m.clip
            inbox := rest } with
          | none => rfl
          | some y =>
            have := CopyClient.comes_copy hinbox hcomes
            rw [hidle.2] at this
            cases this
      | enter =>
        simp only [hm, hinbox] at hl
        obtain rfl := Option.some.inj hl
        obtain ⟨hremote, howner, hpull⟩ := ClientClipboard.pullOnEnter_spec cfg m.clip
        have hcomes : CopyClient.comes cfg
            { m with clip := (m.clip.pullOnEnter cfg).1, inbox := rest } = m.comes cfg :=
          CopyClient.comes_enter hinbox hremote
        have hput := h.put hm (k := { m with clip := (m.clip.pullOnEnter cfg).1, inbox := rest })
          ⟨fun seq manifest hc => hready.comes seq manifest (hcomes ▸ hc), hbehind⟩
          fun hidle => ⟨(congrArg FileOwner.current howner).trans hidle.1, hcomes.trans hidle.2⟩
        refine hput.start fun seq manifest hx => hready.comes seq manifest ?_
        -- what is announced behind an arrival would have to come after it
        unfold CopyClient.comes
        have hnothing : m.inbox.filterMap (Queued.files cfg) = [] := by
          rw [hinbox, List.filterMap_cons_none rfl, List.filterMap_eq_nil_iff]
          exact fun y hy => hrest y hy rfl
        rw [hnothing]
        exact hpull _ hx

/-- **Every step that comes in time keeps the invariant.** -/
theorem Inv.step {l : CopyLabel} (h : s.Inv cfg) (hok : s.Timely cfg l)
    (hl : s.step cfg l = some s') : s'.Inv cfg := by
  cases l with
  | copyOn name files data => exact h.copyOn hok hl
  | copyData content =>
    obtain ⟨⟨-, hdata⟩, hl⟩ := Option.ite_none_right_eq_some.mp hl
    obtain rfl := Option.some.inj hl
    exact h.data hok (Option.isNone_iff_eq_none.mp hdata)
  | copyFiles manifest abs => exact h.copyFiles hok hl
  | move screen => exact h.move hl
  | hear name => exact h.hear hl
  | finish k =>
    unfold CopyRun.step at hl
    cases hk : s.pulling[k]? with
    | none => simp [hk] at hl
    | some p =>
      simp only [hk] at hl
      obtain rfl := Option.some.inj hl
      refine ⟨h.clients, h.current, h.before, fun q hq => h.pulling q (List.mem_of_mem_eraseIdx hq),
        h.started, fun e he => ?_⟩
      rcases List.mem_append.mp he with he | he
      · exact h.pasted e he
      · obtain rfl := List.mem_singleton.mp he
        exact h.pulling p (List.mem_of_getElem? hk)
  | fail k =>
    obtain ⟨-, hl⟩ := Option.ite_none_right_eq_some.mp hl
    obtain rfl := Option.some.inj hl
    exact ⟨h.clients, h.current, h.before, fun q hq => h.pulling q (List.mem_of_mem_eraseIdx hq),
      h.started, h.pasted⟩

/-- At the start nobody has copied anything. -/
theorem inv_init (h : (copyRuns cfg).init s) : s.Inv cfg := by
  obtain ⟨hrouter, hlatest, -, hpulling, hstarted, hpasted, hclients⟩ := h
  have hnew : ∀ name m, s.clients.get? name = some m → m = {} := by
    intro name m hm
    rcases hclients name with hnone | hsome
    · rw [hnone] at hm
      cases hm
    · rw [hsome] at hm
      exact (Option.some.inj hm).symm
  refine ⟨fun name m hm => ?_, fun owner seq manifest hcur => ?_, fun _ => ⟨?_, ?_, ?_⟩,
    fun p hp => ?_, fun e he => ?_, fun e he => ?_⟩
  · obtain rfl := hnew name m hm
    exact ⟨nofun, List.Pairwise.nil⟩
  · rw [hrouter] at hcur
    cases hcur
  · rw [hlatest]
    nofun
  · rw [hrouter]
  · intro name m hm
    obtain rfl := hnew name m hm
    exact ⟨rfl, rfl⟩
  · rw [hpulling] at hp
    cases hp
  · rw [hstarted] at he
    cases he
  · rw [hpasted] at he
    cases he

end CopyRun

/-- **The last copy wins**, in every run in which data is copied before any files are, and files
while nobody pulls, nor is about to. -/
theorem last_copy_wins (cfg : SharingConfig) (s : CopyRun)
    (hs : (copyRuns cfg).Reach (CopyRun.Timely cfg) s) : s.LastCopyWins := by
  have hinv : s.Inv cfg := hs.invariant (P := CopyRun.Inv cfg) (fun _ h => CopyRun.inv_init h)
    fun s l s' _ h hok hl => h.step hok hl
  exact hinv.wins

/-! ### A copy of text after one of files -/

/-- "a" and "b" are connected. -/
def twoCopyClients : CopyRun := { clients := (Dict.put ∅ "a" {}).put "b" {} }

/-- Two clients that have just connected are a start. -/
theorem init_twoCopyClients (cfg : SharingConfig) : (copyRuns cfg).init twoCopyClients := by
  refine ⟨rfl, rfl, rfl, rfl, rfl, rfl, fun name => ?_⟩
  unfold twoCopyClients
  simp only [Dict.get?_put, Dict.get?_empty]
  by_cases hb : name = "b"
  · simp [hb]
  · by_cases ha : name = "a"
    · simp [ha]
    · simp [ha, hb]

def copiedNote : FileManifest := ⟨[⟨"note.txt", 3, false⟩]⟩

def someText : ClipboardContent := ⟨[⟨"text/plain", [104, 105]⟩]⟩

/-- After text, "a" copies a file and then the server one; each is pulled where the cursor arrives
next. -/
theorem last_copy_wins_two : ∃ s,
    (copyRuns plainSharing).Reach (CopyRun.Timely plainSharing) s
    ∧ s.pasted = [(⟨none, 2, copiedNote⟩, .files 2 copiedNote),
      (⟨some "b", 3, copiedNote⟩, .files 3 copiedNote)]
    ∧ s.LastCopyWins := by
  have hend : ((copyRuns plainSharing).exec (CopyRun.Timely plainSharing) twoCopyClients
      [.copyData someText, .copyOn "a" (some (copiedNote, ["/a/note.txt"])) none,
        .move (some "a"), .hear "a", .hear "a", .hear "a", .move none, .finish 0,
        .copyFiles copiedNote ["/note.txt"], .move (some "b"), .hear "b", .hear "b", .hear "b",
        .hear "b", .finish 0]).any
      (fun s => decide (s.pasted = [(⟨none, 2, copiedNote⟩, .files 2 copiedNote),
        (⟨some "b", 3, copiedNote⟩, .files 3 copiedNote)])) := by
    decide +kernel
  obtain ⟨s, hs, hend⟩ := (Option.any_eq_true _ _).mp hend
  have hreach : (copyRuns plainSharing).Reach (CopyRun.Timely plainSharing) s :=
    Lts.reach_of_exec (init_twoCopyClients plainSharing) hs
  exact ⟨s, hreach, of_decide_eq_true hend, last_copy_wins plainSharing s hreach⟩

/-- The server copies a file and then text, and the cursor arrives at "b": the file is pulled there
and still served. And where it is pulled when the text is copied, it is put on the clipboard
after it. -/
theorem text_takes_nothing_back :
    (∃ s, (copyRuns plainSharing).Reachable s ∧ s.latest = .data
      ∧ s.started = [(⟨some "b", 1, copiedNote⟩, .data)]
      ∧ s.router.localOwner.current = some ⟨1, copiedNote, ["/note.txt"]⟩ ∧ ¬ s.LastCopyWins)
    ∧ ∃ s, (copyRuns plainSharing).Reachable s
      ∧ s.started = [(⟨some "b", 1, copiedNote⟩, .files 1 copiedNote)]
      ∧ s.pasted = [(⟨some "b", 1, copiedNote⟩, .data)] ∧ ¬ s.LastCopyWins := by
  constructor
  -- the text comes before "b" pulls, and the files are still served
  · have hend : ((copyRuns plainSharing).run twoCopyClients [.copyFiles copiedNote ["/note.txt"],
        .copyData someText, .move (some "b"), .hear "b", .hear "b", .hear "b"]).any
        (fun s => decide (s.latest = .data)
          && decide (s.started = [(⟨some "b", 1, copiedNote⟩, .data)])
          && decide (s.router.localOwner.current
            = some ⟨1, copiedNote, ["/note.txt"]⟩)) := by
      decide +kernel
    obtain ⟨s, hs, hend⟩ := (Option.any_eq_true _ _).mp hend
    simp only [Bool.and_eq_true, decide_eq_true_eq] at hend
    obtain ⟨⟨hlatest, hstarted⟩, hserved⟩ := hend
    refine ⟨s, Lts.reachable_of_run (init_twoCopyClients plainSharing) hs, hlatest, hstarted,
      hserved, fun hwins => ?_⟩
    have hnone := (hwins.served hlatest).1
    rw [hserved] at hnone
    cases hnone
  -- the text comes while "b" pulls, and the files are put on the clipboard after it
  · have hend : ((copyRuns plainSharing).run twoCopyClients [.copyFiles copiedNote ["/note.txt"],
        .move (some "b"), .hear "b", .hear "b", .copyData someText, .finish 0]).any
        (fun s => decide (s.started = [(⟨some "b", 1, copiedNote⟩, .files 1 copiedNote)])
          && decide (s.pasted = [(⟨some "b", 1, copiedNote⟩, .data)])) := by
      decide +kernel
    obtain ⟨s, hs, hend⟩ := (Option.any_eq_true _ _).mp hend
    simp only [Bool.and_eq_true, decide_eq_true_eq] at hend
    obtain ⟨hstarted, hpasted⟩ := hend
    refine ⟨s, Lts.reachable_of_run (init_twoCopyClients plainSharing) hs, hstarted, hpasted,
      fun hwins => ?_⟩
    have hlast := hwins.pasted _ (by rw [hpasted]; exact List.mem_singleton.mpr rfl)
    cases hlast

end GeserDesk
