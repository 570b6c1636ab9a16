import GeserDesk.System.AnnounceRuns

/-!
# Announcements of files agree

What the relay last announced against what every client makes of what is queued for it.

* **A push on its way.** While a client waits for an echo, its push is in one place: at its session
  and on to the relay (`outgoing`), or announced and queued (`ahead`). `Own` says so, and that
  nothing is on the way otherwise.
* **The last announcement.** If it is a client's, then for every client it is the last of those
  still to come or, if none is, what the client already has (`UpTo`).
-/

namespace GeserDesk

/-! ## What is still to come

What a client will have heard once its queue and the relay are empty. -/

/-- The clipboard messages the relay is about to queue. -/
def RelayPc.ahead : RelayPc → List Push
  | .idle => []
  | .toRead _ msgs => msgs.filterMap ServerMsg.push?
  | .toQueue _ _ msgs => msgs.filterMap ServerMsg.push?

/-- The announcements of files among transfers. -/
def announcements (cd : Codec) (xs : List (Nat × ClipboardContent)) : List (Nat × FileManifest) :=
  xs.filterMap fun x => (x.2.files cd).map (x.1, ·)

/-- What is announced in two stretches of transfers is announced in one after the other. -/
theorem announcements_append (cd : Codec) (xs ys : List (Nat × ClipboardContent)) :
    announcements cd (xs ++ ys) = announcements cd xs ++ announcements cd ys :=
  List.filterMap_append

/-- A transfer of files announces its manifest. -/
theorem announcements_of_files {cd : Codec} {content : ClipboardContent} {manifest : FileManifest}
    (h : content.files cd = some manifest) (seq : Nat) :
    announcements cd [(seq, content)] = [(seq, manifest)] := by
  unfold announcements
  simp [h]

/-- A transfer of data announces nothing. -/
theorem announcements_of_data {cd : Codec} {content : ClipboardContent}
    (h : content.files cd = none) (seq : Nat) : announcements cd [(seq, content)] = [] := by
  unfold announcements
  simp [h]

/-- Of the messages of a broadcast, those a client takes for parts of a push are the ones cut from
the contents. -/
theorem filterMap_messages (cfg : SharingConfig) (seq : Nat) (content : ClipboardContent) :
    (cfg.messages seq content).filterMap ServerMsg.push? = pushes cfg.codec seq content := by
  rw [cfg.messages_eq, List.filterMap_map]
  exact (List.filterMap_congr fun p _ => push?_server p).trans List.filterMap_some

/-- What the relay is about to broadcast is ahead of it before its look at the screens turned off.
-/
theorem RelayPc.ahead_toRead (cfg : SharingConfig) (except_ : Option String) (seq : Nat)
    (content : ClipboardContent) :
    (RelayPc.toRead except_ (cfg.messages seq content)).ahead = pushes cfg.codec seq content :=
  filterMap_messages cfg seq content

/-- What the relay is about to broadcast is ahead of it after that look as well. -/
theorem RelayPc.ahead_toQueue (cfg : SharingConfig) (except_ : Option String) (off : Finset String)
    (seq : Nat) (content : ClipboardContent) :
    (RelayPc.toQueue except_ off (cfg.messages seq content)).ahead
      = pushes cfg.codec seq content :=
  filterMap_messages cfg seq content

@[simp] theorem RelayPc.ahead_idle : RelayPc.idle.ahead = [] := rfl

/-- What comes of a queue with a push at its end. -/
theorem announcements_feed_pushes (cfg : SharingConfig) (i : Inbound) (ps : List Push) (seq : Nat)
    (content : ClipboardContent) :
    announcements cfg.codec (feed cfg.take i (ps ++ pushes cfg.codec seq content)).2
      = announcements cfg.codec (feed cfg.take i ps).2
        ++ if cfg.Carries content then announcements cfg.codec [(seq, content)] else [] := by
  rw [feed_append]
  dsimp only
  rw [cfg.feed_take_pushes, announcements_append]
  split <;> rfl

namespace AnnounceRun

/-- The announcements `name` will hear of, in order. -/
def ahead (cfg : SharingConfig) (s : AnnounceRun) (name : String) (mc : Machine) :
    List (Nat × FileManifest) :=
  announcements cfg.codec
    (feed cfg.take mc.clip.inbound ((s.clips name).drop mc.taken ++ s.server.relay.ahead)).2

/-- The copies of files of `name`'s that are to reach the relay, in order. -/
def outgoing (cfg : SharingConfig) (s : AnnounceRun) (name : String) (mc : Machine) :
    List ClipboardContent :=
  ((s.server.hub.clipboard.filter fun x => x.from_ = name).map (·.content)
    ++ (s.server.handing.get? name).toList
    ++ (feed cfg.take ((s.server.pushed.get? name).getD {}) mc.up).2.map Prod.snd).filter
      fun c => (c.files cfg.codec).isSome

/-- The announcements to come that are of `name`'s own pushes. -/
def echoes (pushers : Dict Nat String) (name : String) (ahead : List (Nat × FileManifest)) :
    List (Nat × FileManifest) :=
  ahead.filter fun x => pushers.get? x.1 = some name

/-- A client waits for an echo if and only if a push of its own is on the way: to the relay, or
back from it. -/
def Own (cfg : SharingConfig) (pushers : Dict Nat String) (name : String) (mc : Machine)
    (ahead : List (Nat × FileManifest)) (outgoing : List ClipboardContent) : Prop :=
  match mc.clip.pendingOwnFiles with
  | none => outgoing = [] ∧ echoes pushers name ahead = []
  | some (manifest, abs) => cfg.options.clipboardFiles = true ∧ manifest.entries ≠ []
    ∧ cfg.Carries (.withFiles cfg.codec manifest) ∧ mc.copied.getLast? = some (manifest, abs)
    ∧ ((outgoing = [.withFiles cfg.codec manifest] ∧ echoes pushers name ahead = [])
      ∨ (outgoing = [] ∧ ∃ seq, echoes pushers name ahead = [(seq, manifest)]))

/-- A client has what `owner` had announced as transfer `seq`: the owner serves it, with the paths
of its last copy of files, and any other would pull it. -/
def Has (owner : String) (seq : Nat) (manifest : FileManifest) (name : String) (mc : Machine) :
    Prop :=
  if name = owner then ∃ abs, mc.clip.filesOwner.current = some ⟨seq, manifest, abs⟩
    ∧ (mc.clip.pendingOwnFiles = none → mc.copied.getLast? = some (manifest, abs))
  else mc.clip.remoteFiles = some (seq, manifest)

/-- It is the last the client will hear of or, if nothing is to come, the client has it. -/
def UpTo (owner : String) (seq : Nat) (manifest : FileManifest) (name : String) (mc : Machine)
    (ahead : List (Nat × FileManifest)) : Prop :=
  match ahead.getLast? with
  | some last => last = (seq, manifest)
  | none => Has owner seq manifest name mc

/-- The relay sends one transfer, its last; a client's announcement passes nobody over. -/
def RelayOk (cfg : SharingConfig) (s : AnnounceRun) : Prop :=
  match s.server.relay with
  | .idle => True
  | .toRead except_ msgs => ∃ content, msgs = cfg.messages s.server.seq content
    ∧ ((content.files cfg.codec).isSome → except_ = none)
  | .toQueue except_ off msgs => ∃ content, msgs = cfg.messages s.server.seq content
    ∧ ((content.files cfg.codec).isSome → except_ = none)
    ∧ ((s.pushers.get? s.server.seq).isSome →
        ∀ name, (s.machines.get? name).isSome → name ∉ off)

structure AnnounceInv (cfg : SharingConfig) (s : AnnounceRun) : Prop where
  sessions : ∀ name, (s.machines.get? name).isSome → (s.server.pushed.get? name).isSome
  outboxes : ∀ name mc, s.machines.get? name = some mc →
    ∃ ps, s.server.hub.clips name = some ps ∧ mc.taken ≤ ps.length
  handing : ∀ name, (s.server.handing.get? name).isSome → (s.machines.get? name).isSome
  queued : ∀ x ∈ s.server.hub.clipboard, (s.machines.get? x.from_).isSome
  numbered : ∀ name mc, s.machines.get? name = some mc → ∀ x ∈ s.ahead cfg name mc,
    x.1 ≤ s.server.seq
  pushers : ∀ seq owner, s.pushers.get? seq = some owner → seq ≤ s.server.seq
  relay : s.RelayOk cfg
  own : ∀ name mc, s.machines.get? name = some mc →
    Own cfg s.pushers name mc (s.ahead cfg name mc) (s.outgoing cfg name mc)
  current : ∀ owner seq manifest,
    s.server.router.current = some (.client owner, seq, manifest) →
      cfg.options.clipboardFiles = true ∧ s.pushers.get? seq = some owner
      ∧ ∀ name mc, s.machines.get? name = some mc →
        UpTo owner seq manifest name mc (s.ahead cfg name mc)

variable {cfg : SharingConfig} {s t : AnnounceRun}

/-! ## Steps that change nothing on the way

Most steps move an announcement along without changing what is to come. -/

/-- Nothing changes of what is on the way to anyone, nor of who has what. -/
theorem AnnounceInv.of_same (h : AnnounceInv cfg s) (hmachines : t.machines = s.machines)
    (hnoted : t.pushers = s.pushers) (hpushed : t.server.pushed = s.server.pushed)
    (hcurrent : t.server.router.current = s.server.router.current)
    (hseq : s.server.seq ≤ t.server.seq)
    (hclips : t.server.hub.clips = s.server.hub.clips)
    (hhanding : ∀ name, (t.server.handing.get? name).isSome → (s.machines.get? name).isSome)
    (hqueued : ∀ x ∈ t.server.hub.clipboard, (s.machines.get? x.from_).isSome)
    (hrelay : t.RelayOk cfg)
    (hahead : ∀ name mc, s.machines.get? name = some mc →
      t.ahead cfg name mc = s.ahead cfg name mc)
    (houtgoing : ∀ name mc, t.outgoing cfg name mc = s.outgoing cfg name mc) :
    AnnounceInv cfg t where
  -- field by field, each from the one before it
  sessions name hname := by
    rw [hpushed]
    rw [hmachines] at hname
    exact h.sessions name hname
  outboxes name mc hmc := by
    rw [hmachines] at hmc
    rw [hclips]
    exact h.outboxes name mc hmc
  handing := by rwa [hmachines]
  queued := by rwa [hmachines]
  numbered name mc hmc x hx := by
    rw [hmachines] at hmc
    rw [hahead name mc hmc] at hx
    exact (h.numbered name mc hmc x hx).trans hseq
  pushers seq owner hown := by
    rw [hnoted] at hown
    exact (h.pushers seq owner hown).trans hseq
  relay := hrelay
  own name mc hmc := by
    rw [hmachines] at hmc
    rw [hnoted, hahead name mc hmc, houtgoing]
    exact h.own name mc hmc
  current owner seq manifest hcur := by
    rw [hcurrent] at hcur
    obtain ⟨hfiles, hpusher, hup⟩ := h.current owner seq manifest hcur
    refine ⟨hfiles, by rwa [hnoted], fun name mc hmc => ?_⟩
    rw [hmachines] at hmc
    rw [hahead name mc hmc]
    exact hup name mc hmc

/-- A machine that runs is registered, and has taken no more of its queue than there is. -/
theorem clips_eq (h : AnnounceInv cfg s) {name : String} {mc : Machine}
    (hmc : s.machines.get? name = some mc) :
    s.server.hub.clips name = some (s.clips name) ∧ mc.taken ≤ (s.clips name).length := by
  obtain ⟨ps, hps, hlen⟩ := h.outboxes name mc hmc
  have hclips : s.clips name = ps := by rw [clips, hps]; rfl
  rw [hclips]
  exact ⟨hps, hlen⟩

/-- The relay begins its next transfer. -/
structure Begins (cfg : SharingConfig) (s t : AnnounceRun) (except_ : Option String)
    (content : ClipboardContent) : Prop where
  machines : t.machines = s.machines
  pushed : t.server.pushed = s.server.pushed
  handing : t.server.handing = s.server.handing
  clips : t.server.hub.clips = s.server.hub.clips
  idle : s.server.relay = .idle
  seq : t.server.seq = s.server.seq + 1
  relay : t.server.relay = .toRead except_ (cfg.messages (s.server.seq + 1) content)

/-- What it carries comes after all that is to come. -/
theorem Begins.ahead {except_ : Option String} {content : ClipboardContent}
    (hb : Begins cfg s t except_ content) (name : String) (mc : Machine) :
    t.ahead cfg name mc = s.ahead cfg name mc ++ if cfg.Carries content then
      announcements cfg.codec [(s.server.seq + 1, content)] else [] := by
  unfold AnnounceRun.ahead AnnounceRun.clips
  rw [hb.clips, hb.relay, hb.idle, RelayPc.ahead_toRead, announcements_feed_pushes,
    RelayPc.ahead_idle, List.append_nil]

/-- What a broadcast that begins leaves in the relay's hands is cut from one push. -/
theorem Begins.relayOk {except_ : Option String} {content : ClipboardContent}
    (hb : Begins cfg s t except_ content)
    (hexcept : (content.files cfg.codec).isSome → except_ = none) : t.RelayOk cfg := by
  unfold RelayOk
  rw [hb.relay, hb.seq]
  exact ⟨content, rfl, hexcept⟩

/-- Announcements under a number nobody's push has yet are no echoes. -/
theorem echoes_append_of_fresh {pushers : Dict Nat String} {name : String} {seq : Nat}
    (hfresh : pushers.get? seq = none) (xs : List (Nat × FileManifest))
    {extra : List (Nat × FileManifest)} (hextra : ∀ x ∈ extra, x.1 = seq) :
    echoes pushers name (xs ++ extra) = echoes pushers name xs := by
  have hnone : extra.filter (fun x => pushers.get? x.1 = some name) = [] := by
    refine List.filter_eq_nil_iff.mpr fun x hx => ?_
    rw [hextra x hx, hfresh]
    simp
  unfold echoes
  rw [List.filter_append, hnone, List.append_nil]

/-- Recording who pushed a new transfer makes no echo of an older one. -/
theorem echoes_put {pushers : Dict Nat String} {name owner : String} {seq : Nat}
    {xs : List (Nat × FileManifest)} (hle : ∀ x ∈ xs, x.1 ≤ seq) :
    echoes (pushers.put (seq + 1) owner) name xs = echoes pushers name xs := by
  refine List.filter_congr fun x hx => ?_
  have hne : x.1 ≠ seq + 1 := by
    have := hle x hx
    omega
  rw [Dict.get?_put, if_neg hne]

/-- The next announcement to come is an echo. -/
theorem echoes_cons_mine {pushers : Dict Nat String} {name : String} {x : Nat × FileManifest}
    {xs : List (Nat × FileManifest)} (hmine : pushers.get? x.1 = some name) :
    echoes pushers name (x :: xs) = x :: echoes pushers name xs :=
  List.filter_cons_of_pos (by rw [hmine]; simp)

/-- A queue without echoes has none further on. -/
theorem echoes_tail {pushers : Dict Nat String} {name : String} {x : Nat × FileManifest}
    {xs : List (Nat × FileManifest)} (h : echoes pushers name (x :: xs) = []) :
    echoes pushers name xs = [] :=
  List.filter_eq_nil_iff.mpr fun y hy =>
    List.filter_eq_nil_iff.mp h y (List.mem_cons_of_mem x hy)

/-- What one transfer announces goes under its own number. -/
theorem mem_announcements_one {cd : Codec} {seq : Nat} {content : ClipboardContent}
    {x : Nat × FileManifest} (hx : x ∈ announcements cd [(seq, content)]) : x.1 = seq := by
  unfold announcements at hx
  obtain ⟨y, hy, hxy⟩ := List.mem_filterMap.mp hx
  obtain rfl := List.mem_singleton.mp hy
  obtain ⟨m, -, rfl⟩ := Option.map_eq_some_iff.mp hxy
  rfl

/-- The number of the next transfer is not noted for anybody yet. -/
theorem AnnounceInv.fresh (h : AnnounceInv cfg s) : s.pushers.get? (s.server.seq + 1) = none := by
  cases hp : s.pushers.get? (s.server.seq + 1) with
  | none => rfl
  | some owner =>
    have := h.pushers _ owner hp
    omega

/-! ## The sessions hand pushes on -/

/-- A push goes from its session to the relay's queue. -/
theorem AnnounceInv.hand (h : AnnounceInv cfg s) {name : String}
    (hs : (announceRuns cfg).step s (.hand name) = some t) : AnnounceInv cfg t := by
  obtain ⟨server, hserver, rfl⟩ := Option.map_eq_some_iff.mp hs
  simp only [SharingRun.step] at hserver
  cases hhand : s.server.handing.get? name with
  | none => rw [hhand] at hserver; cases hserver
  | some content =>
    rw [hhand] at hserver
    cases hserver
    have hname : (s.machines.get? name).isSome := h.handing name (by rw [hhand]; rfl)
    refine h.of_same rfl rfl rfl rfl (Nat.le_refl _) rfl (fun n hn => ?_)
      (fun x hx => ?_) h.relay (fun _ _ _ => rfl) (fun n mc => ?_)
    · rw [Dict.get?_drop] at hn
      split at hn
      · cases hn
      · exact h.handing n hn
    · rcases List.mem_append.mp hx with hx | hx
      · exact h.queued x hx
      · rw [List.mem_singleton.mp hx]
        exact hname
    · -- what the session held is now last in the relay's queue
      unfold outgoing
      congr 1
      show ((s.server.hub.clipboard ++ [(⟨name, content⟩ : SharedClip)]).filter _).map _
        ++ ((s.server.handing.drop name).get? n).toList ++ _ = _
      rw [List.filter_append, List.map_append, Dict.get?_drop]
      by_cases hn : n = name
      · subst hn
        rw [if_pos rfl, hhand]
        simp
      · have hother : ([⟨name, content⟩] : List SharedClip).filter (fun x => x.from_ = n) = [] := by
          simp [Ne.symm hn]
        rw [if_neg hn, hother, List.map_nil, List.append_nil]

/-! ## The relay

The relay takes a push off, reads it and queues it. At each stage the pushes are the same. -/

/-- The relay's look at the screens turned off moves nothing that is announced. -/
theorem AnnounceInv.readOff (h : AnnounceInv cfg s) (hok : s.Orderly cfg .readOff)
    (hs : (announceRuns cfg).step s .readOff = some t) : AnnounceInv cfg t := by
  obtain ⟨server, hserver, rfl⟩ := Option.map_eq_some_iff.mp hs
  simp only [SharingRun.step] at hserver
  have hrelay := h.relay
  unfold RelayOk at hrelay
  split at hserver
  · next except_ msgs hpc =>
    cases hserver
    rw [hpc] at hrelay
    obtain ⟨content, rfl, hexcept⟩ := hrelay
    refine h.of_same rfl rfl rfl rfl (Nat.le_refl _) rfl h.handing h.queued
      ⟨content, rfl, hexcept, fun hpusher name hname => ?_⟩ (fun name mc _ => ?_) (fun _ _ => rfl)
    · exact hok hpusher name ((Dict.mem_keys_iff s.machines name).mpr hname)
    · unfold ahead clips
      rw [hpc]
      rfl
  · cases hserver

/-- Turning a screen off or on leaves every queue and every owner as they are. -/
theorem AnnounceInv.setDisabled (h : AnnounceInv cfg s) {name : String} {disabled : Bool}
    (hs : (announceRuns cfg).step s (.setDisabled name disabled) = some t) :
    AnnounceInv cfg t := by
  cases hs
  obtain ⟨hclients, hclipboard, -⟩ := Hub.setDisabled_frame s.server.hub name disabled
  have hclips := Hub.clips_congr hclients
  refine h.of_same rfl rfl rfl rfl (Nat.le_refl _) hclips h.handing (fun x hx => ?_) h.relay
    (fun n mc _ => ?_) (fun n mc => ?_)
  · exact h.queued x (hclipboard ▸ hx)
  · unfold ahead clips
    rw [hclips]
  · unfold outgoing
    rw [hclipboard]

/-- A transfer of data, from the relay's queue or the server's own. -/
theorem AnnounceInv.data_begins (h : AnnounceInv cfg s) {except_ : Option String}
    {content : ClipboardContent} (hb : Begins cfg s t except_ content)
    (hdata : content.files cfg.codec = none) (hnoted : t.pushers = s.pushers)
    (hcurrent : t.server.router.current = s.server.router.current)
    (hqueued : ∀ x ∈ t.server.hub.clipboard, x ∈ s.server.hub.clipboard)
    (houtgoing : ∀ name mc, t.outgoing cfg name mc = s.outgoing cfg name mc) :
    AnnounceInv cfg t := by
  refine h.of_same hb.machines hnoted hb.pushed hcurrent (by rw [hb.seq]; exact Nat.le_succ _)
    hb.clips (by rw [hb.handing]; exact h.handing) (fun x hx => h.queued x (hqueued x hx))
    (hb.relayOk fun hsome => ?_) (fun name mc _ => ?_) houtgoing
  · rw [hdata] at hsome
    cases hsome
  · rw [hb.ahead, announcements_of_data hdata, ite_self, List.append_nil]

/-- A copy of data on the server's own desktop begins a transfer that announces nothing. -/
theorem AnnounceInv.copyData (h : AnnounceInv cfg s) {content : ClipboardContent}
    (hs : (announceRuns cfg).step s (.copyData content) = some t) : AnnounceInv cfg t := by
  simp only [announceRuns, step] at hs
  split at hs
  · next hdata =>
    obtain ⟨server, hserver, rfl⟩ := Option.map_eq_some_iff.mp hs
    simp only [SharingRun.step] at hserver
    split at hserver
    · next hidle =>
      cases hserver
      have hb : Begins cfg s { s with server := { s.server with
          seq := s.server.seq + 1
          relay := .toRead none (cfg.messages (s.server.seq + 1) content) } } none content :=
        ⟨rfl, rfl, rfl, rfl, hidle.1, rfl, rfl⟩
      exact h.data_begins hb (Option.isNone_iff_eq_none.mp hdata) rfl rfl (fun _ hx => hx)
        fun _ _ => rfl
    · cases hserver
  · cases hs

/-- The server's own files: whoever's were announced before, they are not any more. -/
theorem AnnounceInv.copyFiles (h : AnnounceInv cfg s) {manifest : FileManifest} {abs : List String}
    (hs : (announceRuns cfg).step s (.copyFiles manifest abs) = some t) : AnnounceInv cfg t := by
  obtain ⟨server, hserver, rfl⟩ := Option.map_eq_some_iff.mp hs
  simp only [SharingRun.step] at hserver
  split at hserver
  · next hidle =>
    obtain rfl := Option.some.inj hserver
    generalize ht : ({ s with server := _ } : AnnounceRun) = t
    have hb : Begins cfg s t none (.withFiles cfg.codec manifest) := by
      subst ht
      exact ⟨rfl, rfl, rfl, rfl, hidle.1, rfl, rfl⟩
    have hnoted : t.pushers = s.pushers := by rw [← ht]
    have hqueue : t.server.hub.clipboard = s.server.hub.clipboard := by rw [← ht]
    have hcurrent : t.server.router.current = some (.server, s.server.seq + 1, manifest) := by
      rw [← ht]
      rfl
    clear ht hserver
    -- everybody will hear of it, and nobody takes it for an echo
    have hextra : ∀ x ∈ (if cfg.Carries (.withFiles cfg.codec manifest) then
        announcements cfg.codec [(s.server.seq + 1, .withFiles cfg.codec manifest)] else []),
        x.1 = s.server.seq + 1 := by
      intro x hx
      split at hx
      · exact mem_announcements_one hx
      · cases hx
    constructor
    · rw [hb.machines, hb.pushed]
      exact h.sessions
    · rw [hb.machines, hb.clips]
      exact h.outboxes
    · rw [hb.machines, hb.handing]
      exact h.handing
    · rw [hb.machines, hqueue]
      exact h.queued
    · intro name mc hmc x hx
      rw [hb.machines] at hmc
      rw [hb.ahead] at hx
      rw [hb.seq]
      rcases List.mem_append.mp hx with hx | hx
      · exact (h.numbered name mc hmc x hx).trans (Nat.le_succ _)
      · exact (hextra x hx).le
    · intro seq owner hown
      rw [hnoted] at hown
      rw [hb.seq]
      exact (h.pushers seq owner hown).trans (Nat.le_succ _)
    · exact hb.relayOk fun _ => rfl
    · intro name mc hmc
      rw [hb.machines] at hmc
      have hout : t.outgoing cfg name mc = s.outgoing cfg name mc := by
        unfold outgoing
        rw [hqueue, hb.handing, hb.pushed]
      have hecho : echoes t.pushers name (t.ahead cfg name mc)
          = echoes s.pushers name (s.ahead cfg name mc) := by
        rw [hnoted, hb.ahead, echoes_append_of_fresh h.fresh _ hextra]
      have hown := h.own name mc hmc
      unfold Own at hown ⊢
      rw [hout, hecho]
      exact hown
    · intro owner seq m hcur
      rw [hcurrent] at hcur
      cases hcur
  · cases hserver

/-- The relay announces the files a client waits for the echo of. -/
theorem AnnounceInv.announces (h : AnnounceInv cfg s) {from_ : String} {mcf : Machine}
    {content : ClipboardContent} {manifest : FileManifest} {abs : List String}
    (hb : Begins cfg s t none content) (hmcf : s.machines.get? from_ = some mcf)
    (hpending : mcf.clip.pendingOwnFiles = some (manifest, abs))
    (hon : cfg.options.clipboardFiles = true) (hne : manifest.entries ≠ [])
    (hcarries : cfg.Carries (.withFiles cfg.codec manifest))
    (hlast : mcf.copied.getLast? = some (manifest, abs))
    (hecho : echoes s.pushers from_ (s.ahead cfg from_ mcf) = [])
    (hpushers : t.pushers = s.pushers.put (s.server.seq + 1) from_)
    (hqueued : ∀ x ∈ t.server.hub.clipboard, x ∈ s.server.hub.clipboard)
    (hcurrent : t.server.router.current = some (.client from_, s.server.seq + 1, manifest))
    (hahead : ∀ name mc, t.ahead cfg name mc
      = s.ahead cfg name mc ++ [(s.server.seq + 1, manifest)])
    (hall : t.outgoing cfg from_ mcf = [])
    (hother : ∀ name mc, name ≠ from_ → t.outgoing cfg name mc = s.outgoing cfg name mc) :
    AnnounceInv cfg t := by
  -- the new announcement is an echo for its pusher, and for nobody else
  have hechoes : ∀ name mc, s.machines.get? name = some mc →
      echoes t.pushers name (t.ahead cfg name mc) = echoes s.pushers name (s.ahead cfg name mc)
        ++ if name = from_ then [(s.server.seq + 1, manifest)] else [] := by
    intro name mc hmc
    have hold : echoes (s.pushers.put (s.server.seq + 1) from_) name (s.ahead cfg name mc) = _ :=
      echoes_put (h.numbered name mc hmc)
    rw [hahead, hpushers]
    unfold echoes at hold ⊢
    rw [List.filter_append, hold]
    congr 1
    by_cases hn : name = from_
    · simp [hn]
    · simp [hn, Ne.symm hn]
  constructor
  · rw [hb.machines, hb.pushed]
    exact h.sessions
  · rw [hb.machines, hb.clips]
    exact h.outboxes
  · rw [hb.machines, hb.handing]
    exact h.handing
  · rw [hb.machines]
    exact fun x hx => h.queued x (hqueued x hx)
  · intro name mc hmc x hx
    rw [hb.machines] at hmc
    rw [hahead] at hx
    rw [hb.seq]
    rcases List.mem_append.mp hx with hx | hx
    · exact (h.numbered name mc hmc x hx).trans (Nat.le_succ _)
    · rw [List.mem_singleton.mp hx]
  · intro seq owner hown
    rw [hpushers, Dict.get?_put] at hown
    rw [hb.seq]
    split at hown
    · next hseq => exact hseq.le
    · exact (h.pushers seq owner hown).trans (Nat.le_succ _)
  · exact hb.relayOk fun _ => rfl
  · intro name mc hmc
    rw [hb.machines] at hmc
    have hown := h.own name mc hmc
    by_cases hn : name = from_
    · subst hn
      obtain rfl : mcf = mc := Option.some.inj (hmcf.symm.trans hmc)
      unfold Own
      rw [hpending]
      refine ⟨hon, hne, hcarries, hlast, .inr ⟨hall, s.server.seq + 1, ?_⟩⟩
      rw [hechoes name mcf hmc, hecho, if_pos rfl]
      rfl
    · unfold Own at hown ⊢
      rw [hechoes name mc hmc, if_neg hn, List.append_nil, hother name mc hn]
      exact hown
  · intro owner seq m hcur
    rw [hcurrent] at hcur
    obtain ⟨rfl, rfl, rfl⟩ : from_ = owner ∧ s.server.seq + 1 = seq ∧ manifest = m := by
      simpa using hcur
    refine ⟨hon, by rw [hpushers, Dict.get?_put, if_pos rfl], fun name mc _ => ?_⟩
    unfold UpTo
    rw [hahead, List.getLast?_concat]

/-- A push of files is noted under the number it is passed on with, for its client. -/
theorem noted_of_announced {from_ : String} {content : ClipboardContent}
    {rest : List SharedClip} {manifest : FileManifest}
    (hclip : s.server.hub.clipboard = ⟨from_, content⟩ :: rest)
    (hrelay : cfg.relay content = .announced manifest) :
    s.noted cfg = s.pushers.put (s.server.seq + 1) from_ := by
  simp only [noted, hclip, hrelay]

/-- A push of data is not noted. -/
theorem noted_of_applied {from_ : String} {content : ClipboardContent}
    {rest : List SharedClip}
    (hclip : s.server.hub.clipboard = ⟨from_, content⟩ :: rest)
    (hrelay : cfg.relay content = .applied) : s.noted cfg = s.pushers := by
  simp only [noted, hclip, hrelay]

/-- What the relay takes is a client's whole push, of files or of data. -/
theorem AnnounceInv.relay_step (h : AnnounceInv cfg s)
    (hs : (announceRuns cfg).step s .relay = some t) : AnnounceInv cfg t := by
  obtain ⟨server, hserver, rfl⟩ := Option.map_eq_some_iff.mp hs
  simp only [SharingRun.step] at hserver
  split at hserver
  · next from_ content rest hidle hclip =>
    have hrest : ∀ x ∈ rest, x ∈ s.server.hub.clipboard := by
      intro x hx
      rw [hclip]
      exact List.mem_cons_of_mem _ hx
    have hfrom : (s.machines.get? from_).isSome := h.queued ⟨from_, content⟩ (by
      rw [hclip]
      exact List.mem_cons_self)
    obtain ⟨mcf, hmcf⟩ := Option.isSome_iff_exists.mp hfrom
    cases hfiles : content.files cfg.codec with
    | none =>
      have hrelay : cfg.relay content = .applied := by
        unfold SharingConfig.relay
        rw [hfiles]
      rw [hrelay] at hserver
      obtain rfl := Option.some.inj hserver
      rw [noted_of_applied hclip hrelay]
      generalize ht : ({ s with server := _, pushers := s.pushers } : AnnounceRun) = t
      have hb : Begins cfg s t (some from_) content := by
        subst ht
        exact ⟨rfl, rfl, rfl, rfl, hidle, rfl, rfl⟩
      refine h.data_begins hb hfiles (by rw [← ht]) (by rw [← ht]) ?_ fun name mc => ?_
      · rw [← ht]
        exact hrest
      · rw [← ht]
        unfold outgoing
        rw [hclip, List.filter_append, List.filter_append, List.filter_append, List.filter_append]
        congr 2
        by_cases hn : from_ = name
        · rw [List.filter_cons_of_pos (by simpa using hn), List.map_cons,
            List.filter_cons_of_neg (by simp [hfiles])]
        · rw [List.filter_cons_of_neg (by simpa using hn)]
    | some manifest =>
      have hmine : s.outgoing cfg from_ mcf = content :: ((((rest.filter fun x => x.from_ = from_).map
            (·.content)) ++ (s.server.handing.get? from_).toList
          ++ (feed cfg.take ((s.server.pushed.get? from_).getD {}) mcf.up).2.map Prod.snd).filter
            fun c => (c.files cfg.codec).isSome) := by
        unfold outgoing
        rw [hclip, List.filter_cons_of_pos (by simp), List.map_cons, List.cons_append,
          List.cons_append, List.filter_cons_of_pos (by simp [hfiles])]
      -- it is the one push its client waits for
      have hown := h.own from_ mcf hmcf
      unfold Own at hown
      cases hpending : mcf.clip.pendingOwnFiles with
      | none =>
        rw [hpending, hmine] at hown
        cases hown.1
      | some mine =>
        obtain ⟨own, abs⟩ := mine
        rw [hpending] at hown
        obtain ⟨hon, hne, hcarries, hlast, hway⟩ := hown
        rcases hway with ⟨hout, hecho⟩ | ⟨hout, -⟩
        · rw [hmine] at hout
          obtain ⟨hcontent, hnomore⟩ := List.cons.inj hout
          have hown : manifest = own := by
            rw [hcontent, ClipboardContent.files_withFiles cfg.codec hne] at hfiles
            exact (Option.some.inj hfiles).symm
          subst hown
          have hrelay : cfg.relay content = .announced manifest := by
            unfold SharingConfig.relay
            rw [hfiles]
            exact if_pos hon
          rw [hrelay] at hserver
          obtain rfl := Option.some.inj hserver
          rw [noted_of_announced hclip hrelay]
          generalize ht : ({ s with server := _, pushers := _ } : AnnounceRun) = t
          have hb : Begins cfg s t none content := by
            subst ht
            exact ⟨rfl, rfl, rfl, rfl, hidle, rfl, rfl⟩
          have hpushers : t.pushers = s.pushers.put (s.server.seq + 1) from_ := by rw [← ht]
          have hqueue : t.server.hub.clipboard = rest := by rw [← ht]
          have hcurrent : t.server.router.current
              = some (.client from_, s.server.seq + 1, manifest) := by
            rw [← ht]
            rfl
          have hahead : ∀ name mc, t.ahead cfg name mc
              = s.ahead cfg name mc ++ [(s.server.seq + 1, manifest)] := by
            intro name mc
            rw [hb.ahead, if_pos (by rw [hcontent]; exact hcarries), announcements_of_files hfiles]
          have hotherwise : ∀ name mc, name ≠ from_ →
              t.outgoing cfg name mc = s.outgoing cfg name mc := by
            intro name mc hn
            unfold outgoing
            rw [hqueue, hb.handing, hb.pushed, hclip,
              List.filter_cons_of_neg (by simpa using Ne.symm hn)]
          have hall : t.outgoing cfg from_ mcf = [] := by
            unfold outgoing
            rw [hqueue, hb.handing, hb.pushed]
            exact hnomore
          refine h.announces hb hmcf hpending hon hne hcarries hlast hecho hpushers ?_ hcurrent
            hahead hall hotherwise
          rw [hqueue]
          exact hrest
        · rw [hmine] at hout
          cases hout
  · cases hserver

/-- A broadcast that is queued was to come already, except for those it passes over; it passes
nobody over that it matters to. -/
theorem ahead_queued (h : AnnounceInv cfg s) {except_ : Option String} {off : Finset String}
    {msgs : List ServerMsg} (hpc : s.server.relay = .toQueue except_ off msgs)
    (hclips : t.server.hub.clips = (s.server.hub.queueAll except_ off msgs).clips)
    (hrelay : t.server.relay = .idle) {name : String} {mc : Machine}
    (hmc : s.machines.get? name = some mc) :
    ∃ extra, s.ahead cfg name mc = t.ahead cfg name mc ++ extra
      ∧ (∀ x ∈ extra, x.1 = s.server.seq)
      ∧ (extra ≠ [] → s.pushers.get? s.server.seq = none) := by
  have hok := h.relay
  unfold RelayOk at hok
  rw [hpc] at hok
  obtain ⟨content, rfl, hexcept, hpassed⟩ := hok
  obtain ⟨hsome, htaken⟩ := clips_eq h hmc
  have hqueued : t.clips name = if some name ≠ except_ ∧ name ∉ off then
      s.clips name ++ pushes cfg.codec s.server.seq content else s.clips name := by
    unfold clips at hsome ⊢
    rw [hclips, cfg.messages_eq, Hub.clips_queueAll, hsome]
    rfl
  have hbefore : s.ahead cfg name mc = announcements cfg.codec (feed cfg.take mc.clip.inbound
      ((s.clips name).drop mc.taken ++ pushes cfg.codec s.server.seq content)).2 := by
    unfold ahead
    rw [hpc, RelayPc.ahead_toQueue]
  have hafter : t.ahead cfg name mc = announcements cfg.codec (feed cfg.take mc.clip.inbound
      ((t.clips name).drop mc.taken)).2 := by
    unfold ahead
    rw [hrelay, RelayPc.ahead_idle, List.append_nil]
  rw [hbefore, hafter, hqueued]
  by_cases hto : some name ≠ except_ ∧ name ∉ off
  · rw [if_pos hto, List.drop_append_of_le_length htaken]
    exact ⟨[], (List.append_nil _).symm, nofun, fun hne => absurd rfl hne⟩
  · rw [if_neg hto, announcements_feed_pushes]
    refine ⟨_, rfl, fun x hx => ?_, fun hne => ?_⟩
    · split at hx
      · exact mem_announcements_one hx
      · cases hx
    · -- it is passed over, so the broadcast is not a client's files
      cases hfiles : content.files cfg.codec with
      | none => exact absurd (by rw [announcements_of_data hfiles, ite_self]) hne
      | some manifest =>
        by_contra hsome
        have hnone := hexcept (by rw [hfiles]; rfl)
        refine hto ⟨by rw [hnone]; exact nofun, hpassed ?_ name (by rw [hmc]; rfl)⟩
        exact Option.ne_none_iff_isSome.mp hsome

/-- The relay's sends: each client's queue grows by the whole broadcast, which was ahead of it. -/
theorem AnnounceInv.queue (h : AnnounceInv cfg s)
    (hs : (announceRuns cfg).step s .queue = some t) : AnnounceInv cfg t := by
  obtain ⟨server, hserver, rfl⟩ := Option.map_eq_some_iff.mp hs
  simp only [SharingRun.step] at hserver
  split at hserver
  · next except_ off msgs hpc =>
    obtain rfl := Option.some.inj hserver
    generalize ht : ({ s with server := _ } : AnnounceRun) = t
    have hclips : t.server.hub.clips = (s.server.hub.queueAll except_ off msgs).clips := by rw [← ht]
    have hrelay : t.server.relay = .idle := by rw [← ht]
    have hmachines : t.machines = s.machines := by rw [← ht]
    have hnoted : t.pushers = s.pushers := by rw [← ht]
    have hseq : t.server.seq = s.server.seq := by rw [← ht]
    have hpushed : t.server.pushed = s.server.pushed := by rw [← ht]
    have hhanding : t.server.handing = s.server.handing := by rw [← ht]
    have hclipboard : t.server.hub.clipboard = s.server.hub.clipboard := by
      rw [← ht]
      rfl
    have hcurrent : t.server.router.current = s.server.router.current := by rw [← ht]
    clear ht hserver hs
    have hahead : ∀ name mc, s.machines.get? name = some mc → ∃ extra,
        s.ahead cfg name mc = t.ahead cfg name mc ++ extra ∧ (∀ x ∈ extra, x.1 = s.server.seq)
          ∧ (extra ≠ [] → s.pushers.get? s.server.seq = none) :=
      fun name mc hmc => ahead_queued h hpc hclips hrelay hmc
    constructor
    · rw [hmachines, hpushed]
      exact h.sessions
    · intro name mc hmc
      rw [hmachines] at hmc
      obtain ⟨hsome, htaken⟩ := clips_eq h hmc
      have hok := h.relay
      unfold RelayOk at hok
      rw [hpc] at hok
      obtain ⟨content, rfl, -⟩ := hok
      rw [hclips, cfg.messages_eq, Hub.clips_queueAll, hsome]
      refine ⟨_, rfl, ?_⟩
      split
      · rw [List.length_append]
        omega
      · exact htaken
    · rw [hmachines, hhanding]
      exact h.handing
    · rw [hmachines, hclipboard]
      exact h.queued
    · intro name mc hmc x hx
      rw [hmachines] at hmc
      obtain ⟨extra, hbefore, -⟩ := hahead name mc hmc
      rw [hseq]
      refine h.numbered name mc hmc x ?_
      rw [hbefore]
      exact List.mem_append_left _ hx
    · rw [hnoted, hseq]
      exact h.pushers
    · unfold RelayOk
      rw [hrelay]
      trivial
    · intro name mc hmc
      rw [hmachines] at hmc
      obtain ⟨extra, hbefore, hseqs, hnone⟩ := hahead name mc hmc
      have hout : t.outgoing cfg name mc = s.outgoing cfg name mc := by
        unfold outgoing
        rw [hclipboard, hhanding, hpushed]
      have hecho : echoes t.pushers name (t.ahead cfg name mc)
          = echoes s.pushers name (s.ahead cfg name mc) := by
        rw [hnoted, hbefore]
        by_cases hextra : extra = []
        · rw [hextra, List.append_nil]
        · exact (echoes_append_of_fresh (hnone hextra) _ hseqs).symm
      have hown := h.own name mc hmc
      unfold Own at hown ⊢
      rw [hout, hecho]
      exact hown
    · intro owner seq manifest hcur
      rw [hcurrent] at hcur
      obtain ⟨hon, hpusher, hup⟩ := h.current owner seq manifest hcur
      refine ⟨hon, by rw [hnoted]; exact hpusher, fun name mc hmc => ?_⟩
      rw [hmachines] at hmc
      obtain ⟨extra, hbefore, hseqs, hnone⟩ := hahead name mc hmc
      have hlast := hup name mc hmc
      by_cases hextra : extra = []
      · rw [hbefore, hextra, List.append_nil] at hlast
        exact hlast
      · -- the last to come would be under a number nobody's push has
        exfalso
        obtain ⟨xs, x, rfl⟩ := List.eq_nil_or_concat extra |>.resolve_left hextra
        unfold UpTo at hlast
        rw [hbefore, List.concat_eq_append, ← List.append_assoc, List.getLast?_concat] at hlast
        have hx : x.1 = s.server.seq := hseqs x (by simp)
        rw [hlast] at hx
        rw [← hx, hpusher] at hnone
        cases hnone hextra
  · cases hserver

/-! ## The clients

A client hears, looks, copies and pushes; each is followed by what is still to come for it. -/

/-- One machine changes; of the rest only what is on the way from it may. -/
theorem AnnounceInv.of_machine (h : AnnounceInv cfg s) {name : String} {mc mc' : Machine}
    (hmc : s.machines.get? name = some mc) (hmachines : t.machines = s.machines.put name mc')
    (hnoted : t.pushers = s.pushers) (hclips : t.server.hub.clips = s.server.hub.clips)
    (hclipboard : t.server.hub.clipboard = s.server.hub.clipboard)
    (hseq : t.server.seq = s.server.seq) (hrelay : t.server.relay = s.server.relay)
    (hcurrent : t.server.router.current = s.server.router.current)
    (hpushed : ∀ n, (s.server.pushed.get? n).isSome → (t.server.pushed.get? n).isSome)
    (hhanding : ∀ n, (t.server.handing.get? n).isSome →
      (s.server.handing.get? n).isSome ∨ n = name)
    (htaken : mc'.taken ≤ (s.clips name).length)
    (hother : ∀ n mc, n ≠ name → t.outgoing cfg n mc = s.outgoing cfg n mc)
    (hahead : ∀ x ∈ t.ahead cfg name mc', x ∈ s.ahead cfg name mc)
    (hown : Own cfg s.pushers name mc' (t.ahead cfg name mc') (t.outgoing cfg name mc'))
    (hup : ∀ owner seq manifest, cfg.options.clipboardFiles = true →
      s.pushers.get? seq = some owner →
      UpTo owner seq manifest name mc (s.ahead cfg name mc) →
      UpTo owner seq manifest name mc' (t.ahead cfg name mc')) :
    AnnounceInv cfg t := by
  -- only `name`'s machine changes, so what is ahead of the others is what was
  have hsame : ∀ n m, t.ahead cfg n m = s.ahead cfg n m := by
    intro n m
    unfold ahead clips
    rw [hclips, hrelay]
  have hget : ∀ n m, t.machines.get? n = some m →
      (n = name ∧ m = mc') ∨ (n ≠ name ∧ s.machines.get? n = some m) := by
    intro n m hm
    rw [hmachines, Dict.get?_put] at hm
    split at hm
    · next hn => exact .inl ⟨hn, (Option.some.inj hm).symm⟩
    · next hn => exact .inr ⟨hn, hm⟩
  have hthere : ∀ n, (t.machines.get? n).isSome ↔ (s.machines.get? n).isSome := by
    intro n
    rw [hmachines, Dict.get?_put]
    split
    · next hn => simp [hn, hmc]
    · exact Iff.rfl
  -- the fields of the invariant, in their order
  constructor
  · intro n hn
    exact hpushed n (h.sessions n ((hthere n).mp hn))
  · intro n m hm
    rw [hclips]
    rcases hget n m hm with ⟨rfl, rfl⟩ | ⟨-, hm⟩
    · exact ⟨_, (clips_eq h hmc).1, htaken⟩
    · exact h.outboxes n m hm
  · intro n hn
    rcases hhanding n hn with hn | rfl
    · exact (hthere n).mpr (h.handing n hn)
    · exact (hthere n).mpr (by rw [hmc]; rfl)
  · intro x hx
    rw [hclipboard] at hx
    exact (hthere x.from_).mpr (h.queued x hx)
  · intro n m hm x hx
    rw [hseq]
    rcases hget n m hm with ⟨rfl, rfl⟩ | ⟨-, hm⟩
    · exact h.numbered n mc hmc x (hahead x hx)
    · rw [hsame] at hx
      exact h.numbered n m hm x hx
  · rw [hnoted, hseq]
    exact h.pushers
  · have hok := h.relay
    unfold RelayOk at hok ⊢
    rw [hrelay, hseq, hnoted]
    split
    · trivial
    · next hpc =>
      rw [hpc] at hok
      exact hok
    · next hpc =>
      rw [hpc] at hok
      obtain ⟨content, hmsgs, hexcept, hpassed⟩ := hok
      exact ⟨content, hmsgs, hexcept, fun hp n hn => hpassed hp n ((hthere n).mp hn)⟩
  · intro n m hm
    rw [hnoted]
    rcases hget n m hm with ⟨rfl, rfl⟩ | ⟨hn, hm⟩
    · exact hown
    · rw [hsame, hother n m hn]
      exact h.own n m hm
  · intro owner seq manifest hcur
    rw [hcurrent] at hcur
    obtain ⟨hon, hpusher, hall⟩ := h.current owner seq manifest hcur
    refine ⟨hon, by rw [hnoted]; exact hpusher, fun n m hm => ?_⟩
    rcases hget n m hm with ⟨rfl, rfl⟩ | ⟨-, hm⟩
    · exact hup owner seq manifest hon hpusher (hall n mc hmc)
    · rw [hsame]
      exact hall n m hm

/-- A push on its way to the session, at the end of what is there. -/
theorem outgoing_push (s : AnnounceRun) (name : String) {mc mc' : Machine} {seq : Nat}
    {content : ClipboardContent} (hup : mc'.up = mc.up ++ pushes cfg.codec seq content) :
    s.outgoing cfg name mc' = s.outgoing cfg name mc
      ++ (if cfg.Carries content then [content] else []).filter
        fun c => (c.files cfg.codec).isSome := by
  unfold outgoing
  rw [hup, feed_append]
  dsimp only
  rw [cfg.feed_take_pushes, ← List.filter_append, List.map_append, ← List.append_assoc]
  congr 2
  split <;> rfl

/-- A client looks at its clipboard. -/
theorem AnnounceInv.look (h : AnnounceInv cfg s) {name : String}
    {files : Option (FileManifest × List String)} {data : Option ClipboardContent}
    (hok : s.Orderly cfg (.look name files data))
    (hs : (announceRuns cfg).step s (.look name files data) = some t) : AnnounceInv cfg t := by
  simp only [announceRuns, step] at hs
  cases hmc : s.machines.get? name with
  | none => rw [hmc] at hs; cases hs
  | some mc =>
    rw [hmc] at hs
    dsimp only at hs
    split at hs
    · next hdata =>
      obtain rfl := Option.some.inj hs
      have hown := h.own name mc hmc
      -- a push of data, or none, leaves everything as it is but for what is sent
      have hquiet : ∀ mc', mc'.clip.inbound = mc.clip.inbound → mc'.taken = mc.taken →
          mc'.clip.pendingOwnFiles = mc.clip.pendingOwnFiles → mc'.copied = mc.copied →
          mc'.clip.filesOwner = mc.clip.filesOwner → mc'.clip.remoteFiles = mc.clip.remoteFiles →
          s.outgoing cfg name mc' = s.outgoing cfg name mc →
          AnnounceInv cfg { s with machines := s.machines.put name mc' } := by
        intro mc' hinbound htaken hpending hcopied howner hremote hout
        have hahead : s.ahead cfg name mc' = s.ahead cfg name mc := by
          unfold ahead
          rw [hinbound, htaken]
        refine h.of_machine hmc rfl rfl rfl rfl rfl rfl rfl (fun _ hn => hn) (fun _ hn => .inl hn)
          ?_ (fun _ _ _ => rfl) (fun x hx => ?_) ?_ (fun owner seq manifest _ _ hup => ?_)
        · rw [htaken]
          exact (clips_eq h hmc).2
        · exact hahead ▸ hx
        · show Own cfg s.pushers name mc' (s.ahead cfg name mc') (s.outgoing cfg name mc')
          unfold Own at hown ⊢
          rw [hahead, hout, hpending, hcopied]
          exact hown
        · show UpTo owner seq manifest name mc' (s.ahead cfg name mc')
          unfold UpTo Has at hup ⊢
          rw [hahead, hpending, hcopied, howner, hremote]
          exact hup
      cases hfound : (if mc.clip.looksForFiles cfg = true then files else none) with
      | some found =>
        -- a copy of files: it is the one push under way now
        obtain ⟨manifest, abs⟩ := found
        obtain ⟨hlooks, rfl⟩ : mc.clip.looksForFiles cfg = true ∧ files = some (manifest, abs) := by
          split at hfound
          · next hlooks => exact ⟨hlooks, hfound⟩
          · cases hfound
        obtain ⟨hne, hcarries⟩ := hok mc hmc hlooks
        unfold ClientClipboard.changed
        rw [if_pos hlooks, if_pos hlooks]
        unfold ClientClipboard.looksForFiles at hlooks
        rw [Bool.and_eq_true, Option.isNone_iff_eq_none] at hlooks
        obtain ⟨hon, hpending⟩ := hlooks
        unfold Own at hown
        rw [hpending] at hown
        obtain ⟨hout, hecho⟩ := hown
        dsimp only [ClientClipboard.push]
        refine h.of_machine hmc rfl rfl rfl rfl rfl rfl rfl (fun _ hn => hn)
          (fun _ hn => .inl hn) (clips_eq h hmc).2 (fun _ _ _ => rfl) (fun x hx => hx) ?_
          (fun owner seq m _ _ hup => ?_)
        · refine ⟨hon, hne, hcarries, List.getLast?_concat, .inl ⟨?_, hecho⟩⟩
          refine (outgoing_push s name rfl).trans ?_
          rw [hout, if_pos hcarries, List.nil_append,
            List.filter_cons_of_pos (by rw [ClipboardContent.files_withFiles _ hne]; rfl)]
          rfl
        · show UpTo owner seq m name _ (s.ahead cfg name mc)
          unfold UpTo Has at hup ⊢
          split at hup
          · exact hup
          · split
            · next hn =>
              rw [if_pos hn] at hup
              obtain ⟨abs', hserves, -⟩ := hup
              exact ⟨abs', hserves, nofun⟩
            · next hn =>
              rw [if_neg hn] at hup
              exact hup
      | none =>
        have hcopied : (if mc.clip.looksForFiles cfg = true then mc.copied ++ files.toList
            else mc.copied) = mc.copied := by
          split
          · next hlooks =>
            rw [if_pos hlooks] at hfound
            rw [hfound]
            exact List.append_nil _
          · rfl
        unfold ClientClipboard.changed
        rw [hfound, hcopied]
        dsimp only
        cases hpush : (if cfg.options.clipboardSharing = true then data else none) with
        | none =>
          refine hquiet _ rfl rfl rfl rfl rfl rfl ?_
          unfold outgoing
          rw [List.append_nil]
        | some content =>
          have hplain : content.files cfg.codec = none := by
            split at hpush
            · rw [hpush] at hdata
              exact Option.isNone_iff_eq_none.mp hdata
            · cases hpush
          refine hquiet _ rfl rfl rfl rfl rfl rfl ((outgoing_push s name rfl).trans ?_)
          split
          · rw [List.filter_cons_of_neg (by simp [hplain])]
            exact List.append_nil _
          · exact List.append_nil _
    · cases hs

/-- What a client will hear of, with and without the next message. -/
theorem ahead_next {name : String} {mc : Machine} {p : Push} {rest : List Push}
    (hnext : (s.clips name).drop mc.taken = p :: rest) :
    mc.taken + 1 ≤ (s.clips name).length ∧ ∃ later,
      s.ahead cfg name mc
        = announcements cfg.codec (cfg.take mc.clip.inbound p).2.toList ++ later
      ∧ ∀ mc', mc'.clip.inbound = (cfg.take mc.clip.inbound p).1 → mc'.taken = mc.taken + 1 →
        s.ahead cfg name mc' = later := by
  refine ⟨?_, announcements cfg.codec
    (feed cfg.take (cfg.take mc.clip.inbound p).1 (rest ++ s.server.relay.ahead)).2, ?_,
    fun mc' hinbound htaken => ?_⟩
  · have := congrArg List.length hnext
    rw [List.length_drop, List.length_cons] at this
    omega
  · unfold ahead
    rw [hnext, List.cons_append, feed_cons]
    exact announcements_append cfg.codec _ _
  · have hrest : (s.clips name).drop (mc.taken + 1) = rest := by
      rw [← List.drop_drop, hnext]
      rfl
    unfold ahead
    rw [hinbound, htaken, hrest]

/-- A client has handled its next message: what it is then, and what is to come, settles the
rest. -/
theorem AnnounceInv.heard (h : AnnounceInv cfg s) {name : String} {mc mc' : Machine}
    {now later : List (Nat × FileManifest)} (hmc : s.machines.get? name = some mc)
    (hlen : mc.taken + 1 ≤ (s.clips name).length)
    (hbefore : s.ahead cfg name mc = now ++ later) (hahead : s.ahead cfg name mc' = later)
    (htaken : mc'.taken = mc.taken + 1) (hup : mc'.up = mc.up)
    (hown : Own cfg s.pushers name mc' later (s.outgoing cfg name mc))
    (hupto : ∀ owner seq manifest, cfg.options.clipboardFiles = true →
      s.pushers.get? seq = some owner → UpTo owner seq manifest name mc (now ++ later) →
      UpTo owner seq manifest name mc' later) :
    AnnounceInv cfg { s with machines := s.machines.put name mc' } := by
  have hout : s.outgoing cfg name mc' = s.outgoing cfg name mc := by
    unfold outgoing
    rw [hup]
  refine h.of_machine hmc rfl rfl rfl rfl rfl rfl rfl (fun _ hn => hn) (fun _ hn => .inl hn)
    ?_ (fun _ _ _ => rfl) (fun x hx => ?_) ?_ (fun owner seq manifest hon hp hu => ?_)
  · rw [htaken]
    exact hlen
  · rw [hbefore]
    exact List.mem_append_right _ (hahead ▸ hx)
  · show Own cfg s.pushers name mc' (s.ahead cfg name mc') (s.outgoing cfg name mc')
    rw [hahead, hout]
    exact hown
  · show UpTo owner seq manifest name mc' (s.ahead cfg name mc')
    rw [hahead]
    rw [hbefore] at hu
    exact hupto owner seq manifest hon hp hu

/-- The next announcement is heard: if it was the last, the client has to have it now. -/
theorem UpTo.tail {owner name : String} {seq : Nat} {manifest : FileManifest} {mc mc' : Machine}
    {x : Nat × FileManifest} {later : List (Nat × FileManifest)}
    (h : UpTo owner seq manifest name mc (x :: later))
    (hhas : x = (seq, manifest) → Has owner seq manifest name mc') :
    UpTo owner seq manifest name mc' later := by
  unfold UpTo at h ⊢
  rw [List.getLast?_cons] at h
  cases hlater : later.getLast? with
  | some last =>
    rw [hlater] at h
    exact h
  | none =>
    rw [hlater] at h
    exact hhas h

/-- A client handles a message: unless it completes an announcement nothing changes for it. -/
theorem AnnounceInv.hear (h : AnnounceInv cfg s) {name : String} (hok : s.Orderly cfg (.hear name))
    (hs : (announceRuns cfg).step s (.hear name) = some t) : AnnounceInv cfg t := by
  simp only [announceRuns, step] at hs
  cases hmc : s.machines.get? name with
  | none => rw [hmc] at hs; cases hs
  | some mc =>
    rw [hmc] at hs
    dsimp only at hs
    cases hnext : (s.clips name).drop mc.taken with
    | nil => rw [hnext] at hs; cases hs
    | cons p rest =>
      rw [hnext] at hs
      obtain rfl := Option.some.inj hs
      have hown := h.own name mc hmc
      obtain ⟨hlen, later, hbefore, hafter⟩ := ahead_next hnext
      -- nothing is announced by this message
      have hquiet : announcements cfg.codec (cfg.take mc.clip.inbound p).2.toList = [] →
          mc.clip.hear cfg p = { mc.clip with inbound := (cfg.take mc.clip.inbound p).1 } →
          AnnounceInv cfg { s with machines := (s.machines.put name
            { mc with clip := mc.clip.hear cfg p, taken := mc.taken + 1 }) } := by
        intro hnone hhear
        rw [hnone] at hbefore
        rw [hhear]
        refine h.heard hmc hlen hbefore (hafter _ rfl rfl) rfl rfl ?_ fun _ _ _ _ _ hup => hup
        rw [hbefore] at hown
        exact hown
      have hhear := mc.clip.hear_eq cfg p
      cases htake : (cfg.take mc.clip.inbound p).2 with
      | none =>
        rw [htake] at hhear
        exact hquiet (by rw [htake]; rfl) hhear
      | some transfer =>
        obtain ⟨seq, content⟩ := transfer
        rw [htake] at hhear
        dsimp only at hhear
        cases hfiles : content.files cfg.codec with
        | none =>
          rw [hfiles] at hhear
          exact hquiet (by rw [htake]; exact announcements_of_data hfiles seq) hhear
        | some manifest =>
          rw [hfiles] at hhear
          dsimp only at hhear
          rw [htake, Option.toList_some, announcements_of_files hfiles seq] at hbefore
          rw [hbefore, List.singleton_append] at hown
          rw [hhear]
          unfold ClientClipboard.onFilesAnnounced
          cases hon : cfg.options.clipboardFiles with
          | false =>
            -- nothing is made of it, and nobody waits for an echo
            have hpending : mc.clip.pendingOwnFiles = none := by
              cases hp : mc.clip.pendingOwnFiles with
              | none => rfl
              | some mine =>
                unfold Own at hown
                rw [hp] at hown
                rw [hon] at hown
                cases hown.1
            rw [if_pos (show (!false) = true from rfl)]
            refine h.heard hmc hlen hbefore (hafter _ rfl rfl) rfl rfl ?_
              fun owner seq manifest hfiles _ _ => ?_
            · unfold Own at hown ⊢
              rw [hpending] at hown
              dsimp only
              rw [hpending]
              exact ⟨hown.1, echoes_tail hown.2⟩
            · rw [hon] at hfiles
              cases hfiles
          | true =>
            cases hpending : mc.clip.pendingOwnFiles with
            | none =>
              -- others' files: the client would pull them
              unfold Own at hown
              rw [hpending] at hown
              refine h.heard hmc hlen hbefore (hafter _ rfl rfl) rfl rfl
                ⟨hown.1, echoes_tail hown.2⟩ fun owner seq' m _ hpusher hup => hup.tail ?_
              have hnotmine : s.pushers.get? seq ≠ some name := fun hmine => by
                have hhead := List.filter_eq_nil_iff.mp hown.2 (seq, manifest) List.mem_cons_self
                rw [decide_eq_true_eq] at hhead
                exact hhead hmine
              intro hlast
              obtain ⟨rfl, rfl⟩ := Prod.mk.inj hlast
              have hother : name ≠ owner := by
                rintro rfl
                exact hnotmine hpusher
              unfold Has
              rw [if_neg hother]
              rfl
            | some mine =>
              -- the echo of its own push
              obtain ⟨own, abs⟩ := mine
              have hcompletes : s.completing cfg name = some (seq, content) := by
                unfold completing
                rw [hmc, Option.bind_some, hnext]
                exact htake
              have hmine : s.pushers.get? seq = some name :=
                hok mc hmc (seq, content) hcompletes (by rw [hfiles]; rfl) (by rw [hpending]; rfl)
              unfold Own at hown
              rw [hpending] at hown
              obtain ⟨-, -, -, hcopied, ⟨-, hecho⟩ | ⟨hout, seq', hecho⟩⟩ := hown
              · rw [echoes_cons_mine hmine] at hecho
                cases hecho
              · rw [echoes_cons_mine hmine] at hecho
                obtain ⟨hhead, hrest⟩ := List.cons.inj hecho
                obtain ⟨rfl, rfl⟩ := Prod.mk.inj hhead
                refine h.heard hmc hlen hbefore (hafter _ rfl rfl) rfl rfl ⟨hout, hrest⟩
                  fun owner seq' m _ hpusher hup => hup.tail ?_
                intro hlast
                obtain ⟨rfl, rfl⟩ := Prod.mk.inj hlast
                obtain rfl : name = owner := Option.some.inj (hmine.symm.trans hpusher)
                unfold Has
                rw [if_pos rfl]
                refine ⟨abs, ?_, fun _ => hcopied⟩
                show FileOwner.current (if manifest = manifest then _ else _) = _
                rw [if_pos rfl]
                rfl

/-- What a session makes of a message of a push. -/
theorem receive_push (cfg : SharingConfig) (srv : SharingRun) {name : String} {pushed : Inbound}
    (p : Push) (hpushed : srv.pushed.get? name = some pushed) :
    (∀ n, (srv.receive cfg name pushed p.client).pushed.get? n
        = if n = name then some (cfg.take pushed p).1 else srv.pushed.get? n)
      ∧ (srv.receive cfg name pushed p.client).handing = (match (cfg.take pushed p).2 with
        | some (_, content) => if cfg.allows content && !srv.hub.isDisabled name then
            srv.handing.put name content else srv.handing
        | none => srv.handing)
      ∧ (srv.receive cfg name pushed p.client).hub = srv.hub
      ∧ (srv.receive cfg name pushed p.client).router = srv.router
      ∧ (srv.receive cfg name pushed p.client).seq = srv.seq
      ∧ (srv.receive cfg name pushed p.client).relay = srv.relay := by
  unfold SharingConfig.take
  -- with the clipboard shared a push is read, otherwise it is dropped
  by_cases hon : cfg.reassembles = true
  · rw [if_pos hon]
    cases p with
    -- an announcement closes what was open before it
    | grab id seq =>
      have hr : srv.receive cfg name pushed (Push.grab id seq).client = { srv with
          pushed := srv.pushed.put name (pushed.grab id seq cfg.maxBytes) } := if_pos hon
      rw [hr]
      exact ⟨fun n => Dict.get?_put _ _ _ _, rfl, rfl, rfl, rfl, rfl⟩
    | data id seq chunk =>
      unfold Inbound.take
      dsimp only
      -- a chunk fails, leaves the content open, or completes it
      rcases hdata : pushed.data cfg.codec id seq chunk with ⟨i, e | _ | content⟩
      · have hr : srv.receive cfg name pushed (Push.data id seq chunk).client
            = { srv with pushed := srv.pushed.put name i } := (if_pos hon).trans (by rw [hdata])
        rw [hr]
        exact ⟨fun n => Dict.get?_put _ _ _ _, rfl, rfl, rfl, rfl, rfl⟩
      · have hr : srv.receive cfg name pushed (Push.data id seq chunk).client
            = { srv with pushed := srv.pushed.put name i } := (if_pos hon).trans (by rw [hdata])
        rw [hr]
        exact ⟨fun n => Dict.get?_put _ _ _ _, rfl, rfl, rfl, rfl, rfl⟩
      · have hr : srv.receive cfg name pushed (Push.data id seq chunk).client
            = if cfg.allows content && !srv.hub.isDisabled name then
                { srv with
                  pushed := srv.pushed.put name i
                  handing := srv.handing.put name content }
              else { srv with pushed := srv.pushed.put name i } :=
          (if_pos hon).trans (by rw [hdata])
        rw [hr]
        dsimp only
        -- whether the content may be handed on
        split
        · exact ⟨fun n => Dict.get?_put _ _ _ _, rfl, rfl, rfl, rfl, rfl⟩
        · exact ⟨fun n => Dict.get?_put _ _ _ _, rfl, rfl, rfl, rfl, rfl⟩
  -- nothing is read, and the machine's inbound stays as it is
  · rw [if_neg hon]
    have hsame : ∀ n, srv.pushed.get? n = if n = name then some pushed else srv.pushed.get? n := by
      intro n
      split
      · next hn => rw [hn, hpushed]
      · rfl
    have hnothing : srv.receive cfg name pushed p.client = srv := by
      cases p with
      | grab id seq => exact if_neg hon
      | data id seq chunk => exact if_neg hon
    rw [hnothing]
    exact ⟨hsame, rfl, rfl, rfl, rfl, rfl⟩

/-- A session handles a message: a push of files that is complete is handed on. -/
theorem AnnounceInv.session (h : AnnounceInv cfg s) {name : String}
    (hok : s.Orderly cfg (.session name))
    (hs : (announceRuns cfg).step s (.session name) = some t) : AnnounceInv cfg t := by
  simp only [announceRuns, step] at hs
  cases hmc : s.machines.get? name with
  | none => rw [hmc] at hs; cases hs
  | some mc =>
    rw [hmc] at hs
    dsimp only at hs
    cases hup : mc.up with
    | nil => rw [hup] at hs; cases hs
    | cons p rest =>
      rw [hup] at hs
      obtain ⟨server, hserver, rfl⟩ := Option.map_eq_some_iff.mp hs
      simp only [SharingRun.step] at hserver
      split at hserver
      · next pushed hpushed hhand =>
        obtain rfl := Option.some.inj hserver
        obtain ⟨hget, hhanding, hhub, hrouter, hseq, hrelay⟩ :=
          receive_push cfg s.server p hpushed
        have hown := h.own name mc hmc
        have hbefore : s.outgoing cfg name mc
            = ((s.server.hub.clipboard.filter fun x => x.from_ = name).map (·.content)).filter
                (fun c => (c.files cfg.codec).isSome)
              ++ ((cfg.take pushed p).2.toList.map Prod.snd).filter
                (fun c => (c.files cfg.codec).isSome)
              ++ ((feed cfg.take (cfg.take pushed p).1 rest).2.map Prod.snd).filter
                (fun c => (c.files cfg.codec).isSome) := by
          unfold outgoing
          rw [hpushed, hhand, hup, Option.getD_some, feed_cons, Option.toList_none,
            List.append_nil, List.map_append, List.filter_append, List.filter_append,
            List.append_assoc]
        generalize ht : ({ s with server := _, machines := _ } : AnnounceRun) = t
        have hthanding : t.server.handing = (s.server.receive cfg name pushed p.client).handing := by
          rw [← ht]
        have htpushed : t.server.pushed = (s.server.receive cfg name pushed p.client).pushed := by
          rw [← ht]
        have htclipboard : t.server.hub.clipboard = s.server.hub.clipboard := by
          rw [← hhub, ← ht]
        have hsame : t.outgoing cfg name { mc with up := rest } = s.outgoing cfg name mc := by
          rw [hbefore]
          unfold outgoing
          rw [htclipboard, htpushed, hget, if_pos rfl, hthanding, hhanding, List.filter_append,
            List.filter_append, Option.getD_some]
          congr 2
          cases htake : (cfg.take pushed p).2 with
          | none =>
            dsimp only
            rw [hhand]
            rfl
          | some transfer =>
            obtain ⟨seq, content⟩ := transfer
            dsimp only
            cases hfiles : content.files cfg.codec with
            | none =>
              -- data is handed on or dropped: neither is a copy of files
              have hnone : ([content] : List ClipboardContent).filter
                  (fun c => (c.files cfg.codec).isSome) = [] := by simp [hfiles]
              split
              · rw [Dict.get?_put, if_pos rfl]
                rfl
              · rw [hhand]
                exact hnone.symm
            | some manifest =>
              have hmem : content ∈ s.outgoing cfg name mc := by
                rw [hbefore, htake]
                simp [hfiles]
              have hon : cfg.options.clipboardFiles = true := by
                unfold Own at hown
                split at hown
                · rw [hown.1] at hmem
                  cases hmem
                · exact hown.1
              have harrives : s.arriving cfg name = some content := by
                unfold arriving
                rw [hmc, hpushed]
                dsimp only
                rw [hup]
                show ((cfg.take pushed p).2.map Prod.snd) = _
                rw [htake]
                rfl
              have henabled : name ∉ s.server.hub.disabled :=
                hok content harrives (by rw [hfiles]; rfl)
              have hallowed : (cfg.allows content && !s.server.hub.isDisabled name) = true := by
                unfold SharingConfig.allows Hub.isDisabled
                rw [hfiles]
                simp [hon, henabled]
              rw [if_pos hallowed, Dict.get?_put, if_pos rfl]
              rfl
        have hclips : t.server.hub.clips = s.server.hub.clips := by rw [← hhub, ← ht]
        have htrelay : t.server.relay = s.server.relay := by rw [← hrelay, ← ht]
        have hahead : t.ahead cfg name { mc with up := rest } = s.ahead cfg name mc := by
          unfold ahead clips
          rw [hclips, htrelay]
        have hmachines : t.machines = s.machines.put name { mc with up := rest } := by rw [← ht]
        refine h.of_machine hmc hmachines (by rw [← ht]) hclips htclipboard
          (by rw [← hseq, ← ht]) htrelay (by rw [← hrouter, ← ht]) (fun n hn => ?_)
          (fun n hn => ?_) (clips_eq h hmc).2 (fun n m hn => ?_) (fun x hx => hahead ▸ hx) ?_
          (fun owner seq manifest _ _ hupto => ?_)
        · rw [htpushed, hget]
          split
          · rfl
          · exact hn
        · rw [hthanding, hhanding] at hn
          split at hn
          · split at hn
            · rw [Dict.get?_put] at hn
              split at hn
              · next hname => exact .inr hname
              · exact .inl hn
            · exact .inl hn
          · exact .inl hn
        · -- what others have on the way is not touched
          have hhand' : t.server.handing.get? n = s.server.handing.get? n := by
            rw [hthanding, hhanding]
            split
            · split
              · rw [Dict.get?_put, if_neg hn]
              · rfl
            · rfl
          unfold outgoing
          rw [htclipboard, htpushed, hget, if_neg hn, hhand']
        · rw [hahead, hsame]
          exact hown
        · rw [hahead]
          exact hupto
      · cases hserver

/-- The invariant holds at the start, where nothing has been announced. -/
theorem announceInv_init (hs : (announceRuns cfg).init s) : AnnounceInv cfg s := by
  obtain ⟨hidle, hqueue, hhanding, hcurrent, hseq, hpushers, hnames⟩ := hs
  -- every machine is new, and has been sent nothing
  have hmachine : ∀ name mc, s.machines.get? name = some mc → mc = {}
      ∧ s.server.hub.clips name = some [] ∧ s.server.pushed.get? name = some {} := by
    intro name mc hmc
    obtain ⟨hfresh, hclips, hpushed⟩ := hnames name
    rw [hmc] at hfresh hclips hpushed
    rcases hfresh with hfresh | hfresh
    · cases hfresh
    · exact ⟨Option.some.inj hfresh, hclips, hpushed⟩
  have hahead : ∀ name mc, s.machines.get? name = some mc → s.ahead cfg name mc = [] := by
    intro name mc hmc
    obtain ⟨rfl, hclips, -⟩ := hmachine name mc hmc
    unfold ahead clips
    rw [hclips, hidle]
    rfl
  -- nothing is handed on, relayed or ahead of anyone, so the fields hold of nothing
  constructor
  · intro name hname
    obtain ⟨mc, hmc⟩ := Option.isSome_iff_exists.mp hname
    rw [(hmachine name mc hmc).2.2]
    rfl
  · intro name mc hmc
    obtain ⟨rfl, hclips, -⟩ := hmachine name mc hmc
    exact ⟨[], hclips, Nat.le_refl _⟩
  · intro name hname
    rw [hhanding] at hname
    cases hname
  · intro x hx
    rw [hqueue] at hx
    cases hx
  · intro name mc hmc x hx
    rw [hahead name mc hmc] at hx
    cases hx
  · intro seq owner hown
    rw [hpushers] at hown
    cases hown
  · unfold RelayOk
    rw [hidle]
    trivial
  · intro name mc hmc
    have hnone := hahead name mc hmc
    obtain ⟨rfl, -, hpushed⟩ := hmachine name mc hmc
    refine ⟨?_, by rw [hnone]; rfl⟩
    unfold outgoing
    rw [hqueue, hhanding, hpushed]
    rfl
  · intro owner seq manifest hcur
    rw [hcurrent] at hcur
    cases hcur

/-- The invariant holds in every state an orderly run reaches. -/
theorem announceInv_reach (hs : (announceRuns cfg).Reach (Orderly cfg) s) : AnnounceInv cfg s := by
  refine hs.invariant (fun _ => announceInv_init) fun s l t _ hinv hok hl => ?_
  cases l with
  | look name files data => exact hinv.look hok hl
  | session name => exact hinv.session hok hl
  | hand name => exact hinv.hand hl
  | relay => exact hinv.relay_step hl
  | copyData content => exact hinv.copyData hl
  | copyFiles manifest abs => exact hinv.copyFiles hl
  | readOff => exact hinv.readOff hok hl
  | queue => exact hinv.queue hl
  | setDisabled name disabled => exact hinv.setDisabled hl
  | hear name => exact hinv.hear hok hl

/-! ## When everything is delivered

With nothing under way, what was heard is what is, so all machines agree. -/

/-- Nothing is to come. -/
theorem Settled.nothing (cfg : SharingConfig) (h : s.Settled) {name : String} {mc : Machine}
    (hmc : s.machines.get? name = some mc) :
    s.ahead cfg name mc = [] ∧ s.outgoing cfg name mc = [] := by
  obtain ⟨hidle, hqueue, hall⟩ := h
  obtain ⟨hup, hhand, hdrop⟩ := hall name mc hmc
  constructor
  · unfold ahead
    rw [hdrop, hidle]
    rfl
  · unfold outgoing
    rw [hqueue, hhand, hup]
    rfl

end AnnounceRun

/-- **Announcements agree**: in a run all of whose steps are orderly, once every message is
delivered no client waits for an echo; and if the files announced last are a client's, it serves
them, under their number and with the paths of its last copy of files, and every other client
would pull them. -/
theorem announcements_agree {cfg : SharingConfig} {s : AnnounceRun}
    (hs : (announceRuns cfg).Reach (AnnounceRun.Orderly cfg) s) (hsettled : s.Settled) :
    (∀ name mc, s.machines.get? name = some mc → mc.clip.pendingOwnFiles = none)
      ∧ ∀ owner seq manifest, s.server.router.current = some (.client owner, seq, manifest) →
        ∀ name mc, s.machines.get? name = some mc →
          if name = owner then ∃ abs, mc.clip.filesOwner.current = some ⟨seq, manifest, abs⟩
            ∧ mc.copied.getLast? = some (manifest, abs)
          else mc.clip.remoteFiles = some (seq, manifest) := by
  have hinv := AnnounceRun.announceInv_reach hs
  -- nothing is on its way, so a copy still pending would have nobody to push it
  have hidle : ∀ name mc, s.machines.get? name = some mc → mc.clip.pendingOwnFiles = none := by
    intro name mc hmc
    obtain ⟨hahead, hout⟩ := hsettled.nothing cfg hmc
    have hown := hinv.own name mc hmc
    rw [hahead, hout] at hown
    unfold AnnounceRun.Own at hown
    split at hown
    · next hpending => exact hpending
    · obtain ⟨-, -, -, -, ⟨hpush, -⟩ | ⟨-, seq, hecho⟩⟩ := hown
      · cases hpush
      · cases hecho
  refine ⟨hidle, fun owner seq manifest hcur name mc hmc => ?_⟩
  obtain ⟨hahead, -⟩ := hsettled.nothing cfg hmc
  have hhas := (hinv.current owner seq manifest hcur).2.2 name mc hmc
  rw [hahead] at hhas
  unfold AnnounceRun.UpTo AnnounceRun.Has at hhas
  dsimp only [List.getLast?_nil] at hhas
  -- the owner serves its own copy, and everybody else was told of it
  split
  · next hn =>
    rw [if_pos hn] at hhas
    obtain ⟨abs, hserves, hlast⟩ := hhas
    exact ⟨abs, hserves, hlast (hidle name mc hmc)⟩
  · next hn =>
    rw [if_neg hn] at hhas
    exact hhas

/-! ## Two clients -/

/-- "a" and "b" are connected, and these are turned off. -/
def twoClients (off : Finset String) : AnnounceRun where
  server := { hub := { clients := (Dict.put ∅ "a" ⟨[], []⟩).put "b" ⟨[], []⟩, disabled := off }
              pushed := (Dict.put ∅ "a" {}).put "b" {} }
  machines := (Dict.put ∅ "a" {}).put "b" {}

/-- Two machines that have just connected are a start. -/
theorem init_twoClients (cfg : SharingConfig) (off : Finset String) :
    (announceRuns cfg).init (twoClients off) := by
  refine ⟨rfl, rfl, rfl, rfl, rfl, rfl, fun name => ?_⟩
  unfold twoClients Hub.clips
  simp only [Dict.get?_put, Dict.get?_empty]
  by_cases hb : name = "b"
  · simp [hb]
  · by_cases ha : name = "a"
    · simp [ha]
    · simp [ha, hb]

/-- Two different files. -/
def manifestA : FileManifest := ⟨[⟨"a.txt", 1, false⟩]⟩

def manifestB : FileManifest := ⟨[⟨"b.txt", 2, false⟩]⟩

/-- `name` copies files, and its session takes the push. -/
def pushesFiles (name : String) (manifest : FileManifest) (path : String) : List AnnounceLabel :=
  .look name (some (manifest, [path])) none :: List.replicate 4 (.session name)

/-- The relay takes the next push and broadcasts it, and both clients hear of it. -/
def broadcasts : List AnnounceLabel :=
  [.relay, .readOff, .queue] ++ List.replicate 4 (.hear "a") ++ List.replicate 4 (.hear "b")

/-- A copy of files on "a" is settled once both machines have heard of it: the server knows "a" for
the owner, and "a" itself has kept its own copy. -/
theorem announcements_agree_one : ∃ s mc, (announceRuns plainSharing).Reach
      (AnnounceRun.Orderly plainSharing) s
    ∧ s.server.router.current = some (.client "a", 1, manifestA)
    ∧ s.machines.get? "a" = some mc
    ∧ mc.clip.filesOwner.current = some ⟨1, manifestA, ["/home/a.txt"]⟩ := by
  -- "a" copies a file and it is announced to both
  let labels := pushesFiles "a" manifestA "/home/a.txt" ++ [.hand "a"] ++ broadcasts
  have hrun : ((announceRuns plainSharing).exec (AnnounceRun.Orderly plainSharing) (twoClients ∅)
      labels).map (fun s => (decide s.Settled,
        decide (s.server.router.current = some (.client "a", 1, manifestA)),
        (s.machines.get? "a").map fun mc => decide (mc.copied = [(manifestA, ["/home/a.txt"])])))
      = some (true, true, some true) := by decide +kernel
  obtain ⟨s, hs, hstate⟩ := Option.map_eq_some_iff.mp hrun
  obtain ⟨hsettled, hrest⟩ := Prod.mk.inj hstate
  obtain ⟨hcur, hcopied⟩ := Prod.mk.inj hrest
  obtain ⟨mc, hmc, hcopied⟩ := Option.map_eq_some_iff.mp hcopied
  have hreach : (announceRuns plainSharing).Reach (AnnounceRun.Orderly plainSharing) s :=
    Lts.reach_of_exec (init_twoClients plainSharing ∅) hs
  have hcurrent := of_decide_eq_true hcur
  -- so the owner of the announcement serves it
  have hagree := (announcements_agree hreach (of_decide_eq_true hsettled)).2 "a" 1 manifestA
    hcurrent "a" mc hmc
  rw [if_pos rfl, of_decide_eq_true hcopied] at hagree
  obtain ⟨abs, hserves, hlast⟩ := hagree
  obtain ⟨-, rfl⟩ := Prod.mk.inj (Option.some.inj hlast)
  exact ⟨s, mc, hreach, hcurrent, hmc, hserves⟩

/-- "a" and "b" copy files at the same time: "b" takes the announcement of those of "a" for its own
echo, and then would pull its own. And "a" copies files while it is turned off: it waits for an
echo that never comes. -/
theorem announcements_differ :
    (∃ s mc, (announceRuns plainSharing).Reachable s ∧ s.Settled
      ∧ s.server.router.current = some (.client "b", 2, manifestB)
      ∧ s.machines.get? "b" = some mc ∧ mc.clip.filesOwner.current = none
      ∧ mc.clip.remoteFiles = some (2, manifestB))
    ∧ ∃ s mc, (announceRuns plainSharing).Reachable s ∧ s.Settled
      ∧ s.machines.get? "a" = some mc
      ∧ mc.clip.pendingOwnFiles = some (manifestA, ["/home/a.txt"]) := by
  constructor
  -- the copy of "b" is relayed while the one of "a" is still on its way back
  · let labels := pushesFiles "a" manifestA "/home/a.txt" ++ pushesFiles "b" manifestB "/home/b.txt"
      ++ [.hand "a", .hand "b"] ++ broadcasts ++ broadcasts
    have hrun : ((announceRuns plainSharing).run (twoClients ∅) labels).map (fun s =>
        (decide s.Settled, decide (s.server.router.current = some (.client "b", 2, manifestB)),
          (s.machines.get? "b").map fun mc => decide (mc.clip.filesOwner.current = none
            ∧ mc.clip.remoteFiles = some (2, manifestB))))
        = some (true, true, some true) := by decide +kernel
    obtain ⟨s, hs, hstate⟩ := Option.map_eq_some_iff.mp hrun
    obtain ⟨hsettled, hrest⟩ := Prod.mk.inj hstate
    obtain ⟨hcur, hmc⟩ := Prod.mk.inj hrest
    obtain ⟨mc, hmc, hclip⟩ := Option.map_eq_some_iff.mp hmc
    exact ⟨s, mc, Lts.reachable_of_run (init_twoClients plainSharing ∅) hs,
      of_decide_eq_true hsettled, of_decide_eq_true hcur, hmc, of_decide_eq_true hclip⟩
  -- "a" is turned off, so what it pushes is dropped
  · have hrun : ((announceRuns plainSharing).run (twoClients {"a"})
        (pushesFiles "a" manifestA "/home/a.txt")).map (fun s =>
        (decide s.Settled, (s.machines.get? "a").map fun mc => mc.clip.pendingOwnFiles))
        = some (true, some (some (manifestA, ["/home/a.txt"]))) := by decide +kernel
    obtain ⟨s, hs, hstate⟩ := Option.map_eq_some_iff.mp hrun
    obtain ⟨hsettled, hmc⟩ := Prod.mk.inj hstate
    obtain ⟨mc, hmc, hpending⟩ := Option.map_eq_some_iff.mp hmc
    exact ⟨s, mc, Lts.reachable_of_run (init_twoClients plainSharing {"a"}) hs,
      of_decide_eq_true hsettled, hmc, hpending⟩

end GeserDesk
