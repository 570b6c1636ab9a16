import GeserDesk.Clipboard.Content
import GeserDesk.System.SharingRuns
import GeserDesk.System.TurnedOff

/-!
# What the relay hands out

The server's sharing as `SharingRuns` has it, with the input the router queues on top, and a record
of what the relay broadcasts: which transfer it is at, what it has broadcast since each client
registered, and whether that client has been turned on ever since.

A client is its name: what an earlier session of the same name pushed is its own.

* **`relay_delivers_in_order`**: the clipboard messages in every outbox are whole transfers, their
  numbers increasing; and what a client that stayed on makes of its outbox is what was broadcast
  since it registered, but for the pushes of its own that were not files.
-/

namespace GeserDesk

/-! ## The clipboard messages of an outbox

A client's queue, as far as the clipboard goes. -/

/-- A clipboard message, as a push has it. -/
def ServerMsg.push? : ServerMsg → Option Push
  | .clipboardGrab id seq => some (.grab id seq)
  | .clipboardData id seq chunk => some (.data id seq chunk)
  | _ => none

/-- A part of a push is sent as it is. -/
theorem push?_server (p : Push) : p.server.push? = some p := by cases p <;> rfl

/-- The clipboard messages queued for `name` since it registered, if it is. -/
def Hub.clips (h : Hub ServerMsg) (name : String) : Option (List Push) :=
  (h.clients.get? name).map fun e => e.outbox.filterMap ServerMsg.push?

namespace Hub

/-- The clipboard messages queued are read off the clients alone. -/
theorem clips_congr {h h' : Hub ServerMsg} (hclients : h'.clients = h.clients) :
    h'.clips = h.clips := by
  funext name
  rw [clips, clips, hclients]

/-- Anything else that is queued changes none of them. -/
theorem clips_send (h : Hub ServerMsg) (name : String) {msg : ServerMsg} (hmsg : msg.push? = none) :
    (h.send name msg).1.clips = h.clips := by
  funext other
  rw [clips, clips, send_get?]
  split
  · next ho =>
    rw [ho, Option.map_map]
    congr 1
    funext e
    simp [List.filterMap_append, hmsg]
  · rfl

/-- New monitors queue nothing. -/
theorem clips_setMonitors (h : Hub ServerMsg) (name : String) (monitors : List Rect) :
    (h.setMonitors name monitors).clips = h.clips := by
  funext other
  rw [clips, clips, setMonitors_get?, Option.map_map]
  congr 1
  funext e
  simp only [Function.comp_apply]
  split <;> rfl

/-- A broadcast queues its parts for everybody it is meant for. -/
theorem clips_queueAll (h : Hub ServerMsg) (except_ : Option String) (off : Finset String)
    (ps : List Push) (name : String) :
    (h.queueAll except_ off (ps.map Push.server)).clips name = (h.clips name).map fun qs =>
      if some name ≠ except_ ∧ name ∉ off then qs ++ ps else qs := by
  rw [clips, clips, queueAll_get?, Option.map_map, Option.map_map]
  congr 1
  funext e
  have hps : (ps.map Push.server).filterMap ServerMsg.push? = ps := by
    rw [List.filterMap_map]
    exact (List.filterMap_congr fun p _ => push?_server p).trans List.filterMap_some
  simp only [Function.comp_apply]
  split
  · rw [List.filterMap_append, hps]
  · rfl

/-- A client that registers begins with an empty queue. -/
theorem clips_register {h h' : Hub ServerMsg} {name : String} {monitors : List Rect}
    (hreg : h.register name monitors = some h') (other : String) :
    h'.clips other = if other = name then some [] else h.clips other := by
  obtain ⟨-, hclients, -⟩ := register_eq hreg
  rw [clips, hclients, Dict.get?_put]
  split <;> rfl

/-- A client that leaves has no queue. -/
theorem clips_unregister (h : Hub ServerMsg) (name other : String) :
    (h.unregister name).clips other = if other = name then none else h.clips other := by
  show ((h.clients.drop name).get? other).map _ = _
  rw [Dict.get?_drop]
  split <;> rfl

end Hub

/-! ## What a step of the server does to them

A step begins a broadcast, queues one of its messages, or stands beside. -/

/-- A transfer of the relay's: its number, who it is not for, and what it carries. -/
structure Broadcast where
  seq : Nat
  except_ : Option String
  content : ClipboardContent
deriving DecidableEq

namespace SharingRun

/-- Nothing the relay does or reads has changed, and no clipboard message is queued. -/
structure Beside (s s' : SharingRun) : Prop where
  clips : s'.hub.clips = s.hub.clips
  seq : s'.seq = s.seq
  relay : s'.relay = s.relay
  disabled : s'.hub.disabled = s.hub.disabled

/-- Nothing changes where nothing happens. -/
theorem Beside.refl (s : SharingRun) : Beside s s := ⟨rfl, rfl, rfl, rfl⟩

/-- Two changes beside the relay are one. -/
theorem Beside.trans {s s' s'' : SharingRun} (h : Beside s s') (h' : Beside s' s'') :
    Beside s s'' :=
  ⟨h'.clips.trans h.clips, h'.seq.trans h.seq, h'.relay.trans h.relay,
    h'.disabled.trans h.disabled⟩

/-- An answer to a read touches no clipboard. -/
theorem beside_deliver (s : SharingRun) (waiting : Waiting) (result : FileReadResult) :
    Beside s (s.deliver waiting result) := by
  cases waiting with
  | toLocal tx => exact ⟨rfl, rfl, rfl, rfl⟩
  | toClient name req => exact ⟨Hub.clips_send _ _ rfl, rfl, rfl, (Hub.send_frame _ _ _).1⟩

/-- No read that is routed touches a clipboard. -/
theorem beside_route (s : SharingRun) (waiting : Waiting) (args : ReadArgs) :
    Beside s (s.route waiting args) := by
  unfold route
  split
  · exact beside_deliver _ _ _
  · exact ⟨rfl, rfl, rfl, rfl⟩
  · exact ⟨rfl, rfl, rfl, rfl⟩

/-- No request that is taken back touches a clipboard. -/
theorem beside_refuse (s : SharingRun) (req : Nat) : Beside s (s.refuse req) := by
  unfold refuse
  split
  · next router p _ =>
    have htaken : Beside s { s with router := router } := ⟨rfl, rfl, rfl, rfl⟩
    exact htaken.trans (beside_deliver _ _ _)
  · exact ⟨rfl, rfl, rfl, rfl⟩

/-- No client that leaves touches a clipboard, as far as its requests go. -/
theorem beside_onDisconnected (s : SharingRun) (name : String) :
    Beside s (s.onDisconnected name) := by
  unfold onDisconnected
  generalize (s.router.dropOwner name).stale name = reqs
  have hdropped : Beside s { s with router := s.router.dropOwner name } := ⟨rfl, rfl, rfl, rfl⟩
  suffices hfold : ∀ (reqs : List Nat) (t : SharingRun), Beside t (reqs.foldl refuse t) from
    hdropped.trans (hfold reqs _)
  intro reqs
  induction reqs with
  | nil => exact fun t => .refl t
  | cons req reqs ih => exact fun t => (beside_refuse t req).trans (ih _)

/-- A message of a client may complete a push, but it is the hand-over that passes it on. -/
theorem beside_receive (cfg : SharingConfig) (s : SharingRun) (name : String) (pushed : Inbound)
    (msg : ClientMsg) : Beside s (s.receive cfg name pushed msg) := by
  cases msg with
  | clipboardGrab id seq =>
    simp only [receive]
    split <;> exact ⟨rfl, rfl, rfl, rfl⟩
  | clipboardData id seq chunk =>
    simp only [receive]
    split
    · split
      · split <;> exact ⟨rfl, rfl, rfl, rfl⟩
      · exact ⟨rfl, rfl, rfl, rfl⟩
    · exact .refl s
  | fileRead seq req index offset len => exact beside_route _ _ _
  | fileReply req result =>
    simp only [receive]
    split <;> exact ⟨rfl, rfl, rfl, rfl⟩
  | screenChanged info => exact ⟨Hub.clips_setMonitors _ _ _, rfl, rfl, (Hub.setMonitors_frame _ _ _).1⟩
  | _ => exact .refl s

/-- The broadcast a step begins. -/
def beginning (cfg : SharingConfig) (s : SharingRun) : SharingLabel → Option Broadcast
  | .relay =>
    match s.hub.clipboard with
    | ⟨from_, content⟩ :: _ =>
      match cfg.relay content with
      | .dropped => none
      | .announced _ => some ⟨s.seq + 1, none, content⟩
      | .applied => some ⟨s.seq + 1, some from_, content⟩
    | [] => none
  | .copyData content => some ⟨s.seq + 1, none, content⟩
  | .copyFiles manifest _ => some ⟨s.seq + 1, none, .withFiles cfg.codec manifest⟩
  | _ => none

/-- What a step is to the relay. -/
inductive RelayStep (cfg : SharingConfig) (s : SharingRun) : SharingLabel → SharingRun → Prop where
  | connect {name : String} {monitors : List Rect} {s' : SharingRun}
      (hclips : ∀ n, s'.hub.clips n = if n = name then some [] else s.hub.clips n)
      (hseq : s'.seq = s.seq) (hrelay : s'.relay = s.relay)
      (hdisabled : s'.hub.disabled = s.hub.disabled) :
      RelayStep cfg s (.connect name monitors) s'
  | disconnect {name : String} {s' : SharingRun}
      (hclips : ∀ n, s'.hub.clips n = if n = name then none else s.hub.clips n)
      (hseq : s'.seq = s.seq) (hrelay : s'.relay = s.relay)
      (hdisabled : s'.hub.disabled = s.hub.disabled) :
      RelayStep cfg s (.disconnect name) s'
  | begins {l : SharingLabel} {b : Broadcast} {s' : SharingRun} (hb : beginning cfg s l = some b)
      (hbseq : b.seq = s.seq + 1) (hidle : s.relay = .idle) (hclips : s'.hub.clips = s.hub.clips)
      (hseq : s'.seq = s.seq + 1)
      (hrelay : s'.relay = .toRead b.except_ (cfg.messages b.seq b.content))
      (hdisabled : s'.hub.disabled = s.hub.disabled) : RelayStep cfg s l s'
  | readOff {except_ : Option String} {msgs : List ServerMsg}
      (hrelay : s.relay = .toRead except_ msgs) :
      RelayStep cfg s .readOff { s with relay := .toQueue except_ s.hub.disabled msgs }
  | queue {except_ : Option String} {off : Finset String} {msgs : List ServerMsg}
      (hrelay : s.relay = .toQueue except_ off msgs) :
      RelayStep cfg s .queue { s with hub := s.hub.queueAll except_ off msgs, relay := .idle }
  | setDisabled {name : String} {disabled : Bool} :
      RelayStep cfg s (.setDisabled name disabled)
        { s with hub := s.hub.setDisabled name disabled }
  | beside {l : SharingLabel} {s' : SharingRun} (hb : beginning cfg s l = none)
      (hl : (∀ name monitors, l ≠ .connect name monitors) ∧ (∀ name, l ≠ .disconnect name)
        ∧ l ≠ .readOff ∧ l ≠ .queue ∧ ∀ name disabled, l ≠ .setDisabled name disabled)
      (h : Beside s s') : RelayStep cfg s l s'

/-- Every step of the sharing is, for the relay, one of the steps of `RelayStep`. -/
theorem relayStep_of_step {cfg : SharingConfig} {s s' : SharingRun} {l : SharingLabel}
    (hs : s.step cfg l = some s') : RelayStep cfg s l s' := by
  have hother : ∀ {l : SharingLabel}, beginning cfg s l = none →
      ((∀ name monitors, l ≠ .connect name monitors) ∧ (∀ name, l ≠ .disconnect name)
        ∧ l ≠ .readOff ∧ l ≠ .queue ∧ ∀ name disabled, l ≠ .setDisabled name disabled) →
      Beside s s' → RelayStep cfg s l s' := fun hb hl h => .beside hb hl h
  -- steps the relay has no part in come to `beside`; the others begin, read or queue
  cases l with
  | connect name monitors =>
    simp only [step] at hs
    split at hs
    · next hub hreg =>
      cases hs
      exact .connect (Hub.clips_register hreg) rfl rfl (Hub.register_eq hreg).2.2.1
    · cases hs
  | disconnect name =>
    simp only [step] at hs
    split at hs
    · cases hs
      have hbeside := beside_onDisconnected s name
      refine .disconnect (fun n => ?_) hbeside.seq hbeside.relay hbeside.disabled
      rw [← hbeside.clips]
      exact Hub.clips_unregister _ _ _
    · cases hs
  | receive name msg =>
    simp only [step] at hs
    split at hs
    · cases hs
      exact hother rfl (by simp) (beside_receive _ _ _ _ _)
    · cases hs
  | hand name =>
    simp only [step] at hs
    split at hs
    · cases hs
      exact hother rfl (by simp) ⟨rfl, rfl, rfl, rfl⟩
    · cases hs
  | request tx args =>
    cases hs
    exact hother rfl (by simp) (beside_route _ _ _)
  | enter task =>
    simp only [step] at hs
    split at hs
    · cases hs
      exact hother rfl (by simp) ⟨rfl, rfl, rfl, rfl⟩
    · cases hs
  | send task =>
    simp only [step] at hs
    split at hs
    · split at hs
      · cases hs
        exact hother rfl (by simp)
          ⟨Hub.clips_send _ _ rfl, rfl, rfl, (Hub.send_frame _ _ _).1⟩
      · cases hs
        exact hother rfl (by simp) ⟨rfl, rfl, rfl, rfl⟩
    · cases hs
  | retract task =>
    simp only [step] at hs
    split at hs
    · next req _ =>
      cases hs
      exact hother rfl (by simp)
        ((beside_refuse s req).trans ⟨rfl, rfl, rfl, rfl⟩)
    · cases hs
  | read task disk =>
    simp only [step] at hs
    split at hs
    · cases hs
      exact hother rfl (by simp) ⟨rfl, rfl, rfl, rfl⟩
    · cases hs
  | answer task =>
    simp only [step] at hs
    split at hs
    · next waiting result _ =>
      cases hs
      exact hother rfl (by simp)
        ((beside_deliver s waiting result).trans ⟨rfl, rfl, rfl, rfl⟩)
    · cases hs
  | relay =>
    simp only [step] at hs
    split at hs
    · next from_ content rest hidle hclip =>
      -- the next push is dropped, announced as files, or applied and passed on
      cases hr : cfg.relay content with
      | dropped =>
        rw [hr] at hs
        cases hs
        refine hother ?_ (by simp) ⟨rfl, rfl, rfl, rfl⟩
        simp only [beginning, hclip, hr]
      | announced manifest =>
        rw [hr] at hs
        cases hs
        exact .begins (b := ⟨s.seq + 1, none, content⟩) (by simp only [beginning, hclip, hr]) rfl
          hidle rfl rfl rfl rfl
      | applied =>
        rw [hr] at hs
        cases hs
        exact .begins (b := ⟨s.seq + 1, some from_, content⟩) (by simp only [beginning, hclip, hr])
          rfl hidle rfl rfl rfl rfl
    · cases hs
  | copyData content =>
    simp only [step] at hs
    split at hs
    · next hidle =>
      cases hs
      exact .begins (b := ⟨s.seq + 1, none, content⟩) rfl rfl hidle.1 rfl rfl rfl rfl
    · cases hs
  | copyFiles manifest abs =>
    simp only [step] at hs
    split at hs
    · next hidle =>
      cases hs
      exact .begins (b := ⟨s.seq + 1, none, .withFiles cfg.codec manifest⟩) rfl rfl hidle.1 rfl rfl
        rfl rfl
    · cases hs
  | readOff =>
    simp only [step] at hs
    split at hs
    · next hrelay =>
      cases hs
      exact .readOff hrelay
    · cases hs
  | queue =>
    simp only [step] at hs
    split at hs
    · next hrelay =>
      cases hs
      exact .queue hrelay
    · cases hs
  | setDisabled name disabled =>
    cases hs
    exact .setDisabled

end SharingRun

/-! ## Runs, with a record of the broadcasts

The record notes which broadcasts a client was there for. -/

/-- The broadcast under way has read `name` as turned off. -/
def RelayPc.PassesOver (name : String) : RelayPc → Prop
  | .toQueue _ off _ => name ∈ off
  | _ => False

instance (name : String) (pc : RelayPc) : Decidable (pc.PassesOver name) :=
  match pc with
  | .toQueue _ off _ => inferInstanceAs (Decidable (name ∈ off))
  | .idle | .toRead _ _ => inferInstanceAs (Decidable False)

structure RelayRun where
  server : SharingRun
  /-- The broadcast under way (this and the rest are bookkeeping only). -/
  current : Option Broadcast := none
  /-- What was broadcast since each client registered. -/
  since : Dict String (List Broadcast) := ∅
  /-- Whether it was turned on all that time. -/
  on : Dict String Bool := ∅
  /-- Whether the broadcast under way had passed it over by then, so that it came too late. -/
  late : Dict String Bool := ∅

inductive RelayLabel where
  | server (l : SharingLabel)
  /-- The router queues input for a client. -/
  | input (name : String) (msg : ServerMsg)

namespace RelayRun

/-- What is recorded as broadcast to `name` once the broadcast under way is queued. -/
def queued (s : RelayRun) (name : String) (bs : List Broadcast) : List Broadcast :=
  if s.late.get? name = some true then bs else bs ++ s.current.toList

/-- The record after a step of the server. -/
def note (cfg : SharingConfig) (s : RelayRun) (l : SharingLabel) (server : SharingRun) : RelayRun :=
  match l with
  | .connect name _ => { s with
      server := server
      since := s.since.put name []
      on := s.on.put name (!server.hub.isDisabled name)
      late := s.late.put name (decide (server.relay.PassesOver name)) }
  | .disconnect name => { s with
      server := server, since := s.since.drop name, on := s.on.drop name, late := s.late.drop name }
  | .queue => { s with
      server := server
      current := none
      since := s.since.mapVals s.queued
      late := ∅ }
  | .setDisabled name disabled => { s with
      server := server
      on := s.on.modify name fun on => on && !disabled }
  | l => { s with server := server, current := (s.server.beginning cfg l).or s.current }

def step (cfg : SharingConfig) (s : RelayRun) : RelayLabel → Option RelayRun
  | .server l => (s.server.step cfg l).map (s.note cfg l)
  | .input name msg =>
    match msg.push? with
    | some _ => none
    | none => some { s with
        server := { s.server with hub := (s.server.hub.send name msg).1 } }

end RelayRun

/-- The server's sharing and the router's input, as a transition system. -/
def relayRuns (cfg : SharingConfig) : Lts RelayRun RelayLabel where
  init s := ∃ disabled, s = { server := { hub := { disabled := disabled } } }
  step := RelayRun.step cfg

/-! ## The invariant

A client's queue has those broadcasts, whole and in order, up to the one under way. -/

/-- The messages of transfers, one after another. -/
def transfers (cd : Codec) (bs : List Broadcast) : List Push :=
  bs.flatMap fun b => pushes cd b.seq b.content

/-- What of the broadcasts is for `name`: not what it pushed itself, unless that was files. -/
def meantFor (name : String) (bs : List Broadcast) : List Broadcast :=
  bs.filter fun b => b.except_ ≠ some name

/-- Two stretches of broadcasts make their transfers one after the other. -/
theorem transfers_append (cd : Codec) (bs bs' : List Broadcast) :
    transfers cd (bs ++ bs') = transfers cd bs ++ transfers cd bs' := List.flatMap_append

/-- What two stretches of broadcasts mean for a client is what each of them does. -/
theorem meantFor_append (name : String) (bs bs' : List Broadcast) :
    meantFor name (bs ++ bs') = meantFor name bs ++ meantFor name bs' := List.filter_append ..

/-- The relay is at the broadcast on record. -/
def RelayPc.At (cfg : SharingConfig) (seq : Nat) (current : Option Broadcast) : RelayPc → Prop
  | .idle => current = none
  | .toRead except_ msgs | .toQueue except_ _ msgs => ∃ b, current = some b ∧ b.seq = seq
      ∧ except_ = b.except_ ∧ msgs = (pushes cfg.codec b.seq b.content).map Push.server

/-- What a client was sent, of what was broadcast since it registered. -/
def Got (cfg : SharingConfig) (name : String) (on : Option Bool) (bs : List Broadcast)
    (ps : List Push) : Prop :=
  ∃ got, got.Sublist bs ∧ ps = transfers cfg.codec got ∧ (on = some true → got = meantFor name bs)

structure RelayInv (cfg : SharingConfig) (s : RelayRun) : Prop where
  at_ : s.server.relay.At cfg s.server.seq s.current
  /-- The numbers rise, and the broadcast under way has the highest. -/
  rising : ∀ name bs, s.since.get? name = some bs →
    (bs ++ s.current.toList).Pairwise (fun b b' => b.seq < b'.seq)
      ∧ ∀ b ∈ bs ++ s.current.toList, b.seq ≤ s.server.seq
  /-- The outboxes hold whole transfers. -/
  whole : ∀ name ps, s.server.hub.clips name = some ps →
    ∃ bs, s.since.get? name = some bs ∧ Got cfg name (s.on.get? name) bs ps
  /-- A client that is on is not turned off, and not passed over unless it came too late. -/
  enabled : ∀ name, s.on.get? name = some true → name ∉ s.server.hub.disabled
    ∧ (s.server.relay.PassesOver name → s.late.get? name = some true)
  late : ∀ name, s.late.get? name = some true → s.server.relay.PassesOver name

/-- A client that has just registered has got what it was meant to: nothing. -/
theorem Got.nil (cfg : SharingConfig) (name : String) (on : Option Bool) : Got cfg name on [] [] :=
  ⟨[], .refl _, rfl, fun _ => rfl⟩

/-- A weaker record of having been on. -/
theorem Got.imp {cfg : SharingConfig} {name : String} {on on' : Option Bool} {bs : List Broadcast}
    {ps : List Push} (h : Got cfg name on bs ps) (hon : on' = some true → on = some true) :
    Got cfg name on' bs ps := by
  obtain ⟨got, hsub, hps, hall⟩ := h
  exact ⟨got, hsub, hps, fun h => hall (hon h)⟩

/-- One more broadcast, that is sent to `name` or not. -/
theorem Got.snoc {cfg : SharingConfig} {name : String} {on : Option Bool} {bs : List Broadcast}
    {ps : List Push} (h : Got cfg name on bs ps) (b : Broadcast) (sent : Prop) [Decidable sent]
    (hsent : on = some true → (sent ↔ b.except_ ≠ some name)) :
    Got cfg name on (bs ++ [b]) (if sent then ps ++ pushes cfg.codec b.seq b.content else ps) := by
  obtain ⟨got, hsub, hps, hall⟩ := h
  refine ⟨if sent then got ++ [b] else got, ?_, ?_, fun hon => ?_⟩
  · split
    · exact hsub.append (.refl _)
    · exact hsub.trans (List.sublist_append_left ..)
  · split
    · rw [hps, transfers_append]
      simp [transfers]
    · exact hps
  · rw [meantFor_append, hall hon]
    -- its own push is the one it is not sent
    by_cases h : b.except_ = some name
    · rw [if_neg (by rw [hsent hon]; exact not_not_intro h)]
      simp [meantFor, h]
    · rw [if_pos ((hsent hon).mpr h)]
      simp [meantFor, h]

namespace RelayInv

variable {cfg : SharingConfig} {s : RelayRun}

/-- A step that queues nothing and begins nothing, as far as the relay is concerned. -/
theorem aside (h : RelayInv cfg s) {t : RelayRun} (hbeside : s.server.Beside t.server)
    (hcurrent : t.current = s.current) (hsince : t.since = s.since) (hon : t.on = s.on)
    (hlate : t.late = s.late) : RelayInv cfg t where
  at_ := by
    rw [hbeside.relay, hbeside.seq, hcurrent]
    exact h.at_
  rising := by
    rw [hsince, hcurrent, hbeside.seq]
    exact h.rising
  whole := by
    rw [hbeside.clips, hsince, hon]
    exact h.whole
  enabled := by
    rw [hon, hlate, hbeside.disabled, hbeside.relay]
    exact h.enabled
  late := by
    rw [hlate, hbeside.relay]
    exact h.late

/-- The broadcast in the relay's hands goes under the last number. -/
theorem seq_current (h : RelayInv cfg s) {b : Broadcast} (hb : s.current = some b) :
    b.seq = s.server.seq := by
  have hat := h.at_
  cases hrelay : s.server.relay with
  | idle =>
    rw [hrelay] at hat
    rw [show s.current = none from hat] at hb
    cases hb
  | toRead except_ msgs =>
    rw [hrelay] at hat
    obtain ⟨b', hb', hseq, -⟩ := hat
    rw [hb] at hb'
    exact Option.some.inj hb' ▸ hseq
  | toQueue except_ off msgs =>
    rw [hrelay] at hat
    obtain ⟨b', hb', hseq, -⟩ := hat
    rw [hb] at hb'
    exact Option.some.inj hb' ▸ hseq

/-- A client that connects begins with what is broadcast from now on. -/
theorem connect (h : RelayInv cfg s) {name : String} {monitors : List Rect} {server : SharingRun}
    (hclips : ∀ n, server.hub.clips n = if n = name then some [] else s.server.hub.clips n)
    (hseq : server.seq = s.server.seq) (hrelay : server.relay = s.server.relay)
    (hdisabled : server.hub.disabled = s.server.hub.disabled) :
    RelayInv cfg (s.note cfg (.connect name monitors) server) where
  at_ := by
    show server.relay.At cfg server.seq s.current
    rw [hrelay, hseq]
    exact h.at_
  rising := by
    intro n bs hbs
    change (s.since.put name []).get? n = some bs at hbs
    show _ ∧ ∀ b ∈ bs ++ s.current.toList, b.seq ≤ server.seq
    rw [hseq]
    rw [Dict.get?_put] at hbs
    split at hbs
    · cases hbs
      cases hb : s.current with
      | none => simp [RelayRun.note, hb]
      -- nothing was broadcast since, but what is under way is still to come
      | some b =>
        have hle := (h.seq_current hb).le
        simpa [RelayRun.note, hb] using hle
    · exact h.rising n bs hbs
  whole := by
    intro n ps hps
    change server.hub.clips n = some ps at hps
    show ∃ bs, (s.since.put name []).get? n = some bs
      ∧ Got cfg n ((s.on.put name (!server.hub.isDisabled name)).get? n) bs ps
    rw [hclips] at hps
    rw [Dict.get?_put, Dict.get?_put]
    split at hps
    · next hn =>
      cases hps
      rw [if_pos hn, if_pos hn]
      exact ⟨[], rfl, .nil ..⟩
    · next hn =>
      rw [if_neg hn, if_neg hn]
      exact h.whole n ps hps
  enabled := by
    intro n hn
    change (s.on.put name (!server.hub.isDisabled name)).get? n = some true at hn
    show n ∉ server.hub.disabled ∧ (server.relay.PassesOver n →
      (s.late.put name (decide (server.relay.PassesOver name))).get? n = some true)
    rw [Dict.get?_put] at hn ⊢
    split at hn
    · next hname =>
      rw [if_pos hname, hname]
      -- if it is already passed over, it came too late for this one
      refine ⟨?_, fun hover => by rw [decide_eq_true hover]⟩
      simpa [Hub.isDisabled] using hn
    · next hname =>
      rw [if_neg hname, hdisabled, hrelay]
      exact h.enabled n hn
  late := by
    intro n hn
    change (s.late.put name (decide (server.relay.PassesOver name))).get? n = some true at hn
    show server.relay.PassesOver n
    rw [Dict.get?_put] at hn
    split at hn
    · next hname =>
      rw [hname]
      exact of_decide_eq_true (Option.some.inj hn)
    · rw [hrelay]
      exact h.late n hn

/-- A client that leaves takes its queue with it. -/
theorem disconnect (h : RelayInv cfg s) {name : String} {server : SharingRun}
    (hclips : ∀ n, server.hub.clips n = if n = name then none else s.server.hub.clips n)
    (hseq : server.seq = s.server.seq) (hrelay : server.relay = s.server.relay)
    (hdisabled : server.hub.disabled = s.server.hub.disabled) :
    RelayInv cfg (s.note cfg (.disconnect name) server) where
  -- the fields in their order: the screen that left is dropped, and nothing else changes
  at_ := by
    show server.relay.At cfg server.seq s.current
    rw [hrelay, hseq]
    exact h.at_
  rising := by
    intro n bs hbs
    change (s.since.drop name).get? n = some bs at hbs
    show _ ∧ ∀ b ∈ bs ++ s.current.toList, b.seq ≤ server.seq
    rw [hseq]
    rw [Dict.get?_drop] at hbs
    split at hbs
    · cases hbs
    · exact h.rising n bs hbs
  whole := by
    intro n ps hps
    change server.hub.clips n = some ps at hps
    show ∃ bs, (s.since.drop name).get? n = some bs ∧ Got cfg n ((s.on.drop name).get? n) bs ps
    rw [hclips] at hps
    rw [Dict.get?_drop, Dict.get?_drop]
    split at hps
    · cases hps
    · next hn =>
      rw [if_neg hn, if_neg hn]
      exact h.whole n ps hps
  enabled := by
    intro n hn
    change (s.on.drop name).get? n = some true at hn
    show n ∉ server.hub.disabled
      ∧ (server.relay.PassesOver n → (s.late.drop name).get? n = some true)
    rw [Dict.get?_drop] at hn ⊢
    split at hn
    · cases hn
    · next hname =>
      rw [if_neg hname, hdisabled, hrelay]
      exact h.enabled n hn
  late := by
    intro n hn
    change (s.late.drop name).get? n = some true at hn
    show server.relay.PassesOver n
    rw [Dict.get?_drop] at hn
    split at hn
    · cases hn
    · rw [hrelay]
      exact h.late n hn

/-- A broadcast begins: its number is higher than those before. -/
theorem begins (h : RelayInv cfg s) {t : RelayRun} {b : Broadcast}
    (hbseq : b.seq = s.server.seq + 1) (hidle : s.server.relay = .idle)
    (hclips : t.server.hub.clips = s.server.hub.clips) (hseq : t.server.seq = s.server.seq + 1)
    (hrelay : t.server.relay = .toRead b.except_ (cfg.messages b.seq b.content))
    (hdisabled : t.server.hub.disabled = s.server.hub.disabled) (hcurrent : t.current = some b)
    (hsince : t.since = s.since) (hon : t.on = s.on) (hlate : t.late = s.late) :
    RelayInv cfg t where
  at_ := by
    rw [hrelay, hseq]
    exact ⟨b, hcurrent, hbseq, rfl, cfg.messages_eq _ _⟩
  rising := by
    intro n bs hbs
    rw [hsince] at hbs
    -- a broadcast begins only when the one before is queued
    have hnone : s.current = none := by simpa [RelayPc.At, hidle] using h.at_
    obtain ⟨hpair, hle⟩ := h.rising n bs hbs
    rw [hnone, Option.toList_none, List.append_nil] at hpair hle
    rw [hcurrent, hseq, Option.toList_some]
    refine ⟨List.pairwise_append.mpr ⟨hpair, List.pairwise_singleton _ _, ?_⟩, ?_⟩
    · intro a ha b' hb'
      have hb' : b' = b := List.mem_singleton.mp hb'
      have hale := hle a ha
      rw [hb']
      omega
    · intro a ha
      rcases List.mem_append.mp ha with ha | ha
      · exact (hle a ha).trans (Nat.le_succ _)
      · rw [List.mem_singleton.mp ha]
        exact hbseq.le
  whole := by
    rw [hclips, hsince, hon]
    exact h.whole
  enabled := by
    intro n hn
    rw [hon] at hn
    rw [hrelay, hdisabled]
    exact ⟨(h.enabled n hn).1, False.elim⟩
  late := by
    intro n hn
    rw [hlate] at hn
    have hover := h.late n hn
    rw [hidle] at hover
    exact hover.elim

/-- The screens turned off are read: from then on they are passed over. -/
theorem readOff (h : RelayInv cfg s) {except_ : Option String} {msgs : List ServerMsg}
    (hrelay : s.server.relay = .toRead except_ msgs) :
    RelayInv cfg { s with
      server := { s.server with
        relay := .toQueue except_ s.server.hub.disabled msgs } } where
  at_ := by
    have hat := h.at_
    rw [hrelay] at hat
    exact hat
  rising := h.rising
  whole := h.whole
  enabled := by
    intro n hn
    have hin := (h.enabled n hn).1
    exact ⟨hin, fun hover => absurd hover hin⟩
  late := by
    intro n hn
    have hover := h.late n hn
    rw [hrelay] at hover
    exact hover.elim

/-- They are queued: to each client all of them, or none. -/
theorem queue (h : RelayInv cfg s) {except_ : Option String} {off : Finset String}
    {msgs : List ServerMsg} (hrelay : s.server.relay = .toQueue except_ off msgs) :
    RelayInv cfg (s.note cfg .queue
      { s.server with hub := s.server.hub.queueAll except_ off msgs, relay := .idle }) := by
  have hat := h.at_
  rw [hrelay] at hat
  obtain ⟨b, hb, -, hexcept, hmsgs⟩ := hat
  refine ⟨rfl, fun n bs hbs => ?_, fun n ps hps => ?_, fun n hn => ?_, fun n hn => ?_⟩
  · change (s.since.mapVals s.queued).get? n = some bs at hbs
    rw [Dict.get?_mapVals] at hbs
    obtain ⟨old, hold, rfl⟩ := Option.map_eq_some_iff.mp hbs
    obtain ⟨hpair, hle⟩ := h.rising n old hold
    have hsub : (s.queued n old).Sublist (old ++ s.current.toList) := by
      unfold RelayRun.queued
      split
      · exact List.sublist_append_left ..
      · exact .refl _
    show (s.queued n old ++ []).Pairwise _ ∧ ∀ b ∈ s.queued n old ++ [], b.seq ≤ s.server.seq
    rw [List.append_nil]
    exact ⟨hpair.sublist hsub, fun b hb => hle b (hsub.subset hb)⟩
  · change (s.server.hub.queueAll except_ off msgs).clips n = some ps at hps
    show ∃ bs, (s.since.mapVals s.queued).get? n = some bs ∧ Got cfg n (s.on.get? n) bs ps
    rw [hmsgs, Hub.clips_queueAll] at hps
    obtain ⟨old, hold, rfl⟩ := Option.map_eq_some_iff.mp hps
    obtain ⟨bs, hbs, hgot⟩ := h.whole n old hold
    refine ⟨s.queued n bs, by rw [Dict.get?_mapVals, hbs]; rfl, ?_⟩
    unfold RelayRun.queued
    have hoff : s.server.relay.PassesOver n ↔ n ∈ off := by rw [hrelay]; rfl
    by_cases hlate : s.late.get? n = some true
    · -- it was passed over before it registered
      have hn : n ∈ off := hoff.mp (h.late n hlate)
      rw [if_pos hlate, if_neg fun hsent => hsent.2 hn]
      exact hgot
    -- one that is on was not passed over, so it is sent unless it is the one that pushed
    · rw [if_neg hlate, hb, Option.toList_some]
      refine hgot.snoc b _ fun hon => ?_
      have hn : n ∉ off := fun hn => hlate ((h.enabled n hon).2 (hoff.mpr hn))
      rw [hexcept]
      exact ⟨fun hsent heq => hsent.1 heq.symm, fun hne => ⟨fun heq => hne heq.symm, hn⟩⟩
  · exact ⟨(h.enabled n hn).1, False.elim⟩
  · change (∅ : Dict String Bool).get? n = some true at hn
    rw [Dict.get?_empty] at hn
    cases hn

/-- A screen turned off or on misses or gets broadcasts from the next look on; those begun before
are not changed. -/
theorem setDisabled (h : RelayInv cfg s) (name : String) (disabled : Bool) :
    RelayInv cfg (s.note cfg (.setDisabled name disabled)
      { s.server with hub := s.server.hub.setDisabled name disabled }) := by
  have hon : ∀ n, (s.on.modify name fun on => on && !disabled).get? n = some true →
      s.on.get? n = some true ∧ (n = name → disabled = false) := by
    intro n hn
    rw [Dict.get?_modify] at hn
    split at hn
    · obtain ⟨on, hon, hand⟩ := Option.map_eq_some_iff.mp hn
      rw [Bool.and_eq_true, Bool.not_eq_true'] at hand
      exact ⟨hand.1 ▸ hon, fun _ => hand.2⟩
    · next hname => exact ⟨hn, fun h => absurd h hname⟩
  have hclips : (s.server.hub.setDisabled name disabled).clips = s.server.hub.clips :=
    Hub.clips_congr (Hub.setDisabled_frame _ _ _).1
  refine ⟨h.at_, h.rising, fun n ps hps => ?_, fun n hn => ?_, h.late⟩
  · change (s.server.hub.setDisabled name disabled).clips n = some ps at hps
    rw [hclips] at hps
    obtain ⟨bs, hbs, hgot⟩ := h.whole n ps hps
    exact ⟨bs, hbs, hgot.imp fun hn => (hon n hn).1⟩
  · obtain ⟨hwas, hname⟩ := hon n hn
    obtain ⟨hin, hover⟩ := h.enabled n hwas
    refine ⟨fun hmem => hin ?_, hover⟩
    change n ∈ (s.server.hub.setDisabled name disabled).disabled at hmem
    rw [(Hub.setDisabled_frame _ _ _).2.2] at hmem
    cases disabled with
    -- the one turned off does not count as on any more
    | true =>
      rcases Finset.mem_insert.mp hmem with rfl | hmem
      · cases hname rfl
      · exact hmem
    | false => exact Finset.mem_of_mem_erase hmem

/-- **What one step preserves**, one case for each thing a step is to the relay. -/
theorem of_server_step (h : RelayInv cfg s) {l : SharingLabel} {server : SharingRun}
    (hs : s.server.step cfg l = some server) : RelayInv cfg (s.note cfg l server) := by
  cases SharingRun.relayStep_of_step hs with
  | connect hclips hseq hrelay hdisabled => exact h.connect hclips hseq hrelay hdisabled
  | disconnect hclips hseq hrelay hdisabled => exact h.disconnect hclips hseq hrelay hdisabled
  | @begins _ b _ hb hbseq hidle hclips hseq hrelay hdisabled =>
    have hnote : s.note cfg l server
        = { s with server := server, current := (s.server.beginning cfg l).or s.current } := by
      cases l with
      | relay => rfl
      | copyData content => rfl
      | copyFiles manifest abs => rfl
      | _ => cases hb
    rw [hnote, hb]
    exact h.begins hbseq hidle hclips hseq hrelay hdisabled rfl rfl rfl rfl
  | readOff hrelay => exact h.readOff hrelay
  | queue hrelay => exact h.queue hrelay
  | setDisabled => exact h.setDisabled _ _
  | beside hb hl hbeside =>
    obtain ⟨hconnect, hdisconnect, -, hqueue, hsetDisabled⟩ := hl
    have hnote : s.note cfg l server
        = { s with server := server, current := (s.server.beginning cfg l).or s.current } := by
      cases l with
      | connect name monitors => exact absurd rfl (hconnect name monitors)
      | disconnect name => exact absurd rfl (hdisconnect name)
      | queue => exact absurd rfl hqueue
      | setDisabled name disabled => exact absurd rfl (hsetDisabled name disabled)
      | _ => rfl
    rw [hnote, hb, Option.none_or]
    exact h.aside hbeside rfl rfl rfl rfl

end RelayInv

/-- **The invariant of the relay holds in every reachable state.** -/
theorem relayInv_reach {cfg : SharingConfig} {s : RelayRun} (hs : (relayRuns cfg).Reachable s) :
    RelayInv cfg s := by
  refine hs.invariant ?_ ?_
  · rintro s ⟨disabled, rfl⟩
    refine ⟨rfl, fun n bs hbs => ?_, fun n ps hps => ?_, fun n hn => ?_, fun n hn => ?_⟩
    · cases hbs
    · cases hps
    · cases hn
    · cases hn
  · intro s l t _ hinv _ hl
    cases l with
    | server l =>
      obtain ⟨server, hserver, rfl⟩ := Option.map_eq_some_iff.mp hl
      exact hinv.of_server_step hserver
    | input name msg =>
      simp only [relayRuns, RelayRun.step] at hl
      split at hl
      · cases hl
      · next hmsg =>
        cases hl
        have hbeside : s.server.Beside { s.server with hub := (s.server.hub.send name msg).1 } :=
          ⟨Hub.clips_send _ _ hmsg, rfl, rfl, (Hub.send_frame _ _ _).1⟩
        exact hinv.aside hbeside rfl rfl rfl rfl

/-! ## What a client makes of its outbox -/

/-- Read whole, transfers come out as what they carry, as far as it is within the limit. -/
theorem feed_transfers (cfg : SharingConfig) (i : Inbound) (bs : List Broadcast) :
    (feed cfg.take i (transfers cfg.codec bs)).2
      = (bs.filter fun b => cfg.Carries b.content).map fun b => (b.seq, b.content) := by
  induction bs generalizing i with
  | nil => rfl
  | cons b bs ih =>
    have hcons : transfers cfg.codec (b :: bs)
        = pushes cfg.codec b.seq b.content ++ transfers cfg.codec bs := List.flatMap_cons ..
    rw [hcons, feed_append]
    dsimp only
    rw [ih, cfg.feed_take_pushes]
    by_cases h : cfg.Carries b.content
    · simp [h]
    · simp [h]

/-- **Whole and in order**: in every state of every run, the clipboard messages in a client's outbox
are those of whole transfers, of what was broadcast since it registered, with rising numbers. If it
was on all that time they are those of every broadcast but its own pushes of other things than
files, and what comes of reading them is what these carry. -/
theorem relay_delivers_in_order (cfg : SharingConfig) {s : RelayRun}
    (hs : (relayRuns cfg).Reachable s) {name : String} {ps : List Push}
    (hps : s.server.hub.clips name = some ps) :
    ∃ bs got, s.since.get? name = some bs ∧ got.Sublist bs
      ∧ bs.Pairwise (fun b b' => b.seq < b'.seq) ∧ got.Pairwise (fun b b' => b.seq < b'.seq)
      ∧ ps = transfers cfg.codec got
      ∧ (s.on.get? name = some true → got = meantFor name bs
        ∧ (feed cfg.take {} ps).2 = ((meantFor name bs).filter fun b => cfg.Carries b.content).map
            fun b => (b.seq, b.content)) := by
  have hinv := relayInv_reach hs
  obtain ⟨bs, hbs, got, hsub, hgot, hall⟩ := hinv.whole name ps hps
  have hrise : bs.Pairwise fun b b' => b.seq < b'.seq :=
    (hinv.rising name bs hbs).1.sublist (List.sublist_append_left ..)
  refine ⟨bs, got, hbs, hsub, hrise, hrise.sublist hsub, hgot, fun hon => ⟨hall hon, ?_⟩⟩
  rw [hgot, feed_transfers, hall hon]

/-- "a" copies a text and, when it is queued, the server another; "b" is given input in between. Its
outbox has both transfers, that of "a" only the second. -/
theorem relay_delivers_two : ∃ s ps,
    (relayRuns plainSharing).Reachable s ∧ s.server.hub.clips "b" = some ps
      ∧ (feed plainSharing.take {} ps).2 = [(1, .new (some "x") none), (2, .new (some "y") none)]
      ∧ ∃ qs, s.server.hub.clips "a" = some qs
        ∧ (feed plainSharing.take {} qs).2 = [(2, .new (some "y") none)] := by
  let before : List SharingLabel := [.connect "a" [], .connect "b" []]
    ++ pushLabels "a" 1 (.new (some "x") none) ++ [.hand "a", .relay, .readOff]
  let after : List SharingLabel :=
    [.queue, .copyData (.new (some "y") none), .readOff, .queue]
  let labels : List RelayLabel := before.map .server ++ .input "b" .leave :: after.map .server
  let bs : List Broadcast :=
    [⟨1, some "a", .new (some "x") none⟩, ⟨2, none, .new (some "y") none⟩]
  have hrun : ((relayRuns plainSharing).run ⟨{}, none, ∅, ∅, ∅⟩ labels).map (fun s =>
      (decide (∀ n ∈ ["a", "b"], (s.server.hub.clips n).isSome ∧ s.on.get? n = some true),
        ["a", "b"].map s.since.get?)) = some (true, [some bs, some bs]) := by
    decide +kernel
  -- what was noted of the broadcasts, for each of the two
  obtain ⟨s, hs, hstate⟩ := Option.map_eq_some_iff.mp hrun
  obtain ⟨hboth, hsince⟩ := Prod.mk.inj hstate
  rw [decide_eq_true_iff] at hboth
  obtain ⟨ha, hona⟩ := hboth "a" (by simp)
  obtain ⟨hb, honb⟩ := hboth "b" (by simp)
  obtain ⟨hsincea, hsinceb⟩ : s.since.get? "a" = some bs ∧ s.since.get? "b" = some bs := by
    simpa using hsince
  obtain ⟨ps, hps⟩ := Option.isSome_iff_exists.mp hb
  obtain ⟨qs, hqs⟩ := Option.isSome_iff_exists.mp ha
  have hreach : (relayRuns plainSharing).Reachable s :=
    Lts.reachable_of_run ⟨∅, rfl⟩ hs
  -- both were there for both of them
  obtain ⟨mine, _, hmine, -, -, -, -, hall⟩ := relay_delivers_in_order plainSharing hreach hqs
  obtain ⟨theirs, _, htheirs, -, -, -, -, hall'⟩ := relay_delivers_in_order plainSharing hreach hps
  have hmine : mine = bs := Option.some.inj (hmine.symm.trans hsincea)
  have htheirs : theirs = bs := Option.some.inj (htheirs.symm.trans hsinceb)
  refine ⟨s, ps, hreach, hps, ?_, qs, hqs, ?_⟩
  · rw [(hall' honb).2, htheirs]
    decide +kernel
  · rw [(hall hona).2, hmine]
    decide +kernel

end GeserDesk
