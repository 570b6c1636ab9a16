import GeserDesk.System.SharingRuns

/-!
# Nothing under way about a screen that is turned off

The broadcast and the way pushes come in consult the screens turned off; the file router does not,
in either direction. Here is what it takes for a screen to be out of sharing all the same
(`OutOfIt`), and what follows of one run.

* **`uninvolved_reach`**: while a screen is turned off nothing about it is under way anywhere
  (`Uninvolved`).
* **`uninvolved_step`**: a step then queues nothing for it that shares anything (`Quiet`).
-/

namespace GeserDesk

/-! ## What is not under way

Nothing under way names the screen: no read, no push, no announcement. -/

/-- The answer is not for `name`. -/
def Waiting.Spares (name : String) : Waiting → Prop
  | .toClient n _ => n ≠ name
  | .toLocal _ => True

instance (name : String) : DecidablePred (Waiting.Spares name)
  | .toClient n _ => inferInstanceAs (Decidable (n ≠ name))
  | .toLocal _ => .isTrue trivial

/-- The request was not sent to `name`, nor is the answer for it. -/
def Pending.Spares (name : String) (p : Pending Waiting) : Prop :=
  p.sentTo ≠ name ∧ p.waiting.Spares name

instance (name : String) : DecidablePred (Pending.Spares name) := fun p => by
  unfold Pending.Spares; infer_instance

def Routing.Spares (name : String) : Routing → Prop
  | .enter owner waiting _ => owner ≠ name ∧ waiting.Spares name
  | .send owner _ _ => owner ≠ name
  | .retract _ => True
  | .read waiting _ | .answer waiting _ => waiting.Spares name

instance (name : String) : DecidablePred (Routing.Spares name) := fun t => by
  unfold Routing.Spares
  split <;> infer_instance

/-- A broadcast under way passes `name` over. -/
def RelayPc.Spares (name : String) : RelayPc → Prop
  | .toQueue _ off _ => name ∈ off
  | _ => True

instance (name : String) : DecidablePred (RelayPc.Spares name) := fun pc => by
  unfold RelayPc.Spares
  split <;> infer_instance

/-- Nothing about `name` is under way: it owns no files announced, no push of it is on its way to
the relay, no read waits for it or was sent to it, and no broadcast is about to reach it. -/
structure SharingRun.Uninvolved (s : SharingRun) (name : String) : Prop where
  owner : s.router.currentOwner ≠ some (.client name)
  pushes : ∀ c ∈ s.hub.clipboard, c.from_ ≠ name
  handing : s.handing.get? name = none
  pending : s.router.pending.All (Pending.Spares name)
  tasks : s.tasks.All (Routing.Spares name)
  relay : s.relay.Spares name

instance (s : SharingRun) (name : String) : Decidable (s.Uninvolved name) :=
  decidable_of_iff (s.router.currentOwner ≠ some (.client name)
      ∧ (∀ c ∈ s.hub.clipboard, c.from_ ≠ name) ∧ s.handing.get? name = none
      ∧ s.router.pending.All (Pending.Spares name) ∧ s.tasks.All (Routing.Spares name)
      ∧ s.relay.Spares name)
    ⟨fun ⟨ho, hp, hh, hw, ht, hr⟩ => ⟨ho, hp, hh, hw, ht, hr⟩,
      fun h => ⟨h.owner, h.pushes, h.handing, h.pending, h.tasks, h.relay⟩⟩

/-- A screen is turned off only when nothing about it is under way, and on again only when no push
of it is half received. While it is off, its client asks for files only when none are announced,
and answers no read that is waited for. -/
def OutOfIt (s : SharingRun) : SharingLabel → Prop
  | .setDisabled name true => s.hub.isDisabled name = true ∨ s.Uninvolved name
  | .setDisabled name false => (s.pushed.get? name).all (· = {})
  | .receive name (.fileRead _ _ _ _ _) =>
    s.hub.isDisabled name = true → s.router.currentOwner = none
  | .receive name (.fileReply req _) =>
    s.hub.isDisabled name = true → (s.router.pending.get? req).isNone = true
  | _ => True

instance (s : SharingRun) (l : SharingLabel) : Decidable (OutOfIt s l) := by
  unfold OutOfIt
  split <;> infer_instance

/-! ## What is to hold -/

/-- A copy, a read of files or what was read. -/
def ServerMsg.Shares : ServerMsg → Prop
  | .clipboardGrab _ _ | .clipboardData _ _ _ | .fileRead _ _ _ _ _ | .fileReply _ (.data _) =>
    True
  | _ => False

namespace SharingRun

/-- What was queued for `name` since it registered. -/
def outbox (s : SharingRun) (name : String) : List ServerMsg :=
  ((s.hub.clients.get? name).map (·.outbox)).getD []

/-- From `s` to `s'`, nothing is queued for `name` that shares anything. -/
def Quiet (name : String) (s s' : SharingRun) : Prop :=
  ∃ added, s'.outbox name = s.outbox name ++ added ∧ ∀ msg ∈ added, ¬ msg.Shares

end SharingRun

/-! ## What a step leaves alone -/

namespace SharingRun

/-- What answering leaves alone, and what it queues. -/
theorem deliver_frame (s : SharingRun) (waiting : Waiting) (result : FileReadResult) :
    (s.deliver waiting result).router = s.router
      ∧ (s.deliver waiting result).hub.disabled = s.hub.disabled
      ∧ (s.deliver waiting result).hub.clipboard = s.hub.clipboard := by
  cases waiting with
  | toLocal tx => exact ⟨rfl, rfl, rfl⟩
  | toClient name req => exact ⟨rfl, Hub.send_frame _ _ _⟩

/-- Taking a request back drops it from the table, and answers whoever waits for it. -/
theorem refuse_frame (s : SharingRun) (req : Nat) :
    (s.refuse req).router = { s.router with pending := s.router.pending.drop req }
      ∧ (s.refuse req).hub.disabled = s.hub.disabled
      ∧ (s.refuse req).hub.clipboard = s.hub.clipboard ∧ (s.refuse req).handing = s.handing
      ∧ (s.refuse req).tasks = s.tasks ∧ (s.refuse req).relay = s.relay
      ∧ (s.refuse req).pushed = s.pushed := by
  unfold refuse FileRouter.take
  cases s.router.pending.get? req with
  | none => exact ⟨rfl, rfl, rfl, rfl, rfl, rfl, rfl⟩
  | some p =>
    dsimp only
    obtain ⟨hr, hd, hc⟩ := deliver_frame
      { s with router := { s.router with pending := s.router.pending.drop req } } p.waiting
      (.err .notFound)
    exact ⟨hr, hd, hc, rfl, rfl, rfl, rfl⟩

end SharingRun

/-! ## Nothing about a screen that is off gets under way

The methods that might start something look at who is turned off. -/

/-- What comes to be under way was under way, or is not about `name`. -/
theorem SharingRun.Uninvolved.of {s s' : SharingRun} {name : String} (h : s.Uninvolved name)
    (howner : s'.router.currentOwner = some (.client name) →
      s.router.currentOwner = some (.client name))
    (hpushes : ∀ c ∈ s'.hub.clipboard, c ∈ s.hub.clipboard ∨ c.from_ ≠ name)
    (hhanding : s'.handing.get? name = s.handing.get? name)
    (hpending : ∀ req p, s'.router.pending.get? req = some p →
      s.router.pending.get? req = some p ∨ p.Spares name)
    (htasks : ∀ k t, s'.tasks.get? k = some t → s.tasks.get? k = some t ∨ t.Spares name)
    (hrelay : s'.relay = s.relay ∨ s'.relay.Spares name) : s'.Uninvolved name := by
  constructor
  · exact fun ho => h.owner (howner ho)
  · exact fun c hc => (hpushes c hc).elim (h.pushes c) id
  · rw [hhanding]; exact h.handing
  · exact fun req p hp => (hpending req p hp).elim (h.pending req p) id
  · exact fun k t ht => (htasks k t ht).elim (h.tasks k t) id
  · rcases hrelay with hsame | hspares
    · rw [hsame]; exact h.relay
    · exact hspares

/-- A step that takes requests out of the table, ends tasks and leaves the rest. -/
theorem SharingRun.Uninvolved.fewer {s s' : SharingRun} {name : String} (h : s.Uninvolved name)
    (howner : s'.router.currentOwner = some (.client name) →
      s.router.currentOwner = some (.client name))
    (hpushes : s'.hub.clipboard = s.hub.clipboard) (hhanding : s'.handing = s.handing)
    (hpending : ∀ req p, s'.router.pending.get? req = some p →
      s.router.pending.get? req = some p)
    (htasks : ∀ k t, s'.tasks.get? k = some t → s.tasks.get? k = some t)
    (hrelay : s'.relay = s.relay) : s'.Uninvolved name :=
  h.of howner (fun c hc => .inl (hpushes ▸ hc)) (by rw [hhanding])
    (fun req p hp => .inl (hpending req p hp)) (fun k t ht => .inl (htasks k t ht)) (.inl hrelay)

/-- Binding one task. -/
theorem task_of_put {s : SharingRun} {name : String} {task : Nat} {t : Routing}
    (ht : t.Spares name) (k : Nat) (t' : Routing) (h : (s.tasks.put task t).get? k = some t') :
    s.tasks.get? k = some t' ∨ t'.Spares name := by
  rw [Dict.get?_put] at h
  split at h
  · exact .inr (Option.some.inj h ▸ ht)
  · exact .inl h

/-- What is in a table after a removal was in it before. -/
theorem get?_of_drop {V : Type} {m : Dict Nat V} {k k' : Nat} {v : V}
    (h : (m.drop k).get? k' = some v) : m.get? k' = some v := by
  rw [Dict.get?_drop] at h
  split at h
  · cases h
  · exact h

namespace SharingRun.Uninvolved

variable {s : SharingRun} {name : String}

/-- A request taken back brings no answer for `name`. -/
theorem refuse (h : s.Uninvolved name) (req : Nat) : (s.refuse req).Uninvolved name := by
  obtain ⟨hrouter, -, hclip, hhanding, htasks, hrelay, -⟩ := s.refuse_frame req
  refine h.fewer ?_ hclip hhanding ?_ (fun k t ht => htasks ▸ ht) hrelay
  · rw [hrouter]; exact id
  · rw [hrouter]; exact fun k p hp => get?_of_drop hp

/-- Several requests taken back bring no answer for `name`. -/
theorem refuseAll (h : s.Uninvolved name) (reqs : List Nat) :
    (reqs.foldl SharingRun.refuse s).Uninvolved name := by
  induction reqs generalizing s with
  | nil => exact h
  | cons req reqs ih => exact ih (h.refuse req)

/-- An owner that is no longer one leaves `name` uninvolved. -/
theorem dropOwner (h : s.Uninvolved name) (other : String) :
    ({ s with router := s.router.dropOwner other } : SharingRun).Uninvolved name := by
  obtain ⟨hpending, -⟩ := s.router.dropOwner_keeps other
  refine h.fewer ?_ rfl rfl (fun req p hp => hpending ▸ hp) (fun _ _ ht => ht) rfl
  show (s.router.dropOwner other).currentOwner = _ → _
  unfold FileRouter.dropOwner
  split
  · split
    · nofun
    · exact id
  · exact id

/-- A client that leaves brings no answer for `name`. -/
theorem onDisconnected (h : s.Uninvolved name) (other : String) :
    (s.onDisconnected other).Uninvolved name := (h.dropOwner other).refuseAll _

/-- A read of someone else, or one that finds no files, gets nothing about `name` under way. -/
theorem route (h : s.Uninvolved name) {waiting : Waiting} {args : ReadArgs}
    (hw : waiting.Spares name ∨ s.router.currentOwner = none) :
    (s.route waiting args).Uninvolved name := by
  unfold SharingRun.route
  cases howner : s.router.currentOwner with
  | none =>
    obtain ⟨hrouter, -, hclip⟩ := s.deliver_frame waiting (.err .notFound)
    refine h.fewer ?_ hclip rfl ?_ (fun _ _ ht => ht) rfl
    · rw [hrouter]; exact id
    · rw [hrouter]; exact fun _ _ hp => hp
  | some owner =>
    have hspares : waiting.Spares name := hw.resolve_right (by rw [howner]; nofun)
    cases owner with
    | server =>
      exact h.of id (fun _ hc => .inl hc) rfl (fun _ _ hp => .inl hp) (task_of_put hspares)
        (.inl rfl)
    | client o =>
      have ho : o ≠ name := by
        rintro rfl
        exact h.owner howner
      exact h.of id (fun _ hc => .inl hc) rfl (fun _ _ hp => .inl hp)
        (task_of_put (t := .enter o waiting args) ⟨ho, hspares⟩) (.inl rfl)

end SharingRun.Uninvolved

/-! ## Nothing is queued for a screen that is off

What is queued for it is nothing of the sharing. -/

namespace SharingRun

variable {s s' : SharingRun} {name : String}

/-- An outbox that is as it was has got nothing. -/
theorem quiet_of_outbox (h : s'.outbox name = s.outbox name) : Quiet name s s' :=
  ⟨[], by rw [h, List.append_nil], nofun⟩

/-- Two quiet steps in a row are quiet. -/
theorem Quiet.trans {t : SharingRun} (h : Quiet name s s') (h' : Quiet name s' t) :
    Quiet name s t := by
  obtain ⟨a, ha, hsilent⟩ := h
  obtain ⟨b, hb, hsilent'⟩ := h'
  refine ⟨a ++ b, by rw [hb, ha, List.append_assoc], fun msg hm => ?_⟩
  exact (List.mem_append.mp hm).elim (hsilent msg) (hsilent' msg)

/-- What is queued for a client is what the hub's table says. -/
theorem outbox_eq {other : String} (h : (s'.hub.clients.get? other).map (·.outbox)
    = (s.hub.clients.get? other).map (·.outbox)) : s'.outbox other = s.outbox other := by
  unfold outbox
  rw [h]

/-- One message is queued for `to_`: nothing that shares, or for someone else. -/
theorem quiet_send {to_ : String} {msg : ServerMsg} (hhub : s'.hub.clients
    = (s.hub.send to_ msg).1.clients) (h : to_ ≠ name ∨ ¬ msg.Shares) : Quiet name s s' := by
  have hget : s'.hub.clients.get? name = _ := (congrArg (·.get? name) hhub).trans
    (Hub.send_get? s.hub to_ name msg)
  by_cases hto : name = to_
  · rw [if_pos hto] at hget
    cases he : s.hub.clients.get? to_ with
    | none =>
      refine quiet_of_outbox ?_
      unfold outbox
      rw [hget, hto, he]; rfl
    | some e =>
      refine ⟨[msg], ?_, ?_⟩
      · unfold outbox
        rw [hget, hto, he]; rfl
      · intro m hm
        rw [List.mem_singleton.mp hm]
        exact h.resolve_left fun hne => hne hto.symm
  · rw [if_neg hto] at hget
    exact quiet_of_outbox (outbox_eq (by rw [hget]))

/-- An answer to somebody else, or a refusal, is quiet. -/
theorem quiet_deliver {waiting : Waiting} {result : FileReadResult}
    (h : waiting.Spares name ∨ result = .err .notFound) :
    Quiet name s (s.deliver waiting result) := by
  cases waiting with
  | toLocal tx => exact quiet_of_outbox rfl
  | toClient to_ req =>
    refine quiet_send rfl (h.imp id ?_)
    rintro rfl
    exact id

/-- Taking a request back is quiet. -/
theorem quiet_refuse (req : Nat) : Quiet name s (s.refuse req) := by
  unfold refuse
  cases hp : s.router.take req with
  | mk router found =>
    cases found with
    | none => exact quiet_of_outbox rfl
    | some p => exact quiet_deliver (.inr rfl)

/-- Taking several requests back is quiet. -/
theorem quiet_refuseAll (reqs : List Nat) : Quiet name s (reqs.foldl refuse s) := by
  induction reqs generalizing s with
  | nil => exact quiet_of_outbox rfl
  | cons req reqs ih => exact (quiet_refuse req).trans ih

/-- What a client that leaves leaves behind is quiet. -/
theorem quiet_onDisconnected (other : String) : Quiet name s (s.onDisconnected other) := by
  have hdrop : Quiet name s { s with router := s.router.dropOwner other } := quiet_of_outbox rfl
  exact hdrop.trans (quiet_refuseAll _)

/-- So is a read that is routed, which is refused at once or only noted. -/
theorem quiet_route {waiting : Waiting} {args : ReadArgs} :
    Quiet name s (s.route waiting args) := by
  unfold route
  split
  · exact quiet_deliver (.inr rfl)
  · exact quiet_of_outbox rfl
  · exact quiet_of_outbox rfl

end SharingRun

/-! ## One step while a screen is off -/

/-- A message of another client, or one that does not get through, leaves `name` out of it. -/
theorem uninvolved_receive {cfg : SharingConfig} {s s' : SharingRun} {name other : String}
    {pushed : Inbound} {msg : ClientMsg} (hoff : s.hub.isDisabled name = true)
    (h : s.Uninvolved name) (hok : OutOfIt s (.receive other msg))
    (hs : s.receive cfg other pushed msg = s') : s'.Uninvolved name ∧ SharingRun.Quiet name s s' := by
  have hsame : s.Uninvolved name ∧ SharingRun.Quiet name s s := ⟨h, SharingRun.quiet_of_outbox rfl⟩
  -- what a session has received of a push involves nobody
  have hreceived : ∀ i, ({ s with pushed := s.pushed.put other i } : SharingRun).Uninvolved name
      ∧ SharingRun.Quiet name s { s with pushed := s.pushed.put other i } := fun i =>
    ⟨h.fewer id rfl rfl (fun _ _ hp => hp) (fun _ _ ht => ht) rfl, SharingRun.quiet_of_outbox rfl⟩
  cases msg with
  | clipboardGrab cid seq =>
    simp only [SharingRun.receive] at hs
    split at hs
    · exact hs ▸ hreceived _
    · exact hs ▸ hsame
  | clipboardData cid seq chunk =>
    simp only [SharingRun.receive] at hs
    split at hs
    case isFalse => exact hs ▸ hsame
    split at hs
    case h_2 => exact hs ▸ hreceived _
    split at hs
    case isFalse => exact hs ▸ hreceived _
    next i content hdata hpass =>
    subst hs
    -- who hands a push on is not turned off
    have hother : name ≠ other := by
      rintro rfl
      rw [hoff] at hpass
      simp at hpass
    refine ⟨(hreceived i).1.of id (fun _ hc => .inl hc) ?_ (fun _ _ hp => .inl hp)
      (fun _ _ ht => .inl ht) (.inl rfl), SharingRun.quiet_of_outbox rfl⟩
    exact (Dict.get?_put _ _ _ _).trans (if_neg hother)
  | fileRead seq req index offset len =>
    subst hs
    refine ⟨h.route ?_, SharingRun.quiet_route⟩
    by_cases hother : other = name
    · subst hother
      exact .inr (hok hoff)
    · exact .inl hother
  | fileReply req result =>
    simp only [SharingRun.receive, FileRouter.take] at hs
    cases hp : s.router.pending.get? req with
    | none =>
      rw [hp] at hs
      subst hs
      exact ⟨h.fewer id rfl rfl (fun _ _ hp => get?_of_drop hp) (fun _ _ ht => ht) rfl,
        SharingRun.quiet_of_outbox rfl⟩
    | some p =>
      rw [hp] at hs
      subst hs
      refine ⟨h.of id (fun _ hc => .inl hc) rfl (fun _ _ hp => .inl (get?_of_drop hp)) ?_ (.inl rfl),
        SharingRun.quiet_of_outbox rfl⟩
      exact task_of_put (s := s) (t := .answer p.waiting _) (h.pending req p hp).2
  | screenChanged info =>
    subst hs
    obtain ⟨-, hclip⟩ := s.hub.setMonitors_frame other (sanitizeMonitors info)
    refine ⟨h.fewer id hclip rfl (fun _ _ hp => hp) (fun _ _ ht => ht) rfl,
      SharingRun.quiet_of_outbox (SharingRun.outbox_eq ?_)⟩
    show ((s.hub.setMonitors other (sanitizeMonitors info)).clients.get? name).map _ = _
    rw [Hub.setMonitors_get?, Option.map_map]
    congr 1
    funext e
    simp only [Function.comp]
    split <;> rfl
  | hello version screen => exact hs ▸ hsame
  | keepAlive => exact hs ▸ hsame

/-! ## Label by label

Each step adds nothing about `name` to what is under way (`Uninvolved.of`, or `fewer` where nothing
is added at all), and queues nothing for it. -/

section

variable {cfg : SharingConfig} {s s' : SharingRun} {name : String}

/-- A client connects: nothing is queued for anyone. -/
theorem uninvolved_connect {other : String} {monitors : List Rect} (h : s.Uninvolved name)
    (hs : s.step cfg (.connect other monitors) = some s') :
    s'.Uninvolved name ∧ (s'.hub.contains name = true → SharingRun.Quiet name s s') := by
  simp only [SharingRun.step] at hs
  split at hs
  case h_2 => cases hs
  next hub hreg =>
  obtain ⟨hfree, hclients, -, hclip⟩ := Hub.register_eq hreg
  obtain rfl := Option.some.inj hs
  refine ⟨h.fewer id hclip rfl (fun _ _ hp => hp) (fun _ _ ht => ht) rfl, fun _ => ?_⟩
  refine SharingRun.quiet_of_outbox ?_
  unfold SharingRun.outbox
  dsimp only
  rw [hclients, Dict.get?_put]
  split
  · next he => rw [he, hfree]; rfl
  · rfl

/-- A client leaves. If `name` is still registered it was another. -/
theorem uninvolved_disconnect {other : String} (h : s.Uninvolved name)
    (hs : s.step cfg (.disconnect other) = some s') :
    s'.Uninvolved name ∧ (s'.hub.contains name = true → SharingRun.Quiet name s s') := by
  simp only [SharingRun.step] at hs
  split at hs
  case h_2 => cases hs
  obtain rfl := Option.some.inj hs
  refine ⟨(h.onDisconnected other).fewer id rfl rfl (fun _ _ hp => hp) (fun _ _ ht => ht) rfl,
    fun hstays => ?_⟩
  refine (SharingRun.quiet_onDisconnected other).trans
    (SharingRun.quiet_of_outbox (SharingRun.outbox_eq ?_))
  -- if `name` is still registered, another client has left
  simp only [Hub.contains, Hub.unregister, Hub.sayGone, Hub.emit_clients, Hub.removeClient,
    Dict.get?_drop] at hstays ⊢
  split
  · next he => rw [if_pos he] at hstays; cases hstays
  · rfl

/-- `clipboard_in` passes a push on: there is none of `name` to pass. -/
theorem uninvolved_hand {other : String} (h : s.Uninvolved name)
    (hs : s.step cfg (.hand other) = some s') :
    s'.Uninvolved name ∧ (s'.hub.contains name = true → SharingRun.Quiet name s s') := by
  simp only [SharingRun.step] at hs
  split at hs
  case h_2 => cases hs
  next content hhand =>
  obtain rfl := Option.some.inj hs
  have hother : other ≠ name := by
    rintro rfl
    rw [h.handing] at hhand
    cases hhand
  refine ⟨h.of id ?_ ?_ (fun _ _ hp => .inl hp) (fun _ _ ht => .inl ht) (.inl rfl),
    fun _ => SharingRun.quiet_of_outbox rfl⟩
  · intro c hc
    refine (List.mem_append.mp hc).imp id fun hc => ?_
    rw [List.mem_singleton.mp hc]
    exact hother
  · exact (Dict.get?_drop _ _ _).trans (if_neg (Ne.symm hother))

/-- A request is entered: its client and its owner are not `name`, which is turned off. -/
theorem uninvolved_enter {task : Nat} (h : s.Uninvolved name)
    (hs : s.step cfg (.enter task) = some s') :
    s'.Uninvolved name ∧ (s'.hub.contains name = true → SharingRun.Quiet name s s') := by
  simp only [SharingRun.step] at hs
  split at hs
  case h_2 => cases hs
  next owner waiting args htask =>
  obtain rfl := Option.some.inj hs
  obtain ⟨howner, hwaiting⟩ := h.tasks task _ htask
  refine ⟨h.of id (fun _ hc => .inl hc) rfl ?_ (task_of_put (t := .send owner _ args) howner)
    (.inl rfl), fun _ => SharingRun.quiet_of_outbox rfl⟩
  intro req p hp
  simp only [FileRouter.insert, Dict.get?_put] at hp
  split at hp
  · exact .inr (Option.some.inj hp ▸ ⟨howner, hwaiting⟩)
  · exact .inl hp

/-- A request is sent to its owner, or has to be taken back. -/
theorem uninvolved_send {task : Nat} (h : s.Uninvolved name)
    (hs : s.step cfg (.send task) = some s') :
    s'.Uninvolved name ∧ (s'.hub.contains name = true → SharingRun.Quiet name s s') := by
  simp only [SharingRun.step] at hs
  split at hs
  case h_2 => cases hs
  next owner req a htask =>
  have howner : owner ≠ name := h.tasks task _ htask
  obtain ⟨-, hclip⟩ := s.hub.send_frame owner (.fileRead a.seq req a.index a.offset a.len)
  split at hs
  · obtain rfl := Option.some.inj hs
    exact ⟨h.fewer id hclip rfl (fun _ _ hp => hp) (fun _ _ ht => get?_of_drop ht) rfl,
      fun _ => SharingRun.quiet_send rfl (.inl howner)⟩
  · obtain rfl := Option.some.inj hs
    exact ⟨h.of id (fun _ hc => .inl hc) rfl (fun _ _ hp => .inl hp)
      (task_of_put (t := .retract req) trivial) (.inl rfl),
      fun _ => SharingRun.quiet_of_outbox rfl⟩

/-- A request is taken back, and its asker refused. -/
theorem uninvolved_retract {task : Nat} (h : s.Uninvolved name)
    (hs : s.step cfg (.retract task) = some s') :
    s'.Uninvolved name ∧ (s'.hub.contains name = true → SharingRun.Quiet name s s') := by
  simp only [SharingRun.step] at hs
  split at hs
  case h_2 => cases hs
  next req htask =>
  obtain rfl := Option.some.inj hs
  refine ⟨(h.refuse req).fewer id rfl rfl (fun _ _ hp => hp) ?_ rfl, fun _ =>
    (SharingRun.quiet_refuse req).trans (SharingRun.quiet_of_outbox rfl)⟩
  obtain ⟨-, -, -, -, htasks, -⟩ := s.refuse_frame req
  rw [htasks]
  exact fun _ _ ht => get?_of_drop ht

/-- This machine reads for a request. -/
theorem uninvolved_read {task : Nat} {disk : Disk} (h : s.Uninvolved name)
    (hs : s.step cfg (.read task disk) = some s') :
    s'.Uninvolved name ∧ (s'.hub.contains name = true → SharingRun.Quiet name s s') := by
  simp only [SharingRun.step] at hs
  split at hs
  case h_2 => cases hs
  next waiting args htask =>
  obtain rfl := Option.some.inj hs
  exact ⟨h.of id (fun _ hc => .inl hc) rfl (fun _ _ hp => .inl hp)
    (task_of_put (t := .answer waiting _) (h.tasks task (.read waiting args) htask)) (.inl rfl),
    fun _ => SharingRun.quiet_of_outbox rfl⟩

/-- The asker of a request is answered. -/
theorem uninvolved_answer {task : Nat} (h : s.Uninvolved name)
    (hs : s.step cfg (.answer task) = some s') :
    s'.Uninvolved name ∧ (s'.hub.contains name = true → SharingRun.Quiet name s s') := by
  simp only [SharingRun.step] at hs
  split at hs
  case h_2 => cases hs
  next waiting result htask =>
  obtain rfl := Option.some.inj hs
  obtain ⟨hrouter, -, hclip⟩ := s.deliver_frame waiting result
  refine ⟨h.fewer ?_ hclip rfl ?_ (fun _ _ ht => get?_of_drop ht) rfl, fun _ =>
    (SharingRun.quiet_deliver (.inl (h.tasks task _ htask))).trans
      (SharingRun.quiet_of_outbox rfl)⟩
  · rw [hrouter]; exact id
  · rw [hrouter]; exact fun _ _ hp => hp

/-- The relay takes a push that did not come from `name`. -/
theorem uninvolved_relay (h : s.Uninvolved name) (hs : s.step cfg .relay = some s') :
    s'.Uninvolved name ∧ (s'.hub.contains name = true → SharingRun.Quiet name s s') := by
  simp only [SharingRun.step] at hs
  split at hs
  case h_2 => cases hs
  next from_ content rest hidle hclip =>
  have hfrom : from_ ≠ name := h.pushes ⟨from_, content⟩ (by rw [hclip]; exact List.mem_cons_self)
  have hrest : ∀ c ∈ rest, c ∈ s.hub.clipboard ∨ c.from_ ≠ name := fun c hc =>
    .inl (by rw [hclip]; exact List.mem_cons_of_mem _ hc)
  split at hs
  · obtain rfl := Option.some.inj hs
    exact ⟨h.of id hrest rfl (fun _ _ hp => .inl hp) (fun _ _ ht => .inl ht) (.inl rfl),
      fun _ => SharingRun.quiet_of_outbox rfl⟩
  · obtain rfl := Option.some.inj hs
    refine ⟨h.of ?_ hrest rfl (fun _ _ hp => .inl hp) (fun _ _ ht => .inl ht) (.inr trivial),
      fun _ => SharingRun.quiet_of_outbox rfl⟩
    intro ho
    exact absurd (Owner.client.inj (Option.some.inj ho)) hfrom
  · obtain rfl := Option.some.inj hs
    exact ⟨h.of id hrest rfl (fun _ _ hp => .inl hp) (fun _ _ ht => .inl ht) (.inr trivial),
      fun _ => SharingRun.quiet_of_outbox rfl⟩

/-- Data copied on this machine is relayed. -/
theorem uninvolved_copyData {content : ClipboardContent} (h : s.Uninvolved name)
    (hs : s.step cfg (.copyData content) = some s') :
    s'.Uninvolved name ∧ (s'.hub.contains name = true → SharingRun.Quiet name s s') := by
  simp only [SharingRun.step] at hs
  split at hs
  · obtain rfl := Option.some.inj hs
    exact ⟨h.of id (fun _ hc => .inl hc) rfl (fun _ _ hp => .inl hp) (fun _ _ ht => .inl ht)
      (.inr trivial), fun _ => SharingRun.quiet_of_outbox rfl⟩
  · cases hs

/-- Files copied on this machine are owned here. -/
theorem uninvolved_copyFiles {manifest : FileManifest} {abs : List String} (h : s.Uninvolved name)
    (hs : s.step cfg (.copyFiles manifest abs) = some s') :
    s'.Uninvolved name ∧ (s'.hub.contains name = true → SharingRun.Quiet name s s') := by
  simp only [SharingRun.step] at hs
  split at hs
  · obtain rfl := Option.some.inj hs
    exact ⟨h.of (fun hname => (by cases hname)) (fun _ hc => .inl hc) rfl (fun _ _ hp => .inl hp)
      (fun _ _ ht => .inl ht) (.inr trivial), fun _ => SharingRun.quiet_of_outbox rfl⟩
  · cases hs

/-- The relay reads who is turned off, and `name` is among them. -/
theorem uninvolved_readOff (hoff : s.hub.isDisabled name = true) (h : s.Uninvolved name)
    (hs : s.step cfg .readOff = some s') :
    s'.Uninvolved name ∧ (s'.hub.contains name = true → SharingRun.Quiet name s s') := by
  simp only [SharingRun.step] at hs
  split at hs
  case h_2 => cases hs
  next except_ msgs hrelay =>
  obtain rfl := Option.some.inj hs
  exact ⟨h.of id (fun _ hc => .inl hc) rfl (fun _ _ hp => .inl hp) (fun _ _ ht => .inl ht)
    (.inr (of_decide_eq_true hoff)), fun _ => SharingRun.quiet_of_outbox rfl⟩

/-- The relay queues for those that are not turned off. -/
theorem uninvolved_queue (h : s.Uninvolved name) (hs : s.step cfg .queue = some s') :
    s'.Uninvolved name ∧ (s'.hub.contains name = true → SharingRun.Quiet name s s') := by
  simp only [SharingRun.step] at hs
  split at hs
  case h_2 => cases hs
  next except_ off msgs hrelay =>
  obtain rfl := Option.some.inj hs
  refine ⟨h.of id (fun _ hc => .inl hc) rfl (fun _ _ hp => .inl hp) (fun _ _ ht => .inl ht)
    (.inr trivial), fun _ => SharingRun.quiet_of_outbox (SharingRun.outbox_eq ?_)⟩
  have hmem : name ∈ off := by
    have hspares := h.relay
    rw [hrelay] at hspares
    exact hspares
  show ((s.hub.queueAll except_ off msgs).clients.get? name).map _ = _
  rw [Hub.queueAll_get?, Option.map_map]
  congr 1
  funext e
  simp only [Function.comp]
  rw [if_neg fun hboth => hboth.2 hmem]

/-- Turning a client off or on queues nothing. -/
theorem uninvolved_setDisabled {other : String} {disabled : Bool} (h : s.Uninvolved name)
    (hs : s.step cfg (.setDisabled other disabled) = some s') :
    s'.Uninvolved name ∧ (s'.hub.contains name = true → SharingRun.Quiet name s s') := by
  obtain rfl := Option.some.inj hs
  obtain ⟨hclients, hclip, -⟩ := s.hub.setDisabled_frame other disabled
  refine ⟨h.fewer id hclip rfl (fun _ _ hp => hp) (fun _ _ ht => ht) rfl, fun _ => ?_⟩
  refine SharingRun.quiet_of_outbox (SharingRun.outbox_eq ?_)
  show ((s.hub.setDisabled other disabled).clients.get? name).map _ = _
  rw [hclients]

end

/-- **A step while a screen is off gets nothing about it under way, and queues nothing for it.** -/
theorem uninvolved_step {cfg : SharingConfig} {s s' : SharingRun} {l : SharingLabel} {name : String}
    (hoff : s.hub.isDisabled name = true) (h : s.Uninvolved name) (hok : OutOfIt s l)
    (hs : s.step cfg l = some s') :
    s'.Uninvolved name ∧ (s'.hub.contains name = true → SharingRun.Quiet name s s') := by
  cases l with
  | connect other monitors => exact uninvolved_connect h hs
  | disconnect other => exact uninvolved_disconnect h hs
  | receive other msg =>
    simp only [SharingRun.step] at hs
    split at hs
    case h_2 => cases hs
    obtain rfl := Option.some.inj hs
    obtain ⟨hnew, hquiet⟩ := uninvolved_receive hoff h hok rfl
    exact ⟨hnew, fun _ => hquiet⟩
  | hand other => exact uninvolved_hand h hs
  | request tx args =>
    obtain rfl := Option.some.inj hs
    exact ⟨h.route (.inl trivial), fun _ => SharingRun.quiet_route⟩
  | enter task => exact uninvolved_enter h hs
  | send task => exact uninvolved_send h hs
  | retract task => exact uninvolved_retract h hs
  | read task disk => exact uninvolved_read h hs
  | answer task => exact uninvolved_answer h hs
  | relay => exact uninvolved_relay h hs
  | copyData content => exact uninvolved_copyData h hs
  | copyFiles manifest abs => exact uninvolved_copyFiles h hs
  | readOff => exact uninvolved_readOff hoff h hs
  | queue => exact uninvolved_queue h hs
  | setDisabled other disabled => exact uninvolved_setDisabled h hs

/-! ## Who is turned off -/

namespace SharingRun

/-- Nobody is turned off or on by a request taken back. -/
theorem refuseAll_disabled (s : SharingRun) (reqs : List Nat) :
    (reqs.foldl refuse s).hub.disabled = s.hub.disabled := by
  induction reqs generalizing s with
  | nil => rfl
  | cons req reqs ih => exact (ih _).trans (s.refuse_frame req).2.1

/-- Nobody is turned off or on by a read. -/
theorem route_disabled (s : SharingRun) (waiting : Waiting) (args : ReadArgs) :
    (s.route waiting args).hub.disabled = s.hub.disabled := by
  unfold route
  split
  · exact (s.deliver_frame waiting _).2.1
  · rfl
  · rfl

/-- Nobody is turned off or on by a message. -/
theorem receive_disabled (cfg : SharingConfig) (s : SharingRun) (name : String) (pushed : Inbound)
    (msg : ClientMsg) : (s.receive cfg name pushed msg).hub.disabled = s.hub.disabled := by
  cases msg with
  | clipboardGrab cid seq =>
    simp only [receive]
    split <;> rfl
  | clipboardData cid seq chunk =>
    simp only [receive]
    split
    · split
      · split <;> rfl
      · rfl
    · rfl
  | fileRead seq req index offset len => exact s.route_disabled _ _
  | fileReply req result =>
    simp only [receive, FileRouter.take]
    cases s.router.pending.get? req <;> rfl
  | screenChanged info => exact (s.hub.setMonitors_frame name _).1
  | hello version screen => rfl
  | keepAlive => rfl

/-- Only `set_disabled` changes who is turned off. -/
theorem disabled_of_step {cfg : SharingConfig} {s s' : SharingRun} {l : SharingLabel}
    (hs : s.step cfg l = some s') :
    s'.hub.disabled = s.hub.disabled
      ∨ ∃ name disabled, l = .setDisabled name disabled ∧ s' = { s with
          hub := s.hub.setDisabled name disabled } := by
  -- one label is about the set itself; all the others pass it on
  cases l with
  | setDisabled name disabled => exact .inr ⟨name, disabled, rfl, (Option.some.inj hs).symm⟩
  | connect name monitors =>
    simp only [step] at hs
    split at hs
    · next hub hreg => exact .inl (Option.some.inj hs ▸ (Hub.register_eq hreg).2.2.1)
    · cases hs
  | disconnect name =>
    simp only [step] at hs
    split at hs
    · exact .inl (Option.some.inj hs ▸ refuseAll_disabled _ _)
    · cases hs
  | receive name msg =>
    simp only [step] at hs
    split at hs
    · exact .inl (Option.some.inj hs ▸ s.receive_disabled cfg name _ msg)
    · cases hs
  | hand name =>
    simp only [step] at hs
    split at hs
    · exact .inl (Option.some.inj hs ▸ rfl)
    · cases hs
  | request tx args => exact .inl (Option.some.inj hs ▸ s.route_disabled _ _)
  | enter task =>
    simp only [step] at hs
    split at hs
    · exact .inl (Option.some.inj hs ▸ rfl)
    · cases hs
  | send task =>
    simp only [step] at hs
    split at hs
    · split at hs
      · exact .inl (Option.some.inj hs ▸ (s.hub.send_frame _ _).1)
      · exact .inl (Option.some.inj hs ▸ rfl)
    · cases hs
  | retract task =>
    simp only [step] at hs
    split at hs
    · exact .inl (Option.some.inj hs ▸ (s.refuse_frame _).2.1)
    · cases hs
  | read task disk =>
    simp only [step] at hs
    split at hs
    · exact .inl (Option.some.inj hs ▸ rfl)
    · cases hs
  | answer task =>
    simp only [step] at hs
    split at hs
    · exact .inl (Option.some.inj hs ▸ (s.deliver_frame _ _).2.1)
    · cases hs
  | relay =>
    simp only [step] at hs
    split at hs
    · split at hs <;> exact .inl (Option.some.inj hs ▸ rfl)
    · cases hs
  | copyData content =>
    simp only [step] at hs
    split at hs
    · exact .inl (Option.some.inj hs ▸ rfl)
    · cases hs
  | copyFiles manifest abs =>
    simp only [step] at hs
    split at hs
    · exact .inl (Option.some.inj hs ▸ rfl)
    · cases hs
  | readOff =>
    simp only [step] at hs
    split at hs
    · exact .inl (Option.some.inj hs ▸ rfl)
    · cases hs
  | queue =>
    simp only [step] at hs
    split at hs
    · exact .inl (Option.some.inj hs ▸ rfl)
    · cases hs

end SharingRun

/-- **While it is turned off a client is left out**, in every state such a run reaches. -/
theorem uninvolved_reach {cfg : SharingConfig} {s : SharingRun} {name : String}
    (hs : (sharingRuns cfg).Reach OutOfIt s) : s.hub.isDisabled name = true → s.Uninvolved name := by
  refine Lts.Reach.invariant
    (P := fun s => s.hub.isDisabled name = true → s.Uninvolved name) ?_ ?_ hs
  · rintro _ ⟨disabled, rfl⟩ -
    constructor <;> simp [FileRouter.currentOwner, Dict.All, RelayPc.Spares]
  · intro s l s' _ ih hok hl hoff
    by_cases hwas : s.hub.isDisabled name = true
    · exact (uninvolved_step hwas (ih hwas) hok hl).1
    · -- it is being turned off, so nothing about it is under way
      rcases SharingRun.disabled_of_step hl with hsame | ⟨other, disabled, rfl, rfl⟩
      · unfold Hub.isDisabled at hoff hwas
        rw [hsame] at hoff
        exact absurd hoff hwas
      · obtain ⟨-, hclip, hdisabled⟩ := s.hub.setDisabled_frame other disabled
        have hmem : name ∈ (s.hub.setDisabled other disabled).disabled := of_decide_eq_true hoff
        have hnot : name ∉ s.hub.disabled := fun hmem => hwas (decide_eq_true hmem)
        rw [hdisabled] at hmem
        cases disabled with
        | false => exact absurd (Finset.mem_of_mem_erase hmem) hnot
        | true =>
          obtain rfl := (Finset.mem_insert.mp hmem).resolve_right hnot
          have huninvolved : s.Uninvolved name := hok.resolve_left hwas
          exact huninvolved.fewer id hclip rfl (fun _ _ hp => hp) (fun _ _ ht => ht) rfl

end GeserDesk
