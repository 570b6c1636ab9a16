import GeserDesk.System.OutOfIt

/-!
# Screens that are turned off

* **`turned_off_takes_no_part`**: while a screen is turned off no copy and no file is queued for
  it, nothing it pushes reaches the relay, its files are not read, and what it sends changes
  nothing for anyone else, in any run in which it is turned off only when it is in the middle of
  nothing and then sends nothing about files that the router would act on (`OutOfIt`).
* **`turned_off_files_are_read`**: the files it announced before are read all the same.

The part about two runs relates states that differ only in what the server keeps for that one
client (`Alike`); what the client sends while it is off is unwound by `Lts.Paired.unwind`.
-/

namespace GeserDesk

namespace SharingRun

/-- Every machine but `name` has received the same, and the same can happen next. -/
structure SameForOthers (cfg : SharingConfig) (name : String) (s t : SharingRun) : Prop where
  clients : ∀ other, other ≠ name → s.outbox other = t.outbox other
  desk : s.desk = t.desk
  pulls : s.pulls = t.pulls
  next : ∀ l, (s.step cfg l).isSome = (t.step cfg l).isSome

/-- A message of `name` while it is turned off. -/
def SaysWhileOff (name : String) (s : SharingRun) : SharingLabel → Prop
  | .receive other _ => s.hub.isDisabled name = true ∧ other = name
  | _ => False

instance (name : String) (s : SharingRun) (l : SharingLabel) :
    Decidable (SaysWhileOff name s l) := by
  unfold SaysWhileOff
  split <;> infer_instance

end SharingRun

/-- `name` takes no part in sharing while it is turned off, in the runs all of whose steps meet
`ok`. -/
structure TakesNoPart (cfg : SharingConfig) (ok : SharingRun → SharingLabel → Prop)
    (name : String) : Prop where
  /-- No copy, no file and no read of its files is queued for it. -/
  quiet : ∀ s l s', (sharingRuns cfg).Reach ok s → ok s l → s.step cfg l = some s' →
    s.hub.isDisabled name = true → s'.hub.contains name = true → SharingRun.Quiet name s s'
  /-- Nothing it pushes is on its way to the relay. -/
  pushes : ∀ s, (sharingRuns cfg).Reach ok s → s.hub.isDisabled name = true →
    ∀ c ∈ s.hub.clipboard, c.from_ ≠ name
  /-- Two runs that differ in what it sends while it is off are the same for everyone else. -/
  others : ∀ s t, (sharingRuns cfg).Paired ok (SharingRun.SaysWhileOff name) s t →
    SharingRun.SameForOthers cfg name s t

/-- The hubs differ in what is queued for `name`, and in its monitors. -/
structure Hub.Alike (name : String) (h h' : Hub ServerMsg) : Prop where
  clients : ∀ other, other ≠ name → h.clients.get? other = h'.clients.get? other
  present : h.contains name = h'.contains name
  disabled : h.disabled = h'.disabled
  clipboard : h.clipboard = h'.clipboard

namespace Hub.Alike

variable {name : String} {h h' : Hub ServerMsg}

/-- Hubs alike but for one name have the same clients. -/
theorem contains (ha : Hub.Alike name h h') (n : String) : h.contains n = h'.contains n := by
  by_cases hn : n = name
  · rw [hn]; exact ha.present
  · unfold Hub.contains
    rw [ha.clients n hn]

/-- It does not matter which of the two hubs is looked at first. -/
theorem symm (ha : Hub.Alike name h h') : Hub.Alike name h' h :=
  ⟨fun other ho => (ha.clients other ho).symm, ha.present.symm, ha.disabled.symm,
    ha.clipboard.symm⟩

/-- Operations that do the same to each client, whatever is queued for the others. -/
theorem of_get? (ha : Hub.Alike name h h') {g g' : Hub ServerMsg}
    (f : String → Option (Entry ServerMsg) → Option (Entry ServerMsg))
    (hg : ∀ n, g.clients.get? n = f n (h.clients.get? n))
    (hg' : ∀ n, g'.clients.get? n = f n (h'.clients.get? n))
    (hf : ∀ e e', e.isSome = e'.isSome → (f name e).isSome = (f name e').isSome)
    (hdisabled : g.disabled = g'.disabled) (hclip : g.clipboard = g'.clipboard) :
    Hub.Alike name g g' := by
  refine ⟨fun other ho => ?_, ?_, hdisabled, hclip⟩
  · rw [hg, hg', ha.clients other ho]
  · unfold Hub.contains
    rw [hg, hg']
    exact hf _ _ ha.present

/-- A send keeps them alike, whoever it is for. -/
theorem send (ha : Hub.Alike name h h') (n : String) (msg : ServerMsg) :
    Hub.Alike name (h.send n msg).1 (h'.send n msg).1 := by
  refine ha.of_get? (fun other e => if other = n then
      e.map fun e => { e with outbox := e.outbox ++ [msg] } else e) ?_ ?_ ?_ ?_ ?_
  · intro other
    rw [Hub.send_get?]
    split
    · next ho => rw [ho]
    · rfl
  · intro other
    rw [Hub.send_get?]
    split
    · next ho => rw [ho]
    · rfl
  · intro e e' he
    split
    · rw [Option.isSome_map, Option.isSome_map, he]
    · exact he
  · rw [(h.send_frame n msg).1, (h'.send_frame n msg).1, ha.disabled]
  · rw [(h.send_frame n msg).2, (h'.send_frame n msg).2, ha.clipboard]

/-- What happens to `name` alone. -/
theorem left (ha : Hub.Alike name h h') {g : Hub ServerMsg}
    (hclients : ∀ other, other ≠ name → g.clients.get? other = h.clients.get? other)
    (hpresent : g.contains name = h.contains name) (hdisabled : g.disabled = h.disabled)
    (hclip : g.clipboard = h.clipboard) : Hub.Alike name g h' :=
  ⟨fun other ho => (hclients other ho).trans (ha.clients other ho), hpresent.trans ha.present,
    hdisabled.trans ha.disabled, hclip.trans ha.clipboard⟩

/-- A send is accepted by both or by neither. -/
theorem send_ok (ha : Hub.Alike name h h') (n : String) (msg : ServerMsg) :
    (h.send n msg).2 = (h'.send n msg).2 := by
  rw [Bool.eq_iff_iff, Hub.send_ok_iff, Hub.send_ok_iff, ← Hub.contains_iff, ← Hub.contains_iff,
    ha.contains n]

/-- A broadcast keeps them alike. -/
theorem queueAll (ha : Hub.Alike name h h') (except_ : Option String) (off : Finset String)
    (msgs : List ServerMsg) :
    Hub.Alike name (h.queueAll except_ off msgs) (h'.queueAll except_ off msgs) := by
  refine ha.of_get? (fun n e => e.map fun e =>
      if some n ≠ except_ ∧ n ∉ off then { e with outbox := e.outbox ++ msgs } else e)
    (fun n => Hub.queueAll_get? h except_ off msgs n)
    (fun n => Hub.queueAll_get? h' except_ off msgs n) ?_ ha.disabled ha.clipboard
  intro e e' he
  rw [Option.isSome_map, Option.isSome_map, he]

/-- New monitors keep them alike. -/
theorem setMonitors (ha : Hub.Alike name h h') (n : String) (monitors : List Rect) :
    Hub.Alike name (h.setMonitors n monitors) (h'.setMonitors n monitors) := by
  refine ha.of_get? (fun other e => e.map fun e =>
      if other = n then { e with monitors := monitors } else e)
    (fun other => h.setMonitors_get? n other monitors)
    (fun other => h'.setMonitors_get? n other monitors) ?_ ?_ ?_
  · intro e e' he
    rw [Option.isSome_map, Option.isSome_map, he]
  · rw [(h.setMonitors_frame n monitors).1, (h'.setMonitors_frame n monitors).1, ha.disabled]
  · rw [(h.setMonitors_frame n monitors).2, (h'.setMonitors_frame n monitors).2, ha.clipboard]

/-- A client that leaves keeps them alike. -/
theorem unregister (ha : Hub.Alike name h h') (n : String) :
    Hub.Alike name (h.unregister n) (h'.unregister n) := by
  refine ha.of_get? (fun other e => if other = n then none else e)
    (fun other => Dict.get?_drop _ _ _) (fun other => Dict.get?_drop _ _ _) ?_ ha.disabled
    ha.clipboard
  intro e e' he
  split
  · rfl
  · exact he

/-- A screen that is turned off or on keeps them alike. -/
theorem setDisabled (ha : Hub.Alike name h h') (n : String) (disabled : Bool) :
    Hub.Alike name (h.setDisabled n disabled) (h'.setDisabled n disabled) := by
  obtain ⟨hclients, hclip, hdisabled⟩ := h.setDisabled_frame n disabled
  obtain ⟨hclients', hclip', hdisabled'⟩ := h'.setDisabled_frame n disabled
  refine ha.of_get? (fun _ e => e) (fun n => by rw [hclients]) (fun n => by rw [hclients'])
    (fun _ _ he => he) ?_ ?_
  · rw [hdisabled, hdisabled', ha.disabled]
  · rw [hclip, hclip', ha.clipboard]

/-- A client that registers keeps them alike. -/
theorem register (ha : Hub.Alike name h h') {n : String} {monitors : List Rect}
    {g : Hub ServerMsg} (hreg : h.register n monitors = some g) :
    ∃ g', h'.register n monitors = some g' ∧ Hub.Alike name g g' := by
  obtain ⟨hfree, hclients, hdisabled, hclip⟩ := Hub.register_eq hreg
  cases hreg' : h'.register n monitors with
  | none =>
    -- the name is free in both or in neither
    have hc := ha.contains n
    rw [show h.contains n = false from by rw [Hub.contains, hfree]; rfl] at hc
    unfold Hub.register Hub.insertClient at hreg'
    rw [← hc] at hreg'
    simp at hreg'
  | some g' =>
    obtain ⟨-, hclients', hdisabled', hclip'⟩ := Hub.register_eq hreg'
    refine ⟨g', rfl, ha.of_get? (fun other e => if other = n then some ⟨[], monitors⟩ else e)
      (fun other => by rw [hclients]; exact Dict.get?_put _ _ _ _)
      (fun other => by rw [hclients']; exact Dict.get?_put _ _ _ _) ?_ ?_ ?_⟩
    · intro e e' he
      split
      · rfl
      · exact he
    · rw [hdisabled, hdisabled', ha.disabled]
    · rw [hclip, hclip', ha.clipboard]

end Hub.Alike

namespace SharingRun

/-- The states differ only in what the server keeps for the client `name`: what is queued for it,
its monitors, and, while it is turned off, what it has received of a push. -/
structure Alike (name : String) (s t : SharingRun) : Prop where
  hub : Hub.Alike name s.hub t.hub
  router : s.router = t.router
  pushed : ∀ other, other ≠ name → s.pushed.get? other = t.pushed.get? other
  session : (s.pushed.get? name).isSome = (t.pushed.get? name).isSome
  received : s.hub.isDisabled name = false → s.pushed.get? name = t.pushed.get? name
  handing : s.handing = t.handing
  tasks : s.tasks = t.tasks
  nextTask : s.nextTask = t.nextTask
  seq : s.seq = t.seq
  relay : s.relay = t.relay
  desk : s.desk = t.desk
  pulls : s.pulls = t.pulls

namespace Alike

variable {name : String} {s t : SharingRun}

/-- A run is alike to itself. -/
theorem refl (name : String) (s : SharingRun) : Alike name s s := by
  constructor <;>
    first
    | exact ⟨fun _ _ => rfl, rfl, rfl, rfl⟩
    | exact fun _ _ => rfl
    | exact fun _ => rfl
    | rfl

/-- The same screens are turned off in both runs. -/
theorem isDisabled (h : Alike name s t) (n : String) : s.hub.isDisabled n = t.hub.isDisabled n := by
  unfold Hub.isDisabled
  rw [h.hub.disabled]

/-- The likeness does not ask which run comes first. -/
theorem symm (h : Alike name s t) : Alike name t s :=
  ⟨h.hub.symm, h.router.symm, fun other ho => (h.pushed other ho).symm, h.session.symm,
    fun hon => (h.received ((h.isDisabled name).trans hon)).symm, h.handing.symm, h.tasks.symm,
    h.nextTask.symm, h.seq.symm, h.relay.symm, h.desk.symm, h.pulls.symm⟩

/-- What every session but that of a screen turned off has received. -/
theorem pushed_eq (h : Alike name s t) {other : String}
    (hother : other ≠ name ∨ s.hub.isDisabled name = false) :
    s.pushed.get? other = t.pushed.get? other := by
  by_cases ho : other = name
  · rw [ho]
    exact h.received (hother.resolve_left fun hne => hne ho)
  · exact h.pushed other ho

/-- An answer to a read keeps the runs alike. -/
theorem deliver (h : Alike name s t) (waiting : Waiting) (result : FileReadResult) :
    Alike name (s.deliver waiting result) (t.deliver waiting result) := by
  cases waiting with
  | toLocal tx =>
    exact { h with pulls := by show s.pulls ++ _ = t.pulls ++ _; rw [h.pulls] }
  | toClient to_ req =>
    refine { h with hub := h.hub.send to_ _, received := fun hon => h.received ?_ }
    rw [← hon]
    show _ = decide (name ∈ (s.hub.send to_ _).1.disabled)
    rw [(s.hub.send_frame to_ _).1]; rfl

/-- A task more keeps the runs alike. -/
theorem addTask (h : Alike name s t) (task : Routing) :
    Alike name (s.addTask task) (t.addTask task) :=
  { h with
    tasks := by show s.tasks.put s.nextTask task = _; rw [h.tasks, h.nextTask]; rfl
    nextTask := congrArg (· + 1) h.nextTask }

/-- A read that is routed keeps the runs alike. -/
theorem route (h : Alike name s t) (waiting : Waiting) (args : ReadArgs) :
    Alike name (s.route waiting args) (t.route waiting args) := by
  unfold SharingRun.route
  rw [← h.router]
  split
  · exact h.deliver _ _
  · exact h.addTask _
  · exact h.addTask _

/-- A request that is taken back keeps the runs alike. -/
theorem refuse (h : Alike name s t) (req : Nat) : Alike name (s.refuse req) (t.refuse req) := by
  unfold SharingRun.refuse
  rw [← h.router]
  cases s.router.take req with
  | mk router found =>
    have hnext : Alike name { s with router := router } { t with router := router } :=
      { h with router := rfl }
    cases found with
    | none => exact hnext
    | some p => exact hnext.deliver _ _

/-- A client that leaves keeps the runs alike. -/
theorem onDisconnected (h : Alike name s t) (other : String) :
    Alike name (s.onDisconnected other) (t.onDisconnected other) := by
  unfold SharingRun.onDisconnected
  rw [← h.router]
  have hdrop : Alike name { s with router := s.router.dropOwner other }
      { t with router := s.router.dropOwner other } := { h with router := rfl }
  generalize ({ s with router := s.router.dropOwner other } : SharingRun) = s₁ at hdrop
  generalize ({ t with router := s.router.dropOwner other } : SharingRun) = t₁ at hdrop
  generalize (s.router.dropOwner other).stale other = reqs
  induction reqs generalizing s₁ t₁ with
  | nil => exact hdrop
  | cons req reqs ih => exact ih _ _ (hdrop.refuse req)

/-- A session has received something, in both states. -/
theorem put_pushed (h : Alike name s t) (other : String) (new : Inbound) :
    Alike name { s with pushed := s.pushed.put other new }
      { t with pushed := t.pushed.put other new } := by
  have hget : ∀ n, s.pushed.get? n = t.pushed.get? n →
      (s.pushed.put other new).get? n = (t.pushed.put other new).get? n := by
    intro n hn
    rw [Dict.get?_put, Dict.get?_put, hn]
  refine { h with pushed := fun n hn => hget n (h.pushed n hn), session := ?_, received := ?_ }
  · show ((s.pushed.put other new).get? name).isSome = ((t.pushed.put other new).get? name).isSome
    rw [Dict.get?_put, Dict.get?_put]
    split
    · rfl
    · exact h.session
  · exact fun hon => hget name (h.received hon)

/-- A session has ended, in both states. -/
theorem drop_pushed (h : Alike name s t) (other : String) :
    Alike name { s with pushed := s.pushed.drop other }
      { t with pushed := t.pushed.drop other } := by
  have hget : ∀ n, s.pushed.get? n = t.pushed.get? n →
      (s.pushed.drop other).get? n = (t.pushed.drop other).get? n := by
    intro n hn
    rw [Dict.get?_drop, Dict.get?_drop, hn]
  refine { h with pushed := fun n hn => hget n (h.pushed n hn), session := ?_, received := ?_ }
  · show ((s.pushed.drop other).get? name).isSome = ((t.pushed.drop other).get? name).isSome
    rw [Dict.get?_drop, Dict.get?_drop]
    split
    · rfl
    · exact h.session
  · exact fun hon => hget name (h.received hon)

/-- The session of `name` has received something, while it is turned off. -/
theorem hears (h : Alike name s t) (hoff : s.hub.isDisabled name = true) {old : Inbound}
    (hold : s.pushed.get? name = some old) (new : Inbound) :
    Alike name { s with pushed := s.pushed.put name new } t := by
  refine { h with pushed := fun other ho => ?_, session := ?_, received := fun hon => ?_ }
  · exact (Dict.get?_put _ _ _ _).trans ((if_neg ho).trans (h.pushed other ho))
  · rw [← h.session, hold]
    show ((s.pushed.put name new).get? name).isSome = _
    rw [Dict.get?_put, if_pos rfl]
    rfl
  · exact absurd (hoff.symm.trans hon) nofun

/-- **What a screen that is off says changes nothing for the others.** -/
theorem speaks (h : Alike name s t) {cfg : SharingConfig} {s' : SharingRun} {msg : ClientMsg}
    (hoff : s.hub.isDisabled name = true) (hok : OutOfIt s (.receive name msg))
    (hs : s.step cfg (.receive name msg) = some s') : Alike name s' t := by
  simp only [SharingRun.step] at hs
  split at hs
  case h_2 => cases hs
  next pushed hpushed hfree =>
  rw [Option.some.injEq] at hs
  cases msg with
  | clipboardGrab cid seq =>
    simp only [SharingRun.receive] at hs
    split at hs
    · exact hs ▸ h.hears hoff hpushed _
    · exact hs ▸ h
  | clipboardData cid seq chunk =>
    simp only [SharingRun.receive] at hs
    split at hs
    case isFalse => exact hs ▸ h
    split at hs
    case h_2 => exact hs ▸ h.hears hoff hpushed _
    split at hs
    · next hpass =>
      rw [hoff] at hpass
      simp at hpass
    · exact hs ▸ h.hears hoff hpushed _
  | fileRead seq req index offset len =>
    -- no files are announced, so it is refused, by a message of its own
    have hnone : s.router.currentOwner = none := hok hoff
    simp only [SharingRun.receive, SharingRun.route, hnone] at hs
    subst hs
    have hhub : Hub.Alike name (s.hub.send name (.fileReply req (.err .notFound))).1 t.hub := by
      refine h.hub.left (fun other ho => ?_) (Hub.contains_send _ _ _ _) ?_ ?_
      · rw [Hub.send_get?, if_neg ho]
      · exact (s.hub.send_frame _ _).1
      · exact (s.hub.send_frame _ _).2
    refine { h with hub := hhub, received := fun hon => ?_ }
    have hsame : (s.hub.send name (.fileReply req (.err .notFound))).1.isDisabled name
        = s.hub.isDisabled name := by
      unfold Hub.isDisabled
      rw [(s.hub.send_frame _ _).1]
    cases hoff.symm.trans (hsame.symm.trans hon)
  | fileReply req result =>
    -- nobody waits under that number, so there is nothing to take out
    have hnone : s.router.pending.get? req = none := Option.isNone_iff_eq_none.mp (hok hoff)
    simp only [SharingRun.receive, FileRouter.take, hnone, Dict.drop_of_none hnone] at hs
    exact hs ▸ { h with router := h.router }
  | screenChanged info =>
    subst hs
    have hframe := s.hub.setMonitors_frame name (sanitizeMonitors info)
    have hhub : Hub.Alike name (s.hub.setMonitors name (sanitizeMonitors info)) t.hub := by
      refine h.hub.left (fun other ho => ?_) ?_ hframe.1 hframe.2
      · rw [Hub.setMonitors_get?]
        simp only [if_neg ho]
        exact Option.map_id'
      · unfold Hub.contains
        rw [Hub.setMonitors_get?, Option.isSome_map]
    refine { h with hub := hhub, received := fun hon => ?_ }
    have hsame : (s.hub.setMonitors name (sanitizeMonitors info)).isDisabled name
        = s.hub.isDisabled name := by
      unfold Hub.isDisabled
      rw [hframe.1]
    cases hoff.symm.trans (hsame.symm.trans hon)
  | hello version screen => exact hs ▸ h
  | keepAlive => exact hs ▸ h

/-- Both sessions handle one message, having received the same before it. -/
theorem receive (h : Alike name s t) (cfg : SharingConfig) (other : String) (pushed : Inbound)
    (msg : ClientMsg) :
    Alike name (s.receive cfg other pushed msg) (t.receive cfg other pushed msg) := by
  cases msg with
  | clipboardGrab cid seq =>
    simp only [SharingRun.receive]
    split
    · exact h.put_pushed other _
    · exact h
  | clipboardData cid seq chunk =>
    simp only [SharingRun.receive]
    split
    case isFalse => exact h
    split
    case h_2 => exact h.put_pushed other _
    rw [← h.isDisabled other]
    split
    · refine { h.put_pushed other _ with handing := ?_ }
      show s.handing.put other _ = t.handing.put other _
      rw [h.handing]
    · exact h.put_pushed other _
  | fileRead seq req index offset len => exact h.route _ _
  | fileReply req result =>
    simp only [SharingRun.receive, FileRouter.take]
    rw [← h.router]
    have hnext : ∀ router, Alike name { s with router := router } { t with router := router } :=
      fun router => { h with router := rfl }
    cases s.router.pending.get? req with
    | none => exact hnext _
    | some p => exact (hnext _).addTask _
  | screenChanged info =>
    refine { h with hub := h.hub.setMonitors other _, received := fun hon => h.received ?_ }
    rw [← hon]
    unfold Hub.isDisabled
    rw [show (s.receive cfg other pushed (.screenChanged info)).hub
      = s.hub.setMonitors other (sanitizeMonitors info) from rfl,
      (s.hub.setMonitors_frame other (sanitizeMonitors info)).1]
  | hello version screen => exact h
  | keepAlive => exact h

/-- What can happen next does not depend on what is kept for `name`. -/
theorem isSome_step (h : Alike name s t) (cfg : SharingConfig) (l : SharingLabel) :
    (s.step cfg l).isSome = (t.step cfg l).isSome := by
  -- whether a step is possible depends on parts that are alike
  have hsession : ∀ n, (s.pushed.get? n).isSome = (t.pushed.get? n).isSome := by
    intro n
    by_cases hn : n = name
    · rw [hn]; exact h.session
    · rw [h.pushed n hn]
  cases l with
  | connect other monitors =>
    have hreg : ∀ u : SharingRun, (u.step cfg (.connect other monitors)).isSome
        = !u.hub.contains other := by
      intro u
      simp only [SharingRun.step, Hub.register, Hub.insertClient]
      cases u.hub.contains other <;> rfl
    rw [hreg, hreg, h.hub.contains]
  | disconnect other =>
    have hleave : ∀ u : SharingRun, (u.step cfg (.disconnect other)).isSome
        = ((u.pushed.get? other).isSome && (u.handing.get? other).isNone) := by
      intro u
      simp only [SharingRun.step]
      cases u.pushed.get? other <;> cases u.handing.get? other <;> rfl
    rw [hleave, hleave, hsession, h.handing]
  | receive other msg =>
    have hhears : ∀ u : SharingRun, (u.step cfg (.receive other msg)).isSome
        = ((u.pushed.get? other).isSome && (u.handing.get? other).isNone) := by
      intro u
      simp only [SharingRun.step]
      cases u.pushed.get? other <;> cases u.handing.get? other <;> rfl
    rw [hhears, hhears, hsession, h.handing]
  | hand other =>
    simp only [SharingRun.step]
    rw [← h.handing]
    cases s.handing.get? other <;> rfl
  | enter task =>
    simp only [SharingRun.step]
    rw [← h.tasks]
    split <;> rfl
  | send task =>
    simp only [SharingRun.step]
    rw [← h.tasks]
    split
    · rw [← h.hub.send_ok]
      split <;> rfl
    · rfl
  | retract task =>
    simp only [SharingRun.step]
    rw [← h.tasks]
    split <;> rfl
  | read task disk =>
    simp only [SharingRun.step]
    rw [← h.tasks]
    split <;> rfl
  | answer task =>
    simp only [SharingRun.step]
    rw [← h.tasks]
    split <;> rfl
  | relay =>
    simp only [SharingRun.step]
    rw [← h.relay, ← h.hub.clipboard]
    split
    · split <;> rfl
    · rfl
  | copyData content =>
    simp only [SharingRun.step]
    rw [← h.relay]
    split <;> rfl
  | copyFiles manifest abs =>
    simp only [SharingRun.step]
    rw [← h.relay]
    split <;> rfl
  | readOff =>
    simp only [SharingRun.step]
    rw [← h.relay]
    split <;> rfl
  | queue =>
    simp only [SharingRun.step]
    rw [← h.relay]
    split <;> rfl
  | request tx args => rfl
  | setDisabled other disabled => rfl

/-- The states agree on all but the hub, which is alike, and on whether `name` is turned off. -/
theorem of_hub (h : Alike name s t) {g g' : Hub ServerMsg} (hg : Hub.Alike name g g')
    (hdisabled : g.disabled = s.hub.disabled) :
    Alike name { s with hub := g } { t with hub := g' } := by
  refine { h with hub := hg, received := fun hon => h.received ?_ }
  rw [← hon]
  show decide (name ∈ s.hub.disabled) = decide (name ∈ g.disabled)
  rw [hdisabled]

end Alike

/-! ### Label by label

Both runs take the same step: what decides it is the same in both, and it keeps them alike. -/

section

variable {cfg : SharingConfig} {name : String} {s t s' t' : SharingRun}

/-- A client registers in both, or in neither. -/
theorem alike_connect {other : String} {monitors : List Rect} (h : Alike name s t)
    (hls : s.step cfg (.connect other monitors) = some s')
    (hlt : t.step cfg (.connect other monitors) = some t') : Alike name s' t' := by
  simp only [step] at hls hlt
  split at hls
  case h_2 => cases hls
  next g hreg =>
  obtain ⟨g', hreg', hg⟩ := h.hub.register hreg
  rw [hreg'] at hlt
  obtain rfl := Option.some.inj hls
  obtain rfl := Option.some.inj hlt
  have hhub : Alike name { s with hub := g } { t with hub := g' } :=
    h.of_hub hg (Hub.register_eq hreg).2.2.1
  exact hhub.put_pushed other {}

/-- What a client that leaves leaves behind is alike. -/
theorem alike_disconnect {other : String} (h : Alike name s t)
    (hls : s.step cfg (.disconnect other) = some s')
    (hlt : t.step cfg (.disconnect other) = some t') : Alike name s' t' := by
  simp only [step] at hls hlt
  split at hls
  case h_2 => cases hls
  split at hlt
  case h_2 => cases hlt
  obtain rfl := Option.some.inj hls
  obtain rfl := Option.some.inj hlt
  have hgone := h.onDisconnected other
  exact (hgone.of_hub (hgone.hub.unregister other) rfl).drop_pushed other

/-- A message that is not one of `name` while it is turned off finds the same half-arrived push. -/
theorem alike_receive {other : String} {msg : ClientMsg} (h : Alike name s t)
    (hl : ¬ SaysWhileOff name s (.receive other msg))
    (hls : s.step cfg (.receive other msg) = some s')
    (hlt : t.step cfg (.receive other msg) = some t') : Alike name s' t' := by
  have hother : other ≠ name ∨ s.hub.isDisabled name = false := by
    by_cases ho : other = name
    · subst ho
      refine .inr (Bool.eq_false_iff.mpr fun hoff => hl ⟨hoff, rfl⟩)
    · exact .inl ho
  simp only [step] at hls hlt
  rw [← h.pushed_eq hother] at hlt
  split at hls
  case h_2 => cases hls
  next pushed hpushed hfree =>
  rw [hpushed] at hlt
  split at hlt
  case h_2 => cases hlt
  next heq _ =>
  obtain rfl := Option.some.inj heq
  obtain rfl := Option.some.inj hls
  obtain rfl := Option.some.inj hlt
  exact h.receive cfg other _ msg

/-- The same push is passed on. -/
theorem alike_hand {other : String} (h : Alike name s t) (hls : s.step cfg (.hand other) = some s')
    (hlt : t.step cfg (.hand other) = some t') : Alike name s' t' := by
  simp only [step] at hls hlt
  rw [← h.handing] at hlt
  split at hls
  case h_2 => cases hls
  next content hhand =>
  rw [hhand] at hlt
  obtain rfl := Option.some.inj hls
  obtain rfl := Option.some.inj hlt
  have hhub : Hub.Alike name (s.hub.sendClipboard other content)
      (t.hub.sendClipboard other content) :=
    { h.hub with clipboard := congrArg (· ++ _) h.hub.clipboard }
  exact { h.of_hub hhub rfl with handing := rfl }

/-- The same request is entered in both runs. -/
theorem alike_enter {task : Nat} (h : Alike name s t) (hls : s.step cfg (.enter task) = some s')
    (hlt : t.step cfg (.enter task) = some t') : Alike name s' t' := by
  simp only [step] at hls hlt
  rw [← h.tasks, ← h.router] at hlt
  split at hls
  case h_2 => cases hls
  next owner waiting args htask =>
  rw [htask] at hlt
  obtain rfl := Option.some.inj hls
  obtain rfl := Option.some.inj hlt
  exact { h with router := rfl, tasks := rfl }

/-- The same request is sent, or finds no owner. -/
theorem alike_send {task : Nat} (h : Alike name s t) (hls : s.step cfg (.send task) = some s')
    (hlt : t.step cfg (.send task) = some t') : Alike name s' t' := by
  simp only [step] at hls hlt
  rw [← h.tasks] at hlt
  split at hls
  case h_2 => cases hls
  next owner req a htask =>
  rw [htask] at hlt
  dsimp only at hlt
  rw [← h.hub.send_ok] at hlt
  split at hls
  · next hsent =>
    rw [if_pos hsent] at hlt
    obtain rfl := Option.some.inj hls
    obtain rfl := Option.some.inj hlt
    have hhub := h.of_hub (h.hub.send owner (.fileRead a.seq req a.index a.offset a.len))
      (s.hub.send_frame owner _).1
    exact { hhub with tasks := rfl }
  · next hsent =>
    rw [if_neg hsent] at hlt
    obtain rfl := Option.some.inj hls
    obtain rfl := Option.some.inj hlt
    exact { h with tasks := rfl }

/-- The same request is taken back. -/
theorem alike_retract {task : Nat} (h : Alike name s t) (hls : s.step cfg (.retract task) = some s')
    (hlt : t.step cfg (.retract task) = some t') : Alike name s' t' := by
  simp only [step] at hls hlt
  rw [← h.tasks] at hlt
  split at hls
  case h_2 => cases hls
  next req htask =>
  rw [htask] at hlt
  obtain rfl := Option.some.inj hls
  obtain rfl := Option.some.inj hlt
  have href := h.refuse req
  exact { href with tasks := rfl }

/-- This machine reads for the same request. -/
theorem alike_read {task : Nat} {disk : Disk} (h : Alike name s t)
    (hls : s.step cfg (.read task disk) = some s') (hlt : t.step cfg (.read task disk) = some t') :
    Alike name s' t' := by
  simp only [step] at hls hlt
  rw [← h.tasks, ← h.router] at hlt
  split at hls
  case h_2 => cases hls
  next waiting args htask =>
  rw [htask] at hlt
  obtain rfl := Option.some.inj hls
  obtain rfl := Option.some.inj hlt
  exact { h with router := rfl, tasks := rfl }

/-- The same request is answered. -/
theorem alike_answer {task : Nat} (h : Alike name s t) (hls : s.step cfg (.answer task) = some s')
    (hlt : t.step cfg (.answer task) = some t') : Alike name s' t' := by
  simp only [step] at hls hlt
  rw [← h.tasks] at hlt
  split at hls
  case h_2 => cases hls
  next waiting result htask =>
  rw [htask] at hlt
  obtain rfl := Option.some.inj hls
  obtain rfl := Option.some.inj hlt
  have hanswered := h.deliver waiting result
  exact { hanswered with tasks := rfl }

/-- The relay takes the same push, and makes the same of it. -/
theorem alike_relay (h : Alike name s t) (hls : s.step cfg .relay = some s')
    (hlt : t.step cfg .relay = some t') : Alike name s' t' := by
  simp only [step] at hls hlt
  rw [← h.relay, ← h.hub.clipboard, ← h.desk, ← h.seq, ← h.router] at hlt
  split at hls
  case h_2 => cases hls
  next from_ content rest hidle hclip =>
  rw [hidle, hclip] at hlt
  dsimp only at hlt
  have hhub : Hub.Alike name { s.hub with clipboard := rest } { t.hub with clipboard := rest } :=
    { h.hub with clipboard := rfl }
  have htaken := h.of_hub hhub rfl
  split at hls
  · next hmade =>
    rw [hmade] at hlt
    obtain rfl := Option.some.inj hls
    obtain rfl := Option.some.inj hlt
    exact { htaken with router := rfl, seq := rfl, desk := rfl, relay := hidle }
  · next manifest hmade =>
    rw [hmade] at hlt
    obtain rfl := Option.some.inj hls
    obtain rfl := Option.some.inj hlt
    exact { htaken with router := rfl, seq := rfl, relay := rfl, desk := rfl }
  · next hmade =>
    rw [hmade] at hlt
    obtain rfl := Option.some.inj hls
    obtain rfl := Option.some.inj hlt
    exact { htaken with router := rfl, desk := rfl, seq := rfl, relay := rfl }

/-- The same data is copied on this machine. -/
theorem alike_copyData {content : ClipboardContent} (h : Alike name s t)
    (hls : s.step cfg (.copyData content) = some s')
    (hlt : t.step cfg (.copyData content) = some t') : Alike name s' t' := by
  simp only [step] at hls hlt
  rw [← h.relay, ← h.seq] at hlt
  split at hls
  case isFalse => cases hls
  next hidle =>
  rw [if_pos hidle] at hlt
  obtain rfl := Option.some.inj hls
  obtain rfl := Option.some.inj hlt
  exact { h with seq := rfl, relay := rfl }

/-- The same files are copied on this machine. -/
theorem alike_copyFiles {manifest : FileManifest} {abs : List String} (h : Alike name s t)
    (hls : s.step cfg (.copyFiles manifest abs) = some s')
    (hlt : t.step cfg (.copyFiles manifest abs) = some t') : Alike name s' t' := by
  simp only [step] at hls hlt
  rw [← h.relay, ← h.seq, ← h.router] at hlt
  split at hls
  case isFalse => cases hls
  next hidle =>
  rw [if_pos hidle] at hlt
  obtain rfl := Option.some.inj hls
  obtain rfl := Option.some.inj hlt
  exact { h with router := rfl, seq := rfl, relay := rfl }

/-- The relay finds the same machines turned off. -/
theorem alike_readOff (h : Alike name s t) (hls : s.step cfg .readOff = some s')
    (hlt : t.step cfg .readOff = some t') : Alike name s' t' := by
  simp only [step] at hls hlt
  rw [← h.relay, ← h.hub.disabled] at hlt
  split at hls
  case h_2 => cases hls
  next except_ msgs hrelay =>
  rw [hrelay] at hlt
  obtain rfl := Option.some.inj hls
  obtain rfl := Option.some.inj hlt
  exact { h with relay := rfl }

/-- The relay queues the same for the others. -/
theorem alike_queue (h : Alike name s t) (hls : s.step cfg .queue = some s')
    (hlt : t.step cfg .queue = some t') : Alike name s' t' := by
  simp only [step] at hls hlt
  rw [← h.relay] at hlt
  split at hls
  case h_2 => cases hls
  next except_ off msgs hrelay =>
  rw [hrelay] at hlt
  obtain rfl := Option.some.inj hls
  obtain rfl := Option.some.inj hlt
  exact { h.of_hub (h.hub.queueAll except_ off msgs) rfl with relay := rfl }

/-- A machine is turned off or on: `name` only with no push half arrived, in either run. -/
theorem alike_setDisabled {other : String} {disabled : Bool} (h : Alike name s t)
    (hs : OutOfIt s (.setDisabled other disabled)) (ht : OutOfIt t (.setDisabled other disabled))
    (hls : s.step cfg (.setDisabled other disabled) = some s')
    (hlt : t.step cfg (.setDisabled other disabled) = some t') : Alike name s' t' := by
  obtain rfl := Option.some.inj hls
  obtain rfl := Option.some.inj hlt
  refine { h with hub := h.hub.setDisabled other disabled, received := fun hon => ?_ }
  by_cases hwas : s.hub.isDisabled name = false
  · exact h.received hwas
  · -- it is being turned on: neither session of `name` is in the middle of a push
    rw [Bool.not_eq_false] at hwas
    have hmem : name ∈ s.hub.disabled := of_decide_eq_true hwas
    have hgone : name ∉ (s.hub.setDisabled other disabled).disabled := of_decide_eq_false hon
    rw [(s.hub.setDisabled_frame other disabled).2.2] at hgone
    cases disabled with
    | true => exact absurd (Finset.mem_insert_of_mem hmem) hgone
    | false =>
      have hname : name = other := by
        by_contra hne
        exact hgone (Finset.mem_erase.mpr ⟨hne, hmem⟩)
      subst hname
      have hs' : (s.pushed.get? name).all (· = ({} : Inbound)) = true := hs
      have ht' : (t.pushed.get? name).all (· = ({} : Inbound)) = true := ht
      have hsession := h.session
      show s.pushed.get? name = t.pushed.get? name
      revert hs' ht' hsession
      cases s.pushed.get? name <;> cases t.pushed.get? name <;> simp
      intro ha hb
      rw [ha, hb]

end

/-- **A step taken in both runs keeps them alike.** -/
theorem alike_step {cfg : SharingConfig} {name : String} {s t s' t' : SharingRun}
    {l : SharingLabel} (h : Alike name s t) (hs : OutOfIt s l) (ht : OutOfIt t l)
    (hl : ¬ SaysWhileOff name s l) (hls : s.step cfg l = some s') (hlt : t.step cfg l = some t') :
    Alike name s' t' := by
  cases l with
  | connect other monitors => exact alike_connect h hls hlt
  | disconnect other => exact alike_disconnect h hls hlt
  | receive other msg => exact alike_receive h hl hls hlt
  | hand other => exact alike_hand h hls hlt
  | request tx args =>
    obtain rfl := Option.some.inj hls
    obtain rfl := Option.some.inj hlt
    exact h.route _ _
  | enter task => exact alike_enter h hls hlt
  | send task => exact alike_send h hls hlt
  | retract task => exact alike_retract h hls hlt
  | read task disk => exact alike_read h hls hlt
  | answer task => exact alike_answer h hls hlt
  | relay => exact alike_relay h hls hlt
  | copyData content => exact alike_copyData h hls hlt
  | copyFiles manifest abs => exact alike_copyFiles h hls hlt
  | readOff => exact alike_readOff h hls hlt
  | queue => exact alike_queue h hls hlt
  | setDisabled other disabled => exact alike_setDisabled h hs ht hls hlt

/-- Runs that are alike but for one client show the others the same. -/
theorem Alike.sameForOthers {name : String} {s t : SharingRun} (h : Alike name s t)
    (cfg : SharingConfig) : SameForOthers cfg name s t := by
  refine ⟨fun other ho => ?_, h.desk, h.pulls, h.isSome_step cfg⟩
  unfold outbox
  rw [h.hub.clients other ho]

/-- Two runs that differ in what `name` sends while it is off stay alike. -/
theorem alike_paired {cfg : SharingConfig} {name : String} {s t : SharingRun}
    (h : (sharingRuns cfg).Paired OutOfIt (SaysWhileOff name) s t) : Alike name s t := by
  refine h.unwind (fun s _ => .refl name s) (fun _ _ h => h.symm) ?_ ?_
  · intro s t l s' _ h hown hok hl
    cases l with
    | receive other msg =>
      obtain ⟨hoff, rfl⟩ := hown
      exact h.speaks hoff hok hl
    | _ => exact absurd hown id
  · intro s t l s' t' _ _ h hs ht hls hlt
    by_cases hl : SaysWhileOff name s l
    · cases l with
      | receive other msg =>
        -- a message both runs take while it is off changes neither for the others
        obtain ⟨hoff, rfl⟩ := hl
        have hleft : Alike other s' t := h.speaks hoff hs hls
        exact (hleft.symm.speaks ((h.isDisabled other).symm.trans hoff) ht hlt).symm
      | _ => exact absurd hl id
    · exact alike_step h hs ht hl hls hlt

end SharingRun

/-- **A client that is turned off takes no part**: of two runs that differ only in what it says
while it is off, the others see the same. -/
theorem turned_off_takes_no_part (cfg : SharingConfig) (name : String) :
    TakesNoPart cfg OutOfIt name := by
  refine ⟨?_, ?_, ?_⟩
  · intro s l s' hs hok hl hoff
    exact (uninvolved_step hoff (uninvolved_reach hs hoff) hok hl).2
  · intro s hs hoff
    exact (uninvolved_reach hs hoff).pushes
  · intro s t h
    exact (SharingRun.alike_paired h).sameForOthers cfg

/-- The server's sharing with its defaults, in the encoding of the source. -/
def plainSharing : SharingConfig := { codec := .postcard }

/-- A copy of one file, as its client pushes it. -/
def oneFile : ClipboardContent := .withFiles .postcard ⟨[⟨"f", 1, false⟩]⟩

/-- The messages with which the client `name` pushes `content` as its transfer `seq`. -/
def pushLabels (name : String) (seq : Nat) (content : ClipboardContent) : List SharingLabel :=
  (.clipboardGrab .clipboard seq :: (Chunk.stream (Codec.postcard.encode content)).map
    (.clipboardData .clipboard seq)).map (.receive name)

/-- "a" is turned off and pushes a file all the same. "b" pushes its own, and only that is
announced, as it would have been had "a" kept silent. -/
theorem turned_off_takes_no_part_running :
    ∃ s t, (sharingRuns plainSharing).Paired OutOfIt (SharingRun.SaysWhileOff "a") s t
      ∧ s.hub.isDisabled "a" = true ∧ (s.outbox "b").length = 4
      ∧ (∀ c ∈ s.hub.clipboard, c.from_ ≠ "a")
      ∧ SharingRun.SameForOthers plainSharing "a" s t := by
  -- "a" is off and pushes a file in one run, and is silent in the other
  let start : List SharingLabel := [.connect "a" [], .connect "b" [], .setDisabled "a" true]
  let after : List SharingLabel :=
    pushLabels "b" 1 oneFile ++ [.hand "b", .relay, .readOff, .queue]
  -- both go on with a push of "b"
  have hstart : ((sharingRuns plainSharing).exec OutOfIt {} start).bind (fun u =>
      ((sharingRuns plainSharing).exec (fun s l => SharingRun.SaysWhileOff "a" s l ∧ OutOfIt s l) u
        (pushLabels "a" 1 oneFile)).bind fun s =>
      ((sharingRuns plainSharing).exec OutOfIt s after).bind fun s' =>
      ((sharingRuns plainSharing).exec OutOfIt u after).map fun _ =>
        (s'.hub.isDisabled "a", (s'.outbox "b").length)) = some (true, 4) := by decide
  obtain ⟨u, hu, hrest⟩ := Option.bind_eq_some_iff.mp hstart
  obtain ⟨s₁, hs₁, hrest⟩ := Option.bind_eq_some_iff.mp hrest
  obtain ⟨s, hs, hrest⟩ := Option.bind_eq_some_iff.mp hrest
  obtain ⟨t, ht, hstate⟩ := Option.map_eq_some_iff.mp hrest
  obtain ⟨hoff, hsent⟩ := Prod.mk.inj hstate
  have hreach : (sharingRuns plainSharing).Reach OutOfIt u := Lts.reach_of_exec ⟨∅, rfl⟩ hu
  have hpaired : (sharingRuns plainSharing).Paired OutOfIt (SharingRun.SaysWhileOff "a") s t :=
    ((Lts.Paired.start hreach).left_of_exec hs₁).both_of_exec hs ht
  have hnone := turned_off_takes_no_part plainSharing "a"
  exact ⟨s, t, hpaired, hoff, hsent, hnone.pushes s hpaired.reach.1 hoff, hnone.others s t hpaired⟩

/-- "a" announces a file and is turned off. "b" asks for the file, and is given it: the read is
queued for "a". -/
theorem turned_off_files_are_read :
    ¬ ∀ cfg name, TakesNoPart cfg (fun _ _ => True) name := by
  intro hall
  -- "a" copied the file before it was turned off, and "b" reads it after
  let labels : List SharingLabel :=
    [.connect "a" [], .connect "b" []] ++ pushLabels "a" 1 oneFile
      ++ [.hand "a", .relay, .readOff, .queue, .setDisabled "a" true,
        .receive "b" (.fileRead 1 7 0 0 1), .enter 0]
  have hend : ((sharingRuns plainSharing).run {} labels).bind (fun s =>
      (s.step plainSharing (.send 0)).map fun s' => decide (s.hub.isDisabled "a" = true
        ∧ s'.hub.contains "a" = true
        ∧ s'.outbox "a" = s.outbox "a" ++ [.fileRead 1 1 0 0 1])) = some true := by decide
  obtain ⟨s, hs, hstep⟩ := Option.bind_eq_some_iff.mp hend
  obtain ⟨s', hs', hstate⟩ := Option.map_eq_some_iff.mp hstep
  simp only [decide_eq_true_eq] at hstate
  obtain ⟨hoff, hconnected, hread⟩ := hstate
  have hreach : (sharingRuns plainSharing).Reachable s := Lts.reachable_of_run ⟨∅, rfl⟩ hs
  -- the read reaches "a", so it is not left out
  obtain ⟨added, hadded, hsilent⟩ :=
    (hall plainSharing "a").quiet s _ s' hreach trivial hs' hoff hconnected
  rw [hread] at hadded
  have hmem : ServerMsg.fileRead 1 1 0 0 1 ∈ added := by
    rw [← List.append_cancel_left hadded]
    exact List.mem_singleton_self _
  exact hsilent _ hmem trivial

end GeserDesk
