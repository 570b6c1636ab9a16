import GeserDesk.Lib.Transition
import GeserDesk.Server.Handshake

/-!
# One welcome a name

`handle_client` and `handshake` in `geserdesk-server/src/net.rs`, for any number of connections,
from the look for the name among those connected to the end of the session. What comes before,
the first message and the certificate, lets anybody through here, under any name, or turns them
away; so it covers a server with TLS and one without.

* **`welcome_exclusive`**: in a run in which nobody's name is looked up while another connection
  is on the way from that look to the claim of the same name, a name is welcomed once, the
  connection that was welcomed gets it and keeps it, and everybody else is rejected.
* **`both_welcomed`**: two connections that look before either claims are welcomed both.
-/

namespace GeserDesk

/-! ## The steps of a connection

A connection looks whether the name is taken, and claims it later. Between the two another may
claim it. -/

namespace HandshakeStage

/-- The name the connection was found free, and has not lost again. -/
def cleared? : HandshakeStage → Option String
  | welcome screen _ | options screen _ | accepted screen _ => some screen.name
  | session name | closing name => some name
  | _ => none

/-- The name the connection was sent `Welcome` for. -/
def welcomed? : HandshakeStage → Option String
  | options screen _ | accepted screen _ => some screen.name
  | session name | closing name => some name
  | _ => none

/-- The name the connection was found free, and has not claimed yet. -/
def toClaim? : HandshakeStage → Option String
  | welcome screen _ | options screen _ | accepted screen _ => some screen.name
  | _ => none

/-- Who was welcomed under a name was cleared for it. -/
theorem cleared_of_welcomed {stage : HandshakeStage} {n : String}
    (h : stage.welcomed? = some n) : stage.cleared? = some n := by
  cases stage with
  | options | accepted | session | closing => exact h
  | _ => cases h

/-- Who holds a name was cleared for it. -/
theorem cleared_of_holds {stage : HandshakeStage} {n : String} (h : stage.holds? = some n) :
    stage.cleared? = some n := by
  cases stage with
  | session | closing => exact h
  | _ => cases h

/-- Who is cleared for a name is to claim it, or holds it. -/
theorem cleared_cases {stage : HandshakeStage} {n : String} (h : stage.cleared? = some n) :
    stage.toClaim? = some n ∨ stage.holds? = some n := by
  cases stage with
  | welcome | options | accepted => exact .inl h
  | session | closing => exact .inr h
  | _ => cases h

end HandshakeStage

inductive ClientAct where
  /-- The first message has come, and the name and the certificate are in order. -/
  | letIn (screen : ScreenInfo) (version : Version)
  | turnAway (why : Refusal)
  /-- The name is looked up. -/
  | nameTaken
  /-- `Welcome` or `SetOptions` is sent. -/
  | sent
  /-- The socket fails, or the handshake takes too long. -/
  | abort
  | register
  /-- The session ends. -/
  | leave
  | unregister
deriving DecidableEq

/-- What `handle_client` does next, and to the hub. -/
def HandshakeStage.act (hub : Hub ServerMsg) :
    HandshakeStage → ClientAct → Option (HandshakeStage × Hub ServerMsg)
  | .hello, .letIn screen version => some (.authorized screen version, hub)
  | .hello, .turnAway why => some (.refused why, hub)
  | .authorized screen version, .nameTaken =>
    if hub.contains screen.name then some (.refused (.nameTaken screen.name), hub)
    else some (.welcome screen version, hub)
  | .welcome screen version, .sent => some (.options screen version, hub)
  | .options screen version, .sent => some (.accepted screen version, hub)
  | .hello, .abort | .welcome _ _, .abort | .options _ _, .abort => some (.done, hub)
  | .accepted screen _, .register =>
    match hub.register screen.name (sanitizeMonitors screen) with
    | some hub => some (.session screen.name, hub)
    | none => some (.done, hub)
  | .session name, .leave => some (.closing name, hub)
  | .closing name, .unregister => some (.done, hub.unregister name)
  | _, _ => none

structure WelcomeRun where
  hub : Hub ServerMsg := {}
  conns : Dict Nat HandshakeStage := ∅

inductive WelcomeLabel where
  | accept (sid : Nat)
  | act (sid : Nat) (a : ClientAct)
  /-- Anyone else queues a message. -/
  | traffic (name : String) (msg : ServerMsg)

namespace WelcomeRun

def step (s : WelcomeRun) : WelcomeLabel → Option WelcomeRun
  | .accept sid =>
    match s.conns.get? sid with
    | none => some { s with conns := s.conns.put sid .hello }
    | some _ => none
  | .act sid a =>
    match s.conns.get? sid with
    | some stage =>
      match stage.act s.hub a with
      | some (stage, hub) => some { hub := hub, conns := s.conns.put sid stage }
      | none => none
    | none => none
  | .traffic name msg => some { s with hub := (s.hub.send name msg).1 }

end WelcomeRun

/-- The connections of a server that has just started. -/
def welcomeRuns : Lts WelcomeRun WelcomeLabel where
  init s := s.hub.clients = ∅ ∧ s.conns = ∅
  step := WelcomeRun.step

/-- Nobody's name is looked up while another connection is about to claim it. -/
def AloneAtTheLook (s : WelcomeRun) : WelcomeLabel → Prop
  | .act sid .nameTaken =>
    match s.conns.get? sid with
    | some (.authorized screen _) => s.conns.All fun stage => stage.toClaim? ≠ some screen.name
    | _ => True
  | _ => True

instance (s : WelcomeRun) (l : WelcomeLabel) : Decidable (AloneAtTheLook s l) := by
  unfold AloneAtTheLook
  repeat' split
  all_goals infer_instance

/-! ## What one step of a connection can do -/

/-- The outcomes of `act`, as far as names go. -/
inductive Moved (hub : Hub ServerMsg) :
    HandshakeStage → ClientAct → HandshakeStage → Hub ServerMsg → Prop where
  /-- Nothing is claimed and nothing freed. -/
  | aside {stage stage' : HandshakeStage} {a : ClientAct}
      (hcleared : ∀ n, stage'.cleared? = some n → stage.cleared? = some n)
      (hholds : stage'.holds? = stage.holds?) : Moved hub stage a stage' hub
  | free {screen : ScreenInfo} {version : Version} (h : hub.contains screen.name = false) :
      Moved hub (.authorized screen version) .nameTaken (.welcome screen version) hub
  | claim {screen : ScreenInfo} {version : Version} {hub' : Hub ServerMsg}
      (h : hub.contains screen.name = false)
      (hclients : hub'.clients = hub.clients.put screen.name ⟨[], sanitizeMonitors screen⟩) :
      Moved hub (.accepted screen version) .register (.session screen.name) hub'
  | gone {name : String} : Moved hub (.closing name) .unregister .done (hub.unregister name)

/-- **Every act of a connection is one of those of `Moved`.** -/
theorem moved_of_act {hub hub' : Hub ServerMsg} {stage stage' : HandshakeStage} {a : ClientAct}
    (h : stage.act hub a = some (stage', hub')) : Moved hub stage a stage' hub' := by
  unfold HandshakeStage.act at h
  split at h
  case h_1 => cases h; exact .aside nofun rfl
  case h_2 => cases h; exact .aside nofun rfl
  case h_3 screen version =>
    split at h
    · cases h; exact .aside nofun rfl
    · next hfree => cases h; exact .free (Bool.eq_false_iff.mpr hfree)
  case h_4 => cases h; exact .aside (fun _ hn => hn) rfl
  case h_5 => cases h; exact .aside (fun _ hn => hn) rfl
  case h_6 | h_7 | h_8 => cases h; exact .aside nofun rfl
  case h_9 screen version =>
    split at h
    · next hub₁ hreg =>
      cases h
      obtain ⟨hfree, hclients, -⟩ := Hub.register_eq hreg
      exact .claim (by rw [Hub.contains, hfree]; rfl) hclients
    · cases h; exact .aside nofun rfl
  case h_10 => cases h; exact .aside (fun _ hn => hn) rfl
  case h_11 => cases h; exact .gone
  case h_12 => cases h

/-! ## The invariant

Where each look is alone until its claim, every name is claimed by one. -/

structure WelcomeInv (s : WelcomeRun) : Prop where
  /-- A name found free is found so for one connection. -/
  alone : ∀ sid sid' stage stage' n, s.conns.get? sid = some stage →
    s.conns.get? sid' = some stage' → stage.cleared? = some n → stage'.cleared? = some n →
    sid = sid'
  /-- The names registered are those the sessions hold. -/
  registered : ∀ sid stage n, s.conns.get? sid = some stage → stage.holds? = some n →
    s.hub.contains n = true
  held : ∀ n, s.hub.contains n = true →
    ∃ sid stage, s.conns.get? sid = some stage ∧ stage.holds? = some n

/-- A connection more has been cleared for nothing. -/
theorem welcomeInv_accept {s : WelcomeRun} (h : WelcomeInv s) {sid : Nat}
    (hnew : s.conns.get? sid = none) :
    WelcomeInv { s with conns := s.conns.put sid .hello } := by
  constructor
  · intro sid₁ sid₂ st₁ st₂ n h₁ h₂ hn₁ hn₂
    simp only [Dict.get?_put] at h₁ h₂
    split at h₁
    · cases h₁; cases hn₁
    split at h₂
    · cases h₂; cases hn₂
    exact h.alone sid₁ sid₂ st₁ st₂ n h₁ h₂ hn₁ hn₂
  · intro sid₁ st n h₁ hn
    simp only [Dict.get?_put] at h₁
    split at h₁
    · cases h₁; cases hn
    exact h.registered sid₁ st n h₁ hn
  · intro n hn
    obtain ⟨sid₁, st, hst, hholds⟩ := h.held n hn
    refine ⟨sid₁, st, ?_, hholds⟩
    simp only [Dict.get?_put]
    rw [if_neg (by rintro rfl; rw [hnew] at hst; cases hst)]
    exact hst

/-- A connection that moves on leaves one owner for a name, if nobody had what it takes anew. -/
theorem alone_put {s : WelcomeRun} (h : WelcomeInv s) {sid : Nat} {stage stage' : HandshakeStage}
    (hst : s.conns.get? sid = some stage)
    (hcleared : ∀ n, stage'.cleared? = some n → stage.cleared? = some n
      ∨ ∀ sid₁ st₁, s.conns.get? sid₁ = some st₁ → st₁.cleared? ≠ some n) :
    ∀ sid₁ sid₂ st₁ st₂ n, (s.conns.put sid stage').get? sid₁ = some st₁ →
      (s.conns.put sid stage').get? sid₂ = some st₂ → st₁.cleared? = some n →
      st₂.cleared? = some n → sid₁ = sid₂ := by
  -- what the connection has now, it had before or nobody had
  have hother : ∀ sid₁ st₁ n, sid₁ ≠ sid → s.conns.get? sid₁ = some st₁ →
      st₁.cleared? = some n → stage'.cleared? ≠ some n := by
    intro sid₁ st₁ n hne h₁ hn₁ hn
    rcases hcleared n hn with hold | hnone
    · exact hne (h.alone sid₁ sid st₁ stage n h₁ hst hn₁ hold)
    · exact hnone sid₁ st₁ h₁ hn₁
  intro sid₁ sid₂ st₁ st₂ n h₁ h₂ hn₁ hn₂
  rw [Dict.get?_put] at h₁ h₂
  split at h₁
  · next he₁ =>
    cases h₁
    split at h₂
    · next he₂ => rw [he₁, he₂]
    · next hne => exact absurd hn₁ (hother sid₂ st₂ n hne h₂ hn₂)
  · next hne =>
    split at h₂
    · cases h₂
      exact absurd hn₂ (hother sid₁ st₁ n hne h₁ hn₁)
    · exact h.alone sid₁ sid₂ st₁ st₂ n h₁ h₂ hn₁ hn₂

/-- An act of a connection that is alone at the look keeps every name with one connection. -/
theorem welcomeInv_act {s : WelcomeRun} (h : WelcomeInv s) {sid : Nat} {a : ClientAct}
    {stage stage' : HandshakeStage} {hub' : Hub ServerMsg} (hst : s.conns.get? sid = some stage)
    (hok : AloneAtTheLook s (.act sid a)) (hm : Moved s.hub stage a stage' hub') :
    WelcomeInv { hub := hub', conns := s.conns.put sid stage' } := by
  have hsame : stage'.holds? = stage.holds? → ∀ sid₁ n,
      (∃ st, (s.conns.put sid stage').get? sid₁ = some st ∧ st.holds? = some n)
        ↔ ∃ st, s.conns.get? sid₁ = some st ∧ st.holds? = some n := by
    intro hholds sid₁ n
    rw [Dict.get?_put]
    split
    · next he => simp [he, hst, hholds]
    · rfl
  cases hm with
  | aside hcleared hholds =>
    refine ⟨alone_put h hst fun n hn => .inl (hcleared n hn), ?_, ?_⟩
    · intro sid₁ st n h₁ hn
      obtain ⟨st₀, h₀, hn₀⟩ := (hsame hholds sid₁ n).mp ⟨st, h₁, hn⟩
      exact h.registered sid₁ st₀ n h₀ hn₀
    · intro n hn
      obtain ⟨sid₁, st, h₁, hn₁⟩ := h.held n hn
      exact ⟨sid₁, (hsame hholds sid₁ n).mpr ⟨st, h₁, hn₁⟩⟩
  | @free screen version hfree =>
    refine ⟨alone_put h hst fun n hn => .inr fun sid₁ st₁ h₁ hn₁ => ?_, ?_, ?_⟩
    · -- who has the name is about to claim it, or holds it and is registered
      obtain rfl : screen.name = n := Option.some.inj hn
      rcases HandshakeStage.cleared_cases hn₁ with hall | hholds
      · simp only [AloneAtTheLook, hst] at hok
        exact hok sid₁ st₁ h₁ hall
      · rw [h.registered sid₁ st₁ _ h₁ hholds] at hfree
        cases hfree
    · intro sid₁ st n h₁ hn
      obtain ⟨st₀, h₀, hn₀⟩ := (hsame rfl sid₁ n).mp ⟨st, h₁, hn⟩
      exact h.registered sid₁ st₀ n h₀ hn₀
    · intro n hn
      obtain ⟨sid₁, st, h₁, hn₁⟩ := h.held n hn
      exact ⟨sid₁, (hsame rfl sid₁ n).mpr ⟨st, h₁, hn₁⟩⟩
  | @claim screen version _ hfree hclients =>
    refine ⟨alone_put h hst fun n hn => .inl hn, ?_, ?_⟩
    · intro sid₁ st n h₁ hn
      rw [Hub.contains, hclients, Dict.get?_put]
      split
      · rfl
      · next hne =>
        simp only [Dict.get?_put] at h₁
        split at h₁
        · cases h₁
          exact absurd (Option.some.inj hn).symm hne
        · exact h.registered sid₁ st n h₁ hn
    · intro n hn
      rw [Hub.contains, hclients, Dict.get?_put] at hn
      split at hn
      · next heq =>
        exact ⟨sid, .session screen.name, by simp, congrArg some heq.symm⟩
      · obtain ⟨sid₁, st, h₁, hn₁⟩ := h.held n hn
        refine ⟨sid₁, st, ?_, hn₁⟩
        simp only [Dict.get?_put]
        rw [if_neg (by rintro rfl; rw [hst] at h₁; cases h₁; cases hn₁)]
        exact h₁
  | @gone name =>
    have hcontains : ∀ n, (s.hub.unregister name).contains n
        = if n = name then false else s.hub.contains n := by
      intro n
      simp only [Hub.contains, Hub.unregister, Hub.sayGone, Hub.emit_clients, Hub.removeClient,
        Dict.get?_drop]
      split <;> rfl
    refine ⟨alone_put h hst nofun, ?_, ?_⟩
    · intro sid₁ st n h₁ hn
      simp only [Dict.get?_put] at h₁
      split at h₁
      · cases h₁; cases hn
      · next hne =>
        rw [hcontains]
        split
        · next heq =>
          -- nobody else holds the name that is freed
          subst heq
          exact absurd (h.alone sid₁ sid st _ n h₁ hst (HandshakeStage.cleared_of_holds hn) rfl) hne
        · exact h.registered sid₁ st n h₁ hn
    · intro n hn
      rw [hcontains] at hn
      split at hn
      · cases hn
      · next hne =>
        obtain ⟨sid₁, st, h₁, hn₁⟩ := h.held n hn
        refine ⟨sid₁, st, ?_, hn₁⟩
        simp only [Dict.get?_put]
        rw [if_neg]
        · exact h₁
        · rintro rfl
          rw [hst] at h₁
          cases h₁
          exact hne (Option.some.inj hn₁).symm

/-- Every step keeps every name with one connection. -/
theorem welcomeInv_step {s s' : WelcomeRun} {l : WelcomeLabel} (h : WelcomeInv s)
    (hok : AloneAtTheLook s l) (hs : s.step l = some s') : WelcomeInv s' := by
  cases l with
  | accept sid =>
    simp only [WelcomeRun.step] at hs
    split at hs
    · next hnew => cases hs; exact welcomeInv_accept h hnew
    · cases hs
  | act sid a =>
    simp only [WelcomeRun.step] at hs
    split at hs
    case h_2 => cases hs
    next stage hst =>
    split at hs
    case h_2 => cases hs
    next stage' hub' hact =>
    cases hs
    exact welcomeInv_act h hst hok (moved_of_act hact)
  | traffic name msg =>
    cases hs
    refine ⟨h.alone, fun sid stage n hc hn => ?_, fun n hn => h.held n ?_⟩
    · exact (Hub.contains_send ..).trans (h.registered sid stage n hc hn)
    · exact (Hub.contains_send ..).symm.trans hn

/-- The invariant holds in every state reached. -/
theorem welcomeInv_reach {s : WelcomeRun} (hs : welcomeRuns.Reach AloneAtTheLook s) :
    WelcomeInv s := by
  refine Lts.Reach.invariant (P := WelcomeInv) ?_
    (fun _ _ _ _ ih hok hl => welcomeInv_step ih hok hl) hs
  rintro s ⟨hclients, hconns⟩
  constructor
  · intro sid _ stage _ _ h
    simp [hconns] at h
  · intro sid stage _ h
    simp [hconns] at h
  · intro n hn
    simp [Hub.contains, hclients] at hn

/-! ## Welcome is exclusive -/

structure WelcomeRun.Exclusive (s : WelcomeRun) : Prop where
  /-- No two connections are welcomed under one name at a time. -/
  alone : ∀ sid sid' stage stage' n, s.conns.get? sid = some stage →
    s.conns.get? sid' = some stage' → stage.welcomed? = some n → stage'.welcomed? = some n →
    sid = sid'
  /-- A connection that was welcomed gets the name, -/
  claims : ∀ sid screen version, s.conns.get? sid = some (.accepted screen version) →
    ∃ s', s.step (.act sid .register) = some s'
      ∧ s'.conns.get? sid = some (.session screen.name) ∧ s'.hub.contains screen.name = true
  /-- is registered under it, and stays in its session until that ends. -/
  registered : ∀ sid stage n, s.conns.get? sid = some stage → stage.holds? = some n →
    s.hub.contains n = true
  served : ∀ sid n l s', s.conns.get? sid = some (.session n) → s.step l = some s' →
    s'.conns.get? sid = some (.session n) ∨ l = .act sid .leave
  /-- Meanwhile any other connection under the name is rejected. -/
  rejected : ∀ sid sid' stage stage' n, sid' ≠ sid → s.conns.get? sid = some stage →
    stage.holds? = some n → s.conns.get? sid' = some stage' →
    stage'.cleared? ≠ some n ∧ ∀ screen version, stage' = .authorized screen version →
      screen.name = n → ∃ s', s.step (.act sid' .nameTaken) = some s'
        ∧ s'.conns.get? sid' = some (.refused (.nameTaken n))

/-- A session is left by its own end only. -/
theorem served_of_step {s s' : WelcomeRun} {l : WelcomeLabel} {sid : Nat} {n : String}
    (hst : s.conns.get? sid = some (.session n)) (hs : s.step l = some s') :
    s'.conns.get? sid = some (.session n) ∨ l = .act sid .leave := by
  cases l with
  | accept sid₁ =>
    simp only [WelcomeRun.step] at hs
    split at hs
    case h_2 => cases hs
    next hnew =>
    cases hs
    refine .inl ?_
    simp only [Dict.get?_put]
    rw [if_neg (by rintro rfl; rw [hst] at hnew; cases hnew)]
    exact hst
  | act sid₁ a =>
    simp only [WelcomeRun.step] at hs
    split at hs
    case h_2 => cases hs
    next stage hst₁ =>
    split at hs
    case h_2 => cases hs
    next stage' hub' hact =>
    cases hs
    by_cases hsid : sid = sid₁
    · subst hsid
      rw [hst] at hst₁
      cases hst₁
      cases a with
      | leave => exact .inr rfl
      | _ => cases hact
    · refine .inl ?_
      simp only [Dict.get?_put]
      rw [if_neg hsid]
      exact hst
  | traffic name msg => cases hs; exact .inl hst

/-- **Welcome is exclusive** where nobody is looked up between another's look and its claim. -/
theorem welcome_exclusive {s : WelcomeRun} (hs : welcomeRuns.Reach AloneAtTheLook s) :
    s.Exclusive := by
  have h := welcomeInv_reach hs
  constructor
  · intro sid sid' stage stage' n hst hst' hn hn'
    exact h.alone sid sid' stage stage' n hst hst' (HandshakeStage.cleared_of_welcomed hn)
      (HandshakeStage.cleared_of_welcomed hn')
  · intro sid screen version hst
    -- the name is free: who held it would have been found free under it, too
    have hfree : s.hub.contains screen.name = false := by
      rw [Bool.eq_false_iff]
      intro hin
      obtain ⟨sid', stage', hst', hholds⟩ := h.held _ hin
      obtain rfl := h.alone sid sid' _ stage' _ hst hst' rfl
        (HandshakeStage.cleared_of_holds hholds)
      rw [hst] at hst'
      cases hst'
      cases hholds
    cases hreg : s.hub.register screen.name (sanitizeMonitors screen) with
    | none => simp [Hub.register, Hub.insertClient, hfree] at hreg
    | some hub =>
      refine ⟨⟨hub, s.conns.put sid (.session screen.name)⟩,
        by simp only [WelcomeRun.step, hst, HandshakeStage.act, hreg], by simp, ?_⟩
      rw [Hub.contains, (Hub.register_eq hreg).2.1]
      simp
  · exact h.registered
  · exact fun sid n l s' hst hstep => served_of_step hst hstep
  · intro sid sid' stage stage' n hne hst hholds hst'
    refine ⟨fun hcleared => hne ?_, ?_⟩
    · exact h.alone sid' sid stage' stage n hst' hst hcleared
        (HandshakeStage.cleared_of_holds hholds)
    · rintro screen version rfl rfl
      have hin := h.registered sid stage _ hst hholds
      exact ⟨⟨s.hub, s.conns.put sid' (.refused (.nameTaken screen.name))⟩,
        by simp only [WelcomeRun.step, hst', HandshakeStage.act, hin, if_true], by simp⟩

def screenA : ScreenInfo := ⟨"a", ⟨0, 0, 1920, 1080⟩, [], ⟨0, 0⟩⟩

/-- "a" is served; a second "a" is rejected. -/
theorem welcome_exclusive_served : ∃ s : WelcomeRun, s.Exclusive
    ∧ s.conns.get? 0 = some (.session "a") ∧ s.conns.get? 1 = some (.refused (.nameTaken "a")) := by
  have hend : (welcomeRuns.exec AloneAtTheLook {} [.accept 0, .act 0 (.letIn screenA ⟨4, 0⟩),
      .act 0 .nameTaken, .act 0 .sent, .act 0 .sent, .act 0 .register, .accept 1,
      .act 1 (.letIn screenA ⟨4, 0⟩), .act 1 .nameTaken]).map (fun s =>
        decide (s.conns.get? 0 = some (.session "a")
          ∧ s.conns.get? 1 = some (.refused (.nameTaken "a")))) = some true := by decide +kernel
  obtain ⟨s, hrun, hd⟩ := Option.map_eq_some_iff.mp hend
  exact ⟨s, welcome_exclusive (Lts.reach_of_exec ⟨rfl, rfl⟩ hrun), of_decide_eq_true hd⟩

/-- Two connections of one name look for it before either claims it: both are welcomed. -/
theorem both_welcomed : ¬ ∀ s, welcomeRuns.Reachable s → s.Exclusive := by
  intro hall
  have hend : (welcomeRuns.run {} [.accept 0, .accept 1, .act 0 (.letIn screenA ⟨4, 0⟩),
      .act 1 (.letIn screenA ⟨4, 0⟩), .act 0 .nameTaken, .act 1 .nameTaken, .act 0 .sent,
      .act 1 .sent]).map (fun s => decide (s.conns.get? 0 = some (.options screenA ⟨4, 0⟩)
        ∧ s.conns.get? 1 = some (.options screenA ⟨4, 0⟩))) = some true := by decide +kernel
  obtain ⟨s, hrun, hd⟩ := Option.map_eq_some_iff.mp hend
  obtain ⟨h₀, h₁⟩ := of_decide_eq_true hd
  have h := (hall s (Lts.reachable_of_run ⟨rfl, rfl⟩ hrun)).alone 0 1 _ _ "a" h₀ h₁ rfl rfl
  cases h

end GeserDesk
