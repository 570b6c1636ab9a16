import GeserDesk.System.RevokeRuns

/-!
# Revoking a certificate

The certificate is checked once, in the handshake; `revoke` takes the trust away, saves, and then
closes whoever is registered under the name at that moment.

* **`revocation_effective`**: no session of a revoked certificate is left once handshakes are
  over and queued closes are sent, in any run in which `revoke` comes to close a name only while
  no connection stands between its check and its registration (`NobodyBetween`).
* **`gap_survives_revocation`**: a connection that does keeps its session.
-/

namespace GeserDesk

/-! ## What revoking is to achieve -/

/-- The revocation took the trust away, and nobody gave it back. -/
def Revocation.Stands (r : Revocation) : Prop := r.reapproved = false ∧ r.pc ≠ .returned false

instance : DecidablePred Revocation.Stands := fun r => by unfold Revocation.Stands; infer_instance

/-- The connection passed the check of `fp` for `name`, and has not claimed the name. -/
def TlsConnection.Between (name : String) (fp : Fingerprint) (c : TlsConnection) : Prop :=
  c.cert = some fp ∧ c.stage.passed? = some name

instance (name : String) (fp : Fingerprint) : DecidablePred (TlsConnection.Between name fp) :=
  fun c => by unfold TlsConnection.Between; infer_instance

namespace RevokeRun

/-- Every handshake with the certificate has finished, and every close queued for `name` was
sent. -/
def Quiet (s : RevokeRun) (name : String) (fp : Fingerprint) : Prop :=
  (∀ sid c, s.conns.get? sid = some c → c.cert = some fp → c.stage.Settled)
    ∧ ∀ e reason, s.hub.clients.get? name = some e → .close reason ∉ e.outbox

/-- Once `revoke` has returned and all is quiet, no session of the certificate it revoked holds
the name, unless the certificate was approved again. -/
def Effective (s : RevokeRun) : Prop :=
  ∀ rid r, s.revocations.get? rid = some r → r.pc = .returned true → r.reapproved = false →
    s.Quiet r.name r.old →
    ∀ sid c, s.conns.get? sid = some c → c.cert = some r.old → c.stage.holds? ≠ some r.name

/-- No revocation of the certificate stands, but for `except_`. -/
def Spared (s : RevokeRun) (except_ : Option Nat) (name : String) (fp : Fingerprint) : Prop :=
  ∀ e ∈ s.revocations.entries, some e.1 ≠ except_ → e.2.Stands → ¬ (e.2.name = name ∧ e.2.old = fp)

instance (s : RevokeRun) (except_ : Option Nat) (name : String) (fp : Fingerprint) :
    Decidable (s.Spared except_ name fp) := by unfold Spared; infer_instance

end RevokeRun

/-- When `revoke` comes to close a name, no connection with the certificate it revoked stands
between its check and its registration; and a call that cannot save puts back no certificate that
another call has revoked since. -/
def NobodyBetween (s : RevokeRun) : RevokeLabel → Prop
  | .close rid =>
    match s.revocations.get? rid with
    | some r => s.conns.All fun c => ¬ c.Between r.name r.old
    | none => True
  | .saveRevoked rid false =>
    match s.revocations.get? rid with
    | some r => s.Spared (some rid) r.name r.old
    | none => True
  | .saveApproved aid false =>
    match s.approvals.get? aid with
    | some ⟨name, _, _, .toSave (some previous)⟩ => s.Spared none name previous
    | _ => True
  | _ => True

instance (s : RevokeRun) (l : RevokeLabel) : Decidable (NobodyBetween s l) := by
  unfold NobodyBetween
  repeat' split
  all_goals infer_instance

/-! ## The invariant

A session of a revoked name has a close queued, or its close is still to be sent. -/

/-- A close is queued for `name`. -/
def RevokeRun.CloseQueued (s : RevokeRun) (name : String) : Prop :=
  ∃ e reason, s.hub.clients.get? name = some e ∧ ServerMsg.close reason ∈ e.outbox

structure RevokeInv (s : RevokeRun) : Prop where
  /-- The certificate of a revocation that stands is not trusted. -/
  untrusted : ∀ rid r, s.revocations.get? rid = some r → r.Stands →
    s.trust.trusted.get? r.name ≠ some r.old
  /-- Once the revocation returned, none of its certificate's connections gets past the check, -/
  nobody : ∀ rid r sid c, s.revocations.get? rid = some r → r.Stands → r.pc = .returned true →
    s.conns.get? sid = some c → c.cert = some r.old → c.stage.passed? ≠ some r.name
  /-- and a session it still has is about to be closed. -/
  closed : ∀ rid r sid c, s.revocations.get? rid = some r → r.Stands → r.pc = .returned true →
    s.conns.get? sid = some c → c.cert = some r.old → c.stage = .session r.name →
    s.CloseQueued r.name

/-- A step that leaves what is trusted and what was revoked: what becomes of the connections and
of the closes queued for those that keep their session. -/
theorem RevokeInv.frame {s s' : RevokeRun} (h : RevokeInv s)
    (htrust : s'.trust.trusted = s.trust.trusted) (hrev : s'.revocations = s.revocations)
    (hpassed : ∀ sid c' n, s'.conns.get? sid = some c' → c'.stage.passed? = some n →
      (∃ c, s.conns.get? sid = some c ∧ c.cert = c'.cert ∧ c.stage.passed? = some n)
        ∨ ∃ fp, c'.cert = some fp ∧ s.trust.trusted.get? n = some fp)
    (hsession : ∀ sid c' n, s'.conns.get? sid = some c' → c'.stage = .session n →
      ∃ c, s.conns.get? sid = some c ∧ c.cert = c'.cert
        ∧ (c.stage = .session n ∧ (s.CloseQueued n → s'.CloseQueued n)
          ∨ c.stage.passed? = some n)) : RevokeInv s' := by
  constructor
  · rw [htrust, hrev]; exact h.untrusted
  · rw [hrev]
    intro rid r sid c' hr hstands hreturned hc' hcert hn
    rcases hpassed sid c' r.name hc' hn with ⟨c, hc, hsame, hn'⟩ | ⟨fp, hfp, htrusted⟩
    · exact h.nobody rid r sid c hr hstands hreturned hc (hsame.trans hcert) hn'
    · -- what passes now is trusted, and what stands revoked is not
      rw [hcert, Option.some.injEq] at hfp
      exact h.untrusted rid r hr hstands (hfp ▸ htrusted)
  · rw [hrev]
    intro rid r sid c' hr hstands hreturned hc' hcert hstage
    obtain ⟨c, hc, hsame, ⟨hstage', hqueued⟩ | hn⟩ := hsession sid c' r.name hc' hstage
    · exact hqueued (h.closed rid r sid c hr hstands hreturned hc (hsame.trans hcert) hstage')
    · exact absurd hn (h.nobody rid r sid c hr hstands hreturned hc (hsame.trans hcert))

/-- One connection is new, or moves; the closes queued for the others' sessions stay. -/
theorem RevokeInv.frame_conn {s s' : RevokeRun} (h : RevokeInv s) {sid : Nat} {c' : TlsConnection}
    (htrust : s'.trust.trusted = s.trust.trusted) (hrev : s'.revocations = s.revocations)
    (hconns : s'.conns = s.conns.put sid c')
    (hpassed : ∀ n, c'.stage.passed? = some n →
      (∃ c, s.conns.get? sid = some c ∧ c.cert = c'.cert ∧ c.stage.passed? = some n)
        ∨ ∃ fp, c'.cert = some fp ∧ s.trust.trusted.get? n = some fp)
    (hsession : ∀ n, c'.stage = .session n →
      ∃ c, s.conns.get? sid = some c ∧ c.cert = c'.cert
        ∧ (c.stage = .session n ∧ (s.CloseQueued n → s'.CloseQueued n)
          ∨ c.stage.passed? = some n))
    (hothers : ∀ k c n, k ≠ sid → s.conns.get? k = some c → c.stage = .session n →
      s.CloseQueued n → s'.CloseQueued n) : RevokeInv s' := by
  refine h.frame htrust hrev (fun k c n hc hn => ?_) fun k c n hc hn => ?_
  · rw [hconns, Dict.get?_put] at hc
    split at hc
    · next hk =>
      obtain rfl := Option.some.inj hc
      exact hk ▸ hpassed n hn
    · exact .inl ⟨c, hc, rfl, hn⟩
  · rw [hconns, Dict.get?_put] at hc
    split at hc
    · next hk =>
      obtain rfl := Option.some.inj hc
      exact hk ▸ hsession n hn
    · next hk => exact ⟨c, hc, rfl, .inl ⟨hn, hothers k c n hk hc hn⟩⟩

/-- The closes queued for a client stay where its entry does. -/
theorem closeQueued_same {s s' : RevokeRun} {n : String}
    (hclients : s'.hub.clients.get? n = s.hub.clients.get? n) (h : s.CloseQueued n) :
    s'.CloseQueued n := by
  obtain ⟨e, reason, he, hmem⟩ := h
  exact ⟨e, reason, hclients.trans he, hmem⟩

/-- A step that leaves the connections and what is queued: what becomes of the revocations. -/
theorem RevokeInv.revise {s s' : RevokeRun} (h : RevokeInv s) (hconns : s'.conns = s.conns)
    (hclients : s'.hub.clients = s.hub.clients)
    (huntrusted : ∀ rid r, s'.revocations.get? rid = some r → r.Stands →
      s'.trust.trusted.get? r.name ≠ some r.old)
    (hold : ∀ rid r', s'.revocations.get? rid = some r' → r'.Stands → r'.pc = .returned true →
      s.revocations.get? rid = some r') : RevokeInv s' := by
  refine ⟨huntrusted, ?_, ?_⟩
  · rw [hconns]
    intro rid r sid c hr hstands hreturned
    exact h.nobody rid r sid c (hold rid r hr hstands hreturned) hstands hreturned
  · unfold RevokeRun.CloseQueued
    rw [hconns, hclients]
    intro rid r sid c hr hstands hreturned
    exact h.closed rid r sid c (hold rid r hr hstands hreturned) hstands hreturned

/-- Queueing for someone unqueues no close. -/
theorem closeQueued_send {s s' : RevokeRun} {name : String} {msg : ServerMsg}
    (hclients : s'.hub.clients = (s.hub.send name msg).1.clients) {n : String}
    (h : s.CloseQueued n) : s'.CloseQueued n := by
  obtain ⟨e, reason, he, hmem⟩ := h
  unfold RevokeRun.CloseQueued
  rw [hclients, Hub.send_get?]
  split
  · next hn =>
    rw [← hn, he]
    exact ⟨_, reason, rfl, List.mem_append_left _ hmem⟩
  · exact ⟨e, reason, he, hmem⟩

/-- A certificate put back is one that no standing revocation took away. -/
theorem untrusted_restore {s : RevokeRun} (h : RevokeInv s) {except_ : Option Nat} {name : String}
    {fp : Option Fingerprint} (hspared : ∀ p, fp = some p → s.Spared except_ name p) {rid : Nat}
    {r : Revocation} (hr : s.revocations.get? rid = some r) (hstands : r.Stands)
    (hrid : some rid ≠ except_) : (s.trust.restore name fp).trusted.get? r.name ≠ some r.old := by
  rw [Trust.restore_get?]
  split
  · next hname =>
    intro hfp
    exact hspared r.old hfp ⟨rid, r⟩ ((Dict.mem_entries_iff _ _ _).mpr hr) hrid hstands ⟨hname, rfl⟩
  · exact h.untrusted rid r hr hstands

/-! ### The administration, outcome by outcome

The connections stay as they are (`RevokeInv.revise`), but for `close`. -/

section

variable {s s' : RevokeRun}

/-- A certificate is revoked: it is trusted no more, and its call has returned to nobody. -/
theorem RevokeInv.revoke {name : String} {old : Fingerprint} (h : RevokeInv s)
    (htrust : s'.trust.trusted = s.trust.trusted.drop name)
    (hrev : s'.revocations
      = s.revocations.put s.nextRevocation { name := name, old := old, pc := .toSave })
    (hclients : s'.hub.clients = s.hub.clients) (hconns : s'.conns = s.conns) : RevokeInv s' := by
  refine h.revise hconns hclients ?_ ?_
  · intro rid r hr hstands
    rw [hrev, Dict.get?_put] at hr
    rw [htrust, Dict.get?_drop]
    split
    · nofun
    · next hother =>
      split at hr
      · obtain rfl := Option.some.inj hr
        exact absurd rfl hother
      · exact h.untrusted rid r hr hstands
  · intro rid r hr hstands hreturned
    rw [hrev, Dict.get?_put] at hr
    split at hr
    · obtain rfl := Option.some.inj hr
      cases hreturned
    · exact hr

/-- The revocation is saved, and it goes on to close the session. -/
theorem RevokeInv.savedRevoked {rid₀ : Nat} {r₀ : Revocation} (h : RevokeInv s)
    (hr₀ : s.revocations.get? rid₀ = some r₀) (hpc : r₀.pc = .toSave)
    (htrust : s'.trust.trusted = s.trust.trusted)
    (hrev : s'.revocations = s.revocations.put rid₀ { r₀ with pc := .toClose })
    (hclients : s'.hub.clients = s.hub.clients) (hconns : s'.conns = s.conns) : RevokeInv s' := by
  refine h.revise hconns hclients ?_ ?_
  · intro rid r hr hstands
    rw [hrev, Dict.get?_put] at hr
    rw [htrust]
    split at hr
    · obtain rfl := Option.some.inj hr
      exact h.untrusted rid₀ r₀ hr₀ ⟨hstands.1, by rw [hpc]; nofun⟩
    · exact h.untrusted rid r hr hstands
  · intro rid r hr hstands hreturned
    rw [hrev, Dict.get?_put] at hr
    split at hr
    · obtain rfl := Option.some.inj hr
      cases hreturned
    · exact hr

/-- It could not be saved: the certificate is trusted again, and its revocation stands no more. -/
theorem RevokeInv.unsavedRevoked {rid₀ : Nat} {r₀ : Revocation} (h : RevokeInv s)
    (hok : NobodyBetween s (.saveRevoked rid₀ false)) (hr₀ : s.revocations.get? rid₀ = some r₀)
    (htrust : s'.trust = s.trust.restore r₀.name (some r₀.old))
    (hrev : s'.revocations = s.revocations.put rid₀ { r₀ with pc := .returned false })
    (hclients : s'.hub.clients = s.hub.clients) (hconns : s'.conns = s.conns) : RevokeInv s' := by
  have hother : ∀ rid r, s'.revocations.get? rid = some r → r.Stands →
      rid ≠ rid₀ ∧ s.revocations.get? rid = some r := by
    intro rid r hr hstands
    rw [hrev, Dict.get?_put] at hr
    split at hr
    · obtain rfl := Option.some.inj hr
      exact absurd rfl hstands.2
    · next hne => exact ⟨hne, hr⟩
  have hspared : s.Spared (some rid₀) r₀.name r₀.old := by
    simpa only [NobodyBetween, hr₀] using hok
  refine h.revise hconns hclients ?_ fun rid r hr hstands _ => (hother rid r hr hstands).2
  intro rid r hr hstands
  obtain ⟨hne, hr'⟩ := hother rid r hr hstands
  rw [htrust]
  exact untrusted_restore h (fun p hp => Option.some.inj hp ▸ hspared) hr' hstands
    fun he => hne (Option.some.inj he)

/-- Whoever is registered is sent its close, and nobody is on the way past the check. -/
theorem RevokeInv.close {rid₀ : Nat} {r₀ : Revocation} {reason : CloseReason} (hwf : HolderWf s)
    (h : RevokeInv s) (hok : NobodyBetween s (.close rid₀))
    (hr₀ : s.revocations.get? rid₀ = some r₀) (hpc : r₀.pc = .toClose)
    (htrust : s'.trust.trusted = s.trust.trusted)
    (hrev : s'.revocations = s.revocations.put rid₀ { r₀ with pc := .returned true })
    (hclients : s'.hub.clients = (s.hub.disconnect r₀.name reason).1.clients)
    (hconns : s'.conns = s.conns) : RevokeInv s' := by
  have hbetween : ∀ sid c, s.conns.get? sid = some c → ¬ c.Between r₀.name r₀.old := by
    simpa only [NobodyBetween, hr₀, Dict.All] using hok
  have hlater : ∀ rid r, s'.revocations.get? rid = some r →
      s.revocations.get? rid = some r ∨ r.name = r₀.name ∧ r.old = r₀.old := by
    intro rid r hr
    rw [hrev, Dict.get?_put] at hr
    split at hr
    · obtain rfl := Option.some.inj hr
      exact .inr ⟨rfl, rfl⟩
    · exact .inl hr
  constructor
  · intro rid r hr hstands
    rw [hrev, Dict.get?_put] at hr
    rw [htrust]
    split at hr
    · obtain rfl := Option.some.inj hr
      exact h.untrusted rid₀ r₀ hr₀ ⟨hstands.1, by rw [hpc]; nofun⟩
    · exact h.untrusted rid r hr hstands
  · intro rid r sid c hr hstands hreturned hc hcert
    rw [hconns] at hc
    rcases hlater rid r hr with hold | ⟨hname, hfp⟩
    · exact h.nobody rid r sid c hold hstands hreturned hc hcert
    · intro hn
      exact hbetween sid c hc ⟨hfp ▸ hcert, hname ▸ hn⟩
  · intro rid r sid c hr hstands hreturned hc hcert hstage
    rw [hconns] at hc
    rcases hlater rid r hr with hold | ⟨hname, hfp⟩
    · exact closeQueued_send hclients
        (h.closed rid r sid c hold hstands hreturned hc hcert hstage)
    · -- whoever is registered has just been sent its close
      obtain ⟨e, he⟩ := (Hub.contains_iff _ _).mp
        (hwf.registered sid c r.name hc (by rw [hstage]; rfl))
      refine ⟨{ e with outbox := e.outbox ++ [.close reason] }, reason, ?_,
        List.mem_append_right _ List.mem_cons_self⟩
      rw [hclients, Hub.disconnect, Hub.send_get?, if_pos hname, ← hname, he]
      rfl

/-- A certificate is approved again: no revocation of it stands. -/
theorem RevokeInv.reapproved {name : String} {fp : Fingerprint} (h : RevokeInv s)
    (htrust : s'.trust.trusted = s.trust.trusted.put name fp)
    (hrev : s'.revocations = (s.markReapproved name fp).revocations)
    (hclients : s'.hub.clients = s.hub.clients) (hconns : s'.conns = s.conns) : RevokeInv s' := by
  have hmark : ∀ rid r, s'.revocations.get? rid = some r → r.Stands →
      ¬ (r.name = name ∧ r.old = fp) ∧ s.revocations.get? rid = some r := by
    intro rid r hr hstands
    simp only [hrev, RevokeRun.markReapproved, Dict.get?_mapVals] at hr
    obtain ⟨r₀, hr₀, hr₁⟩ := Option.map_eq_some_iff.mp hr
    split at hr₁
    · subst hr₁
      cases hstands.1
    · next hne => exact ⟨hr₁ ▸ hne, hr₁ ▸ hr₀⟩
  refine h.revise hconns hclients ?_ fun rid r hr hstands _ => (hmark rid r hr hstands).2
  intro rid r hr hstands
  obtain ⟨hne, hr'⟩ := hmark rid r hr hstands
  rw [htrust, Dict.get?_put]
  split
  · next hname =>
    intro hfp
    exact hne ⟨hname, (Option.some.inj hfp).symm⟩
  · exact h.untrusted rid r hr' hstands

/-- An approval that could not be saved puts back what no standing revocation took away. -/
theorem RevokeInv.unsavedApproved {aid : Nat} {a : Approval} {previous : Option Fingerprint}
    (h : RevokeInv s) (hok : NobodyBetween s (.saveApproved aid false))
    (ha : s.approvals.get? aid = some a) (hpc : a.pc = .toSave previous)
    (htrust : s'.trust = s.trust.restore a.name previous) (hrev : s'.revocations = s.revocations)
    (hclients : s'.hub.clients = s.hub.clients) (hconns : s'.conns = s.conns) : RevokeInv s' := by
  have hspared : ∀ p, previous = some p → s.Spared none a.name p := by
    rintro p rfl
    obtain ⟨name, fp, listed, pc⟩ := a
    dsimp only at hpc
    subst hpc
    simpa only [NobodyBetween, ha] using hok
  refine h.revise hconns hclients ?_ fun rid r hr _ _ => hrev ▸ hr
  intro rid r hr hstands
  rw [hrev] at hr
  rw [htrust]
  exact untrusted_restore h hspared hr hstands nofun

end

/-- **A step with nobody between the check and the registration keeps the invariant.** -/
theorem revokeInv_step {s s' : RevokeRun} {l : RevokeLabel} (hwf : HolderWf s) (h : RevokeInv s)
    (hok : NobodyBetween s l) (hs : RevokeStep s l s') : RevokeInv s' := by
  have hqueued : s'.hub.clients = s.hub.clients → ∀ n, s.CloseQueued n → s'.CloseQueued n := by
    intro hclients n hn
    unfold RevokeRun.CloseQueued
    rw [hclients]
    exact hn
  have hstay : s'.conns = s.conns → ∀ sid c' n, s'.conns.get? sid = some c' →
      c'.stage.passed? = some n →
      (∃ c, s.conns.get? sid = some c ∧ c.cert = c'.cert ∧ c.stage.passed? = some n)
        ∨ ∃ fp, c'.cert = some fp ∧ s.trust.trusted.get? n = some fp := by
    intro hconns sid c' n hc' hn
    rw [hconns] at hc'
    exact .inl ⟨c', hc', rfl, hn⟩
  have hsessions : s'.conns = s.conns → (∀ n, s.CloseQueued n → s'.CloseQueued n) →
      ∀ sid c' n, s'.conns.get? sid = some c' → c'.stage = .session n →
      ∃ c, s.conns.get? sid = some c ∧ c.cert = c'.cert
        ∧ (c.stage = .session n ∧ (s.CloseQueued n → s'.CloseQueued n)
          ∨ c.stage.passed? = some n) := by
    intro hconns hq sid c' n hc' hn
    rw [hconns] at hc'
    exact ⟨c', hc', rfl, .inl ⟨hn, hq n⟩⟩
  cases hs with
  | idle htrust hrev hclients hconns =>
    exact h.frame htrust hrev (hstay hconns) (hsessions hconns (hqueued hclients))
  | @accept l s' c hstage htrust hrev hclients hconns =>
    refine h.frame_conn htrust hrev hconns (fun n hn => ?_) (fun n hn => ?_)
      fun _ _ n _ _ _ => hqueued hclients n
    · rw [hstage] at hn
      cases hn
    · rw [hstage] at hn
      cases hn
  | @move l s' sid c stage hc hpassed hholds hsession htrust hrev hclients hconns =>
    exact h.frame_conn htrust hrev hconns
      (fun n hn => (hpassed n hn).imp (fun hn' => ⟨c, hc, rfl, hn'⟩) id)
      (fun n hn => ⟨c, hc, rfl, .inl ⟨hsession n hn, hqueued hclients n⟩⟩)
      fun _ _ n _ _ _ => hqueued hclients n
  | @register l s' sid c screen version monitors hc hstage hfree htrust hrev hclients hconns =>
    refine h.frame_conn htrust hrev hconns nofun (fun n hn => ?_) fun k c' n hk hc' hn hq => ?_
    · -- it passed the check under this name
      obtain rfl := HandshakeStage.session.inj hn
      exact ⟨c, hc, rfl, .inr (by rw [hstage]; rfl)⟩
    · refine closeQueued_same ?_ hq
      rw [hclients, Dict.get?_put, if_neg]
      rintro rfl
      obtain ⟨e, _, he, _⟩ := hq
      rw [hfree] at he
      cases he
  | @push l s' name msg rest monitors he hkeep htrust hrev hclients hconns =>
    refine h.frame htrust hrev (hstay hconns) (hsessions hconns ?_)
    rintro n ⟨e, reason, he', hmem⟩
    by_cases hn : n = name
    · rw [hn, he, Option.some.injEq] at he'
      subst he'
      refine ⟨⟨rest, monitors⟩, reason, by rw [hclients, Dict.get?_put, if_pos hn], ?_⟩
      exact (List.mem_cons.mp hmem).resolve_left fun heq => hkeep reason heq.symm
    · exact ⟨e, reason, by rw [hclients, Dict.get?_put, if_neg hn]; exact he', hmem⟩
  | @pushClose l s' sid c name msg rest monitors hc hstage he htrust hrev hclients hconns =>
    refine h.frame_conn htrust hrev hconns nofun nofun fun k c' n hk hc' hn => closeQueued_same ?_
    rw [hclients, Dict.get?_put, if_neg]
    -- another session holds another name
    rintro rfl
    exact hk (hwf.unique k sid c' c n hc' hc (by rw [hn]; rfl) (by rw [hstage]; rfl))
  | @unregister l s' sid c name hc hstage htrust hrev hclients hconns =>
    refine h.frame_conn htrust hrev hconns nofun nofun fun k c' n hk hc' hn => closeQueued_same ?_
    rw [hclients, Dict.get?_drop, if_neg]
    rintro rfl
    exact hk (hwf.unique k sid c' c n hc' hc (by rw [hn]; rfl) (by rw [hstage]; rfl))
  | revoke htrust hrev hclients hconns => exact RevokeInv.revoke h htrust hrev hclients hconns
  | savedRevoked hr₀ hpc htrust hrev hclients hconns =>
    exact RevokeInv.savedRevoked h hr₀ hpc htrust hrev hclients hconns
  | unsavedRevoked hr₀ htrust hrev hclients hconns =>
    exact RevokeInv.unsavedRevoked h hok hr₀ htrust hrev hclients hconns
  | close hr₀ hpc htrust hrev hclients hconns =>
    exact RevokeInv.close hwf h hok hr₀ hpc htrust hrev hclients hconns
  | reapproved htrust hrev hclients hconns =>
    exact RevokeInv.reapproved h htrust hrev hclients hconns
  | unsavedApproved ha hpc htrust hrev hclients hconns =>
    exact RevokeInv.unsavedApproved h hok ha hpc htrust hrev hclients hconns
  | traffic htrust hrev hclients hconns =>
    exact h.frame htrust hrev (hstay hconns)
      (hsessions hconns fun n hn => closeQueued_send hclients hn)

/-- So it holds in every state such a run reaches. -/
theorem revokeInv_reach {s : RevokeRun} (hs : revokeRuns.Reach NobodyBetween s) :
    RevokeInv s := by
  refine Lts.Reach.invariant (P := RevokeInv) ?_ ?_ hs
  · rintro s ⟨-, -, hrev, -⟩
    constructor <;> intros <;> simp_all
  · intro _ _ _ hreach ih hok hl
    exact revokeInv_step (holderWf_reach hreach) ih hok (revokeStep_of_step hl)

/-- **Revocation is effective**, in every run in which `revoke` comes to close a name only while
no connection with the certificate stands between its check and its registration. -/
theorem revocation_effective {s : RevokeRun} (hs : revokeRuns.Reach NobodyBetween s) :
    s.Effective := by
  intro rid r hr hreturned hagain ⟨hfinished, hsent⟩ sid c hc hcert hholds
  have hstands : r.Stands := ⟨hagain, by rw [hreturned]; nofun⟩
  have hsettled := hfinished sid c hc hcert
  cases hstage : c.stage with
  | session n =>
    rw [hstage] at hholds
    obtain rfl := Option.some.inj hholds
    obtain ⟨e, reason, he, hmem⟩ :=
      (revokeInv_reach hs).closed rid r sid c hr hstands hreturned hc hcert hstage
    exact hsent e reason he hmem
  | closing n => rw [hstage] at hsettled; exact hsettled
  | _ => rw [hstage] at hholds; cases hholds

/-- A server that lists "a" and trusts one certificate for it. -/
def trustingRun : RevokeRun where
  layout := { screens := ["server", "a"] }
  desk := { screens := ["server", "a"] }
  trust := { trusted := (∅ : Dict String Fingerprint).put "a" ⟨7⟩ }

/-- The `Hello` of "a". -/
def helloOfA : ClientMsg := .hello ⟨4, 0⟩ ⟨"a", ⟨0, 0, 1920, 1080⟩, [], ⟨0, 0⟩⟩

/-- "a" is connected when its certificate is revoked: its session is closed. It knocks again, and
is turned away. -/
theorem revocation_effective_running :
    ∃ s, revokeRuns.Reach NobodyBetween s
      ∧ (s.revocations.get? 0).map (·.pc) = some (.returned true)
      ∧ (s.conns.get? 1).map (·.stage) = some (.refused (.untrusted "a")) ∧ s.Effective := by
  let labels : List RevokeLabel :=
    [.accept (some ⟨7⟩) "", .hello 0 helloOfA, .authorize 0, .nameTaken 0, .sent 0, .sent 0,
      .register 0, .revoke "a", .saveRevoked 0 true, .close 0, .push 0, .unregister 0,
      .accept (some ⟨7⟩) "", .hello 1 helloOfA, .authorize 1, .note 1 fun _ => false]
  have hend : (revokeRuns.exec NobodyBetween trustingRun labels).map (fun s =>
      ((s.revocations.get? 0).map (·.pc), (s.conns.get? 1).map (·.stage)))
      = some (some (.returned true), some (.refused (.untrusted "a"))) := by decide
  obtain ⟨s, hs, hstate⟩ := Option.map_eq_some_iff.mp hend
  obtain ⟨hpc, hstage⟩ := Prod.mk.inj hstate
  have hreach : revokeRuns.Reach NobodyBetween s := Lts.reach_of_exec ⟨rfl, rfl, rfl, rfl⟩ hs
  exact ⟨s, hreach, hpc, hstage, revocation_effective hreach⟩

/-- "a" has passed the check and waits for its `Welcome` to be sent when its certificate is
revoked. Nobody is registered to be closed; then "a" registers, and stays. -/
theorem gap_survives_revocation : ¬ ∀ s, revokeRuns.Reachable s → s.Effective := by
  -- "a" is revoked between the check of its certificate and its registration
  let labels : List RevokeLabel :=
    [.accept (some ⟨7⟩) "", .hello 0 helloOfA, .authorize 0, .nameTaken 0,
      .revoke "a", .saveRevoked 0 true, .close 0, .sent 0, .sent 0, .register 0]
  intro hall
  have hend : (revokeRuns.run trustingRun labels).map (fun s =>
      decide (s.revocations.get? 0 = some ⟨"a", ⟨7⟩, .returned true, false⟩
        ∧ (s.conns.get? 0).map (fun c => (c.cert, c.stage)) = some (some ⟨7⟩, .session "a")
        ∧ s.conns.entries.length = 1 ∧ (s.hub.clients.get? "a").map (·.outbox) = some []))
      = some true := by decide
  obtain ⟨s, hs, hstate⟩ := Option.map_eq_some_iff.mp hend
  simp only [decide_eq_true_eq, Option.map_eq_some_iff, Prod.mk.injEq] at hstate
  obtain ⟨hrev, ⟨c, hc, hcert, hstage⟩, hone, e, he, hempty⟩ := hstate
  refine hall s (Lts.reachable_of_run ⟨rfl, rfl, rfl, rfl⟩ hs) 0 _ hrev rfl rfl ⟨?_, ?_⟩ 0 c hc
    hcert (by rw [hstage]; rfl)
  · -- the one connection there is has finished its handshake
    intro sid c' hc' _
    obtain ⟨entry, hentry⟩ := List.length_eq_one_iff.mp hone
    have hmem := (Dict.mem_entries_iff _ _ _).mpr hc
    have hmem' := (Dict.mem_entries_iff _ _ _).mpr hc'
    rw [hentry, List.mem_singleton] at hmem hmem'
    rw [← hmem] at hmem'
    cases hmem'
    rw [hstage]; trivial
  -- no close is queued for it either
  · intro e' reason he' hmem
    dsimp only at he'
    rw [he, Option.some.injEq] at he'
    rw [← he', hempty] at hmem
    cases hmem

end GeserDesk
