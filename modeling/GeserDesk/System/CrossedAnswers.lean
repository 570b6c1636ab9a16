import GeserDesk.System.FileSessions

/-!
# Whose answer resolves a read

The server addresses an answer by screen name and `req`; the client numbers its reads from 1 on
every connection. Between the two nothing says which connection of the name asked.

* **`answers_not_crossed`**: an answer that resolves a read was produced for the `FileRead` that
  very connection sent for it, in any run in which a name connects again only when nothing asked
  under it is still owed (`Settled`).
* **`reconnect_crosses_answers`**: otherwise the answer to a read of the connection before may
  resolve a read of the one after, of other bytes.

The invariant (`CrossInv`) follows an answer from the request to the client that waits: what is
owed to a connected name was asked by the connection that holds it, and so was what is queued
for it and on its way to it.
-/

namespace GeserDesk

namespace FileSessions

/-- The result is the router's answer to a read that connection `sid`, of `name`, asked for. -/
def AnswerTo (s : FileSessions) (sid : Nat) (name : String) (tag : Option Nat) (req : Nat)
    (result : FileReadResult) : Prop :=
  ∃ rid, tag = some rid ∧ s.asker.get? rid = some sid
    ∧ ⟨rid, .toClient name req, result⟩ ∈ s.files.answers

/-- Every read that was resolved got the answer to the `FileRead` its own connection sent for
it: for that sequence number, index and offset, and from whom that request was routed to. -/
def NotCrossed (s : FileSessions) : Prop :=
  ∀ x ∈ s.resolved, ∃ c rid, s.conns.get? x.sid = some c ∧ x.answers = some rid
    ∧ s.asker.get? rid = some x.sid ∧ s.files.origin rid = some (.toClient c.name x.req, x.args)
    ∧ (x.result = .err .notFound ∨ s.files.Sourced rid x.args x.result)

end FileSessions

/-- The request was not made by a client under `name`, or was answered. -/
def FileReq.SettledFor (name : String) (r : FileReq) : Prop :=
  match r.waiting, r.pc with
  | .toLocal _, _ => True
  | .toClient _ _, .answered _ => True
  | .toClient n _, _ => n ≠ name

instance (name : String) : DecidablePred (FileReq.SettledFor name) := fun r => by
  unfold FileReq.SettledFor
  split <;> infer_instance

/-- A name connects again only when every request made under it was answered. -/
def Settled (s : FileSessions) : SessionLabel → Prop
  | .connect name _ => s.files.requests.All (FileReq.SettledFor name)
  | _ => True

instance (s : FileSessions) (l : SessionLabel) : Decidable (Settled s l) := by
  unfold Settled
  split <;> infer_instance

/-- A client that connects as `Settled` has it is owed nothing under its name. -/
theorem not_owed_of_settled {s : FileSessions} {name : String} {monitors : List Rect}
    (h : Settled s (.connect name monitors)) (rid req : Nat) :
    ¬ s.files.Owed rid (.toClient name req) := by
  rintro ⟨⟨waiting, args, pc⟩, hr, rfl, hopen⟩
  have hsettled := h rid _ hr
  unfold FileReq.SettledFor at hsettled
  cases pc with
  | answered result => exact hopen result rfl
  | _ => exact hsettled rfl

/-! ## What a step of the file router adds

A step adds answers, or moves requests on; it never changes whom a request is for. -/

namespace FileRun

/-- A reply taken off the table is no answer yet. -/
theorem resolve_answers (s : FileRun) (req : Nat) (verdict : String → FileReadResult) :
    (s.resolve req verdict).1.answers = s.answers := by
  unfold resolve FileRouter.take
  cases s.router.pending.get? req <;> rfl

/-- A delivery takes no answer off the record. -/
theorem deliver_answers {s s' : FileRun} {rid : Nat} (h : s.deliver rid = some s') :
    s.answers ⊆ s'.answers := by
  unfold deliver at h
  split at h
  case h_2 => cases h
  rw [Option.some.injEq] at h
  subst h
  exact List.subset_append_left _ _

/-- Taking a request back takes no answer off the record. -/
theorem refuse_answers (s : FileRun) (req : Nat) : s.answers ⊆ (s.refuse req).answers := by
  unfold refuse
  have hres := s.resolve_answers req fun _ => .err .notFound
  generalize s.resolve req (fun _ => .err .notFound) = out at *
  obtain ⟨s₁, found⟩ := out
  dsimp only at hres
  rw [← hres]
  cases found with
  | none => exact List.Subset.refl _
  | some rid =>
    dsimp only
    cases hd : s₁.deliver rid with
    | none => exact List.Subset.refl _
    | some s₂ => exact deliver_answers hd

/-- How the file router moves on, as far as connections see it. -/
structure MovesTo (s s' : FileRun) : Prop where
  origin : ∀ rid o, s.origin rid = some o → s'.origin rid = some o
  answers : s.answers ⊆ s'.answers
  queued : ∀ name e' m req result, s'.hub.clients.get? name = some e' → m ∈ e'.outbox →
    m.msg.fileReply? = some (req, result) →
    (∃ e, s.hub.clients.get? name = some e ∧ m ∈ e.outbox)
      ∨ ∃ rid, m.answers = some rid ∧ s.Owed rid (.toClient name req)

/-- Nothing moves without a step. -/
theorem MovesTo.refl (s : FileRun) : s.MovesTo s :=
  ⟨fun _ _ h => h, List.Subset.refl _, fun _ e _ _ _ he hm _ => .inl ⟨e, he, hm⟩⟩

end FileRun

/-- No answer is unsaid. -/
theorem FileStep.answers {s s' : FileRun} {l : FileLabel} (h : FileStep s l s') :
    s.answers ⊆ s'.answers := by
  cases h with
  | deliver hd => exact FileRun.deliver_answers hd
  | @retract rid req hsend => exact s.refuse_answers req
  | @answerStale cid req reqs hc => exact s.refuse_answers req
  | @replyNone from_ req result hp =>
    rw [s.resolve_answers req fun sentTo => FileRouter.reply sentTo from_ result]
    exact List.Subset.refl _
  | @replySome from_ req result p hp =>
    show s.answers ⊆ (s.resolve req fun sentTo => FileRouter.reply sentTo from_ result).1.answers
    rw [s.resolve_answers req fun sentTo => FileRouter.reply sentTo from_ result]
    exact List.Subset.refl _
  | ask => exact List.Subset.refl _
  | ownerNone hr => exact List.Subset.refl _
  | ownerServer hr => exact List.Subset.refl _
  | ownerClient hr howner => exact List.Subset.refl _
  | insert hr => exact List.Subset.refl _
  | sent hsend => exact List.Subset.refl _
  | unsent hsend => exact List.Subset.refl _
  | serve hr => exact List.Subset.refl _
  | announce => exact List.Subset.refl _
  | setLocal => exact List.Subset.refl _
  | dropOwner => exact List.Subset.refl _
  | collect hc => exact List.Subset.refl _
  | register hfree => exact List.Subset.refl _
  | unregister => exact List.Subset.refl _
  | consume he => exact List.Subset.refl _
  | traffic hreply hread => exact List.Subset.refl _

/-- Every step moves each request as the system of `FileRuns` has it. -/
theorem FileStep.movesTo {s s' : FileRun} {l : FileLabel} (hinv : FileInv s)
    (h : FileStep s l s') : s.MovesTo s' :=
  ⟨(h.origin hinv.fresh).1, h.answers, fun _ _ _ _ _ => h.queued hinv⟩

/-! ## The invariant

What a connection is owed, by the number of its request, is an answer to its own question. -/

/-- A connection later on: more reads asked for, and fewer of the old ones waiting. -/
structure Connection.Before (c c' : Connection) : Prop where
  name : c'.name = c.name
  nextReq : c.channel.nextReq ≤ c'.channel.nextReq
  pending : ∀ req args, req < c.channel.nextReq → c'.channel.pending.get? req = some args →
    c.channel.pending.get? req = some args
  live : c'.stage ≠ .gone → c.stage ≠ .gone

/-- A connection that does nothing is as it was. -/
theorem Connection.Before.refl (c : Connection) : c.Before c :=
  ⟨rfl, Nat.le_refl _, fun _ _ _ h => h, id⟩

/-- What a connection holds: numbers it gave out, and answers to its own reads. -/
structure Connection.Sound (s : FileSessions) (sid : Nat) (c : Connection) : Prop where
  numbered : ∀ req args, c.channel.pending.get? req = some args → req < c.channel.nextReq
  /-- A read on its way to the server is the one that waits under its number, if one does. -/
  sent : ∀ msg ∈ c.uplink, ∀ req args, msg.fileRead? = some (req, args) →
    req < c.channel.nextReq ∧ ∀ args', c.channel.pending.get? req = some args' → args' = args
  down : ∀ m ∈ c.downlink, ∀ req result, m.msg.fileReply? = some (req, result) →
    s.AnswerTo sid c.name m.answers req result

/-- Request `rid` is a read connection `sid` asked for. -/
def FileSessions.AskedBy (s : FileSessions) (rid sid : Nat) : Prop :=
  ∃ c req args, s.conns.get? sid = some c ∧ s.files.origin rid = some (.toClient c.name req, args)
    ∧ req < c.channel.nextReq
    ∧ ∀ args', c.channel.pending.get? req = some args' → args' = args

def FileSessions.ResolvedBy (s : FileSessions) (x : Resolved) : Prop :=
  ∃ c rid, s.conns.get? x.sid = some c ∧ x.answers = some rid ∧ s.asker.get? rid = some x.sid
    ∧ s.files.origin rid = some (.toClient c.name x.req, x.args)
    ∧ ⟨rid, .toClient c.name x.req, x.result⟩ ∈ s.files.answers

structure CrossInv (s : FileSessions) : Prop where
  sound : ∀ sid c, s.conns.get? sid = some c → c.Sound s sid
  asked : ∀ rid sid, s.asker.get? rid = some sid → s.AskedBy rid sid
  /-- What is owed to a name was asked by the connection that holds the name. -/
  current : ∀ rid req sid c, s.conns.get? sid = some c → c.stage ≠ .gone →
    s.files.Owed rid (.toClient c.name req) → s.asker.get? rid = some sid
  /-- And what is queued for it answers what that connection asked. -/
  queued : ∀ sid c e m req result, s.conns.get? sid = some c → c.stage ≠ .gone →
    s.files.hub.clients.get? c.name = some e → m ∈ e.outbox →
    m.msg.fileReply? = some (req, result) →
    ∃ rid, m.answers = some rid ∧ s.asker.get? rid = some sid
  resolved : ∀ x ∈ s.resolved, s.ResolvedBy x

/-- At the start nobody has connected. -/
theorem crossInv_start : CrossInv {} := by
  constructor <;> simp

/-- Where an answer came from stays on record. -/
theorem FileSessions.AnswerTo.mono {s s' : FileSessions} {sid req : Nat} {name : String}
    {tag : Option Nat} {result : FileReadResult} (h : s.AnswerTo sid name tag req result)
    (hasker : ∀ rid sid, s.asker.get? rid = some sid → s'.asker.get? rid = some sid)
    (hanswers : s.files.answers ⊆ s'.files.answers) : s'.AnswerTo sid name tag req result := by
  obtain ⟨rid, htag, hsid, hmem⟩ := h
  exact ⟨rid, htag, hasker rid sid hsid, hanswers hmem⟩

/-- What a connection has received stays accounted for. -/
theorem Connection.Sound.mono {s s' : FileSessions} {sid : Nat} {c : Connection}
    (h : c.Sound s sid)
    (hasker : ∀ rid sid, s.asker.get? rid = some sid → s'.asker.get? rid = some sid)
    (hanswers : s.files.answers ⊆ s'.files.answers) : c.Sound s' sid :=
  ⟨h.numbered, h.sent, fun m hm req result hmsg => (h.down m hm req result hmsg).mono hasker hanswers⟩

/-- What every step does, given what becomes of the connections and of what is owed. -/
theorem CrossInv.move {s s' : FileSessions} (h : CrossInv s)
    (hfiles : s.files.MovesTo s'.files)
    (hasker : ∀ rid sid, s.asker.get? rid = some sid → s'.asker.get? rid = some sid)
    (hfrom : ∀ sid c', s'.conns.get? sid = some c' →
      (∃ c, s.conns.get? sid = some c ∧ c.Before c') ∧ c'.Sound s' sid)
    (hto : ∀ sid c, s.conns.get? sid = some c → ∃ c', s'.conns.get? sid = some c' ∧ c.Before c')
    (hasked : ∀ rid sid, s'.asker.get? rid = some sid →
      s.asker.get? rid = some sid ∨ s'.AskedBy rid sid)
    (howed : ∀ rid req sid c, s'.conns.get? sid = some c → c.stage ≠ .gone →
      s'.files.Owed rid (.toClient c.name req) →
      s.files.Owed rid (.toClient c.name req) ∨ s'.asker.get? rid = some sid)
    (hresolved : ∀ x ∈ s'.resolved, x ∈ s.resolved ∨ s'.ResolvedBy x) : CrossInv s' := by
  constructor
  · exact fun sid c' hc' => (hfrom sid c' hc').2
  · intro rid sid hsid
    rcases hasked rid sid hsid with hold | hnew
    · obtain ⟨c, req, args, hc, horigin, hlt, hsame⟩ := h.asked rid sid hold
      obtain ⟨c', hc', hbefore⟩ := hto sid c hc
      refine ⟨c', req, args, hc', ?_, Nat.lt_of_lt_of_le hlt hbefore.nextReq, ?_⟩
      · rw [hbefore.name]
        exact hfiles.origin rid _ horigin
      · exact fun args' hp => hsame args' (hbefore.pending req args' hlt hp)
    · exact hnew
  · intro rid req sid c' hc' hlive hopen
    rcases howed rid req sid c' hc' hlive hopen with hold | hnew
    · obtain ⟨⟨c, hc, hbefore⟩, -⟩ := hfrom sid c' hc'
      rw [hbefore.name] at hold
      exact hasker rid sid (h.current rid req sid c hc (hbefore.live hlive) hold)
    · exact hnew
  · intro sid c' e' m req result hc' hlive he' hm hmsg
    obtain ⟨⟨c, hc, hbefore⟩, -⟩ := hfrom sid c' hc'
    rw [hbefore.name] at he'
    rcases hfiles.queued c.name e' m req result he' hm hmsg with ⟨e, he, hm'⟩ | ⟨rid, htag, hold⟩
    · obtain ⟨rid, htag, hsid⟩ :=
        h.queued sid c e m req result hc (hbefore.live hlive) he hm' hmsg
      exact ⟨rid, htag, hasker rid sid hsid⟩
    · -- the answer just queued was owed to the connection that holds the name
      exact ⟨rid, htag, hasker rid sid (h.current rid req sid c hc (hbefore.live hlive) hold)⟩
  · intro x hx
    rcases hresolved x hx with hold | hnew
    · obtain ⟨c, rid, hc, htag, hsid, horigin, hmem⟩ := h.resolved x hold
      obtain ⟨c', hc', hbefore⟩ := hto x.sid c hc
      refine ⟨c', rid, hc', htag, hasker rid x.sid hsid, ?_, ?_⟩ <;> rw [hbefore.name]
      · exact hfiles.origin rid _ horigin
      · exact hfiles.answers hmem
    · exact hnew

/-- A step of the file router that connections do not see. -/
theorem CrossInv.files {s s' : FileSessions} (h : CrossInv s)
    (hfiles : s.files.MovesTo s'.files) (hconns : s'.conns = s.conns) (hasker : s'.asker = s.asker)
    (hresolved : s'.resolved = s.resolved)
    (howed : ∀ rid name req, s'.files.Owed rid (.toClient name req) →
      s.files.Owed rid (.toClient name req)) : CrossInv s' := by
  have hkeep : ∀ rid sid, s.asker.get? rid = some sid → s'.asker.get? rid = some sid := by
    intro rid sid hsid
    rw [hasker]; exact hsid
  refine h.move hfiles hkeep ?_ ?_ ?_ ?_ ?_
  · intro sid c hc
    rw [hconns] at hc
    exact ⟨⟨c, hc, .refl c⟩, (h.sound sid c hc).mono hkeep hfiles.answers⟩
  · intro sid c hc
    exact ⟨c, by rw [hconns]; exact hc, .refl c⟩
  · intro rid sid hsid
    rw [hasker] at hsid
    exact .inl hsid
  · exact fun rid req sid c _ _ hopen => .inl (howed rid c.name req hopen)
  · intro x hx
    rw [hresolved] at hx
    exact .inl hx

/-- A step of one connection, which may move the file router on. -/
theorem CrossInv.setConn {s s' : FileSessions} (h : CrossInv s) {sid : Nat} {c c' : Connection}
    (hc : s.conns.get? sid = some c) (hconns : s'.conns = s.conns.put sid c')
    (hfiles : s.files.MovesTo s'.files)
    (hasker : ∀ rid sid, s.asker.get? rid = some sid → s'.asker.get? rid = some sid)
    (hbefore : c.Before c') (hsound : c'.Sound s' sid)
    (hasked : ∀ rid sid, s'.asker.get? rid = some sid →
      s.asker.get? rid = some sid ∨ s'.AskedBy rid sid)
    (howed : ∀ rid req sid c, s'.conns.get? sid = some c → c.stage ≠ .gone →
      s'.files.Owed rid (.toClient c.name req) →
      s.files.Owed rid (.toClient c.name req) ∨ s'.asker.get? rid = some sid)
    (hresolved : ∀ x ∈ s'.resolved, x ∈ s.resolved ∨ s'.ResolvedBy x) : CrossInv s' := by
  refine h.move hfiles hasker ?_ ?_ hasked howed hresolved
  · intro sid' c₁ hc₁
    rw [hconns, Dict.get?_put] at hc₁
    split at hc₁
    · next he =>
      obtain rfl := Option.some.inj hc₁
      rw [he]
      exact ⟨⟨c, hc, hbefore⟩, hsound⟩
    · exact ⟨⟨c₁, hc₁, .refl c₁⟩, (h.sound sid' c₁ hc₁).mono hasker hfiles.answers⟩
  · intro sid' c₁ hc₁
    rw [hconns]
    by_cases he : sid' = sid
    · rw [he, hc, Option.some.injEq] at hc₁
      subst hc₁
      exact ⟨c', by rw [Dict.get?_put, if_pos he], hbefore⟩
    · exact ⟨c₁, by rw [Dict.get?_put, if_neg he]; exact hc₁, .refl c₁⟩

/-- A step of one connection in which nothing is asked for and nothing is resolved. -/
theorem CrossInv.quiet {s s' : FileSessions} (h : CrossInv s) {sid : Nat} {c c' : Connection}
    (hc : s.conns.get? sid = some c) (hconns : s'.conns = s.conns.put sid c')
    (hfiles : s.files.MovesTo s'.files) (hasker : s'.asker = s.asker)
    (hresolved : s'.resolved = s.resolved)
    (howed : ∀ rid name req, s'.files.Owed rid (.toClient name req) →
      s.files.Owed rid (.toClient name req))
    (hbefore : c.Before c') (hsound : c'.Sound s' sid) : CrossInv s' := by
  refine h.setConn hc hconns hfiles ?_ hbefore hsound ?_ ?_ ?_
  · intro rid sid hsid
    rw [hasker]; exact hsid
  · intro rid sid hsid
    rw [hasker] at hsid
    exact .inl hsid
  · exact fun rid req sid c _ _ hopen => .inl (howed rid c.name req hopen)
  · intro x hx
    rw [hresolved] at hx
    exact .inl hx

/-! ## One step

Connecting, asking, answering and hearing, each with what it does to the invariant. -/

/-- A new connection: nothing is owed to its name, and its outbox is empty. -/
theorem CrossInv.connect {s : FileSessions} (h : CrossInv s) (hwf : SessionWf s)
    (hinv : FileInv s.files) {name : String} {monitors : List Rect} {files : FileRun}
    (hok : Settled s (.connect name monitors))
    (hf : s.files.step (.register name monitors) = some files) :
    CrossInv { s with
      files := files
      conns := s.conns.put s.nextSid { name := name }
      nextSid := s.nextSid + 1 } := by
  have hstep := fileStep_of_step hf
  have hmoves := hstep.movesTo hinv
  have howed : ∀ {rid w}, files.Owed rid w → s.files.Owed rid w := fun ho => by
    rcases hstep.owed hinv ho with hold | ⟨⟨args, hl⟩, -⟩
    · exact hold
    · cases hl
  -- this is where the condition on connecting is used
  have hnobody := not_owed_of_settled hok
  have hget : ∀ sid c, s.conns.get? sid = some c →
      (s.conns.put s.nextSid { name := name }).get? sid = some c := by
    intro sid c hc
    rw [Dict.get?_put, if_neg (Nat.ne_of_lt (hwf.fresh sid c hc))]
    exact hc
  constructor
  · intro sid c hc
    rw [Dict.get?_put] at hc
    split at hc
    · obtain rfl := Option.some.inj hc
      exact ⟨nofun, nofun, nofun⟩
    · exact (h.sound sid c hc).mono (fun _ _ hsid => hsid) hmoves.answers
  · intro rid sid hsid
    obtain ⟨c, req, args, hc, horigin, hlt, hsame⟩ := h.asked rid sid hsid
    exact ⟨c, req, args, hget sid c hc, hmoves.origin rid _ horigin, hlt, hsame⟩
  · intro rid req sid c hc hlive hopen
    rw [Dict.get?_put] at hc
    split at hc
    · obtain rfl := Option.some.inj hc
      exact absurd (howed hopen) (hnobody rid req)
    · exact h.current rid req sid c hc hlive (howed hopen)
  · intro sid c e m req result hc hlive he hm hmsg
    rw [Dict.get?_put] at hc
    cases hstep with
    | register hfree =>
    dsimp only at he
    rw [Dict.get?_put] at he
    split at hc
    · obtain rfl := Option.some.inj hc
      rw [if_pos rfl, Option.some.injEq] at he
      rw [← he] at hm
      cases hm
    · split at he
      · rw [Option.some.injEq] at he
        rw [← he] at hm
        cases hm
      · exact h.queued sid c e m req result hc hlive he hm hmsg
  · intro x hx
    obtain ⟨c, rid, hc, htag, hsid, horigin, hmem⟩ := h.resolved x hx
    exact ⟨c, rid, hget x.sid c hc, htag, hsid, hmoves.origin rid _ horigin, hmoves.answers hmem⟩

/-- A read reaches the server: what is asked is what waits under that number. -/
theorem CrossInv.receive {s : FileSessions} (h : CrossInv s) (hwf : SessionWf s)
    (hinv : FileInv s.files) {sid req : Nat} {c : Connection} {msg : ClientMsg}
    {uplink : List ClientMsg} {args : ReadArgs} {files : FileRun}
    (hc : s.conns.get? sid = some c) (hstage : c.stage = .serving) (hup : c.uplink = msg :: uplink)
    (hmsg : msg.fileRead? = some (req, args))
    (hf : s.files.step (.ask (.toClient c.name req) args) = some files) :
    CrossInv { s.setConn sid { c with uplink := uplink } with
      files := files
      asker := s.asker.put s.files.nextRid sid } := by
  have hstep := fileStep_of_step hf
  have hmoves := hstep.movesTo hinv
  have hsound := h.sound sid c hc
  -- the new request's identity is nobody's yet
  have hfresh : ∀ rid sid', s.asker.get? rid = some sid' → rid ≠ s.files.nextRid := by
    intro rid sid' hsid
    obtain ⟨_, _, _, -, horigin, -⟩ := h.asked rid sid' hsid
    obtain ⟨r, hr, -⟩ := Option.map_eq_some_iff.mp horigin
    exact Nat.ne_of_lt (hinv.fresh rid r hr)
  have hasker : ∀ rid sid', s.asker.get? rid = some sid' →
      (s.asker.put s.files.nextRid sid).get? rid = some sid' := by
    intro rid sid' hsid
    rw [Dict.get?_put, if_neg (hfresh rid sid' hsid)]
    exact hsid
  have hget : ∀ sid' c', (s.conns.put sid { c with uplink := uplink }).get? sid' = some c' →
      ∃ c₀, s.conns.get? sid' = some c₀ ∧ c'.name = c₀.name ∧ c'.stage = c₀.stage := by
    intro sid' c' hc'
    rw [Dict.get?_put] at hc'
    split at hc'
    · next he =>
      obtain rfl := Option.some.inj hc'
      exact ⟨c, he ▸ hc, rfl, rfl⟩
    · exact ⟨c', hc', rfl, rfl⟩
  have hlive : c.stage ≠ .gone := by rw [hstage]; nofun
  refine h.setConn hc rfl hmoves hasker ⟨rfl, Nat.le_refl _, fun _ _ _ hp => hp, id⟩ ?_ ?_ ?_
    fun x hx => .inl hx
  · refine Connection.Sound.mono ⟨hsound.numbered, ?_, hsound.down⟩ hasker hmoves.answers
    exact fun msg' hm => hsound.sent msg' (hup ▸ List.mem_cons_of_mem msg hm)
  · intro rid sid' hsid
    dsimp only at hsid
    rw [Dict.get?_put] at hsid
    split at hsid
    · next he =>
      obtain rfl := Option.some.inj hsid
      -- the request just made is the one the message asked for
      obtain ⟨hlt, hsame⟩ := hsound.sent msg (hup ▸ List.mem_cons_self) req args hmsg
      refine .inr ⟨_, req, args, Dict.get?_put _ _ _ _ |>.trans (if_pos rfl), ?_, hlt, hsame⟩
      cases hstep with
      | ask =>
      unfold FileRun.origin
      dsimp only
      rw [Dict.get?_put, if_pos he]
      rfl
    · exact .inl hsid
  · intro rid req' sid' c' hc' hlive' hopen
    obtain ⟨c₀, hc₀, hname, hstage'⟩ := hget sid' c' hc'
    rcases hstep.owed hinv hopen with hold | ⟨⟨args', hl⟩, hrid⟩
    · exact .inl hold
    · -- the name is this connection's, so it is the one that asked
      obtain ⟨hw, -⟩ := FileLabel.ask.inj hl
      obtain ⟨hn, -⟩ := Waiting.toClient.inj hw
      have hsame : sid' = sid := by
        refine hwf.unique sid' sid c₀ c hc₀ hc ?_ hlive ?_
        · rw [← hstage']; exact hlive'
        · rw [← hname, hn]
      right
      dsimp only
      rw [Dict.get?_put, if_pos hrid, hsame]

/-- The session sends what is queued for it: the answers in it are to its own client's reads. -/
theorem CrossInv.push {s : FileSessions} (h : CrossInv s) (hinv : FileInv s.files) {sid : Nat}
    {c : Connection} {files : FileRun} {m : Tagged} (hc : s.conns.get? sid = some c)
    (hstage : c.stage = .serving) (hf : s.files.consume c.name = some (files, m)) :
    CrossInv { s.setConn sid { c with downlink := c.downlink ++ [m] } with files := files } := by
  have hstep : FileStep s.files (.consume c.name) files := by
    refine fileStep_of_step ?_
    show (s.files.consume c.name).map _ = _
    rw [hf]; rfl
  have hmoves := hstep.movesTo hinv
  have hsound := h.sound sid c hc
  refine h.quiet hc rfl hmoves rfl rfl ?_ ⟨rfl, Nat.le_refl _, fun _ _ _ hp => hp, id⟩
    ⟨hsound.numbered, hsound.sent, ?_⟩
  · intro rid name req ho
    rcases hstep.owed hinv ho with hold | ⟨⟨args, hl⟩, -⟩
    · exact hold
    · cases hl
  · intro m' hm' req result hmsg
    rcases List.mem_append.mp hm' with hm' | hm'
    · exact (hsound.down m' hm' req result hmsg).mono (fun _ _ hsid => hsid) hmoves.answers
    · rw [List.mem_singleton] at hm'
      subst hm'
      obtain ⟨e, he, hmem⟩ : ∃ e, s.files.hub.clients.get? c.name = some e ∧ m' ∈ e.outbox := by
        unfold FileRun.consume at hf
        split at hf
        case h_2 => cases hf
        next msg rest monitors he =>
        obtain ⟨-, rfl⟩ := Prod.mk.inj (Option.some.inj hf)
        exact ⟨_, he, List.mem_cons_self⟩
      -- what was queued for the name is for this connection, which holds it
      obtain ⟨rid, htag, hsid⟩ :=
        h.queued sid c e m' req result hc (by rw [hstage]; nofun) he hmem hmsg
      obtain ⟨a, ha, hw, hres, htag'⟩ := hinv.queued c.name e m' req result he hmem hmsg
      rw [htag, Option.some.injEq] at htag'
      refine ⟨rid, htag, hsid, hmoves.answers ?_⟩
      rw [htag', ← hw, ← hres]
      exact ha

/-- A read is resolved, by the answer to it. -/
theorem CrossInv.resolve {s : FileSessions} (h : CrossInv s) (hinv : FileInv s.files)
    {sid req : Nat} {c : Connection} {m : Tagged} {downlink : List Tagged}
    {result : FileReadResult} {args : ReadArgs} (hc : s.conns.get? sid = some c)
    (hdown : c.downlink = m :: downlink) (hmsg : m.msg.fileReply? = some (req, result))
    (hwaits : c.channel.pending.get? req = some args) :
    s.ResolvedBy ⟨sid, req, args, result, m.answers⟩ := by
  obtain ⟨rid, htag, hsid, hmem⟩ :=
    (h.sound sid c hc).down m (hdown ▸ List.mem_cons_self) req result hmsg
  obtain ⟨c', req', args', hc', horigin, -, hsame⟩ := h.asked rid sid hsid
  rw [hc, Option.some.injEq] at hc'
  subst hc'
  obtain ⟨r, hr, -, hw⟩ := hinv.given _ hmem
  dsimp only at hr hw
  -- the request answered and the one asked are the same, so its number and its read are
  rw [FileRun.origin, hr, Option.map_some, Option.some.injEq, Prod.mk.injEq, hw] at horigin
  obtain ⟨hto, hargs⟩ := horigin
  obtain ⟨-, rfl⟩ := Waiting.toClient.inj hto
  refine ⟨c, rid, hc, htag, hsid, ?_, hmem⟩
  rw [FileRun.origin, hr, Option.map_some, hw, hargs, hsame args hwaits]

/-- What is left waiting after a read ended was waiting before. -/
theorem FileChannel.get?_of_drop {ch : FileChannel ReadArgs} {req k : Nat} {args : ReadArgs}
    (h : (ch.pending.drop req).get? k = some args) : ch.pending.get? k = some args := by
  rw [Dict.get?_drop] at h
  split at h
  · cases h
  · exact h

/-- The client takes a message, and maybe a read off its channel. -/
theorem Connection.Sound.heard {s : FileSessions} {sid : Nat} {c : Connection} {m : Tagged}
    {downlink : List Tagged} (h : c.Sound s sid) (hdown : c.downlink = m :: downlink)
    (req : Nat) :
    ({ c with downlink := downlink, channel := (c.channel.reply req).1 } : Connection).Sound s
      sid := by
  constructor
  · exact fun k args hk => h.numbered k args (FileChannel.get?_of_drop hk)
  · intro msg hm k args hmsg
    obtain ⟨hlt, hsame⟩ := h.sent msg hm k args hmsg
    exact ⟨hlt, fun args' hk => hsame args' (FileChannel.get?_of_drop hk)⟩
  · exact fun m' hm' => h.down m' (hdown ▸ List.mem_cons_of_mem m hm')

/-- **No settled step lets an answer reach another connection than its asker's.** -/
theorem crossInv_step {s s' : FileSessions} {l : SessionLabel} (hinv : FileInv s.files)
    (hwf : SessionWf s) (h : CrossInv s) (hok : Settled s l) (hs : SessionStep s l s') :
    CrossInv s' := by
  have hstill : ∀ (rid : Nat) (name : String) (req : Nat), s.files.Owed rid (.toClient name req) →
      s.files.Owed rid (.toClient name req) := fun _ _ _ ho => ho
  have hnone : ∀ {fl : FileLabel} {files : FileRun}, FileStep s.files fl files →
      (∀ name req args, fl ≠ .ask (.toClient name req) args) →
      ∀ rid name req, files.Owed rid (.toClient name req) →
        s.files.Owed rid (.toClient name req) := by
    intro fl files hstep hask rid name req ho
    rcases hstep.owed hinv ho with hold | ⟨⟨args, hl⟩, -⟩
    · exact hold
    · exact absurd hl (hask name req args)
  cases hs with
  | @files l files hfree hf =>
    have hstep := fileStep_of_step hf
    refine h.files (hstep.movesTo hinv) rfl rfl rfl (hnone hstep ?_)
    rintro name req args rfl
    cases hfree
  | connect hf => exact h.connect hwf hinv hok hf
  | @read sid args c hc =>
    have hsound := h.sound sid c hc
    refine h.quiet hc rfl (.refl _) rfl rfl hstill ⟨rfl, Nat.le_succ _, ?_, id⟩ ⟨?_, ?_, hsound.down⟩
    -- the new read has a number of its own
    · intro req args' hlt hp
      simp only [FileChannel.read, Dict.get?_put, if_neg (Nat.ne_of_lt hlt)] at hp
      exact hp
    · intro req args' hp
      simp only [FileChannel.read, Dict.get?_put] at hp ⊢
      split at hp
      · next he => rw [he]; exact Nat.lt_succ_self _
      · exact Nat.lt_succ_of_lt (hsound.numbered req args' hp)
    · intro msg hm req args' hmsg
      simp only [FileChannel.read, Dict.get?_put]
      rcases List.mem_append.mp hm with hm | hm
      · obtain ⟨hlt, hsame⟩ := hsound.sent msg hm req args' hmsg
        rw [if_neg (Nat.ne_of_lt hlt)]
        exact ⟨Nat.lt_succ_of_lt hlt, hsame⟩
      · rw [List.mem_singleton.mp hm] at hmsg
        obtain ⟨rfl, rfl⟩ := Prod.mk.inj (Option.some.inj hmsg)
        refine ⟨Nat.lt_succ_self _, fun args' hp => ?_⟩
        rw [if_pos rfl] at hp
        exact (Option.some.inj hp).symm
  | @forget sid req c hc =>
    have hsound := h.sound sid c hc
    refine h.quiet hc rfl (.refl _) rfl rfl hstill
      ⟨rfl, Nat.le_refl _, fun _ _ _ hp => FileChannel.get?_of_drop hp, id⟩ ⟨?_, ?_, hsound.down⟩
    · exact fun k args hk => hsound.numbered k args (FileChannel.get?_of_drop hk)
    · intro msg hm k args hmsg
      obtain ⟨hlt, hsame⟩ := hsound.sent msg hm k args hmsg
      exact ⟨hlt, fun args' hk => hsame args' (FileChannel.get?_of_drop hk)⟩
  | @ignore sid c msg uplink hc hstage hup hmsg =>
    have hsound := h.sound sid c hc
    refine h.quiet hc rfl (.refl _) rfl rfl hstill ⟨rfl, Nat.le_refl _, fun _ _ _ hp => hp, id⟩
      ⟨hsound.numbered, ?_, hsound.down⟩
    exact fun msg' hm => hsound.sent msg' (hup ▸ List.mem_cons_of_mem msg hm)
  | receive hc hstage hup hmsg hf => exact h.receive hwf hinv hc hstage hup hmsg hf
  | push hc hstage hf => exact h.push hinv hc hstage hf
  | @hear sid c m downlink hc hdown hmsg =>
    have hsound := h.sound sid c hc
    refine h.quiet hc rfl (.refl _) rfl rfl hstill ⟨rfl, Nat.le_refl _, fun _ _ _ hp => hp, id⟩
      ⟨hsound.numbered, hsound.sent, ?_⟩
    exact fun m' hm => hsound.down m' (hdown ▸ List.mem_cons_of_mem m hm)
  | @unheard sid req c m downlink result hc hdown hmsg hwaits =>
    exact h.quiet hc rfl (.refl _) rfl rfl hstill
      ⟨rfl, Nat.le_refl _, fun _ _ _ hp => FileChannel.get?_of_drop hp, id⟩
      (((h.sound sid c hc).heard hdown req).mono (fun _ _ hsid => hsid) (List.Subset.refl _))
  | @resolve sid req c m downlink result args hc hdown hmsg hwaits =>
    refine h.setConn hc rfl (.refl _) (fun _ _ hsid => hsid)
      ⟨rfl, Nat.le_refl _, fun _ _ _ hp => FileChannel.get?_of_drop hp, id⟩
      (((h.sound sid c hc).heard hdown req).mono (fun _ _ hsid => hsid) (List.Subset.refl _))
      (fun _ _ hsid => .inl hsid)
      (fun _ _ _ _ _ _ ho => .inl ho) ?_
    intro x hx
    rcases List.mem_append.mp hx with hx | hx
    · exact .inl hx
    · obtain ⟨c', rid, hc', hrest⟩ := h.resolve hinv hc hdown hmsg hwaits
      rw [hc, Option.some.injEq] at hc'
      subst hc'
      rw [List.mem_singleton.mp hx]
      exact .inr ⟨_, rid, (Dict.get?_put _ _ _ _).trans (if_pos rfl), hrest⟩
  | @cleanup sid c files hc hstage hf =>
    have hstep := fileStep_of_step hf
    have hmoves := hstep.movesTo hinv
    refine h.quiet hc rfl hmoves rfl rfl (hnone hstep nofun) ⟨rfl, Nat.le_refl _, fun _ _ _ hp => hp,
      fun _ => by rw [hstage]; nofun⟩ ?_
    obtain ⟨hnumbered, hsent, hdown⟩ := h.sound sid c hc
    exact ⟨hnumbered, hsent, fun m hm req result hmsg =>
      (hdown m hm req result hmsg).mono (fun _ _ hsid => hsid) hmoves.answers⟩
  | @unregister sid cid c files hc hstage hclean hf =>
    have hstep := fileStep_of_step hf
    have hmoves := hstep.movesTo hinv
    refine h.quiet hc rfl hmoves rfl rfl (hnone hstep nofun) ⟨rfl, Nat.le_refl _, fun _ _ _ hp => hp,
      fun _ => by rw [hstage]; nofun⟩ ?_
    obtain ⟨hnumbered, hsent, hdown⟩ := h.sound sid c hc
    exact ⟨hnumbered, hsent, fun m hm req result hmsg =>
      (hdown m hm req result hmsg).mono (fun _ _ hsid => hsid) hmoves.answers⟩

/-- The invariant holds in every state reached. -/
theorem crossInv_reach {s : FileSessions} (hs : fileSessions.Reach Settled s) : CrossInv s := by
  refine Lts.Reach.invariant (P := CrossInv) ?_ ?_ hs
  · rintro _ rfl
    exact crossInv_start
  · intro _ _ _ hreach ih hok hl
    exact crossInv_step (fileInv_reach (files_reachable hreach)) (sessionWf_reach hreach) ih hok
      (sessionStep_of_step hl)

/-- **No file answer crosses connections**, in every run in which a name connects again only when
nothing asked under it is still owed. -/
theorem answers_not_crossed {s : FileSessions} (hs : fileSessions.Reach Settled s) :
    s.NotCrossed := by
  intro x hx
  obtain ⟨c, rid, hc, htag, hsid, horigin, hmem⟩ := (crossInv_reach hs).resolved x hx
  refine ⟨c, rid, hc, htag, hsid, horigin, ?_⟩
  refine ((file_requests_conserved (files_reachable hs)).source _ hmem).imp id ?_
  -- the bytes come from where that request was routed
  rintro ⟨r, hr, hsourced⟩
  dsimp only at hr hsourced
  rw [FileRun.origin, hr, Option.map_some, Option.some.injEq, Prod.mk.injEq] at horigin
  exact horigin.2 ▸ hsourced

/-- "a" reads from "c", and gets its answer; it connects again, and its next read 1 gets its
own. -/
theorem answers_not_crossed_reconnect :
    ∃ s, fileSessions.Reach Settled s
      ∧ s.resolved = [⟨0, 1, ⟨1, 0, 0, 4⟩, .data [1], some 0⟩, ⟨2, 1, ⟨1, 0, 4, 4⟩, .data [2], some 1⟩]
      ∧ s.NotCrossed := by
  let labels : List SessionLabel :=
    [.connect "a" [], .connect "c" [], .files (.announce (.client "c") 1 ⟨[⟨"f", 8, false⟩]⟩),
      .read 0 ⟨1, 0, 0, 4⟩, .receive 0, .files (.readOwner 0), .files (.insert 0), .files (.send 0),
      .files (.reply "c" 1 (.data [1])), .files (.deliver 0), .push 0, .hear 0,
      .cleanup 0, .files (.collect 0), .unregister 0, .connect "a" [],
      .read 2 ⟨1, 0, 4, 4⟩, .receive 2, .files (.readOwner 1), .files (.insert 1), .files (.send 1),
      .files (.reply "c" 2 (.data [2])), .files (.deliver 1), .push 2, .hear 2]
  have hend : (fileSessions.exec Settled {} labels).map (·.resolved)
      = some [⟨0, 1, ⟨1, 0, 0, 4⟩, .data [1], some 0⟩, ⟨2, 1, ⟨1, 0, 4, 4⟩, .data [2], some 1⟩] := by
    decide
  obtain ⟨s, hs, hresolved⟩ := Option.map_eq_some_iff.mp hend
  have hreach : fileSessions.Reach Settled s := Lts.reach_of_exec rfl hs
  exact ⟨s, hreach, hresolved, answers_not_crossed hreach⟩

/-- "a" asks "c" for offset 0 and loses its connection before "c" answers. It connects again and
asks for offset 4, again as its read 1: the answer of "c" to the first read resolves it. -/
theorem reconnect_crosses_answers : ¬ ∀ s, fileSessions.Reachable s → s.NotCrossed := by
  let labels : List SessionLabel :=
    [.connect "a" [], .connect "c" [], .files (.announce (.client "c") 1 ⟨[⟨"f", 8, false⟩]⟩),
      .read 0 ⟨1, 0, 0, 4⟩, .receive 0, .files (.readOwner 0), .files (.insert 0), .files (.send 0),
      .cleanup 0, .files (.collect 0), .unregister 0, .connect "a" [],
      .read 2 ⟨1, 0, 4, 4⟩, .receive 2,
      .files (.reply "c" 1 (.data [1])), .files (.deliver 0), .push 2, .hear 2]
  intro hall
  have hend : (fileSessions.run {} labels).map (fun s => (s.resolved, s.asker.get? 0))
      = some ([⟨2, 1, ⟨1, 0, 4, 4⟩, .data [1], some 0⟩], some 0) := by decide
  obtain ⟨s, hs, hstate⟩ := Option.map_eq_some_iff.mp hend
  obtain ⟨hresolved, hasker⟩ := Prod.mk.inj hstate
  obtain ⟨c, rid, -, htag, hsid, -⟩ := hall s (Lts.reachable_of_run rfl hs)
    ⟨2, 1, ⟨1, 0, 4, 4⟩, .data [1], some 0⟩ (by rw [hresolved]; exact List.mem_singleton_self _)
  obtain rfl := Option.some.inj htag
  rw [hasker] at hsid
  cases hsid

end GeserDesk
