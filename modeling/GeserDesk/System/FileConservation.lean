import GeserDesk.System.FileRuns

/-!
# No file request is lost, answered twice, or given another's answer

* **`file_requests_conserved`**: in every reachable state each request was answered at most
  once, to who asked and under the number the asker used; what it was answered is what the party
  asked gave for that very request, or a refusal; and the table holds exactly the requests routed
  to a client whose answer is still to come.

Replies may come from any client under any number: the invariant (`FileInv`) ties each number in
the table to one request, and each request to one place.
-/

namespace GeserDesk

/-- The result comes from the party the request was routed to: the client asked sent it under
the router's number for this request, or the server's own files were read for it. -/
def FileRun.Sourced (s : FileRun) (rid : Nat) (args : ReadArgs) (result : FileReadResult) : Prop :=
  (∃ owner req, ⟨rid, owner, req⟩ ∈ s.routed ∧ (owner, req, result) ∈ s.replied)
    ∨ ∃ owner disk, (rid, owner, disk) ∈ s.served ∧ owner.read disk args = result

/-- No request is lost, answered twice, or given another's answer. -/
structure FileRun.Conserved (s : FileRun) : Prop where
  /-- Each request is answered at most once. -/
  once : (s.answers.map (·.rid)).Nodup
  /-- An answer goes to who asked, under the number the asker used. -/
  asker : ∀ a ∈ s.answers, (s.requests.get? a.rid).map (·.waiting) = some a.waiting
  /-- So do the messages: a file reply queued for a client is the answer to a request of that
  client under that number. -/
  queued : ∀ name e m req result, s.hub.clients.get? name = some e → m ∈ e.outbox →
    m.msg.fileReply? = some (req, result) →
    ∃ a ∈ s.answers, a.waiting = .toClient name req ∧ a.result = result ∧ m.answers = some a.rid
  /-- No two requests share a number of the router's, and none is entered twice. -/
  separate : s.routed.Pairwise fun a b => a.req ≠ b.req ∧ a.rid ≠ b.rid
  /-- An answer is what the party asked gave for that very request, or a refusal; so bytes are
  always what that party sent for it. -/
  source : ∀ a ∈ s.answers, a.result = .err .notFound
    ∨ ∃ r, s.requests.get? a.rid = some r ∧ s.Sourced a.rid r.args a.result
  /-- A client is only ever asked for what the request under that number asks. -/
  asked : ∀ name e m req args, s.hub.clients.get? name = some e → m ∈ e.outbox →
    m.msg.fileRead? = some (req, args) →
    ∃ rid waiting, ⟨rid, name, req⟩ ∈ s.routed ∧ s.origin rid = some (waiting, args)
  /-- The table holds exactly the requests routed and not answered, nor with an answer in hand. -/
  table : ∀ req owner waiting rid,
    s.router.pending.get? req = some ⟨owner, (waiting, rid)⟩ ↔
      ⟨rid, owner, req⟩ ∈ s.routed ∧ rid ∉ s.answers.map (·.rid)
        ∧ ∃ r, s.requests.get? rid = some r ∧ r.waiting = waiting ∧ ∀ res, r.pc ≠ .inHand res

/-! ## The invariant -/

/-- The table, the numbers issued and the answers given, against where each request stands. -/
structure FileInv (s : FileRun) : Prop where
  fresh : ∀ rid r, s.requests.get? rid = some r → rid < s.nextRid
  /-- What is in the table waits there, -/
  table : ∀ req p, s.router.pending.get? req = some p →
    ∃ r, s.requests.get? p.waiting.2 = some r ∧ r.pc = .waits p.sentTo req
      ∧ r.waiting = p.waiting.1
  /-- and what waits is in the table. -/
  listed : ∀ rid r owner req, s.requests.get? rid = some r → r.pc = .waits owner req →
    s.router.pending.get? req = some ⟨owner, (r.waiting, rid)⟩ ∧ ⟨rid, owner, req⟩ ∈ s.routed
  /-- A request that was entered waits, or its answer has come. -/
  routed : ∀ e ∈ s.routed, e.req < s.router.nextReq ∧ ∃ r, s.requests.get? e.rid = some r
    ∧ (r.pc = .waits e.owner e.req ∨ ∃ result, r.pc = .inHand result ∨ r.pc = .answered result)
  separate : s.routed.Pairwise fun a b => a.req ≠ b.req ∧ a.rid ≠ b.rid
  /-- The answers given are those of the requests answered. -/
  given : ∀ a ∈ s.answers, ∃ r, s.requests.get? a.rid = some r ∧ r.pc = .answered a.result
    ∧ r.waiting = a.waiting
  answered : ∀ rid r result, s.requests.get? rid = some r → r.pc = .answered result →
    rid ∈ s.answers.map (·.rid)
  once : (s.answers.map (·.rid)).Nodup
  sourced : ∀ rid r result, s.requests.get? rid = some r →
    r.pc = .inHand result ∨ r.pc = .answered result →
    result = .err .notFound ∨ s.Sourced rid r.args result
  queued : ∀ name e m req result, s.hub.clients.get? name = some e → m ∈ e.outbox →
    m.msg.fileReply? = some (req, result) →
    ∃ a ∈ s.answers, a.waiting = .toClient name req ∧ a.result = result ∧ m.answers = some a.rid

/-- Before the first request there is nothing to account for. -/
theorem fileInv_start : FileInv {} := by
  constructor <;> simp

/-- Where an answer came from is never taken off the record. -/
theorem FileRun.Sourced.mono {s s' : FileRun} {rid : Nat} {args : ReadArgs}
    {result : FileReadResult} (h : s.Sourced rid args result) (hrouted : s.routed ⊆ s'.routed)
    (hreplied : s.replied ⊆ s'.replied) (hserved : s.served ⊆ s'.served) :
    s'.Sourced rid args result := by
  rcases h with ⟨owner, req, hr, hrep⟩ | ⟨owner, disk, hs, hread⟩
  · exact .inl ⟨owner, req, hrouted hr, hreplied hrep⟩
  · exact .inr ⟨owner, disk, hserved hs, hread⟩

/-- A step that moves no request and queues no file reply. -/
theorem FileInv.frame {s s' : FileRun} (h : FileInv s) (hrequests : s'.requests = s.requests)
    (hnext : s'.nextRid = s.nextRid) (hpending : s'.router.pending = s.router.pending)
    (hnextReq : s'.router.nextReq = s.router.nextReq) (hrouted : s'.routed = s.routed)
    (hanswers : s'.answers = s.answers) (hreplied : s.replied ⊆ s'.replied)
    (hserved : s.served ⊆ s'.served)
    (hhub : ∀ name e' m, s'.hub.clients.get? name = some e' → m ∈ e'.outbox →
      m.msg.fileReply?.isSome = true → ∃ e, s.hub.clients.get? name = some e ∧ m ∈ e.outbox) :
    FileInv s' := by
  constructor
  · rw [hrequests, hnext]; exact h.fresh
  · rw [hrequests, hpending]; exact h.table
  · rw [hrequests, hpending, hrouted]; exact h.listed
  · rw [hrequests, hnextReq, hrouted]; exact h.routed
  · rw [hrouted]; exact h.separate
  · rw [hrequests, hanswers]; exact h.given
  · rw [hrequests, hanswers]; exact h.answered
  · rw [hanswers]; exact h.once
  · rw [hrequests]
    intro rid r result hr hpc
    exact (h.sourced rid r result hr hpc).imp id fun hsrc =>
      hsrc.mono (by rw [hrouted]; exact List.Subset.refl _) hreplied hserved
  · rw [hanswers]
    intro name e' m req result he' hm hmsg
    obtain ⟨e, he, hmem⟩ := hhub name e' m he' hm (by rw [hmsg]; rfl)
    exact h.queued name e m req result he hmem hmsg

/-- The request is inside `route`, before the table. -/
def ReqPc.Early : ReqPc → Prop
  | .start | .toInsert _ | .reading => True
  | _ => False

/-! ## One request moves

A step moves one request from one stage to the next. `Moved` says what stays the same for the
others, so each field of the invariant is settled once. -/

/-- Request `rid` goes to `pc`; the others stay where they are. -/
structure FileRun.Moved (s s' : FileRun) (rid : Nat) (r : FileReq) (pc : ReqPc) : Prop where
  was : s.requests.get? rid = some r
  requests : ∀ k, s'.requests.get? k
    = if k = rid then some { r with pc := pc } else s.requests.get? k
  nextRid : s'.nextRid = s.nextRid

namespace FileRun.Moved

variable {s s' : FileRun} {rid : Nat} {r : FileReq} {pc : ReqPc}

/-- A step that sets one request's place moves that request and no other. -/
theorem of_setPc (hr : s.requests.get? rid = some r)
    (hrequests : s'.requests = (s.setPc rid pc).requests) (hnext : s'.nextRid = s.nextRid) :
    s.Moved s' rid r pc := by
  refine ⟨hr, fun k => ?_, hnext⟩
  rw [hrequests, FileRun.setPc_get?]
  split
  · next hk =>
    rw [hk, hr]
    rfl
  · rfl

/-- The request that moves has its new place. -/
theorem this (h : s.Moved s' rid r pc) : s'.requests.get? rid = some { r with pc := pc } := by
  rw [h.requests, if_pos rfl]

/-- A request is this one, or as it was. -/
theorem cases (h : s.Moved s' rid r pc) {k : Nat} {q : FileReq}
    (hq : s'.requests.get? k = some q) :
    (k = rid ∧ q = { r with pc := pc }) ∨ (k ≠ rid ∧ s.requests.get? k = some q) := by
  rw [h.requests] at hq
  split at hq
  · next hk => exact .inl ⟨hk, (Option.some.inj hq).symm⟩
  · next hk => exact .inr ⟨hk, hq⟩

/-- One that was elsewhere is another. -/
theorem other (h : s.Moved s' rid r pc) {k : Nat} {q : FileReq} (hq : s.requests.get? k = some q)
    (hpc : q.pc ≠ r.pc) : s'.requests.get? k = some q := by
  rw [h.requests, if_neg]
  · exact hq
  · rintro rfl
    rw [h.was, Option.some.injEq] at hq
    exact hpc (by rw [hq])

/-- No request has a number that is still to be given. -/
theorem fresh (h : s.Moved s' rid r pc) (hinv : FileInv s) :
    ∀ k q, s'.requests.get? k = some q → k < s'.nextRid := by
  intro k q hq
  rw [h.nextRid]
  rcases h.cases hq with ⟨rfl, _⟩ | ⟨_, hq⟩
  · exact hinv.fresh k r h.was
  · exact hinv.fresh k q hq

/-- An entry of the table that is not this request's still names one that waits. -/
theorem table (h : s.Moved s' rid r pc) (hinv : FileInv s) {req : Nat}
    {p : Pending (Waiting × Nat)} (hp : s.router.pending.get? req = some p)
    (hr : r.pc ≠ .waits p.sentTo req) :
    ∃ q, s'.requests.get? p.waiting.2 = some q ∧ q.pc = .waits p.sentTo req
      ∧ q.waiting = p.waiting.1 := by
  obtain ⟨q, hq, hwaits, hw⟩ := hinv.table req p hp
  exact ⟨q, h.other hq (by rw [hwaits]; exact hr.symm), hwaits, hw⟩

/-- Who waits after the move waited before it, and is in the table. -/
theorem listed (h : s.Moved s' rid r pc) (hinv : FileInv s)
    (hpc : ∀ owner req, pc ≠ .waits owner req) :
    ∀ k q owner req, s'.requests.get? k = some q → q.pc = .waits owner req →
      s.router.pending.get? req = some ⟨owner, (q.waiting, k)⟩ ∧ ⟨k, owner, req⟩ ∈ s.routed := by
  intro k q owner req hq hwaits
  rcases h.cases hq with ⟨_, rfl⟩ | ⟨_, hq⟩
  · exact absurd hwaits (hpc owner req)
  · exact hinv.listed k q owner req hq hwaits

/-- What was entered waits or has its answer still: this request was not, or has its answer. -/
theorem routed (h : s.Moved s' rid r pc) (hinv : FileInv s)
    (hlate : r.pc.Early ∨ ∃ result, pc = .inHand result ∨ pc = .answered result) :
    ∀ e ∈ s.routed, e.req < s.router.nextReq ∧ ∃ q, s'.requests.get? e.rid = some q
      ∧ (q.pc = .waits e.owner e.req ∨ ∃ result, q.pc = .inHand result ∨ q.pc = .answered result) := by
  intro e he
  obtain ⟨hlt, q, hq, hplace⟩ := hinv.routed e he
  refine ⟨hlt, ?_⟩
  rcases hlate with hearly | hanswer
  · refine ⟨q, h.other hq fun hsame => ?_, hplace⟩
    rw [← hsame] at hearly
    rcases hplace with hp | ⟨result, hp | hp⟩ <;> rw [hp] at hearly <;> exact hearly
  · by_cases hrid : e.rid = rid
    · rw [hrid]
      exact ⟨_, h.this, .inr hanswer⟩
    · refine ⟨q, ?_, hplace⟩
      rw [h.requests, if_neg hrid]
      exact hq

/-- An answer that was given went to a request that is not the one that moves. -/
theorem given (h : s.Moved s' rid r pc) (hinv : FileInv s) (hr : ∀ result, r.pc ≠ .answered result) :
    ∀ a ∈ s.answers, ∃ q, s'.requests.get? a.rid = some q ∧ q.pc = .answered a.result
      ∧ q.waiting = a.waiting := by
  intro a ha
  obtain ⟨q, hq, hdone, hw⟩ := hinv.given a ha
  exact ⟨q, h.other hq (by rw [hdone]; exact (hr _).symm), hdone, hw⟩

/-- A request that has its answer is on the record. -/
theorem answered (h : s.Moved s' rid r pc) (hinv : FileInv s)
    (hpc : ∀ result, pc ≠ .answered result) :
    ∀ k q result, s'.requests.get? k = some q → q.pc = .answered result →
      k ∈ s.answers.map (·.rid) := by
  intro k q result hq hdone
  rcases h.cases hq with ⟨_, rfl⟩ | ⟨_, hq⟩
  · exact absurd hdone (hpc result)
  · exact hinv.answered k q result hq hdone

/-- The result a request has in hand came from its owner or from this server, or is a refusal. -/
theorem sourced (h : s.Moved s' rid r pc) (hinv : FileInv s) (hrouted : s.routed ⊆ s'.routed)
    (hreplied : s.replied ⊆ s'.replied) (hserved : s.served ⊆ s'.served)
    (hthis : ∀ result, pc = .inHand result ∨ pc = .answered result →
      result = .err .notFound ∨ s'.Sourced rid r.args result) :
    ∀ k q result, s'.requests.get? k = some q → q.pc = .inHand result ∨ q.pc = .answered result →
      result = .err .notFound ∨ s'.Sourced k q.args result := by
  intro k q result hq hres
  rcases h.cases hq with ⟨rfl, rfl⟩ | ⟨_, hq⟩
  · exact hthis result hres
  · exact (hinv.sourced k q result hq hres).imp id fun hsrc =>
      hsrc.mono hrouted hreplied hserved

end FileRun.Moved

/-- A request that has not reached the table moves on: inside `route`, or to an answer. -/
theorem FileInv.advance {s s' : FileRun} (h : FileInv s) {rid : Nat} {r : FileReq} (pc : ReqPc)
    (hr : s.requests.get? rid = some r) (hearly : r.pc.Early)
    (hpc : pc.Early ∨ ∃ result, pc = .inHand result)
    (hrequests : s'.requests = (s.setPc rid pc).requests) (hnext : s'.nextRid = s.nextRid)
    (hrouter : s'.router = s.router) (hrouted : s'.routed = s.routed)
    (hanswers : s'.answers = s.answers) (hreplied : s'.replied = s.replied)
    (hserved : s.served ⊆ s'.served)
    (hsourced : ∀ result, pc = .inHand result →
      result = .err .notFound ∨ s'.Sourced rid r.args result)
    (hhub : s'.hub = s.hub) : FileInv s' := by
  have hmoved : s.Moved s' rid r pc := .of_setPc hr hrequests hnext
  -- the request moves on before it is answered
  have hnotanswered : ∀ result, pc ≠ .answered result := by
    rintro result rfl
    rcases hpc with hpc | ⟨result, hpc⟩
    · exact hpc
    · cases hpc
  -- field by field, each by what a moved request does to it
  constructor
  · exact hmoved.fresh h
  · rw [hrouter]
    refine fun req p hp => hmoved.table h hp fun hwaits => ?_
    rw [hwaits] at hearly
    exact hearly
  · rw [hrouter, hrouted]
    refine hmoved.listed h ?_
    rintro owner req rfl
    rcases hpc with hpc | ⟨result, hpc⟩
    · exact hpc
    · cases hpc
  · rw [hrouter, hrouted]
    exact hmoved.routed h (.inl hearly)
  · rw [hrouted]
    exact h.separate
  · rw [hanswers]
    refine hmoved.given h fun result hdone => ?_
    rw [hdone] at hearly
    exact hearly
  · rw [hanswers]
    exact hmoved.answered h hnotanswered
  · rw [hanswers]
    exact h.once
  · refine hmoved.sourced h (by rw [hrouted]; exact List.Subset.refl _)
      (by rw [hreplied]; exact List.Subset.refl _) hserved fun result hres => ?_
    rcases hres with hres | hres
    · exact hsourced result hres
    · exact absurd hres (hnotanswered result)
  · rw [hanswers, hhub]
    exact h.queued

/-- A number taken out of the table leaves its request with the answer in hand. -/
theorem FileInv.resolve {s : FileRun} (h : FileInv s) (req : Nat)
    (verdict : String → FileReadResult)
    (hsourced : ∀ p, s.router.pending.get? req = some p → verdict p.sentTo = .err .notFound
      ∨ (p.sentTo, req, verdict p.sentTo) ∈ s.replied) : FileInv (s.resolve req verdict).1 := by
  unfold FileRun.resolve FileRouter.take
  cases hp : s.router.pending.get? req with
  | none =>
    -- nothing to take: the table is the same
    have hsame : ∀ k, (s.router.pending.drop req).get? k = s.router.pending.get? k := by
      intro k
      rw [Dict.get?_drop]
      split
      · next hk => rw [hk, hp]
      · rfl
    refine ⟨h.fresh, fun k p hk => ?_, fun rid r owner k hr hpc => ?_, h.routed, h.separate, h.given,
      h.answered, h.once, h.sourced, h.queued⟩
    · exact h.table k p ((hsame k).symm.trans hk)
    · exact ⟨(hsame k).trans (h.listed rid r owner k hr hpc).1, (h.listed rid r owner k hr hpc).2⟩
  | some p =>
    obtain ⟨r, hr, hwaits, hwaiting⟩ := h.table req p hp
    dsimp only
    generalize hrid : p.waiting.2 = rid at hr
    generalize hs' : FileRun.setPc _ rid _ = s'
    have hmoved : s.Moved s' rid r (.inHand (verdict p.sentTo)) := by
      subst hs'
      exact .of_setPc hr rfl rfl
    have hpending : ∀ k, s'.router.pending.get? k
        = if k = req then none else s.router.pending.get? k := by
      intro k
      rw [← hs']
      exact Dict.get?_drop _ _ _
    obtain ⟨hnextReq, hrouted, hanswers, hreplied, hserved, hhub⟩ :
        s'.router.nextReq = s.router.nextReq ∧ s'.routed = s.routed ∧ s'.answers = s.answers
          ∧ s'.replied = s.replied ∧ s'.served = s.served ∧ s'.hub = s.hub := by
      subst hs'
      exact ⟨rfl, rfl, rfl, rfl, rfl, rfl⟩
    constructor
    · exact hmoved.fresh h
    · intro k p' hp'
      rw [hpending] at hp'
      split at hp'
      · cases hp'
      · next hk =>
        -- another number in the table is another request's
        refine hmoved.table h hp' fun hsame => hk ?_
        rw [hwaits] at hsame
        exact (ReqPc.waits.inj hsame).2.symm
    · intro k q owner req' hq hpc
      obtain ⟨hlisted, hmem⟩ := hmoved.listed h nofun k q owner req' hq hpc
      rw [hpending, hrouted, if_neg]
      · exact ⟨hlisted, hmem⟩
      · rintro rfl
        rw [hp, Option.some.injEq] at hlisted
        obtain rfl : rid = k := by rw [← hrid, hlisted]
        rw [hmoved.this, Option.some.injEq] at hq
        rw [← hq] at hpc
        cases hpc
    · rw [hrouted, hnextReq]
      exact hmoved.routed h (.inr ⟨_, .inl rfl⟩)
    · rw [hrouted]
      exact h.separate
    · rw [hanswers]
      exact hmoved.given h (by rw [hwaits]; nofun)
    · rw [hanswers]
      exact hmoved.answered h nofun
    · rw [hanswers]
      exact h.once
    · refine hmoved.sourced h (by rw [hrouted]; exact List.Subset.refl _)
        (by rw [hreplied]; exact List.Subset.refl _) (by rw [hserved]; exact List.Subset.refl _)
        fun result hres => ?_
      rcases hres with hres | hres
      · obtain rfl := ReqPc.inHand.inj hres
        refine (hsourced p hp).imp id fun hmem => .inl ⟨p.sentTo, req, ?_, ?_⟩
        · rw [hrouted]
          exact (h.listed rid r _ _ hr hwaits).2
        · rw [hreplied]
          exact hmem
      · cases hres
    · rw [hanswers, hhub]
      exact h.queued

/-- Delivering the answer in hand. -/
theorem FileInv.deliver {s s' : FileRun} (h : FileInv s) {rid : Nat}
    (hs : s.deliver rid = some s') : FileInv s' := by
  unfold FileRun.deliver at hs
  split at hs
  case h_2 => cases hs
  next waiting args result hr =>
  rw [Option.some.injEq] at hs
  have hmoved : s.Moved s' rid ⟨waiting, args, .inHand result⟩ (.answered result) := by
    subst hs
    exact .of_setPc hr rfl rfl
  obtain ⟨hrouter, hrouted, hreplied, hserved, hanswers, hhub⟩ :
      s'.router = s.router ∧ s'.routed = s.routed ∧ s'.replied = s.replied ∧ s'.served = s.served
        ∧ s'.answers = s.answers ++ [⟨rid, waiting, result⟩]
        ∧ s'.hub = FileRouter.deliver (fun req result => ⟨.fileReply req result, some rid⟩) s.hub
            waiting result := by
    subst hs
    exact ⟨rfl, rfl, rfl, rfl, rfl, rfl⟩
  have hnotanswered : rid ∉ s.answers.map (·.rid) := by
    intro hmem
    obtain ⟨a, ha, harid⟩ := List.mem_map.mp hmem
    obtain ⟨r, hr', hdone, -⟩ := h.given a ha
    rw [harid, hr, Option.some.injEq] at hr'
    rw [← hr'] at hdone
    cases hdone
  constructor
  · exact hmoved.fresh h
  · rw [hrouter]
    exact fun req p hp => hmoved.table h hp nofun
  · rw [hrouter, hrouted]
    exact hmoved.listed h nofun
  · rw [hrouter, hrouted]
    exact hmoved.routed h (.inr ⟨result, .inr rfl⟩)
  · rw [hrouted]
    exact h.separate
  · rw [hanswers]
    intro a ha
    rcases List.mem_append.mp ha with ha | ha
    · exact hmoved.given h nofun a ha
    · rw [List.mem_singleton.mp ha]
      exact ⟨_, hmoved.this, rfl, rfl⟩
  · rw [hanswers, List.map_append]
    intro k q result' hq hdone
    rcases hmoved.cases hq with ⟨hk, _⟩ | ⟨_, hq⟩
    · exact List.mem_append_right _ (List.mem_singleton.mpr hk)
    · exact List.mem_append_left _ (h.answered k q result' hq hdone)
  · rw [hanswers, List.map_append]
    exact List.nodup_append.mpr ⟨h.once, List.nodup_singleton _, fun a ha b hb hab =>
      hnotanswered ((List.mem_singleton.mp hb : b = rid) ▸ hab ▸ ha)⟩
  · refine hmoved.sourced h (by rw [hrouted]; exact List.Subset.refl _)
      (by rw [hreplied]; exact List.Subset.refl _) (by rw [hserved]; exact List.Subset.refl _)
      fun res hres => ?_
    rcases hres with hres | hres
    · cases hres
    · obtain rfl := ReqPc.answered.inj hres
      exact (h.sourced rid _ result hr (.inl rfl)).imp id fun hsrc =>
        hsrc.mono (by rw [hrouted]; exact List.Subset.refl _)
          (by rw [hreplied]; exact List.Subset.refl _) (by rw [hserved]; exact List.Subset.refl _)
  · rw [hanswers, hhub]
    intro name e m req res he hm hmsg
    have hold : ∀ e, s.hub.clients.get? name = some e → m ∈ e.outbox →
        ∃ a ∈ s.answers ++ [⟨rid, waiting, result⟩], a.waiting = .toClient name req
          ∧ a.result = res ∧ m.answers = some a.rid := by
      intro e he hm
      obtain ⟨a, ha, hrest⟩ := h.queued name e m req res he hm hmsg
      exact ⟨a, List.mem_append_left _ ha, hrest⟩
    cases waiting with
    | toLocal tx => exact hold e he hm
    | toClient to_ req' =>
      simp only [FileRouter.deliver, Hub.send_get?] at he
      split at he
      · next hname =>
        subst hname
        obtain ⟨e₀, he₀, rfl⟩ := Option.map_eq_some_iff.mp he
        rcases List.mem_append.mp hm with hm | hm
        · exact hold e₀ he₀ hm
        · -- the message just queued
          rw [List.mem_singleton.mp hm] at hmsg ⊢
          obtain ⟨rfl, rfl⟩ : req' = req ∧ result = res := by
            simpa [ServerMsg.fileReply?] using hmsg
          exact ⟨_, List.mem_append_right _ (List.mem_singleton_self _), rfl, rfl, rfl⟩
      · exact hold e he hm

/-- Taking a request back moves one that waits, if any. -/
theorem FileInv.refuse {s : FileRun} (h : FileInv s) (req : Nat) : FileInv (s.refuse req) := by
  unfold FileRun.refuse
  have hres := h.resolve req (fun _ => .err .notFound) (fun _ _ => .inl rfl)
  generalize s.resolve req (fun _ => .err .notFound) = out at hres
  obtain ⟨s₁, found⟩ := out
  cases found with
  | none => exact hres
  | some rid =>
    show FileInv ((s₁.deliver rid).getD s₁)
    cases hd : s₁.deliver rid with
    | none => exact hres
    | some s₂ => exact hres.deliver hd

/-- Entering a request in the table. -/
theorem FileInv.insert {s : FileRun} (h : FileInv s) {rid : Nat} {waiting : Waiting}
    {args : ReadArgs} {name : String}
    (hr : s.requests.get? rid = some ⟨waiting, args, .toInsert name⟩) (sends : Dict Nat SendPc) :
    FileInv { s.setPc rid (.waits name s.router.nextReq) with
      router := (s.router.insert name (waiting, rid)).1
      sends := sends
      routed := s.routed ++ [⟨rid, name, s.router.nextReq⟩] } := by
  generalize hs' : ({ s.setPc rid (.waits name s.router.nextReq) with
      router := (s.router.insert name (waiting, rid)).1
      sends := sends
      routed := s.routed ++ [⟨rid, name, s.router.nextReq⟩] } : FileRun) = s'
  have hmoved : s.Moved s' rid ⟨waiting, args, .toInsert name⟩ (.waits name s.router.nextReq) := by
    subst hs'
    exact .of_setPc hr rfl rfl
  have hpending : ∀ k, s'.router.pending.get? k = if k = s.router.nextReq
      then some ⟨name, (waiting, rid)⟩ else s.router.pending.get? k := by
    intro k
    rw [← hs']
    exact Dict.get?_put _ _ _ _
  obtain ⟨hnextReq, hrouted, hanswers, hreplied, hserved, hhub⟩ :
      s'.router.nextReq = s.router.nextReq + 1
        ∧ s'.routed = s.routed ++ [⟨rid, name, s.router.nextReq⟩] ∧ s'.answers = s.answers
        ∧ s'.replied = s.replied ∧ s'.served = s.served ∧ s'.hub = s.hub := by
    subst hs'
    exact ⟨rfl, rfl, rfl, rfl, rfl, rfl⟩
  -- the request is new to the table, and so is the number
  have hnew : ∀ e ∈ s.routed, e.rid ≠ rid ∧ e.req ≠ s.router.nextReq := by
    intro e he
    obtain ⟨hlt, r', hr', hlate⟩ := h.routed e he
    refine ⟨?_, Nat.ne_of_lt hlt⟩
    intro hsame
    rw [hsame, hr, Option.some.injEq] at hr'
    rw [← hr'] at hlate
    rcases hlate with hl | ⟨result, hl | hl⟩ <;> cases hl
  have hold : ∀ k p, s.router.pending.get? k = some p → k ≠ s.router.nextReq := by
    intro k p hp
    obtain ⟨r', hr', hwaits, -⟩ := h.table k p hp
    exact (hnew _ (h.listed _ r' _ _ hr' hwaits).2).2
  constructor
  · exact hmoved.fresh h
  · intro k p hp
    rw [hpending] at hp
    split at hp
    · next hk =>
      rw [Option.some.injEq] at hp
      subst hp
      exact ⟨_, hmoved.this, by rw [hk], rfl⟩
    · exact hmoved.table h hp nofun
  · intro k q owner req hq hwaits
    rw [hpending, hrouted]
    rcases hmoved.cases hq with ⟨hk, rfl⟩ | ⟨_, hq⟩
    · obtain ⟨rfl, rfl⟩ := ReqPc.waits.inj hwaits
      rw [if_pos rfl, hk]
      exact ⟨rfl, List.mem_append_right _ (List.mem_singleton_self _)⟩
    · obtain ⟨hlisted, hmem⟩ := h.listed k q owner req hq hwaits
      rw [if_neg (hold _ _ hlisted)]
      exact ⟨hlisted, List.mem_append_left _ hmem⟩
  · rw [hrouted, hnextReq]
    intro e he
    rcases List.mem_append.mp he with he | he
    · obtain ⟨hlt, hplace⟩ := hmoved.routed h (.inl trivial) e he
      exact ⟨Nat.lt_succ_of_lt hlt, hplace⟩
    · rw [List.mem_singleton.mp he]
      exact ⟨Nat.lt_succ_self _, _, hmoved.this, .inl rfl⟩
  · rw [hrouted, List.pairwise_append]
    refine ⟨h.separate, List.pairwise_singleton _ _, fun a ha b hb => ?_⟩
    rw [List.mem_singleton.mp hb]
    exact ⟨(hnew a ha).2, (hnew a ha).1⟩
  · rw [hanswers]
    exact hmoved.given h nofun
  · rw [hanswers]
    exact hmoved.answered h nofun
  · rw [hanswers]
    exact h.once
  · refine hmoved.sourced h (by rw [hrouted]; exact List.subset_append_left _ _)
      (by rw [hreplied]; exact List.Subset.refl _) (by rw [hserved]; exact List.Subset.refl _)
      fun result hres => ?_
    rcases hres with hres | hres <;> cases hres
  · rw [hanswers, hhub]
    exact h.queued

/-- A new request. -/
theorem FileInv.ask {s : FileRun} (h : FileInv s) (waiting : Waiting) (args : ReadArgs) :
    FileInv { s with
      requests := s.requests.put s.nextRid ⟨waiting, args, .start⟩
      nextRid := s.nextRid + 1 } := by
  -- the requests there were are still there, and the only other one has just begun
  have hold : ∀ rid r, s.requests.get? rid = some r →
      (s.requests.put s.nextRid ⟨waiting, args, .start⟩).get? rid = some r := by
    intro rid r hr
    rw [Dict.get?_put, if_neg (Nat.ne_of_lt (h.fresh rid r hr))]
    exact hr
  have hcases : ∀ rid r, (s.requests.put s.nextRid ⟨waiting, args, .start⟩).get? rid = some r →
      r.pc = .start ∨ s.requests.get? rid = some r := by
    intro rid r hr
    rw [Dict.get?_put] at hr
    split at hr
    · rw [Option.some.injEq] at hr
      exact .inl (by rw [← hr])
    · exact .inr hr
  -- the fields in their order: a request that has just begun waits for nothing and has nothing
  constructor
  · intro rid r hr
    rw [Dict.get?_put] at hr
    split at hr
    · next he => rw [he]; exact Nat.lt_succ_self _
    · exact Nat.lt_succ_of_lt (h.fresh rid r hr)
  · intro req p hp
    obtain ⟨r, hr, hrest⟩ := h.table req p hp
    exact ⟨r, hold _ r hr, hrest⟩
  · intro rid r owner req hr hwaits
    rcases hcases rid r hr with hstart | hr
    · rw [hstart] at hwaits; cases hwaits
    · exact h.listed rid r owner req hr hwaits
  · intro e he
    obtain ⟨hlt, r, hr, hlate⟩ := h.routed e he
    exact ⟨hlt, r, hold _ r hr, hlate⟩
  · exact h.separate
  · intro a ha
    obtain ⟨r, hr, hrest⟩ := h.given a ha
    exact ⟨r, hold _ r hr, hrest⟩
  · intro rid r result hr hdone
    rcases hcases rid r hr with hstart | hr
    · rw [hstart] at hdone; cases hdone
    · exact h.answered rid r result hr hdone
  · exact h.once
  · intro rid r result hr hres
    rcases hcases rid r hr with hstart | hr
    · rw [hstart] at hres
      rcases hres with hres | hres <;> cases hres
    · exact h.sourced rid r result hr hres
  · exact h.queued

/-- **One step keeps the invariant.** -/
theorem fileInv_step {s s' : FileRun} {l : FileLabel} (h : FileInv s) (hs : FileStep s l s') :
    FileInv s' := by
  have hsame : ∀ {s₁ : FileRun}, s₁.hub = s.hub → ∀ name e' m,
      s₁.hub.clients.get? name = some e' → m ∈ e'.outbox → m.msg.fileReply?.isSome = true →
      ∃ e, s.hub.clients.get? name = some e ∧ m ∈ e.outbox := by
    intro s₁ hhub name e' m he' hm _
    exact ⟨e', hhub ▸ he', hm⟩
  cases hs with
  | ask => exact h.ask _ _
  | ownerNone hr =>
    exact h.advance (.inHand (.err .notFound)) hr trivial (.inr ⟨_, rfl⟩) rfl rfl rfl rfl rfl rfl
      (List.Subset.refl _) (fun _ he => .inl (ReqPc.inHand.inj he).symm) rfl
  | ownerServer hr =>
    exact h.advance .reading hr trivial (.inl trivial) rfl rfl rfl rfl rfl rfl
      (List.Subset.refl _) nofun rfl
  | @ownerClient rid waiting args name hr howner =>
    exact h.advance (.toInsert name) hr trivial (.inl trivial) rfl rfl rfl rfl rfl rfl
      (List.Subset.refl _) nofun rfl
  | insert hr => exact h.insert hr _
  | sent hsend =>
    exact h.frame rfl rfl rfl rfl rfl rfl (List.Subset.refl _) (List.Subset.refl _)
      fun _ _ _ he' hm hreply => FileRun.send_hub (p := fun m => m.fileReply?.isSome) he' hm hreply rfl
  | unsent hsend =>
    exact h.frame rfl rfl rfl rfl rfl rfl (List.Subset.refl _) (List.Subset.refl _) (hsame rfl)
  | @retract rid req hsend =>
    exact (h.refuse req).frame rfl rfl rfl rfl rfl rfl (List.Subset.refl _) (List.Subset.refl _)
      fun _ e' _ he' hm _ => ⟨e', he', hm⟩
  | @serve rid disk waiting args hr =>
    refine h.advance _ hr trivial (.inr ⟨_, rfl⟩) rfl rfl rfl rfl rfl rfl
      (List.subset_append_left _ _)
      (fun result hread => .inr (.inr ⟨s.router.localOwner, disk, ?_, ?_⟩)) rfl
    · exact List.mem_append_right _ (List.mem_singleton_self _)
    · exact ReqPc.inHand.inj hread
  | deliver hd => exact h.deliver hd
  | announce =>
    exact h.frame rfl rfl rfl rfl rfl rfl (List.Subset.refl _) (List.Subset.refl _) (hsame rfl)
  | setLocal =>
    exact h.frame rfl rfl rfl rfl rfl rfl (List.Subset.refl _) (List.Subset.refl _) (hsame rfl)
  | @replyNone from_ req result hp =>
    exact h.resolve req _ fun p hp' => by rw [hp] at hp'; cases hp'
  | @replySome from_ req result p hp =>
    -- the reply is recorded first: it is what the answer in hand comes from
    have hlogged : FileInv { s with replied := s.replied ++ [(from_, req, result)] } :=
      h.frame rfl rfl rfl rfl rfl rfl (List.subset_append_left _ _) (List.Subset.refl _) (hsame rfl)
    have hres := hlogged.resolve req (fun sentTo => FileRouter.reply sentTo from_ result)
      fun p _ => by
        rcases FileRouter.reply_cases p.sentTo from_ result with hrefused | ⟨hfrom, hsent⟩
        · exact .inl hrefused
        · rw [hsent, hfrom]
          exact .inr (List.mem_append_right _ (List.mem_singleton_self _))
    unfold FileRun.resolve FileRouter.take at hres ⊢
    dsimp only at hres ⊢
    rw [hp] at hres ⊢
    exact hres
  | @dropOwner name =>
    have hkeeps := s.router.dropOwner_keeps name
    exact h.frame rfl rfl hkeeps.1 hkeeps.2 rfl rfl (List.Subset.refl _) (List.Subset.refl _)
      (hsame rfl)
  | collect hc =>
    exact h.frame rfl rfl rfl rfl rfl rfl (List.Subset.refl _) (List.Subset.refl _) (hsame rfl)
  | @answerStale cid req reqs hc =>
    exact (h.refuse req).frame rfl rfl rfl rfl rfl rfl (List.Subset.refl _) (List.Subset.refl _)
      fun _ e' _ he' hm _ => ⟨e', he', hm⟩
  | register hfree =>
    exact h.frame rfl rfl rfl rfl rfl rfl (List.Subset.refl _) (List.Subset.refl _)
      fun _ _ _ he' hm _ => FileRun.register_hub he' hm
  | unregister =>
    exact h.frame rfl rfl rfl rfl rfl rfl (List.Subset.refl _) (List.Subset.refl _)
      fun _ _ _ he' hm _ => FileRun.unregister_hub he' hm
  | consume he =>
    exact h.frame rfl rfl rfl rfl rfl rfl (List.Subset.refl _) (List.Subset.refl _)
      fun _ _ _ he' hm _ => FileRun.consume_hub he he' hm
  | traffic hreply hread =>
    exact h.frame rfl rfl rfl rfl rfl rfl (List.Subset.refl _) (List.Subset.refl _)
      fun _ _ _ he' hm hreply' =>
        FileRun.send_hub (p := fun m => m.fileReply?.isSome) he' hm hreply' (by rw [hreply]; rfl)

/-- **The invariant of the requests holds in every state reached.** -/
theorem fileInv_reach {ok : FileRun → FileLabel → Prop} {s : FileRun}
    (hs : fileRuns.Reach ok s) : FileInv s := by
  refine Lts.Reach.invariant (P := FileInv) ?_ ?_ hs
  · rintro _ rfl
    exact fileInv_start
  · intro _ _ _ _ ih _ hl
    exact fileInv_step ih (fileStep_of_step hl)

/-! ## What owners are asked

What an owner is asked is what somebody wanted to read. -/

/-- What is left to send, and what is queued, asks for what the numbered request asks. -/
structure ReadInv (s : FileRun) : Prop where
  sending : ∀ rid owner req args, s.sends.get? rid = some (.toSend owner req args) →
    ⟨rid, owner, req⟩ ∈ s.routed ∧ ∃ waiting, s.origin rid = some (waiting, args)
  asked : ∀ name e m req args, s.hub.clients.get? name = some e → m ∈ e.outbox →
    m.msg.fileRead? = some (req, args) →
    ∃ rid waiting, ⟨rid, name, req⟩ ∈ s.routed ∧ s.origin rid = some (waiting, args)

/-- A step after which every send was to be done before, and every read was queued before. -/
theorem ReadInv.frame {s s' : FileRun} {l : FileLabel} (h : ReadInv s) (hinv : FileInv s)
    (hs : FileStep s l s')
    (hsends : ∀ rid owner req args, s'.sends.get? rid = some (.toSend owner req args) →
      s.sends.get? rid = some (.toSend owner req args))
    (hhub : ∀ name e' m, s'.hub.clients.get? name = some e' → m ∈ e'.outbox →
      m.msg.fileRead?.isSome = true → ∃ e, s.hub.clients.get? name = some e ∧ m ∈ e.outbox) :
    ReadInv s' := by
  obtain ⟨horigin, hrouted⟩ := hs.origin hinv.fresh
  constructor
  · intro rid owner req args hsend
    obtain ⟨hmem, waiting, ho⟩ := h.sending rid owner req args (hsends rid owner req args hsend)
    exact ⟨hrouted hmem, waiting, horigin rid _ ho⟩
  · intro name e' m req args he' hm hmsg
    obtain ⟨e, he, hmem⟩ := hhub name e' m he' hm (by rw [hmsg]; rfl)
    obtain ⟨rid, waiting, hr, ho⟩ := h.asked name e m req args he hmem hmsg
    exact ⟨rid, waiting, hrouted hr, horigin rid _ ho⟩

/-- A read of a client becomes one request, under the number the client gave it. -/
theorem readInv_step {s s' : FileRun} {l : FileLabel} (hinv : FileInv s) (h : ReadInv s)
    (hs : FileStep s l s') : ReadInv s' := by
  have hstep := hs
  cases hs with
  | @insert rid waiting args name hr =>
    obtain ⟨horigin, hrouted⟩ := hstep.origin hinv.fresh
    have ho : s.origin rid = some (waiting, args) := by
      unfold FileRun.origin
      rw [hr]; rfl
    refine ⟨fun rid' owner req args' hsend => ?_, fun name' e m req args' he hm hmsg => ?_⟩
    · rw [Dict.get?_put] at hsend
      split at hsend
      · next he =>
        obtain ⟨rfl, rfl, rfl⟩ := SendPc.toSend.inj (Option.some.inj hsend)
        rw [he]
        exact ⟨List.mem_append_right _ (List.mem_singleton_self _), waiting, horigin rid _ ho⟩
      · obtain ⟨hmem, w, ho'⟩ := h.sending rid' owner req args' hsend
        exact ⟨hrouted hmem, w, horigin rid' _ ho'⟩
    · obtain ⟨rid', w, hmem, ho'⟩ := h.asked name' e m req args' he hm hmsg
      exact ⟨rid', w, hrouted hmem, horigin rid' _ ho'⟩
  | @sent rid req name a hsend =>
    -- the read just queued was to be sent
    refine ⟨fun rid' owner req' args' hsend' => ?_, fun name' e' m req' args' he' hm hmsg => ?_⟩
    · rw [Dict.get?_drop] at hsend'
      split at hsend'
      · cases hsend'
      · exact h.sending rid' owner req' args' hsend'
    · dsimp only at he'
      rw [Hub.send_get?] at he'
      split at he'
      · next hname =>
        obtain ⟨e, he, rfl⟩ := Option.map_eq_some_iff.mp he'
        rcases List.mem_append.mp hm with hm | hm
        · exact h.asked name' e m req' args' (hname ▸ he) hm hmsg
        · rw [List.mem_singleton.mp hm] at hmsg
          obtain ⟨rfl, rfl⟩ := Prod.mk.inj (Option.some.inj hmsg)
          obtain ⟨hmem, w, ho⟩ := h.sending rid name req a hsend
          exact ⟨rid, w, hname ▸ hmem, ho⟩
      · exact h.asked name' e' m req' args' he' hm hmsg
  | @unsent rid req name a hsend =>
    refine h.frame hinv hstep (fun rid' owner req' args' hsend' => ?_)
      fun _ e' _ he' hm _ => ⟨e', he', hm⟩
    rw [Dict.get?_put] at hsend'
    split at hsend'
    · cases hsend'
    · exact hsend'
  | @retract rid req hsend =>
    refine h.frame hinv hstep (fun rid' owner req' args' hsend' => ?_)
      fun _ _ _ he' hm hread => FileRun.refuse_hub_reads he' hm hread
    rw [Dict.get?_drop] at hsend'
    split at hsend'
    · cases hsend'
    · exact hsend'
  | @answerStale cid req reqs hc =>
    refine h.frame hinv hstep (fun _ _ _ _ hsend => ?_)
      fun _ _ _ he' hm hread => FileRun.refuse_hub_reads he' hm hread
    rw [← (s.refuse_frame req).2.1]
    exact hsend
  | deliver hd =>
    exact h.frame hinv hstep (fun _ _ _ _ hsend => (FileRun.deliver_frame hd).2.1 ▸ hsend)
      fun _ _ _ he' hm hread => FileRun.deliver_hub_reads hd he' hm hread
  | @replyNone from_ req result hp =>
    obtain ⟨-, hhub, hsends, -⟩ :=
      s.resolve_frame req fun sentTo => FileRouter.reply sentTo from_ result
    exact h.frame hinv hstep (fun _ _ _ _ hsend => hsends ▸ hsend)
      fun _ e' _ he' hm _ => ⟨e', hhub ▸ he', hm⟩
  | @replySome from_ req result p hp =>
    obtain ⟨-, hhub, hsends, -⟩ :=
      s.resolve_frame req fun sentTo => FileRouter.reply sentTo from_ result
    exact h.frame hinv hstep (fun _ _ _ _ hsend => hsends ▸ hsend)
      fun _ e' _ he' hm _ => ⟨e', hhub ▸ he', hm⟩
  | register hfree =>
    exact h.frame hinv hstep (fun _ _ _ _ hsend => hsend)
      fun _ _ _ he' hm _ => FileRun.register_hub he' hm
  | unregister =>
    exact h.frame hinv hstep (fun _ _ _ _ hsend => hsend)
      fun _ _ _ he' hm _ => FileRun.unregister_hub he' hm
  | consume he =>
    exact h.frame hinv hstep (fun _ _ _ _ hsend => hsend)
      fun _ _ _ he' hm _ => FileRun.consume_hub he he' hm
  | traffic hreply hread =>
    exact h.frame hinv hstep (fun _ _ _ _ hsend => hsend) fun _ _ _ he' hm hread' =>
      FileRun.send_hub (p := fun m => m.fileRead?.isSome) he' hm hread' (by rw [hread]; rfl)
  | ask => exact h.frame hinv hstep (fun _ _ _ _ hs => hs) fun _ e' _ he' hm _ => ⟨e', he', hm⟩
  | ownerNone hr =>
    exact h.frame hinv hstep (fun _ _ _ _ hs => hs) fun _ e' _ he' hm _ => ⟨e', he', hm⟩
  | ownerServer hr =>
    exact h.frame hinv hstep (fun _ _ _ _ hs => hs) fun _ e' _ he' hm _ => ⟨e', he', hm⟩
  | ownerClient hr howner =>
    exact h.frame hinv hstep (fun _ _ _ _ hs => hs) fun _ e' _ he' hm _ => ⟨e', he', hm⟩
  | serve hr => exact h.frame hinv hstep (fun _ _ _ _ hs => hs) fun _ e' _ he' hm _ => ⟨e', he', hm⟩
  | announce => exact h.frame hinv hstep (fun _ _ _ _ hs => hs) fun _ e' _ he' hm _ => ⟨e', he', hm⟩
  | setLocal => exact h.frame hinv hstep (fun _ _ _ _ hs => hs) fun _ e' _ he' hm _ => ⟨e', he', hm⟩
  | dropOwner =>
    exact h.frame hinv hstep (fun _ _ _ _ hs => hs) fun _ e' _ he' hm _ => ⟨e', he', hm⟩
  | collect hc =>
    exact h.frame hinv hstep (fun _ _ _ _ hs => hs) fun _ e' _ he' hm _ => ⟨e', he', hm⟩

/-- **So it is in every state reached.** -/
theorem readInv_reach {ok : FileRun → FileLabel → Prop} {s : FileRun}
    (hs : fileRuns.Reach ok s) : ReadInv s := by
  refine Lts.Reach.invariant (P := ReadInv) ?_ ?_ hs
  · rintro _ rfl
    constructor <;> simp
  · intro _ _ _ hreach ih _ hl
    exact readInv_step (fileInv_reach hreach) ih (fileStep_of_step hl)

/-! ## Answers still owed

No request is lost: it is answered, or an answer is still owed by somebody. -/

/-- Request `rid` has still to be answered, to `waiting`. -/
def FileRun.Owed (s : FileRun) (rid : Nat) (waiting : Waiting) : Prop :=
  ∃ r, s.requests.get? rid = some r ∧ r.waiting = waiting ∧ ∀ result, r.pc ≠ .answered result

namespace FileRun

/-- Moving an unanswered request on makes nothing owed that was not. -/
theorem owed_of_setPc {s : FileRun} {rid rid' : Nat} {pc : ReqPc} {waiting : Waiting}
    (hopen : ∀ r, s.requests.get? rid = some r → ∀ result, r.pc ≠ .answered result)
    (h : (s.setPc rid pc).Owed rid' waiting) : s.Owed rid' waiting := by
  obtain ⟨r', hr', hw, hpc⟩ := h
  rw [setPc_get?] at hr'
  split at hr'
  · next he =>
    obtain ⟨r, hr, rfl⟩ := Option.map_eq_some_iff.mp hr'
    exact ⟨r, hr, hw, hopen r (he ▸ hr)⟩
  · exact ⟨r', hr', hw, hpc⟩

/-- An answer still owed after a reply was taken was owed before. -/
theorem owed_of_resolve {s : FileRun} (hinv : FileInv s) {req rid : Nat}
    {verdict : String → FileReadResult} {waiting : Waiting}
    (h : (s.resolve req verdict).1.Owed rid waiting) : s.Owed rid waiting := by
  unfold resolve FileRouter.take at h
  cases hp : s.router.pending.get? req with
  | none => rw [hp] at h; exact h
  | some p =>
    rw [hp] at h
    obtain ⟨r, hr, hwaits, -⟩ := hinv.table req p hp
    have howed := owed_of_setPc (fun r' hr' result hdone => ?_) h
    · exact howed
    · rw [show s.requests.get? p.waiting.2 = some r' from hr', Option.some.injEq] at hr
      rw [← hr, hdone] at hwaits
      cases hwaits

/-- An answer still owed after a delivery was owed before. -/
theorem owed_of_deliver {s s' : FileRun} {rid rid' : Nat} {waiting : Waiting}
    (hd : s.deliver rid = some s') (h : s'.Owed rid' waiting) : s.Owed rid' waiting := by
  unfold deliver at hd
  split at hd
  case h_2 => cases hd
  next w args result hr =>
  rw [Option.some.injEq] at hd
  subst hd
  refine owed_of_setPc (fun r hr' result' hdone => ?_) h
  rw [hr, Option.some.injEq] at hr'
  rw [← hr'] at hdone
  cases hdone

/-- An answer still owed after a request was taken back was owed before. -/
theorem owed_of_refuse {s : FileRun} (hinv : FileInv s) {req rid : Nat} {waiting : Waiting}
    (h : (s.refuse req).Owed rid waiting) : s.Owed rid waiting := by
  refine owed_of_resolve hinv (show (s.resolve req fun _ => .err .notFound).1.Owed rid waiting from ?_)
  unfold refuse at h
  generalize s.resolve req (fun _ => .err .notFound) = out at *
  obtain ⟨s₁, found⟩ := out
  cases found with
  | none => exact h
  | some rid₀ =>
    dsimp only at h ⊢
    cases hd : s₁.deliver rid₀ with
    | none => rw [hd] at h; exact h
    | some s₂ => rw [hd] at h; exact owed_of_deliver hd h

/-- A reply queued by a delivery answers what was owed to that client under that number. -/
theorem deliver_queued {s s' : FileRun} {rid : Nat} (hd : s.deliver rid = some s') {name : String}
    {e' : Entry Tagged} {m : Tagged} {req : Nat} {result : FileReadResult}
    (he' : s'.hub.clients.get? name = some e') (hm : m ∈ e'.outbox)
    (hmsg : m.msg.fileReply? = some (req, result)) :
    (∃ e, s.hub.clients.get? name = some e ∧ m ∈ e.outbox)
      ∨ ∃ rid, m.answers = some rid ∧ s.Owed rid (.toClient name req) := by
  obtain ⟨-, -, -, -, -, -, waiting, args, res, hr, hhub⟩ := deliver_frame hd
  rw [hhub] at he'
  cases waiting with
  | toLocal tx => exact .inl ⟨e', he', hm⟩
  | toClient to_ req' =>
    simp only [FileRouter.deliver, Hub.send_get?] at he'
    split at he'
    · next hname =>
      obtain ⟨e, he, rfl⟩ := Option.map_eq_some_iff.mp he'
      rcases List.mem_append.mp hm with hm | hm
      · exact .inl ⟨e, hname ▸ he, hm⟩
      · rw [List.mem_singleton.mp hm] at hmsg ⊢
        obtain ⟨rfl, -⟩ := Prod.mk.inj (Option.some.inj hmsg)
        exact .inr ⟨rid, rfl, _, hr, by rw [hname], nofun⟩
    · exact .inl ⟨e', he', hm⟩

/-- A reply in a queue after a request was taken back was there before, or is the refusal that was
owed. -/
theorem refuse_queued {s : FileRun} (hinv : FileInv s) {req₀ : Nat} {name : String}
    {e' : Entry Tagged} {m : Tagged} {req : Nat} {result : FileReadResult}
    (he' : (s.refuse req₀).hub.clients.get? name = some e') (hm : m ∈ e'.outbox)
    (hmsg : m.msg.fileReply? = some (req, result)) :
    (∃ e, s.hub.clients.get? name = some e ∧ m ∈ e.outbox)
      ∨ ∃ rid, m.answers = some rid ∧ s.Owed rid (.toClient name req) := by
  have howed : ∀ rid, (s.resolve req₀ fun _ => .err .notFound).1.Owed rid (.toClient name req) →
      s.Owed rid (.toClient name req) := fun rid => owed_of_resolve hinv
  unfold refuse at he'
  obtain ⟨-, hhub, -⟩ := s.resolve_frame req₀ fun _ => .err .notFound
  generalize s.resolve req₀ (fun _ => .err .notFound) = out at *
  obtain ⟨s₁, found⟩ := out
  dsimp only at *
  cases found with
  | none => exact .inl ⟨e', hhub ▸ he', hm⟩
  | some rid₀ =>
    dsimp only at he'
    cases hd : s₁.deliver rid₀ with
    | none =>
      rw [hd, Option.getD_none, hhub] at he'
      exact .inl ⟨e', he', hm⟩
    | some s₂ =>
      rw [hd, Option.getD_some] at he'
      rcases deliver_queued hd he' hm hmsg with hold | ⟨rid, ha, ho⟩
      · rw [hhub] at hold
        exact .inl hold
      · exact .inr ⟨rid, ha, howed rid ho⟩

end FileRun

/-- A step makes nothing owed but what it asks. -/
theorem FileStep.owed {s s' : FileRun} {l : FileLabel} (hinv : FileInv s) (h : FileStep s l s')
    {rid : Nat} {waiting : Waiting} (ho : s'.Owed rid waiting) :
    s.Owed rid waiting ∨ (∃ args, l = .ask waiting args) ∧ rid = s.nextRid := by
  have hopen : ∀ {rid : Nat} {r : FileReq}, s.requests.get? rid = some r →
      (∀ result, r.pc ≠ .answered result) →
      ∀ r', s.requests.get? rid = some r' → ∀ result, r'.pc ≠ .answered result := by
    intro rid r hr hpc r' hr'
    rw [hr, Option.some.injEq] at hr'
    exact hr' ▸ hpc
  cases h with
  | @ask w args =>
    obtain ⟨r, hr, hw, hpc⟩ := ho
    rw [Dict.get?_put] at hr
    split at hr
    · next he =>
      obtain rfl := Option.some.inj hr
      exact .inr ⟨⟨args, by rw [← hw]⟩, he⟩
    · exact .inl ⟨r, hr, hw, hpc⟩
  | ownerNone hr => exact .inl (FileRun.owed_of_setPc (hopen hr nofun) ho)
  | ownerServer hr => exact .inl (FileRun.owed_of_setPc (hopen hr nofun) ho)
  | ownerClient hr howner => exact .inl (FileRun.owed_of_setPc (hopen hr nofun) ho)
  | insert hr => exact .inl (FileRun.owed_of_setPc (hopen hr nofun) ho)
  | serve hr => exact .inl (FileRun.owed_of_setPc (hopen hr nofun) ho)
  | retract hsend => exact .inl (FileRun.owed_of_refuse hinv ho)
  | answerStale hc => exact .inl (FileRun.owed_of_refuse hinv ho)
  | deliver hd => exact .inl (FileRun.owed_of_deliver hd ho)
  | replyNone hp => exact .inl (FileRun.owed_of_resolve hinv ho)
  | replySome hp => exact .inl (FileRun.owed_of_resolve hinv ho)
  | sent hsend => exact .inl ho
  | unsent hsend => exact .inl ho
  | announce => exact .inl ho
  | setLocal => exact .inl ho
  | dropOwner => exact .inl ho
  | collect hc => exact .inl ho
  | register hfree => exact .inl ho
  | unregister => exact .inl ho
  | consume he => exact .inl ho
  | traffic hreply hread => exact .inl ho

/-- A file reply in an outbox was there before, or answers what was owed to that client under
that number. -/
theorem FileStep.queued {s s' : FileRun} {l : FileLabel} (hinv : FileInv s) (h : FileStep s l s')
    {name : String} {e' : Entry Tagged} {m : Tagged} {req : Nat} {result : FileReadResult}
    (he' : s'.hub.clients.get? name = some e') (hm : m ∈ e'.outbox)
    (hmsg : m.msg.fileReply? = some (req, result)) :
    (∃ e, s.hub.clients.get? name = some e ∧ m ∈ e.outbox)
      ∨ ∃ rid, m.answers = some rid ∧ s.Owed rid (.toClient name req) := by
  have hreply : m.msg.fileReply?.isSome = true := by rw [hmsg]; rfl
  cases h with
  | sent hsend =>
    exact .inl (FileRun.send_hub (p := fun m => m.fileReply?.isSome) he' hm hreply rfl)
  | traffic hreply' hread =>
    exact .inl (FileRun.send_hub (p := fun m => m.fileReply?.isSome) he' hm hreply
      (by rw [hreply']; rfl))
  | retract hsend => exact FileRun.refuse_queued hinv he' hm hmsg
  | answerStale hc => exact FileRun.refuse_queued hinv he' hm hmsg
  | deliver hd => exact FileRun.deliver_queued hd he' hm hmsg
  | @replyNone from_ req result hp =>
    rw [(s.resolve_frame req fun sentTo => FileRouter.reply sentTo from_ result).2.1] at he'
    exact .inl ⟨e', he', hm⟩
  | @replySome from_ req result p hp =>
    dsimp only at he'
    rw [(s.resolve_frame req fun sentTo => FileRouter.reply sentTo from_ result).2.1] at he'
    exact .inl ⟨e', he', hm⟩
  | register hfree => exact .inl (FileRun.register_hub he' hm)
  | unregister => exact .inl (FileRun.unregister_hub he' hm)
  | consume he => exact .inl (FileRun.consume_hub he he' hm)
  | ask => exact .inl ⟨e', he', hm⟩
  | ownerNone hr => exact .inl ⟨e', he', hm⟩
  | ownerServer hr => exact .inl ⟨e', he', hm⟩
  | ownerClient hr howner => exact .inl ⟨e', he', hm⟩
  | insert hr => exact .inl ⟨e', he', hm⟩
  | unsent hsend => exact .inl ⟨e', he', hm⟩
  | serve hr => exact .inl ⟨e', he', hm⟩
  | announce => exact .inl ⟨e', he', hm⟩
  | setLocal => exact .inl ⟨e', he', hm⟩
  | dropOwner => exact .inl ⟨e', he', hm⟩
  | collect hc => exact .inl ⟨e', he', hm⟩

/-- **Requests are conserved**: in every reachable state, whatever the order of requests,
announcements, replies and disconnects. -/
theorem file_requests_conserved {s : FileRun} (hs : fileRuns.Reachable s) : s.Conserved := by
  have h := fileInv_reach hs
  refine ⟨h.once, fun a ha => ?_, h.queued, h.separate, fun a ha => ?_, (readInv_reach hs).asked, ?_⟩
  -- an answer goes to whoever asked
  · obtain ⟨r, hr, -, hw⟩ := h.given a ha
    rw [hr, ← hw]; rfl
  -- and is what the owner replied, or that there is nothing
  · obtain ⟨r, hr, hdone, -⟩ := h.given a ha
    exact (h.sourced a.rid r a.result hr (.inr hdone)).imp id fun hsrc => ⟨r, hr, hsrc⟩
  -- the table has the requests that were sent on and not answered yet
  · intro req owner waiting rid
    constructor
    · intro hp
      obtain ⟨r, hr, hwaits, hw⟩ := h.table req _ hp
      refine ⟨(h.listed rid r owner req hr hwaits).2, fun hmem => ?_, r, hr, hw, ?_⟩
      · obtain ⟨a, ha, harid⟩ := List.mem_map.mp hmem
        obtain ⟨r', hr', hdone, -⟩ := h.given a ha
        rw [harid, hr, Option.some.injEq] at hr'
        rw [← hr', hwaits] at hdone
        cases hdone
      · intro res hin
        rw [hwaits] at hin
        cases hin
    · rintro ⟨hrouted, hopen, r, hr, rfl, hnotin⟩
      obtain ⟨-, r', hr', hlate⟩ := h.routed _ hrouted
      rw [hr, Option.some.injEq] at hr'
      subst hr'
      -- who was sent on waits, has the answer in hand, or was answered
      rcases hlate with hwaits | ⟨result, hin | hdone⟩
      · exact (h.listed rid r owner req hr hwaits).1
      · exact absurd hin (hnotin result)
      · exact absurd (h.answered rid r result hr hdone) hopen

/-- "a" and "b" both ask "c" under their own number 7. "a" forges the answer to the request of
"b", which is refused, and "c" answers that of "a" twice. -/
theorem file_requests_conserved_forged :
    ∃ s, fileRuns.Reachable s
      ∧ s.answers = [⟨0, .toClient "a" 7, .data [1]⟩, ⟨1, .toClient "b" 7, .err .notFound⟩]
      ∧ s.Conserved := by
  let labels : List FileLabel :=
    [.register "a" [], .register "b" [], .register "c" [], .announce (.client "c") 1 ⟨[⟨"f", 8, false⟩]⟩,
      .ask (.toClient "a" 7) ⟨1, 0, 0, 4⟩, .ask (.toClient "b" 7) ⟨1, 0, 4, 4⟩,
      .readOwner 0, .readOwner 1, .insert 0, .insert 1, .send 1, .send 0,
      .reply "a" 2 (.data [9]), .reply "c" 1 (.data [1]), .reply "c" 1 (.data [2]),
      .deliver 0, .deliver 1]
  have hend : (fileRuns.run {} labels).map (·.answers)
      = some [⟨0, .toClient "a" 7, .data [1]⟩, ⟨1, .toClient "b" 7, .err .notFound⟩] := by decide
  obtain ⟨s, hs, hanswers⟩ := Option.map_eq_some_iff.mp hend
  have hreach : fileRuns.Reachable s := Lts.reachable_of_run rfl hs
  exact ⟨s, hreach, hanswers, file_requests_conserved hreach⟩

end GeserDesk
