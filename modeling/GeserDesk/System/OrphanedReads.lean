import GeserDesk.System.FileSessions

/-!
# Requests whose owner is gone

A request in the table waits for the client it was sent to, or for the clean-up that client's
session runs at its end. `on_disconnected` runs before the registration is dropped, and `route`
reads the owner, enters the request and sends it in three steps: a request entered for a client
whose clean-up has already looked for stale ones is sent into an outbox nobody empties, and no
one will answer it.

* **`no_orphans`**: no such request is left in any run in which requests are entered in time
  (`EnteredInTime`).
* **`late_insert_is_orphaned`**: one that is entered between the clean-up and the dropped
  registration stays in the table for good.
-/

namespace GeserDesk

/-! ## What a step does to the table and to the clean-ups

A step puts an entry in, takes entries out, or leaves the table alone. -/

inductive TableStep (s : FileRun) : FileLabel → FileRun → Prop where
  | keep {l : FileLabel} {s' : FileRun}
      (hpending : ∀ req p, s'.router.pending.get? req = some p →
        s.router.pending.get? req = some p)
      (hcleanups : s'.cleanups = s.cleanups) (hnext : s'.nextCleanup = s.nextCleanup)
      (hdrop : ∀ name, l ≠ .dropOwner name) : TableStep s l s'
  | insert {rid : Nat} {s' : FileRun} {waiting : Waiting} {args : ReadArgs} {name : String}
      (hr : s.requests.get? rid = some ⟨waiting, args, .toInsert name⟩)
      (hpending : s'.router.pending
        = s.router.pending.put s.router.nextReq ⟨name, (waiting, rid)⟩)
      (hcleanups : s'.cleanups = s.cleanups) (hnext : s'.nextCleanup = s.nextCleanup) :
      TableStep s (.insert rid) s'
  | begin {name : String} {s' : FileRun} (hpending : s'.router.pending = s.router.pending)
      (hcleanups : s'.cleanups = s.cleanups.put s.nextCleanup (.toCollect name))
      (hnext : s'.nextCleanup = s.nextCleanup + 1) : TableStep s (.dropOwner name) s'
  | collect {cid : Nat} {s' : FileRun} {name : String}
      (hc : s.cleanups.get? cid = some (.toCollect name))
      (hpending : s'.router.pending = s.router.pending)
      (hcleanups : s'.cleanups = s.cleanups.put cid (.toAnswer (s.router.stale name)))
      (hnext : s'.nextCleanup = s.nextCleanup) : TableStep s (.collect cid) s'
  | answer {cid req : Nat} {s' : FileRun} {reqs : List Nat}
      (hc : s.cleanups.get? cid = some (.toAnswer (req :: reqs)))
      (hpending : s'.router.pending = s.router.pending.drop req)
      (hcleanups : s'.cleanups = s.cleanups.put cid (.toAnswer reqs))
      (hnext : s'.nextCleanup = s.nextCleanup) : TableStep s (.answerStale cid) s'

/-- Every step is, to the table of reads, one of those of `TableStep`. -/
theorem FileStep.table {s s' : FileRun} {l : FileLabel} (h : FileStep s l s') :
    TableStep s l s' := by
  -- an answer takes its own entry out of the table
  have hdrop : ∀ {s₁ : FileRun} (req : Nat),
      s₁.router = { s.router with pending := s.router.pending.drop req } →
      ∀ k p, s₁.router.pending.get? k = some p → s.router.pending.get? k = some p := by
    intro s₁ req hrouter k p hp
    rw [hrouter, Dict.get?_drop] at hp
    split at hp
    · cases hp
    · exact hp
  cases h with
  -- an entry is put in, or the clean-up takes those of a name that left
  | insert hr => exact .insert hr rfl rfl rfl
  | @dropOwner name => exact .begin (s.router.dropOwner_keeps name).1 rfl rfl
  | collect hc => exact .collect hc rfl rfl rfl
  | @answerStale cid req reqs hc =>
    obtain ⟨hrouter, -, -, hnext, -, -⟩ := s.refuse_frame req
    exact .answer hc (congrArg FileRouter.pending hrouter) rfl hnext
  -- every other step keeps the table or drops one entry
  | @retract rid req hsend =>
    obtain ⟨hrouter, -, hcleanups, hnext, -, -⟩ := s.refuse_frame req
    exact .keep (hdrop req hrouter) hcleanups hnext nofun
  | deliver hd =>
    obtain ⟨hrouter, -, hcleanups, hnext, -, -, -⟩ := FileRun.deliver_frame hd
    exact .keep (fun k p hp => hrouter ▸ hp) hcleanups hnext nofun
  | @replyNone from_ req result hp =>
    obtain ⟨hrouter, -, -, hcleanups, hnext, -, -⟩ :=
      s.resolve_frame req fun sentTo => FileRouter.reply sentTo from_ result
    exact .keep (hdrop req hrouter) hcleanups hnext nofun
  | @replySome from_ req result p hp =>
    obtain ⟨hrouter, -, -, hcleanups, hnext, -, -⟩ :=
      s.resolve_frame req fun sentTo => FileRouter.reply sentTo from_ result
    exact .keep (hdrop req hrouter) hcleanups hnext nofun
  | ask => exact .keep (fun _ _ h => h) rfl rfl nofun
  | ownerNone hr => exact .keep (fun _ _ h => h) rfl rfl nofun
  | ownerServer hr => exact .keep (fun _ _ h => h) rfl rfl nofun
  | ownerClient hr howner => exact .keep (fun _ _ h => h) rfl rfl nofun
  | sent hsend => exact .keep (fun _ _ h => h) rfl rfl nofun
  | unsent hsend => exact .keep (fun _ _ h => h) rfl rfl nofun
  | serve hr => exact .keep (fun _ _ h => h) rfl rfl nofun
  | announce => exact .keep (fun _ _ h => h) rfl rfl nofun
  | setLocal => exact .keep (fun _ _ h => h) rfl rfl nofun
  | register hfree => exact .keep (fun _ _ h => h) rfl rfl nofun
  | unregister => exact .keep (fun _ _ h => h) rfl rfl nofun
  | consume he => exact .keep (fun _ _ h => h) rfl rfl nofun
  | traffic hreply hread => exact .keep (fun _ _ h => h) rfl rfl nofun

/-- Clean-ups are numbered in order. -/
theorem cleanups_fresh {ok : FileRun → FileLabel → Prop} {s : FileRun}
    (hs : fileRuns.Reach ok s) : ∀ cid c, s.cleanups.get? cid = some c → cid < s.nextCleanup := by
  refine Lts.Reach.invariant
    (P := fun s => ∀ cid c, s.cleanups.get? cid = some c → cid < s.nextCleanup) ?_ ?_ hs
  · rintro _ rfl cid c hc
    cases hc
  · intro s l s' _ ih _ hl cid c hc
    cases (fileStep_of_step hl).table with
    | keep hpending hcleanups hnext hdrop =>
      rw [hcleanups] at hc
      exact hnext ▸ ih cid c hc
    | insert hr hpending hcleanups hnext =>
      rw [hcleanups] at hc
      exact hnext ▸ ih cid c hc
    | begin hpending hcleanups hnext =>
      rw [hcleanups, Dict.get?_put] at hc
      rw [hnext]
      split at hc
      · next he => rw [he]; exact Nat.lt_succ_self _
      · exact Nat.lt_succ_of_lt (ih cid c hc)
    | collect hc' hpending hcleanups hnext =>
      rw [hcleanups, Dict.get?_put] at hc
      rw [hnext]
      split at hc
      · next he => rw [he]; exact ih _ _ hc'
      · exact ih cid c hc
    | answer hc' hpending hcleanups hnext =>
      rw [hcleanups, Dict.get?_put] at hc
      rw [hnext]
      split at hc
      · next he => rw [he]; exact ih _ _ hc'
      · exact ih cid c hc

/-! ## Who will answer

Every entry of the table is somebody's to answer: its owner's, or a clean-up's. -/

/-- The clean-up will answer request `req`. -/
def Cleanup.Answers (req : Nat) : Cleanup → Prop
  | .toAnswer reqs => req ∈ reqs
  | .toCollect _ => False

instance (req : Nat) : DecidablePred (Cleanup.Answers req)
  | .toAnswer reqs => inferInstanceAs (Decidable (req ∈ reqs))
  | .toCollect _ => .isFalse id

/-- The connection is registered under `name`, and its clean-up has still to look for requests
sent to it. -/
def Connection.Answers (cleanups : Dict Nat Cleanup) (name : String) (c : Connection) : Prop :=
  c.name = name ∧
    match c.stage with
    | .serving => True
    | .cleaning cid => cleanups.get? cid = some (.toCollect name)
    | .gone => False

instance (cleanups : Dict Nat Cleanup) (name : String) :
    DecidablePred (Connection.Answers cleanups name) := fun c =>
  match hs : c.stage with
  | .serving => decidable_of_iff (c.name = name) (by simp [Connection.Answers, hs])
  | .cleaning cid =>
    decidable_of_iff (c.name = name ∧ cleanups.get? cid = some (.toCollect name))
      (by simp [Connection.Answers, hs])
  | .gone => .isFalse (by simp [Connection.Answers, hs])

namespace FileSessions

/-- A connection under `name` can answer, or its end will. -/
def Answerable (s : FileSessions) (name : String) : Prop :=
  s.conns.Any (Connection.Answers s.files.cleanups name)

/-- A clean-up under way will answer request `req`. -/
def BeingAnswered (s : FileSessions) (req : Nat) : Prop :=
  s.files.cleanups.Any (Cleanup.Answers req)

instance (s : FileSessions) (name : String) : Decidable (s.Answerable name) :=
  inferInstanceAs (Decidable (Dict.Any _ _))

instance (s : FileSessions) (req : Nat) : Decidable (s.BeingAnswered req) :=
  inferInstanceAs (Decidable (Dict.Any _ _))

/-- No request waits for nobody. -/
structure NoOrphans (s : FileSessions) : Prop where
  /-- Every request in the table was sent to a client registered now, or the clean-up that will
  answer it is under way. -/
  addressed : ∀ req p, s.files.router.pending.get? req = some p →
    s.files.hub.contains p.sentTo = true ∨ s.BeingAnswered req
  /-- So each will be answered: by its owner, or by the clean-up at the owner's end. -/
  answered : ∀ req p, s.files.router.pending.get? req = some p →
    s.Answerable p.sentTo ∨ s.BeingAnswered req

end FileSessions

/-- A request is entered in the table for a client only while that client is registered and its
clean-up has not looked for stale requests. -/
def EnteredInTime (s : FileSessions) : SessionLabel → Prop
  | .files (.insert rid) =>
    match s.files.requests.get? rid with
    | some ⟨_, _, .toInsert name⟩ => s.Answerable name
    | _ => True
  | _ => True

instance (s : FileSessions) (l : SessionLabel) : Decidable (EnteredInTime s l) := by
  unfold EnteredInTime
  repeat' split
  all_goals infer_instance

/-! ## The invariant

An entry put in after its owner's clean-up has looked would have nobody. -/

/-- Every request in the table has someone to answer it. -/
def Unorphaned (s : FileSessions) : Prop :=
  ∀ req p, s.files.router.pending.get? req = some p → s.Answerable p.sentTo ∨ s.BeingAnswered req

/-- A connection that moves on without its stage answers as before. -/
theorem Connection.Answers.congr {cleanups : Dict Nat Cleanup} {name : String} {c c' : Connection}
    (h : c.Answers cleanups name) (hname : c'.name = c.name) (hstage : c'.stage = c.stage) :
    c'.Answers cleanups name := by
  unfold Answers at h ⊢
  rw [hname, hstage]
  exact h

/-- What a step leaves of those who answer: the same clean-ups, and no fewer connections. -/
theorem Unorphaned.keep {s s' : FileSessions} (h : Unorphaned s)
    (hpending : ∀ req p, s'.files.router.pending.get? req = some p →
      s.files.router.pending.get? req = some p)
    (hcleanups : s'.files.cleanups = s.files.cleanups)
    (hconns : ∀ name, s.conns.Any (Connection.Answers s.files.cleanups name) →
      s'.conns.Any (Connection.Answers s.files.cleanups name)) : Unorphaned s' := by
  intro req p hp
  unfold FileSessions.Answerable FileSessions.BeingAnswered
  rw [hcleanups]
  exact (h req p (hpending req p hp)).imp (hconns _) id

/-- Changing a clean-up that was not going to collect for `name` leaves who answers there. -/
theorem Connection.Answers.of_put {cleanups : Dict Nat Cleanup} {name : String} {c : Connection}
    {cid : Nat} (h : c.Answers cleanups name)
    (hcid : cleanups.get? cid ≠ some (.toCollect name)) (cl : Cleanup) :
    c.Answers (cleanups.put cid cl) name := by
  obtain ⟨hname, hstage⟩ := h
  refine ⟨hname, ?_⟩
  cases hs : c.stage with
  | serving => trivial
  | gone => rw [hs] at hstage; exact hstage
  | cleaning cid' =>
    rw [hs] at hstage
    dsimp only at hstage ⊢
    rw [Dict.get?_put, if_neg]
    · exact hstage
    · rintro rfl
      exact hcid hstage

/-- A connection that stays where it is answers for what it did. -/
theorem any_put_same {s : FileSessions} {sid : Nat} {c c' : Connection}
    (hc : s.conns.get? sid = some c) (hname : c'.name = c.name) (hstage : c'.stage = c.stage) :
    ∀ name, s.conns.Any (Connection.Answers s.files.cleanups name) →
      (s.conns.put sid c').Any (Connection.Answers s.files.cleanups name) := by
  rintro name ⟨sid', c₀, hc₀, hans⟩
  by_cases he : sid' = sid
  · rw [he, hc, Option.some.injEq] at hc₀
    subst hc₀
    exact ⟨sid, c', by rw [Dict.get?_put, if_pos rfl], hans.congr hname hstage⟩
  · exact ⟨sid', c₀, by rw [Dict.get?_put, if_neg he]; exact hc₀, hans⟩

/-- A clean-up makes its list: a request of the name is in it, and another one has who it had. -/
theorem Unorphaned.collect {s : FileSessions} {files : FileRun} {cid : Nat} {name : String}
    (h : Unorphaned s) (hc : s.files.cleanups.get? cid = some (.toCollect name))
    (hpending : files.router.pending = s.files.router.pending)
    (hcleanups : files.cleanups
      = s.files.cleanups.put cid (.toAnswer (s.files.router.stale name))) :
    Unorphaned { s with files := files } := by
  intro req p hp
  unfold FileSessions.Answerable FileSessions.BeingAnswered
  dsimp only at hp ⊢
  rw [hpending] at hp
  rw [hcleanups]
  by_cases hname : p.sentTo = name
  · exact .inr ⟨cid, .toAnswer (s.files.router.stale name), by rw [Dict.get?_put, if_pos rfl],
      FileRouter.mem_stale.mpr ⟨p, hp, hname⟩⟩
  · rcases h req p hp with ⟨sid, c, hsid, hans⟩ | ⟨cid', cl, hcl, hans⟩
    · refine .inl ⟨sid, c, hsid, hans.of_put ?_ _⟩
      rw [hc]
      exact fun he => hname (Cleanup.toCollect.inj (Option.some.inj he)).symm
    · refine .inr ⟨cid', cl, ?_, hans⟩
      rw [Dict.get?_put, if_neg]
      · exact hcl
      · rintro rfl
        rw [hc, Option.some.injEq] at hcl
        subst hcl
        exact hans

/-- A clean-up answers one request, which is in no table and on no list any more. -/
theorem Unorphaned.answer {s : FileSessions} {files : FileRun} {cid req₀ : Nat} {reqs : List Nat}
    (h : Unorphaned s) (hc : s.files.cleanups.get? cid = some (.toAnswer (req₀ :: reqs)))
    (hpending : files.router.pending = s.files.router.pending.drop req₀)
    (hcleanups : files.cleanups = s.files.cleanups.put cid (.toAnswer reqs)) :
    Unorphaned { s with files := files } := by
  intro req p hp
  unfold FileSessions.Answerable FileSessions.BeingAnswered
  dsimp only at hp ⊢
  rw [hpending, Dict.get?_drop] at hp
  rw [hcleanups]
  split at hp
  · cases hp
  · next hne =>
    rcases h req p hp with ⟨sid, c, hsid, hans⟩ | ⟨cid', cl, hcl, hans⟩
    · refine .inl ⟨sid, c, hsid, hans.of_put ?_ _⟩
      rw [hc]
      exact fun he => (by cases he)
    · right
      by_cases hcid : cid' = cid
      · -- the list it was in is one shorter, by another request
        rw [hcid, hc, Option.some.injEq] at hcl
        subst hcl
        exact ⟨cid, .toAnswer reqs, by rw [Dict.get?_put, if_pos rfl],
          (List.mem_cons.mp hans).resolve_left hne⟩
      · exact ⟨cid', cl, by rw [Dict.get?_put, if_neg hcid]; exact hcl, hans⟩

/-- A connection ends: the clean-up that begins answers for what it answered for. -/
theorem Unorphaned.cleanup {s : FileSessions} {files : FileRun} {sid : Nat} {c : Connection}
    (hfresh : ∀ cid cl, s.files.cleanups.get? cid = some cl → cid < s.files.nextCleanup)
    (h : Unorphaned s) (hc : s.conns.get? sid = some c)
    (hpending : files.router.pending = s.files.router.pending)
    (hcleanups : files.cleanups
      = s.files.cleanups.put s.files.nextCleanup (.toCollect c.name)) :
    Unorphaned { s.setConn sid { c with stage := .cleaning s.files.nextCleanup } with
      files := files } := by
  have hnew : s.files.cleanups.get? s.files.nextCleanup = none := by
    cases hget : s.files.cleanups.get? s.files.nextCleanup with
    | none => rfl
    | some cl => exact absurd (hfresh _ cl hget) (Nat.lt_irrefl _)
  intro req p hp
  unfold FileSessions.Answerable FileSessions.BeingAnswered
  dsimp only [FileSessions.setConn] at hp ⊢
  rw [hpending] at hp
  rw [hcleanups]
  rcases h req p hp with ⟨sid', c', hsid, hans⟩ | ⟨cid', cl, hcl, hans⟩
  · left
    by_cases he : sid' = sid
    · -- the connection that answered now has the new clean-up do it
      rw [he, hc, Option.some.injEq] at hsid
      subst hsid
      refine ⟨sid, { c with stage := .cleaning s.files.nextCleanup },
        by rw [Dict.get?_put, if_pos rfl], hans.1, ?_⟩
      dsimp only
      rw [Dict.get?_put, if_pos rfl, hans.1]
    · exact ⟨sid', c', by rw [Dict.get?_put, if_neg he]; exact hsid,
        hans.of_put (by rw [hnew]; exact fun he => (by cases he)) _⟩
  · refine .inr ⟨cid', cl, ?_, hans⟩
    rw [Dict.get?_put, if_neg (Nat.ne_of_lt (hfresh cid' cl hcl))]
    exact hcl

/-- A connection whose clean-up is over answered for nothing any more. -/
theorem Unorphaned.unregister {s : FileSessions} {files : FileRun} {sid cid : Nat} {c : Connection}
    (h : Unorphaned s) (hc : s.conns.get? sid = some c) (hstage : c.stage = .cleaning cid)
    (hclean : s.files.cleanups.get? cid = some (.toAnswer []))
    (hpending : ∀ req p, files.router.pending.get? req = some p →
      s.files.router.pending.get? req = some p)
    (hcleanups : files.cleanups = s.files.cleanups) :
    Unorphaned { s.setConn sid { c with stage := .gone } with files := files } := by
  refine h.keep hpending hcleanups fun name => ?_
  rintro ⟨sid', c', hc', hans⟩
  refine ⟨sid', c', ?_, hans⟩
  dsimp only [FileSessions.setConn]
  rw [Dict.get?_put, if_neg]
  · exact hc'
  · -- this connection's clean-up is done, so it did not answer
    rintro rfl
    rw [hc, Option.some.injEq] at hc'
    subst hc'
    have hcollect := hans.2
    rw [hstage] at hcollect
    dsimp only at hcollect
    rw [hclean] at hcollect
    cases hcollect

/-- **One step leaves no request without someone to answer it.** -/
theorem unorphaned_step {s s' : FileSessions} {l : SessionLabel} (hwf : SessionWf s)
    (hfresh : ∀ cid c, s.files.cleanups.get? cid = some c → cid < s.files.nextCleanup)
    (h : Unorphaned s) (hok : EnteredInTime s l) (hs : SessionStep s l s') : Unorphaned s' := by
  cases hs with
  | @files l files hfree hf =>
    cases (fileStep_of_step hf).table with
    | keep hpending hcleanups hnext hdrop => exact h.keep hpending hcleanups fun _ ha => ha
    | @insert rid s' waiting args name hr hpending hcleanups hnext =>
      intro req p hp
      unfold FileSessions.Answerable FileSessions.BeingAnswered
      dsimp only at hp ⊢
      rw [hcleanups]
      rw [hpending, Dict.get?_put] at hp
      split at hp
      · -- the request just entered
        obtain rfl := Option.some.inj hp
        have hname : s.Answerable name := by simpa [EnteredInTime, hr] using hok
        exact .inl hname
      · exact h req p hp
    | begin hpending hcleanups hnext => cases hfree
    | collect hc hpending hcleanups hnext => exact h.collect hc hpending hcleanups
    | answer hc hpending hcleanups hnext => exact h.answer hc hpending hcleanups
  | @connect name monitors files hf =>
    cases (fileStep_of_step hf).table with
    | keep hpending hcleanups hnext hdrop =>
      refine h.keep hpending hcleanups fun name' => ?_
      rintro ⟨sid, c, hc, hans⟩
      refine ⟨sid, c, ?_, hans⟩
      dsimp only
      rw [Dict.get?_put, if_neg (Nat.ne_of_lt (hwf.fresh sid c hc))]
      exact hc
  | read hc => exact h.keep (fun _ _ hp => hp) rfl (any_put_same hc rfl rfl)
  | forget hc => exact h.keep (fun _ _ hp => hp) rfl (any_put_same hc rfl rfl)
  | ignore hc hstage hup hmsg => exact h.keep (fun _ _ hp => hp) rfl (any_put_same hc rfl rfl)
  | receive hc hstage hup hmsg hf =>
    cases (fileStep_of_step hf).table with
    | keep hpending hcleanups hnext hdrop =>
      exact h.keep hpending hcleanups (any_put_same hc rfl rfl)
  | @push sid c files m hc hstage hf =>
    have hstep : s.files.step (.consume c.name) = some files := by
      show (s.files.consume c.name).map _ = _
      rw [hf]; rfl
    cases (fileStep_of_step hstep).table with
    | keep hpending hcleanups hnext hdrop =>
      exact h.keep hpending hcleanups (any_put_same hc rfl rfl)
  | hear hc hdown hmsg => exact h.keep (fun _ _ hp => hp) rfl (any_put_same hc rfl rfl)
  | unheard hc hdown hmsg hwaits => exact h.keep (fun _ _ hp => hp) rfl (any_put_same hc rfl rfl)
  | resolve hc hdown hmsg hwaits => exact h.keep (fun _ _ hp => hp) rfl (any_put_same hc rfl rfl)
  | @cleanup sid c files hc hstage hf =>
    cases (fileStep_of_step hf).table with
    | keep hpending hcleanups hnext hdrop => exact absurd rfl (hdrop _)
    | begin hpending hcleanups hnext => exact h.cleanup hfresh hc hpending hcleanups
  | @unregister sid cid c files hc hstage hclean hf =>
    cases (fileStep_of_step hf).table with
    | keep hpending hcleanups hnext hdrop =>
      exact h.unregister hc hstage hclean hpending hcleanups

/-- **In every run whose entries come in time no read is orphaned.** -/
theorem unorphaned_reach {s : FileSessions} (hs : fileSessions.Reach EnteredInTime s) :
    Unorphaned s := by
  refine Lts.Reach.invariant (P := Unorphaned) ?_ ?_ hs
  · rintro _ rfl req p hp
    cases hp
  · intro _ _ _ hreach ih hok hl
    exact unorphaned_step (sessionWf_reach hreach) (cleanups_fresh (files_reachable hreach)) ih hok
      (sessionStep_of_step hl)

/-- **No request waits for nobody**, in every run in which requests are entered in time. -/
theorem no_orphans {s : FileSessions} (hs : fileSessions.Reach EnteredInTime s) : s.NoOrphans := by
  have hcovered := unorphaned_reach hs
  refine ⟨fun req p hp => (hcovered req p hp).imp ?_ id, hcovered⟩
  -- who can answer under a name is registered under it
  rintro ⟨sid, c, hc, hname, hstage⟩
  refine hname ▸ (sessionWf_reach hs).registered sid c hc ?_
  intro hgone
  rw [hgone] at hstage
  exact hstage

/-- "a" asks "b", which disconnects: the clean-up answers "a" with `NotFound`. -/
theorem no_orphans_owner_leaves :
    ∃ s, fileSessions.Reach EnteredInTime s
      ∧ s.files.answers = [⟨0, .toClient "a" 1, .err .notFound⟩] ∧ s.NoOrphans := by
  let labels : List SessionLabel :=
    [.connect "a" [], .connect "b" [], .files (.announce (.client "b") 1 ⟨[⟨"f", 8, false⟩]⟩),
      .read 0 ⟨1, 0, 0, 8⟩, .receive 0, .files (.readOwner 0), .files (.insert 0),
      .files (.send 0), .cleanup 1, .files (.collect 0), .files (.answerStale 0), .unregister 1]
  have hend : (fileSessions.exec EnteredInTime {} labels).map (·.files.answers)
      = some [⟨0, .toClient "a" 1, .err .notFound⟩] := by decide
  obtain ⟨s, hs, hanswers⟩ := Option.map_eq_some_iff.mp hend
  have hreach : fileSessions.Reach EnteredInTime s := Lts.reach_of_exec rfl hs
  exact ⟨s, hreach, hanswers, no_orphans hreach⟩

/-- "a" reads that "b" owns the files. "b" ends: its clean-up finds nothing to answer. The
request of "a" is entered and sent, which succeeds, as "b" is still registered. Then the
registration is dropped, and the request stays. -/
theorem late_insert_is_orphaned : ¬ ∀ s, fileSessions.Reachable s → s.NoOrphans := by
  let labels : List SessionLabel :=
    [.connect "a" [], .connect "b" [], .files (.announce (.client "b") 1 ⟨[⟨"f", 8, false⟩]⟩),
      .read 0 ⟨1, 0, 0, 8⟩, .receive 0, .files (.readOwner 0),
      .cleanup 1, .files (.collect 0), .files (.insert 0), .files (.send 0), .unregister 1]
  intro hall
  have hend : (fileSessions.run {} labels).map (fun s =>
      ((s.files.router.pending.get? 1).map (·.sentTo), s.files.hub.contains "b",
        decide (s.BeingAnswered 1))) = some (some "b", false, false) := by decide
  obtain ⟨s, hs, hstate⟩ := Option.map_eq_some_iff.mp hend
  simp only [Prod.mk.injEq, Option.map_eq_some_iff, decide_eq_false_iff_not] at hstate
  obtain ⟨⟨p, hp, hname⟩, hgone, hnobody⟩ := hstate
  rcases (hall s (Lts.reachable_of_run rfl hs)).addressed 1 p hp with hreg | hans
  · rw [hname, hgone] at hreg
    cases hreg
  · exact hnobody hans

end GeserDesk
