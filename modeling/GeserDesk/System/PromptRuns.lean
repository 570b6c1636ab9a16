import GeserDesk.Lib.Transition
import GeserDesk.Server.Trust

/-!
# The question about a new server, and its answer

`geserdesk-app/src/trust.rs`. A call of `confirm_new` puts the channel for its answer in one
cell, shows its question in another, waits, and clears both; an answer goes to whatever channel
is in the cell, and says nothing about the question it was given to. Calls overlap when a new
session asks while the call of the one that was stopped has not cleared up yet. Each access to a
cell is a step; an answer may come at any time, `Session::stop` gives one too.

* **`answer_belongs_to_question`**: a call says yes only if somebody did while its question was
  the one shown, and an open question stays shown and can be answered. This is so in every run
  in which nobody cuts into a call that is still open (`Orderly`).
* **`tail_answers_for_next_call`**: a call that clears up late takes the next one's channel and
  question away; and a yes that comes between the two cells pins what nobody saw.
-/

namespace GeserDesk

/-- A server fingerprint waiting for the person to accept or refuse it. -/
structure TrustPrompt where
  server : String
  fingerprint : Fingerprint
deriving DecidableEq, Repr

/-- Where a call of `confirm_new` stands. -/
inductive ConfirmPc where
  | called
  /-- Its channel is in the cell. -/
  | installed
  /-- Its question is shown, and it waits for the answer. -/
  | waiting
  /-- It waits no longer; what came out of it. -/
  | woken (trusted : Bool)
  /-- It has cleared the channel's cell. -/
  | dropped (trusted : Bool)
  | returned (trusted : Bool)
deriving DecidableEq, Repr

structure ConfirmCall where
  prompt : TrustPrompt
  pc : ConfirmPc := .called
  /-- What was sent on its channel and not received yet. -/
  inbox : Option Bool := none
  /-- How many times somebody had said yes when it was called (bookkeeping only). -/
  since : Nat
deriving DecidableEq, Repr

/-- The call waits for an answer that has not come, or will. -/
def ConfirmCall.Open (call : ConfirmCall) : Prop :=
  (call.pc = .installed ∨ call.pc = .waiting) ∧ call.inbox = none

instance (call : ConfirmCall) : Decidable call.Open := inferInstanceAs (Decidable (_ ∧ _))

/-- The prompt slot and the calls there have been. -/
structure PromptRun where
  /-- The question shown. -/
  current : Option TrustPrompt := none
  /-- The call whose channel is in the cell. -/
  answer : Option Nat := none
  calls : Dict Nat ConfirmCall := ∅
  next : Nat := 0
  /-- What was shown each time somebody said yes (bookkeeping only). -/
  yeses : List (Option TrustPrompt) := []

inductive PromptLabel where
  | confirmNew (prompt : TrustPrompt)
  | install (i : Nat)
  | show_ (i : Nat)
  /-- The call gets the answer from its channel. -/
  | receive (i : Nat)
  /-- The call finds that its channel was thrown away. -/
  | disconnected (i : Nat)
  | timeout (i : Nat)
  /-- It clears the cell of the channel. -/
  | drop (i : Nat)
  /-- It clears the question, and returns. -/
  | hide (i : Nat)
  /-- `PromptSlot::answer`. -/
  | answer (trust : Bool)
deriving DecidableEq, Repr

namespace PromptRun

/-- The call moves on. -/
def move (s : PromptRun) (i : Nat) (call : ConfirmCall) (pc : ConfirmPc) : PromptRun :=
  { s with calls := s.calls.put i { call with pc := pc } }

/-- What is shown when somebody says yes. -/
def said (s : PromptRun) (trust : Bool) : PromptRun :=
  { s with yeses := s.yeses ++ if trust then [s.current] else [] }

/-- The channel in the cell is taken out of it, and the answer sent on it. -/
def deliver (s : PromptRun) (trust : Bool) : PromptRun :=
  match s.answer with
  | some i =>
    match s.calls.get? i with
    | some call => { s with
        answer := none
        calls := s.calls.put i { call with inbox := some trust } }
    | none => { s with answer := none }
  | none => s

def step (s : PromptRun) : PromptLabel → Option PromptRun
  | .confirmNew prompt => some { s with
      calls := s.calls.put s.next { prompt := prompt, since := s.yeses.length }
      next := s.next + 1 }
  | .install i =>
    match s.calls.get? i with
    | some call =>
      if call.pc = .called then some { s.move i call .installed with answer := some i } else none
    | none => none
  | .show_ i =>
    match s.calls.get? i with
    | some call =>
      if call.pc = .installed then some { s.move i call .waiting with current := some call.prompt }
      else none
    | none => none
  | .receive i =>
    match s.calls.get? i with
    | some call =>
      match call.pc, call.inbox with
      | .waiting, some trust => some (s.move i call (.woken trust))
      | _, _ => none
    | none => none
  | .disconnected i =>
    match s.calls.get? i with
    | some call =>
      if call.pc = .waiting ∧ call.inbox = none ∧ s.answer ≠ some i then
        some (s.move i call (.woken false))
      else none
    | none => none
  | .timeout i =>
    match s.calls.get? i with
    | some call =>
      if call.pc = .waiting ∧ call.inbox = none then some (s.move i call (.woken false)) else none
    | none => none
  | .drop i =>
    match s.calls.get? i with
    | some call =>
      match call.pc with
      | .woken trusted => some { s.move i call (.dropped trusted) with answer := none }
      | _ => none
    | none => none
  | .hide i =>
    match s.calls.get? i with
    | some call =>
      match call.pc with
      | .dropped trusted => some { s.move i call (.returned trusted) with current := none }
      | _ => none
    | none => none
  | .answer trust => some ((s.said trust).deliver trust)

end PromptRun

def promptRuns : Lts PromptRun PromptLabel where
  init s := s = {}
  step := PromptRun.step

namespace PromptRun

/-- No call but `i` has its channel in the cell and is still open. -/
def CellFree (s : PromptRun) (i : Nat) : Prop :=
  match s.answer with
  | some j =>
    match s.calls.get? j with
    | some call => call.Open → j = i
    | none => True
  | none => True

/-- No call but `i` has an open question shown. -/
def QuestionFree (s : PromptRun) (i : Nat) : Prop :=
  ∀ e ∈ s.calls.entries, e.2.pc = .waiting → e.2.inbox = none → e.1 = i

/-- The call an answer would reach, if it has yet to show its question, has it shown already. -/
def AnswerFits (s : PromptRun) : Prop :=
  match s.answer with
  | some i =>
    match s.calls.get? i with
    | some call => call.pc = .installed → s.current = some call.prompt
    | none => True
  | none => True

instance (s : PromptRun) (i : Nat) : Decidable (s.CellFree i) := by
  unfold CellFree
  split
  · split <;> infer_instance
  · infer_instance

instance (s : PromptRun) (i : Nat) : Decidable (s.QuestionFree i) :=
  inferInstanceAs (Decidable (∀ e ∈ s.calls.entries, _))

instance (s : PromptRun) : Decidable s.AnswerFits := by
  unfold AnswerFits
  split
  · split <;> infer_instance
  · infer_instance

/-- Nobody cuts into an open call: neither its channel nor its question is replaced or cleared by
another, and no yes comes while it has yet to show its question. -/
def Orderly (s : PromptRun) : PromptLabel → Prop
  | .install i | .drop i => s.CellFree i
  | .show_ i | .hide i => s.QuestionFree i
  | .answer true => s.AnswerFits
  | _ => True

instance (s : PromptRun) (l : PromptLabel) : Decidable (s.Orderly l) := by
  unfold Orderly
  split <;> infer_instance

/-! ## The invariant

A question that is shown belongs to the one call under way, and so does the answer. -/

/-- Somebody said yes to the call's question since it was called. -/
def Vouched (s : PromptRun) (call : ConfirmCall) : Prop :=
  some call.prompt ∈ s.yeses.drop call.since

/-- What is known of one call. -/
structure CallOk (s : PromptRun) (i : Nat) (call : ConfirmCall) : Prop where
  /-- An open call can be answered. -/
  reached : call.Open → s.answer = some i
  shown : call.pc = .waiting → call.inbox = none → s.current = some call.prompt
  since : call.since ≤ s.yeses.length
  quiet : call.pc = .called → call.inbox = none
  /-- A yes that is under way, or was taken. -/
  vouched : (call.pc = .installed ∨ call.pc = .waiting) ∧ call.inbox = some true
    ∨ call.pc = .woken true ∨ call.pc = .dropped true ∨ call.pc = .returned true → s.Vouched call

/-- A call that waits no longer is in order if the yes it takes along was said to its question. -/
theorem CallOk.after {s : PromptRun} {i : Nat} {call : ConfirmCall} {trusted : Bool}
    (hpc : call.pc = .woken trusted ∨ call.pc = .dropped trusted ∨ call.pc = .returned trusted)
    (hsince : call.since ≤ s.yeses.length) (hyes : trusted = true → s.Vouched call) :
    s.CallOk i call := by
  have hover : ¬ (call.pc = .installed ∨ call.pc = .waiting) := by
    rcases hpc with hpc | hpc | hpc <;> simp [hpc]
  refine ⟨fun hopen => absurd hopen.1 hover, fun hwait => absurd (.inr hwait) hover, hsince,
    fun hcalled => ?_, fun hvouch => hyes ?_⟩
  · rcases hpc with hpc | hpc | hpc <;> cases hcalled.symm.trans hpc
  · rcases hvouch with ⟨hwait, -⟩ | hvouch
    · exact absurd hwait hover
    · rcases hpc with hpc | hpc | hpc <;> simpa [hpc] using hvouch

end PromptRun

/-- Every call is in order; the channel in the cell is that of a call nobody has answered. -/
structure PromptInv (s : PromptRun) : Prop where
  fresh : ∀ i, s.next ≤ i → s.calls.get? i = none
  calls : ∀ i call, s.calls.get? i = some call → s.CallOk i call
  unanswered : ∀ i, s.answer = some i → ∃ call, s.calls.get? i = some call
    ∧ call.inbox = none ∧ call.pc ≠ .called

/-- A step of the call `i`: it is in order after it, the others are still reached and shown, and
so is the channel in the cell. -/
theorem PromptInv.moved {s s' : PromptRun} (h : PromptInv s) {i : Nat} {call call' : ConfirmCall}
    (hi : s.calls.get? i = some call) (hcalls : s'.calls = s.calls.put i call')
    (hnext : s'.next = s.next) (hyeses : s'.yeses = s.yeses) (hown : s'.CallOk i call')
    (hreached : ∀ j c, j ≠ i → s.calls.get? j = some c → c.Open → s'.answer = some j)
    (hshown : ∀ j c, j ≠ i → s.calls.get? j = some c → c.pc = .waiting → c.inbox = none →
      s'.current = some c.prompt)
    (hcell : ∀ j, s'.answer = some j → j = i ∧ call'.inbox = none ∧ call'.pc ≠ .called
      ∨ j ≠ i ∧ s.answer = some j) : PromptInv s' where
  fresh j hj := by
    have hne : j ≠ i := by
      rintro rfl
      rw [h.fresh j (hnext ▸ hj)] at hi
      cases hi
    rw [hcalls, Dict.get?_put, if_neg hne]
    exact h.fresh j (hnext ▸ hj)
  calls j c hj := by
    rw [hcalls, Dict.get?_put] at hj
    split at hj
    · next heq =>
      obtain rfl := Option.some.inj hj
      exact heq ▸ hown
    · next hne =>
      have hold := h.calls j c hj
      have hsame : s'.Vouched c ↔ s.Vouched c := by unfold PromptRun.Vouched; rw [hyeses]
      exact ⟨hreached j c hne hj, hshown j c hne hj, hyeses ▸ hold.since, hold.quiet,
        fun hyes => hsame.mpr (hold.vouched hyes)⟩
  unanswered j hj := by
    rcases hcell j hj with ⟨rfl, hinbox, hpc⟩ | ⟨hne, hold⟩
    · exact ⟨call', by rw [hcalls, Dict.get?_put, if_pos rfl], hinbox, hpc⟩
    · obtain ⟨c, hc, hrest⟩ := h.unanswered j hold
      exact ⟨c, by rw [hcalls, Dict.get?_put, if_neg hne]; exact hc, hrest⟩

namespace PromptInv

variable {s : PromptRun} {i : Nat} {call : ConfirmCall}

/-- The cell holds the channel of no other open call. -/
theorem closed_of_cellFree (h : PromptInv s) (hfree : s.CellFree i) {j : Nat} {c : ConfirmCall}
    (hne : j ≠ i) (hj : s.calls.get? j = some c) : ¬ c.Open := by
  intro hopen
  have hanswer := (h.calls j c hj).reached hopen
  unfold PromptRun.CellFree at hfree
  rw [hanswer] at hfree
  dsimp only at hfree
  rw [hj] at hfree
  exact hne (hfree hopen)

/-- The channel in the cell after a step of call `i` that leaves the cell alone. -/
theorem cell_kept (h : PromptInv s) (hi : s.calls.get? i = some call) {pc : ConfirmPc}
    (hpc : pc ≠ .called) (j : Nat) (hj : s.answer = some j) :
    j = i ∧ call.inbox = none ∧ pc ≠ .called ∨ j ≠ i ∧ s.answer = some j := by
  by_cases hsame : j = i
  · subst hsame
    obtain ⟨c, hc, hinbox, -⟩ := h.unanswered j hj
    rw [hi, Option.some.injEq] at hc
    exact .inl ⟨rfl, hc ▸ hinbox, hpc⟩
  · exact .inr ⟨hsame, hj⟩

/-- A call begins with nothing installed. -/
theorem confirmNew (h : PromptInv s) (prompt : TrustPrompt) :
    PromptInv { s with
      calls := s.calls.put s.next { prompt := prompt, since := s.yeses.length }
      next := s.next + 1 } where
  fresh j hj := by
    have hlt : s.next + 1 ≤ j := hj
    show (s.calls.put _ _).get? j = none
    rw [Dict.get?_put, if_neg (by omega)]
    exact h.fresh j (by omega)
  calls j c hj := by
    change (s.calls.put _ _).get? j = some c at hj
    rw [Dict.get?_put] at hj
    split at hj
    · obtain rfl := Option.some.inj hj
      -- a call begins with nothing said, and its channel not in the cell
      refine ⟨fun hopen => ?_, nofun, Nat.le_refl _, fun _ => rfl, fun hyes => ?_⟩
      · rcases hopen.1 with hpc | hpc <;> cases hpc
      · rcases hyes with ⟨-, hinbox⟩ | hpc | hpc | hpc
        · cases hinbox
        · cases hpc
        · cases hpc
        · cases hpc
    · exact ⟨(h.calls j c hj).reached, (h.calls j c hj).shown, (h.calls j c hj).since,
        (h.calls j c hj).quiet, (h.calls j c hj).vouched⟩
  unanswered j hj := by
    obtain ⟨c, hc, hrest⟩ := h.unanswered j hj
    refine ⟨c, ?_, hrest⟩
    show (s.calls.put _ _).get? j = some c
    rw [Dict.get?_put, if_neg fun heq => ?_]
    · exact hc
    · rw [heq, h.fresh s.next (Nat.le_refl _)] at hc
      cases hc

/-- A call installs its answer where none is. -/
theorem install (h : PromptInv s) (hi : s.calls.get? i = some call) (hpc : call.pc = .called)
    (hfree : s.CellFree i) : PromptInv { s.move i call .installed with answer := some i } := by
  have hold := h.calls i call hi
  -- whoever had the cell is over, so nobody open loses it
  refine h.moved hi rfl rfl rfl ⟨fun _ => rfl, nofun, hold.since, nofun, fun hyes => ?_⟩
    (fun j c hne hj hopen => absurd hopen (h.closed_of_cellFree hfree hne hj))
    (fun j c hne hj hwait hinbox =>
      absurd ⟨.inr hwait, hinbox⟩ (h.closed_of_cellFree hfree hne hj)) fun j hj => ?_
  · rcases hyes with ⟨-, hinbox⟩ | hpc' | hpc' | hpc'
    · have hnone := hold.quiet hpc
      rw [show call.inbox = some true from hinbox] at hnone
      cases hnone
    · cases hpc'
    · cases hpc'
    · cases hpc'
  · exact .inl ⟨(Option.some.inj hj).symm, hold.quiet hpc, nofun⟩

/-- No other question is shown that is still open. -/
theorem unshown_of_questionFree (hfree : s.QuestionFree i) {j : Nat} {c : ConfirmCall}
    (hne : j ≠ i) (hj : s.calls.get? j = some c) (hwait : c.pc = .waiting) : c.inbox ≠ none :=
  fun hinbox => hne (hfree ⟨j, c⟩ ((Dict.mem_entries_iff _ _ _).mpr hj) hwait hinbox)

/-- The question shown is that of the call that shows it. -/
theorem show_ (h : PromptInv s) (hi : s.calls.get? i = some call) (hpc : call.pc = .installed)
    (hfree : s.QuestionFree i) :
    PromptInv { s.move i call .waiting with current := some call.prompt } := by
  have hold := h.calls i call hi
  refine h.moved hi rfl rfl rfl
    ⟨fun hopen => hold.reached ⟨.inl hpc, hopen.2⟩, fun _ _ => rfl, hold.since, nofun, fun hyes => ?_⟩
    (fun j c _ hj => (h.calls j c hj).reached)
    (fun j c hne hj hwait hinbox => absurd hinbox (unshown_of_questionFree hfree hne hj hwait))
    (h.cell_kept hi nofun)
  rcases hyes with ⟨-, hinbox⟩ | hpc' | hpc' | hpc'
  · exact hold.vouched (.inl ⟨.inl hpc, hinbox⟩)
  · cases hpc'
  · cases hpc'
  · cases hpc'

/-- The call stops waiting. -/
theorem wake (h : PromptInv s) (hi : s.calls.get? i = some call) {trusted : Bool}
    (hyes : trusted = true → s.Vouched call) : PromptInv (s.move i call (.woken trusted)) :=
  h.moved hi rfl rfl rfl (.after (.inl rfl) (h.calls i call hi).since hyes)
    (fun j c _ hj => (h.calls j c hj).reached) (fun j c _ hj => (h.calls j c hj).shown)
    (h.cell_kept hi nofun)

/-- Dropping the answer empties the place for it. -/
theorem drop (h : PromptInv s) (hi : s.calls.get? i = some call) {trusted : Bool}
    (hpc : call.pc = .woken trusted) (hfree : s.CellFree i) :
    PromptInv { s.move i call (.dropped trusted) with answer := none } := by
  have hold := h.calls i call hi
  have hyes : trusted = true → s.Vouched call := fun htrue =>
    hold.vouched (.inr (.inl (htrue ▸ hpc)))
  -- the cell it clears is its own, or holds the channel of a call that is over
  exact h.moved hi rfl rfl rfl (.after (.inr (.inl rfl)) hold.since hyes)
    (fun j c hne hj hopen => absurd hopen (h.closed_of_cellFree hfree hne hj))
    (fun j c _ hj => (h.calls j c hj).shown) nofun

/-- Hiding the question takes it away. -/
theorem hide (h : PromptInv s) (hi : s.calls.get? i = some call) {trusted : Bool}
    (hpc : call.pc = .dropped trusted) (hfree : s.QuestionFree i) :
    PromptInv { s.move i call (.returned trusted) with current := none } := by
  have hold := h.calls i call hi
  have hyes : trusted = true → s.Vouched call := fun htrue =>
    hold.vouched (.inr (.inr (.inl (htrue ▸ hpc))))
  exact h.moved hi rfl rfl rfl (.after (.inr (.inr rfl)) hold.since hyes)
    (fun j c _ hj => (h.calls j c hj).reached)
    (fun j c hne hj hwait hinbox => absurd hinbox (unshown_of_questionFree hfree hne hj hwait))
    (h.cell_kept hi nofun)

/-- What was said goes to the call whose answer is installed. -/
theorem said (h : PromptInv s) (trust : Bool) : PromptInv (s.said trust) where
  fresh := h.fresh
  calls j c hj := by
    have hold := h.calls j c hj
    refine ⟨hold.reached, hold.shown, ?_, hold.quiet, fun hyes => ?_⟩
    -- what was said since a call began only grows
    · show c.since ≤ (s.yeses ++ _).length
      have hlen := hold.since
      rw [List.length_append]
      omega
    · show some c.prompt ∈ (s.yeses ++ _).drop c.since
      rw [List.drop_append_of_le_length hold.since]
      exact List.mem_append_left _ (hold.vouched hyes)
  unanswered := h.unanswered

/-- The answer reaches the call whose channel is in the cell. -/
theorem answered (h : PromptInv s) (hcell : s.answer = some i) (hi : s.calls.get? i = some call)
    {trust : Bool} (hyes : trust = true → call.pc = .installed ∨ call.pc = .waiting →
      s.Vouched call) :
    PromptInv { s with answer := none, calls := s.calls.put i { call with inbox := some trust } } := by
  have hold := h.calls i call hi
  obtain ⟨c, hc, hinbox, hcalled⟩ := h.unanswered i hcell
  rw [hi, Option.some.injEq] at hc
  subst hc
  refine h.moved hi rfl rfl rfl ⟨fun hopen => ?_, (fun _ hnone => nomatch hnone), hold.since,
    fun hpc => absurd hpc hcalled, fun hvouch => ?_⟩ (fun j c hne hj hopen => ?_)
    (fun j c _ hj => (h.calls j c hj).shown) nofun
  · cases hopen.2
  · rcases hvouch with ⟨hpc, htrue⟩ | hpc | hpc | hpc
    · exact hyes (Option.some.inj htrue) hpc
    · exact hold.vouched (.inr (.inl hpc))
    · exact hold.vouched (.inr (.inr (.inl hpc)))
    · exact hold.vouched (.inr (.inr (.inr hpc)))
  · have hanswer := (h.calls j c hj).reached hopen
    rw [hcell, Option.some.injEq] at hanswer
    exact absurd hanswer.symm hne

/-- The whole of `PromptSlot::answer`. -/
theorem answer (h : PromptInv s) {trust : Bool} (hok : s.Orderly (.answer trust)) :
    PromptInv ((s.said trust).deliver trust) := by
  unfold PromptRun.deliver
  split
  · next i hcell =>
    obtain ⟨call, hi, hinbox, -⟩ := h.unanswered i hcell
    rw [show (s.said trust).calls.get? i = some call from hi]
    refine (h.said trust).answered hcell hi fun htrue hpc => ?_
    subst htrue
    -- the call's own question is the one shown
    have hshown : s.current = some call.prompt := by
      rcases hpc with hpc | hpc
      · unfold PromptRun.Orderly PromptRun.AnswerFits at hok
        rw [show s.answer = some i from hcell] at hok
        dsimp only at hok
        rw [hi] at hok
        exact hok hpc
      · exact (h.calls i call hi).shown hpc hinbox
    show some call.prompt ∈ (s.yeses ++ [s.current]).drop call.since
    rw [List.drop_append_of_le_length (h.calls i call hi).since, hshown]
    exact List.mem_append_right _ (List.mem_singleton_self _)
  · exact h.said trust

end PromptInv

/-- **Every orderly step keeps questions and answers together.** -/
theorem promptInv_step {s s' : PromptRun} {l : PromptLabel} (h : PromptInv s) (hok : s.Orderly l)
    (hs : s.step l = some s') : PromptInv s' := by
  -- each step has its own lemma; what is left is that the call was where the step needs it
  cases l with
  | confirmNew prompt =>
    obtain rfl := Option.some.inj hs
    exact h.confirmNew prompt
  | answer trust =>
    obtain rfl := Option.some.inj hs
    exact h.answer hok
  | install i =>
    simp only [PromptRun.step] at hs
    split at hs
    · next call hi =>
      split at hs
      · next hpc =>
        obtain rfl := Option.some.inj hs
        exact h.install hi hpc hok
      · cases hs
    · cases hs
  | show_ i =>
    simp only [PromptRun.step] at hs
    split at hs
    · next call hi =>
      split at hs
      · next hpc =>
        obtain rfl := Option.some.inj hs
        exact h.show_ hi hpc hok
      · cases hs
    · cases hs
  | receive i =>
    simp only [PromptRun.step] at hs
    split at hs
    · next call hi =>
      split at hs
      · next trust hpc hinbox =>
        obtain rfl := Option.some.inj hs
        -- the yes in the inbox was said to this call's question
        refine h.wake hi fun htrue => (h.calls i call hi).vouched (.inl ⟨.inr hpc, ?_⟩)
        rw [hinbox, htrue]
      · cases hs
    · cases hs
  | disconnected i =>
    simp only [PromptRun.step] at hs
    split at hs
    · next call hi =>
      split at hs
      · obtain rfl := Option.some.inj hs
        exact h.wake hi nofun
      · cases hs
    · cases hs
  | timeout i =>
    simp only [PromptRun.step] at hs
    split at hs
    · next call hi =>
      split at hs
      · obtain rfl := Option.some.inj hs
        exact h.wake hi nofun
      · cases hs
    · cases hs
  | drop i =>
    simp only [PromptRun.step] at hs
    split at hs
    · next call hi =>
      split at hs
      · next trusted hpc =>
        obtain rfl := Option.some.inj hs
        exact h.drop hi hpc hok
      · cases hs
    · cases hs
  | hide i =>
    simp only [PromptRun.step] at hs
    split at hs
    · next call hi =>
      split at hs
      · next trusted hpc =>
        obtain rfl := Option.some.inj hs
        exact h.hide hi hpc hok
      · cases hs
    · cases hs

/-- The invariant holds in every state reached. -/
theorem promptInv_reach {s : PromptRun} (hs : promptRuns.Reach PromptRun.Orderly s) :
    PromptInv s := by
  refine hs.invariant ?_ fun s l s' _ hinv hok hl => promptInv_step hinv hok hl
  rintro s rfl
  exact ⟨fun i _ => Dict.get?_empty i, fun i call hi => by simp at hi, nofun⟩

namespace PromptRun

/-- A call that says yes was told so while its own question was the one shown. -/
def SaysWhatWasSaid (s : PromptRun) : Prop :=
  ∀ i call, s.calls.get? i = some call → call.pc = .returned true →
    some call.prompt ∈ s.yeses.drop call.since

/-- A question that has been shown, and neither answered nor given up, is still shown, and an
answer reaches the call it belongs to. -/
def StaysOpen (s : PromptRun) : Prop :=
  ∀ i call, s.calls.get? i = some call → call.pc = .waiting → call.inbox = none →
    s.current = some call.prompt ∧ s.step (.disconnected i) = none
      ∧ ∀ trust s', s.step (.answer trust) = some s' →
        s'.calls.get? i = some { call with inbox := some trust }

end PromptRun

/-- **The answer belongs to the question**, in every run in which nobody cuts into an open call. -/
theorem answer_belongs_to_question {s : PromptRun} (hs : promptRuns.Reach PromptRun.Orderly s) :
    s.SaysWhatWasSaid ∧ s.StaysOpen := by
  have hinv := promptInv_reach hs
  constructor
  · intro i call hi hpc
    exact (hinv.calls i call hi).vouched (.inr (.inr (.inr hpc)))
  · intro i call hi hwait hinbox
    have hok := hinv.calls i call hi
    have hcell : s.answer = some i := hok.reached ⟨.inr hwait, hinbox⟩
    refine ⟨hok.shown hwait hinbox, ?_, fun trust s' hstep => ?_⟩
    · simp [PromptRun.step, hi, hcell]
    · obtain rfl := Option.some.inj hstep
      simp [PromptRun.deliver, PromptRun.said, hcell, hi]

/-! ## One call after another, and two at a time -/

def firstServer : TrustPrompt := ⟨"10.0.0.2:24810", ⟨1⟩⟩

def secondServer : TrustPrompt := ⟨"10.0.0.3:24810", ⟨2⟩⟩

/-- A question that is answered with yes. -/
def askedAndTrusted : List PromptLabel :=
  [.confirmNew firstServer, .install 0, .show_ 0, .answer true, .receive 0, .drop 0, .hide 0]

/-- One question, answered with yes. -/
theorem answer_belongs_to_question_once : ∃ s, promptRuns.Reach PromptRun.Orderly s
    ∧ (s.calls.get? 0).map (·.pc) = some (.returned true) ∧ s.SaysWhatWasSaid ∧ s.StaysOpen := by
  have hend : (promptRuns.exec PromptRun.Orderly {} askedAndTrusted).map
      (fun s => (s.calls.get? 0).map (·.pc)) = some (some (.returned true)) := by decide +kernel
  obtain ⟨s, hs, hpc⟩ := Option.map_eq_some_iff.mp hend
  have hreach : promptRuns.Reach PromptRun.Orderly s := Lts.reach_of_exec rfl hs
  exact ⟨s, hreach, hpc, answer_belongs_to_question hreach⟩

/-- The first call is told no when its session is stopped. Before it has cleared up, the next
session asks; then the first call clears both cells, and the second one's question is gone from
the screen and its channel thrown away. In the other run the second call has put its channel in
the cell when somebody says yes to the first one's question: it pins the second server. -/
theorem tail_answers_for_next_call :
    (¬ ∀ s, promptRuns.Reachable s → s.StaysOpen)
      ∧ ¬ ∀ s, promptRuns.Reachable s → s.SaysWhatWasSaid := by
  constructor
  · intro hall
    -- the end of the first call takes the second one's question down
    let labels : List PromptLabel :=
      [.confirmNew firstServer, .install 0, .show_ 0, .answer false, .receive 0,
        .confirmNew secondServer, .install 1, .show_ 1, .drop 0, .hide 0]
    have hend : (promptRuns.run {} labels).map (fun s => (s.calls.get? 1, s.current))
        = some (some ⟨secondServer, .waiting, none, 0⟩, none) := by decide +kernel
    obtain ⟨s, hs, hend⟩ := Option.map_eq_some_iff.mp hend
    rw [Prod.mk.injEq] at hend
    obtain ⟨hshown, -, -⟩ := hall s (Lts.reachable_of_run rfl hs) 1 _ hend.1 rfl rfl
    rw [hend.2] at hshown
    cases hshown
  · intro hall
    -- the person's yes to the first question is taken by the second call
    let labels : List PromptLabel :=
      [.confirmNew firstServer, .install 0, .show_ 0, .confirmNew secondServer, .install 1,
        .answer true, .show_ 1, .receive 1, .drop 1, .hide 1]
    have hend : (promptRuns.run {} labels).map (fun s => (s.calls.get? 1, s.yeses))
        = some (some ⟨secondServer, .returned true, some true, 0⟩, [some firstServer]) := by
      decide +kernel
    obtain ⟨s, hs, hend⟩ := Option.map_eq_some_iff.mp hend
    rw [Prod.mk.injEq] at hend
    have hsaid := hall s (Lts.reachable_of_run rfl hs) 1 _ hend.1 rfl
    rw [hend.2] at hsaid
    revert hsaid
    decide

end GeserDesk
