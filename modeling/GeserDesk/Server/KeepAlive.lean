import Mathlib.Data.Finset.Card
import Mathlib.Data.List.Nodup
import Mathlib.Tactic.IntervalCases
import GeserDesk.Proto.Message

/-!
# Keep-alive

`session_loop` of `geserdesk-server/src/net.rs`, as far as it decides when a client is given up:
the probes it sends, the count of those nothing came after, and what ends the loop. A run is what
the loop's `select!` came to one after another, each with its time in milliseconds; two ticks are
an interval apart, the first comes at once.

* **`patient_iff`**: the third probe in a row with nothing in between is the last, with no interval
  after it; three probes were left for a whole interval only if an earlier one had been.
* **`answering_kept`**: a client that answers every probe within an interval is never given up.
-/

namespace GeserDesk

/-- In milliseconds. -/
def KEEPALIVE_INTERVAL : Nat := 3000

def KEEPALIVE_MISSES : Nat := 3

/-- What the loop waits for. -/
inductive LoopEvent where
  | tick
  /-- A client's message, whatever it is. -/
  | recv (msg : ClientMsg)
  /-- A message queued for the client. -/
  | outbox (msg : ServerMsg)
  | demo (msg : ServerMsg)
  /-- Nothing more can be read or written. -/
  | lost
deriving DecidableEq, Repr

structure SessionLoop where
  missed : Nat := 0
  ended : Bool := false
deriving DecidableEq, Repr

/-- One turn of the loop, and what it sends. -/
def SessionLoop.step (s : SessionLoop) (ev : LoopEvent) : SessionLoop × List ServerMsg :=
  if s.ended then (s, [])
  else match ev with
    | .demo msg => (s, [msg])
    | .outbox msg =>
      match msg with
      | .close _ => ({ s with ended := true }, [msg])
      | _ => (s, [msg])
    | .tick =>
      let missed := s.missed + 1
      if KEEPALIVE_MISSES ≤ missed then (⟨missed, true⟩, [.keepAlive, .close .timeout])
      else ({ s with missed := missed }, [.keepAlive])
    | .recv _ => ({ s with missed := 0 }, [])
    | .lost => ({ s with ended := true }, [])

abbrev LoopRun := List (Nat × LoopEvent)

namespace LoopRun

/-- The loop before the `n`th event. -/
def loopAt (run : LoopRun) : Nat → SessionLoop
  | 0 => {}
  | n + 1 =>
    match run[n]? with
    | some (_, ev) => ((loopAt run n).step ev).1
    | none => loopAt run n

/-- The probes before the `n`th event that no message came after. -/
def since (run : LoopRun) : Nat → List Nat
  | 0 => []
  | n + 1 =>
    match run[n]? with
    | some (_, .tick) => since run n ++ [n]
    | some (_, .recv _) => []
    | _ => since run n

/-- Time does not go back, and ticks are an interval apart. -/
structure Timed (run : LoopRun) : Prop where
  ordered : run.Pairwise fun a b => a.1 ≤ b.1
  spaced : run.Pairwise fun a b => a.2 = .tick → b.2 = .tick → a.1 + KEEPALIVE_INTERVAL ≤ b.1

/-- At the `n`th event the client is given up as silent. -/
def ClosesAt (run : LoopRun) (n : Nat) : Prop :=
  ∃ t, run[n]? = some (t, .tick)
    ∧ ServerMsg.close .timeout ∈ ((loopAt run n).step .tick).2

/-- For a whole interval after the `i`th event, a probe, and before the `n`th, nothing came from
the client. -/
def Silent (run : LoopRun) (n i : Nat) : Prop :=
  ∃ (t u : Nat) (ev : LoopEvent), run[i]? = some (t, .tick) ∧ run[n]? = some (u, ev)
    ∧ t + KEEPALIVE_INTERVAL ≤ u
    ∧ ∀ (j v : Nat) msg, i < j → j < n → run[j]? = some (v, .recv msg) → t + KEEPALIVE_INTERVAL ≤ v

/-- The client is given up only when `KEEPALIVE_MISSES` probes were each left for an interval. -/
def Patient (run : LoopRun) : Prop :=
  ∀ n, ClosesAt run n →
    ∃ probes : Finset Nat, probes.card = KEEPALIVE_MISSES ∧ ∀ i ∈ probes, i < n ∧ Silent run n i

/-- Every probe is answered within an interval. -/
def Answered (run : LoopRun) : Prop :=
  ∀ i t : Nat, run[i]? = some (t, .tick) → ∀ (n u : Nat) (ev : LoopEvent), i < n →
    run[n]? = some (u, ev) → t + KEEPALIVE_INTERVAL < u →
      ∃ (j v : Nat) (msg : ClientMsg), i < j ∧ j < n ∧ run[j]? = some (v, .recv msg)
        ∧ v ≤ t + KEEPALIVE_INTERVAL

variable {run : LoopRun} {n i : Nat}

/-! ## The count

The loop counts the probes since the last message, and closes at the third. -/

/-- The probes since the last message: the ticks with no message after them. -/
theorem mem_since : i ∈ since run n ↔ i < n ∧ (∃ t, run[i]? = some (t, .tick))
    ∧ ∀ j v msg, i < j → j < n → run[j]? ≠ some (v, .recv msg) := by
  induction n with
  | zero => exact ⟨nofun, fun h => absurd h.1 (Nat.not_lt_zero i)⟩
  | succ n ih =>
    -- with the `n`th event neither a probe nor a message, nothing changes
    have hother : (∀ t, run[n]? ≠ some (t, .tick)) → (∀ v msg, run[n]? ≠ some (v, .recv msg)) →
        (i ∈ since run n ↔ i < n + 1 ∧ (∃ t, run[i]? = some (t, .tick))
          ∧ ∀ j v msg, i < j → j < n + 1 → run[j]? ≠ some (v, .recv msg)) := by
      intro htick hrecv
      rw [ih]
      constructor
      · rintro ⟨hlt, hprobe, hquiet⟩
        refine ⟨by omega, hprobe, fun j v msg hij hj => ?_⟩
        rcases Nat.lt_succ_iff_lt_or_eq.mp hj with hj | rfl
        · exact hquiet j v msg hij hj
        · exact hrecv v msg
      · rintro ⟨hlt, ⟨t, ht⟩, hquiet⟩
        have hne : i ≠ n := by
          rintro rfl
          exact htick t ht
        exact ⟨by omega, ⟨t, ht⟩, fun j v msg hij hj => hquiet j v msg hij (by omega)⟩
    rw [since]
    split
    · next t htick =>
      rw [List.mem_append, List.mem_singleton, ih]
      constructor
      · rintro (⟨hlt, hprobe, hquiet⟩ | rfl)
        · refine ⟨by omega, hprobe, fun j v msg hij hj => ?_⟩
          rcases Nat.lt_succ_iff_lt_or_eq.mp hj with hj | rfl
          · exact hquiet j v msg hij hj
          · rw [htick]
            exact fun h => by cases h
        · exact ⟨Nat.lt_succ_self i, ⟨t, htick⟩, fun j v msg hij hj => by omega⟩
      · rintro ⟨hlt, hprobe, hquiet⟩
        rcases Nat.lt_succ_iff_lt_or_eq.mp hlt with hlt | rfl
        · exact .inl ⟨hlt, hprobe, fun j v msg hij hj => hquiet j v msg hij (by omega)⟩
        · exact .inr rfl
    · next t msg hrecv =>
      refine ⟨nofun, ?_⟩
      rintro ⟨hlt, ⟨u, hu⟩, hquiet⟩
      rcases Nat.lt_succ_iff_lt_or_eq.mp hlt with hlt | rfl
      · exact absurd hrecv (hquiet n t msg hlt (Nat.lt_succ_self n))
      · rw [hrecv] at hu
        cases hu
    · next htick hrecv => exact hother (fun t h => htick t h) (fun v msg h => hrecv v msg h)

/-- Each is counted once. -/
theorem since_nodup : (since run n).Nodup := by
  induction n with
  | zero => exact List.nodup_nil
  | succ n ih =>
    rw [since]
    split
    · refine List.Nodup.append ih (List.nodup_singleton n) ?_
      rw [List.disjoint_singleton]
      exact fun hmem => Nat.lt_irrefl n (mem_since.mp hmem).1
    · exact List.nodup_nil
    · exact ih

/-- The count is of these, and never as far as the limit while the loop goes on. -/
theorem missed_eq (h : (loopAt run n).ended = false) :
    (loopAt run n).missed = (since run n).length ∧ (since run n).length < KEEPALIVE_MISSES := by
  -- on the number of things that happened so far
  induction n with
  | zero => exact ⟨rfl, (by decide : 0 < KEEPALIVE_MISSES)⟩
  | succ n ih =>
    rw [loopAt] at h ⊢
    rw [since]
    cases hev : run[n]? with
    | none =>
      rw [hev] at h
      exact ih h
    | some at_ =>
      obtain ⟨t, ev⟩ := at_
      rw [hev] at h
      dsimp only at h ⊢
      -- a loop that goes on had not ended before
      have hgoing : (loopAt run n).ended = false := by
        by_contra hover
        unfold SessionLoop.step at h
        rw [if_pos (by simpa using hover)] at h
        exact hover h
      obtain ⟨hmissed, hfew⟩ := ih hgoing
      have hnot : ¬(loopAt run n).ended = true := by rw [hgoing]; exact Bool.false_ne_true
      unfold SessionLoop.step at h ⊢
      rw [if_neg hnot] at h ⊢
      -- a tick sends a probe, anything received begins the count anew, and the rest does not count
      cases ev with
      | tick =>
        dsimp only at h ⊢
        split_ifs at h ⊢ with hlimit
        rw [hmissed] at hlimit
        refine ⟨?_, ?_⟩
        · rw [hmissed, List.length_append, List.length_singleton]
        · rw [List.length_append, List.length_singleton]
          omega
      | recv msg => exact ⟨rfl, (by decide : 0 < KEEPALIVE_MISSES)⟩
      | demo msg => exact ⟨hmissed, hfew⟩
      | outbox msg =>
        refine ⟨?_, hfew⟩
        rw [← hmissed]
        cases msg <;> rfl
      | lost => exact ⟨hmissed, hfew⟩

/-- The third probe in a row is the end. -/
theorem closesAt_iff : ClosesAt run n ↔ (∃ t, run[n]? = some (t, .tick))
    ∧ (loopAt run n).ended = false ∧ (since run n).length + 1 = KEEPALIVE_MISSES := by
  unfold ClosesAt SessionLoop.step
  constructor
  · rintro ⟨t, ht, hsent⟩
    have hgoing : (loopAt run n).ended = false := by
      by_contra hover
      rw [if_pos (by simpa using hover)] at hsent
      cases hsent
    obtain ⟨hmissed, hfew⟩ := missed_eq hgoing
    rw [if_neg (by rw [hgoing]; exact Bool.false_ne_true)] at hsent
    dsimp only at hsent
    rw [hmissed] at hsent
    by_cases hlimit : KEEPALIVE_MISSES ≤ (since run n).length + 1
    · exact ⟨⟨t, ht⟩, hgoing, by omega⟩
    · rw [if_neg hlimit] at hsent
      simp at hsent
  · rintro ⟨⟨t, ht⟩, hgoing, hthird⟩
    refine ⟨t, ht, ?_⟩
    rw [if_neg (by rw [hgoing]; exact Bool.false_ne_true), (missed_eq hgoing).1,
      if_pos (Nat.le_of_eq hthird.symm)]
    simp

/-! ## The time

With ticks at their pace the count is a span of time, so a silent client is closed in time and one
that answers is kept. -/

/-- Two ticks are an interval apart at least. -/
theorem Timed.spaced_at (h : Timed run) {j t u : Nat} (hij : i < j)
    (hi : run[i]? = some (t, .tick)) (hj : run[j]? = some (u, .tick)) :
    t + KEEPALIVE_INTERVAL ≤ u := by
  obtain ⟨hlt, hi⟩ := List.getElem?_eq_some_iff.mp hi
  obtain ⟨hlt', hj⟩ := List.getElem?_eq_some_iff.mp hj
  have hapart := List.pairwise_iff_getElem.mp h.spaced i j hlt hlt' hij
  rw [hi, hj] at hapart
  exact hapart rfl rfl

/-- A probe nothing came after was left for an interval by the next. -/
theorem silent_of_since (h : Timed run) {u : Nat} (hn : run[n]? = some (u, .tick))
    (hi : i ∈ since run n) : Silent run n i := by
  obtain ⟨hlt, ⟨t, ht⟩, hquiet⟩ := mem_since.mp hi
  exact ⟨t, u, .tick, ht, hn, h.spaced_at hlt ht hn,
    fun j v msg hij hj hrecv => absurd hrecv (hquiet j v msg hij hj)⟩

/-- **Three probes were left for an interval each exactly when one before the last three was.** -/
theorem patient_iff (h : Timed run) : Patient run ↔
    ∀ n, (∃ t, run[n]? = some (t, .tick)) → (loopAt run n).ended = false →
      (since run n).length + 1 = KEEPALIVE_MISSES → ∃ i < n, i ∉ since run n ∧ Silent run n i := by
  constructor
  · intro hpatient n htick hgoing hthird
    obtain ⟨probes, hcard, hprobes⟩ := hpatient n (closesAt_iff.mpr ⟨htick, hgoing, hthird⟩)
    -- three of them are not all among the two since the last message
    have hnot : ¬probes ⊆ (since run n).toFinset := by
      intro hsub
      have hle := Finset.card_le_card hsub
      rw [List.toFinset_card_of_nodup since_nodup] at hle
      omega
    obtain ⟨i, hi, hout⟩ := Finset.not_subset.mp hnot
    exact ⟨i, (hprobes i hi).1, fun hin => hout (List.mem_toFinset.mpr hin), (hprobes i hi).2⟩
  · intro hearlier n hcloses
    obtain ⟨⟨u, htick⟩, hgoing, hthird⟩ := closesAt_iff.mp hcloses
    obtain ⟨i, hlt, hout, hsilent⟩ := hearlier n ⟨u, htick⟩ hgoing hthird
    refine ⟨insert i (since run n).toFinset, ?_, fun j hj => ?_⟩
    · rw [Finset.card_insert_of_notMem (fun hin => hout (List.mem_toFinset.mp hin)),
        List.toFinset_card_of_nodup since_nodup, hthird]
    · rcases Finset.mem_insert.mp hj with rfl | hj
      · exact ⟨hlt, hsilent⟩
      · have hin := List.mem_toFinset.mp hj
        exact ⟨(mem_since.mp hin).1, silent_of_since h htick hin⟩

/-- **A client that answers every probe within an interval is never given up.** -/
theorem answering_kept (h : Timed run) (hanswered : Answered run) (n : Nat) : ¬ClosesAt run n := by
  intro hcloses
  obtain ⟨⟨u, htick⟩, -, hthird⟩ := closesAt_iff.mp hcloses
  -- the first of the two probes before had two intervals
  match hsince : since run n with
  | [] => rw [hsince] at hthird; cases hthird
  | [_] => rw [hsince] at hthird; cases hthird
  | a :: b :: rest =>
    have ha : a ∈ since run n := by rw [hsince]; exact List.mem_cons_self
    have hb : b ∈ since run n := by rw [hsince]; exact List.mem_cons_of_mem _ List.mem_cons_self
    have hne : a ≠ b := by
      have hnodup : (since run n).Nodup := since_nodup
      rw [hsince] at hnodup
      rintro rfl
      exact (List.nodup_cons.mp hnodup).1 List.mem_cons_self
    obtain ⟨halt, ⟨t, ht⟩, haquiet⟩ := mem_since.mp ha
    obtain ⟨hblt, ⟨v, hv⟩, hbquiet⟩ := mem_since.mp hb
    have hpos : 0 < KEEPALIVE_INTERVAL := by decide
    have hanswer : ∀ i j t v, i < j → run[i]? = some (t, .tick) → run[j]? = some (v, .tick) →
        j < n → ∃ j v msg, i < j ∧ j < n ∧ run[j]? = some (v, .recv msg) := by
      intro i j t v hij hi hj hjn
      have hfirst := h.spaced_at hij hi hj
      have hsecond := h.spaced_at hjn hj htick
      obtain ⟨k, w, msg, hik, hkn, hrecv, -⟩ :=
        hanswered i t hi n u .tick (hij.trans hjn) htick (by omega)
      exact ⟨k, w, msg, hik, hkn, hrecv⟩
    rcases Nat.lt_or_gt_of_ne hne with hab | hba
    · obtain ⟨k, w, msg, hik, hkn, hrecv⟩ := hanswer a b t v hab ht hv hblt
      exact haquiet k w msg hik hkn hrecv
    · obtain ⟨k, w, msg, hik, hkn, hrecv⟩ := hanswer b a v t hba hv ht halt
      exact hbquiet k w msg hik hkn hrecv

/-- **Keep-alive gives up on silent clients, a probe early**: in every run, three probes are left
for an interval each when a client is given up exactly if one was before the last message; and one
that answers every probe within an interval is never given up. -/
theorem keep_alive (run : LoopRun) (h : Timed run) :
    (Patient run ↔ ∀ n, (∃ t, run[n]? = some (t, .tick)) → (loopAt run n).ended = false →
      (since run n).length + 1 = KEEPALIVE_MISSES → ∃ i < n, i ∉ since run n ∧ Silent run n i)
    ∧ (Answered run → ∀ n, ¬ClosesAt run n) :=
  ⟨patient_iff h, answering_kept h⟩

/-- The first probe is answered as the second is due, and then nothing comes any more. -/
def lateRun : LoopRun :=
  [(0, .tick), (3000, .recv .keepAlive), (3000, .tick), (6000, .tick), (9000, .tick)]

def answeredRun : LoopRun :=
  [(0, .tick), (10, .recv .keepAlive), (3000, .tick), (3010, .recv .keepAlive), (6000, .tick)]

/-- A client late with its first answer has had three intervals when it is given up; one that answers
in time is not. -/
theorem keep_alive_late_or_answered : (Timed lateRun ∧ ClosesAt lateRun 4 ∧ Patient lateRun)
    ∧ Timed answeredRun ∧ ∀ n, ¬ClosesAt answeredRun n := by
  have hlate : Timed lateRun := ⟨by decide, by decide⟩
  have htimed : Timed answeredRun := ⟨by decide, by decide⟩
  refine ⟨⟨hlate, ⟨9000, rfl, by decide⟩, (keep_alive lateRun hlate).1.mpr ?_⟩, htimed,
    (keep_alive answeredRun htimed).2 ?_⟩
  -- by hand over the five events of the late run
  · intro n ⟨t, ht⟩ _ hcount
    obtain ⟨hlt, -⟩ := List.getElem?_eq_some_iff.mp ht
    have hlen : n < 5 := hlt
    have hlast : n = 4 := by
      interval_cases n
      · exact absurd hcount (by decide)
      · cases ht
      · exact absurd hcount (by decide)
      · exact absurd hcount (by decide)
      · rfl
    subst hlast
    refine ⟨0, by decide, by decide, 0, 9000, .tick, rfl, rfl, by decide, ?_⟩
    intro j v msg hj0 hj4 hj
    interval_cases j <;> cases hj
    decide
  -- and over the five of the answered one
  · intro i t hi n u ev hin hn hlate
    obtain ⟨hlt, hn⟩ := List.getElem?_eq_some_iff.mp hn
    obtain ⟨-, hi⟩ := List.getElem?_eq_some_iff.mp hi
    have hlen : n < 5 := hlt
    have hint : KEEPALIVE_INTERVAL = 3000 := rfl
    interval_cases n <;> interval_cases i <;> simp [answeredRun] at hi hn <;>
      first
        | omega
        | exact ⟨1, 10, .keepAlive, by decide, by decide, rfl, by omega⟩

def silentRun : LoopRun := [(0, .tick), (3000, .tick), (6000, .tick)]

/-- A client that says nothing is given up with the third probe, which is given no time. -/
theorem third_probe_gets_no_time : ∃ run, Timed run ∧ ClosesAt run 2 ∧ ¬Patient run := by
  have htimed : Timed silentRun := ⟨by decide, by decide⟩
  refine ⟨silentRun, htimed, ⟨6000, rfl, by decide⟩, fun hpatient => ?_⟩
  obtain ⟨i, hlt, hout, -⟩ := (patient_iff htimed).mp hpatient 2 ⟨6000, rfl⟩ (by decide) (by decide)
  have hall : ∀ i < 2, i ∈ since silentRun 2 := by decide
  exact hout (hall i hlt)

end LoopRun

end GeserDesk
