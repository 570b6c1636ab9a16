import Mathlib.Data.List.Nodup
import GeserDesk.Lib.Transition
import GeserDesk.Server.Pending

/-!
# Pending trust requests over time

A ledger beside the list: when each request was listed, and when it was last refreshed, if it
has been noted and not been dismissed or displaced since, nor its name approved.

* **`pending_kept`**: the list is bounded and without duplicates, what is displaced was listed
  before every other request that is pending, subscribers are told of what was not pending,
  and a request in the ledger can be approved until it expires.
* **`refreshed_request_is_displaced`**: a request that keeps being refreshed keeps its place, and
  is displaced before ones that were not heard of since.
-/

namespace GeserDesk

/-- When a request was listed, and when it was last refreshed. -/
structure Stamp where
  listed : Nat
  seen : Nat
deriving DecidableEq

structure PendingRun where
  trust : TrustAt
  clock : Nat := 0
  /-- How many calls there were. -/
  serial : Nat := 0
  ledger : String × Fingerprint → Option Stamp := fun _ => none

inductive PendingLabel where
  | wait (nanos : Nat)
  | note (name : String) (fp : Fingerprint) (addr : String)
  | pending
  | approve (name : String) (fp : Fingerprint)
  | dismiss (name : String) (fp : Fingerprint)
  | revoke (name : String)
  | restore (name : String) (fp : Option Fingerprint)

namespace PendingRun

/-- The ledger after a request was noted: it is listed anew if it was told of, and refreshed if
it was not; what it displaced is gone. -/
def noted (s : PendingRun) (name : String) (fp : Fingerprint) (addr : String) :
    String × Fingerprint → Option Stamp := fun k =>
  if k = (name, fp) then
    if (s.trust.notePending s.clock name fp addr).2.isSome then some ⟨s.serial, s.clock⟩
    else (s.ledger k).map fun st => { st with seen := s.clock }
  else if (s.trust.displaced s.clock name fp).map PendingAt.key = some k then none
  else s.ledger k

def step (s : PendingRun) : PendingLabel → Option PendingRun
  | .wait nanos => some { s with clock := s.clock + nanos }
  | .note name fp addr =>
    some { s with trust := (s.trust.notePending s.clock name fp addr).1, serial := s.serial + 1,
                  ledger := s.noted name fp addr }
  | .pending => some { s with trust := (s.trust.pendingNow s.clock).1 }
  | .approve name fp =>
    let (trust, approved) := s.trust.approve name fp
    some { s with trust := trust,
                  ledger := fun k => if approved ∧ k.1 = name then none else s.ledger k }
  | .dismiss name fp =>
    some { s with trust := (s.trust.dismiss name fp).1,
                  ledger := fun k => if k = (name, fp) then none else s.ledger k }
  | .revoke name => some { s with trust := (s.trust.revoke name).1 }
  | .restore name fp => some { s with trust := s.trust.restore name fp }

/-- The request is in the ledger and was refreshed less than `PENDING_TTL` ago. -/
def Fresh (s : PendingRun) (k : String × Fingerprint) : Prop :=
  ∃ st, s.ledger k = some st ∧ s.clock - st.seen < PENDING_TTL

end PendingRun

/-- The pending list, as a transition system. -/
def pendingRuns : Lts PendingRun PendingLabel where
  init s := ∃ trusted, s = { trust := { trusted := trusted } }
  step := PendingRun.step

/-- What holds of the pending list at any time. -/
structure PendingKept (s : PendingRun) : Prop where
  bounded : s.trust.pending.length ≤ Trust.maxPending
  distinct : (s.trust.pending.map PendingAt.key).Nodup
  /-- What a new request displaces is pending, and listed before all else that is. -/
  displaced : ∀ name fp e, s.trust.displaced s.clock name fp = some e → s.Fresh e.key
    ∧ ∀ k, k ≠ e.key → s.Fresh k → ∃ st ∈ s.ledger e.key, ∃ st' ∈ s.ledger k, st.listed < st'.listed
  /-- Subscribers are told of a request exactly when it was not pending already. -/
  told : ∀ name fp addr,
    (s.trust.notePending s.clock name fp addr).2.isSome ↔ ¬s.Fresh (name, fp)
  /-- What is in the ledger can be approved until it expires. -/
  approves : ∀ name fp, s.Fresh (name, fp) → (s.trust.approve name fp).2 = true
  /-- What was never noted, or was dismissed, displaced or its name approved since, cannot. -/
  refuses : ∀ name fp, s.ledger (name, fp) = none → (s.trust.approve name fp).2 = false

/-! ## The invariant

The list has every request that is still fresh, in the order of listing, each once, and never more
than it may hold. -/

/-- The list is the ledger in the order of listing, what has expired aside. -/
structure PendingInv (s : PendingRun) : Prop where
  listed : ∀ e ∈ s.trust.pending, ∃ st ∈ s.ledger e.key, st.seen = e.lastSeen
  order : s.trust.pending.Pairwise fun e e' =>
    ∀ st ∈ s.ledger e.key, ∀ st' ∈ s.ledger e'.key, st.listed < st'.listed
  kept : ∀ k, s.Fresh k → ∃ e ∈ s.trust.pending, e.key = k
  serial : ∀ k, ∀ st ∈ s.ledger k, st.listed < s.serial
  bounded : s.trust.pending.length ≤ Trust.maxPending

/-- A request is the one asked for just if its name and its fingerprint are. -/
theorem PendingAt.is_iff (e : PendingAt) (name : String) (fp : Fingerprint) :
    e.request.is name fp = true ↔ e.key = (name, fp) := by
  rw [Trust.Pending.is, Bool.and_eq_true, beq_iff_eq, beq_iff_eq, PendingAt.key, Prod.mk.injEq]

namespace PendingInv

variable {s : PendingRun}

/-- No request is listed twice. -/
theorem distinct (hi : PendingInv s) : (s.trust.pending.map PendingAt.key).Nodup := by
  rw [List.Nodup, List.pairwise_map]
  refine hi.order.imp_of_mem fun {e e'} he _ hlt hkey => ?_
  obtain ⟨st, hst, -⟩ := hi.listed e he
  exact Nat.lt_irrefl _ (hlt st hst st (hkey ▸ hst))

/-- An entry is retained exactly when its request is fresh. -/
theorem alive_iff (hi : PendingInv s) {e : PendingAt} (he : e ∈ s.trust.pending) :
    e.alive s.clock = true ↔ s.Fresh e.key := by
  obtain ⟨st, hst, hseen⟩ := hi.listed e he
  rw [PendingAt.alive, decide_eq_true_eq]
  constructor
  · exact fun h => ⟨st, hst, by rw [hseen]; exact h⟩
  · rintro ⟨st', hst', h⟩
    rw [Option.mem_def.mp hst] at hst'
    rw [← hseen, Option.some.inj hst']
    exact h

/-- What is retained are the requests that are fresh. -/
theorem mem_retained (hi : PendingInv s) (k : String × Fingerprint) :
    (∃ e ∈ s.trust.retained s.clock, e.key = k) ↔ s.Fresh k := by
  constructor
  · rintro ⟨e, he, rfl⟩
    obtain ⟨hmem, halive⟩ := List.mem_filter.mp he
    exact (hi.alive_iff hmem).mp halive
  · intro h
    obtain ⟨e, he, rfl⟩ := hi.kept k h
    exact ⟨e, List.mem_filter.mpr ⟨he, (hi.alive_iff he).mpr h⟩, rfl⟩

/-- A request of a name and fingerprint is retained just if that one is fresh. -/
theorem any_retained (hi : PendingInv s) (name : String) (fp : Fingerprint) :
    (s.trust.retained s.clock).any (·.request.is name fp) = true ↔ s.Fresh (name, fp) := by
  rw [List.any_eq_true, ← hi.mem_retained]
  simp only [PendingAt.is_iff]

/-- What is retained stands in the order in which it was first listed. -/
theorem retained_order (hi : PendingInv s) : (s.trust.retained s.clock).Pairwise fun e e' =>
    ∀ st ∈ s.ledger e.key, ∀ st' ∈ s.ledger e'.key, st.listed < st'.listed :=
  hi.order.sublist List.filter_sublist

/-- What is displaced is the head of what is retained, and no request of that pair is. -/
theorem displaced_eq {t : TrustAt} {now : Nat} {name : String} {fp : Fingerprint} {e : PendingAt}
    (h : t.displaced now name fp = some e) : ∃ rest, t.retained now = e :: rest := by
  unfold TrustAt.displaced at h
  split at h
  · cases h
  · split at h
    · exact List.head?_eq_some_iff.mp h
    · cases h

/-- The invariant gives what is said of the list. -/
theorem keeps (hi : PendingInv s) : PendingKept s where
  bounded := hi.bounded
  distinct := hi.distinct
  displaced name fp e h := by
    obtain ⟨rest, hrest⟩ := displaced_eq h
    have hmem : e ∈ s.trust.retained s.clock := hrest ▸ List.mem_cons_self
    refine ⟨(hi.mem_retained e.key).mp ⟨e, hmem, rfl⟩, fun k hne hk => ?_⟩
    obtain ⟨e', he', rfl⟩ := (hi.mem_retained k).mpr hk
    obtain ⟨st, hst, -⟩ := hi.listed e (List.mem_filter.mp hmem).1
    obtain ⟨st', hst', -⟩ := hi.listed e' (List.mem_filter.mp he').1
    have horder := hi.retained_order
    rw [hrest, List.pairwise_cons] at horder
    rw [hrest] at he'
    rcases List.mem_cons.mp he' with rfl | he'
    · exact absurd rfl hne
    · exact ⟨st, hst, st', hst', horder.1 e' he' st hst st' hst'⟩
  told name fp addr := by
    rw [← hi.any_retained]
    unfold TrustAt.notePending
    dsimp only
    split
    · next h => exact ⟨fun hc => (by cases hc), fun hc => absurd h hc⟩
    · next h => exact ⟨fun _ => h, fun _ => rfl⟩
  approves name fp h := by
    obtain ⟨e, he, hkey⟩ := hi.kept _ h
    rw [TrustAt.approve, if_pos (List.any_eq_true.mpr ⟨e, he, (e.is_iff name fp).mpr hkey⟩)]
  refuses name fp h := by
    rw [TrustAt.approve, if_neg]
    intro hany
    obtain ⟨e, he, his⟩ := List.any_eq_true.mp hany
    obtain ⟨st, hst, -⟩ := hi.listed e he
    rw [(e.is_iff name fp).mp his, h] at hst
    cases hst

/-- Some of the entries are gone, and of the ledger nothing that is still listed. -/
theorem sub (hi : PendingInv s) {trust : TrustAt} {ledger : String × Fingerprint → Option Stamp}
    (hsub : trust.pending.Sublist s.trust.pending)
    (hsame : ∀ e ∈ trust.pending, ledger e.key = s.ledger e.key)
    (hle : ∀ k, ∀ st ∈ ledger k, st ∈ s.ledger k)
    (hkept : ∀ e ∈ s.trust.pending, ∀ st ∈ ledger e.key, s.clock - st.seen < PENDING_TTL →
      e ∈ trust.pending) :
    PendingInv { s with trust := trust, ledger := ledger } where
  listed e he := by
    obtain ⟨st, hst, hseen⟩ := hi.listed e (hsub.subset he)
    exact ⟨st, (hsame e he).trans hst, hseen⟩
  order := (hi.order.sublist hsub).imp fun {_ _} h st hst st' hst' =>
    h st (hle _ _ hst) st' (hle _ _ hst')
  kept k hk := by
    obtain ⟨st, hst, hlt⟩ := hk
    obtain ⟨e, he, rfl⟩ := hi.kept k ⟨st, hle k st hst, hlt⟩
    exact ⟨e, hkept e he st hst hlt, rfl⟩
  serial k st hst := hi.serial k st (hle k st hst)
  bounded := le_trans hsub.length_le hi.bounded

/-! ## The calls

What each call does to the requests and their times. -/

/-- Time passes without a change of the list. -/
theorem wait (hi : PendingInv s) (nanos : Nat) : PendingInv { s with clock := s.clock + nanos } where
  listed := hi.listed
  order := hi.order
  kept k hk := by
    obtain ⟨st, hst, hlt⟩ := hk
    have hlt' : s.clock + nanos - st.seen < PENDING_TTL := hlt
    exact hi.kept k ⟨st, hst, by omega⟩
  serial := hi.serial
  bounded := hi.bounded

/-- An approval takes one request off the list. -/
theorem approve (hi : PendingInv s) (name : String) (fp : Fingerprint) :
    PendingInv { s with
      trust := (s.trust.approve name fp).1,
      ledger := fun k => if (s.trust.approve name fp).2 ∧ k.1 = name then none else s.ledger k } := by
  unfold TrustAt.approve
  split
  · refine hi.sub List.filter_sublist (fun e he => ?_) (fun k st hst => ?_) fun e he st hst _ => ?_
    · have hne := (List.mem_filter.mp he).2
      rw [bne_iff_ne] at hne
      exact if_neg fun h => hne h.2
    · split at hst
      · cases hst
      · exact hst
    · refine List.mem_filter.mpr ⟨he, bne_iff_ne.mpr fun h => ?_⟩
      rw [if_pos ⟨rfl, h⟩] at hst
      cases hst
  · simp only [Bool.false_eq_true, false_and, if_false]
    exact hi

/-- A dismissal takes one request off the list. -/
theorem dismiss (hi : PendingInv s) (name : String) (fp : Fingerprint) :
    PendingInv { s with
      trust := (s.trust.dismiss name fp).1,
      ledger := fun k => if k = (name, fp) then none else s.ledger k } := by
  refine hi.sub List.filter_sublist (fun e he => ?_) (fun k st hst => ?_) fun e he st hst _ => ?_
  · have hne := (List.mem_filter.mp he).2
    rw [Bool.not_eq_true', Bool.eq_false_iff, Ne, PendingAt.is_iff] at hne
    exact if_neg hne
  · split at hst
    · cases hst
    · exact hst
  · refine List.mem_filter.mpr ⟨he, ?_⟩
    rw [Bool.not_eq_true', Bool.eq_false_iff, Ne, PendingAt.is_iff]
    intro h
    rw [if_pos h] at hst
    cases hst

/-- A look at the list drops what is too old. -/
theorem pending (hi : PendingInv s) : PendingInv { s with trust := (s.trust.pendingNow s.clock).1 } := by
  refine hi.sub List.filter_sublist (fun _ _ => rfl) (fun _ _ h => h) fun e he st hst hlt => ?_
  exact List.mem_filter.mpr ⟨he, (hi.alive_iff he).mpr ⟨st, hst, hlt⟩⟩

/-- With one entry for each request, changing the first of a request changes that one. -/
theorem updateFirst_eq_map {name : String} {fp : Fingerprint} {f : PendingAt → PendingAt}
    {l : List PendingAt} (h : (l.map PendingAt.key).Nodup) :
    updateFirst (·.request.is name fp) f l
      = l.map fun e => if e.request.is name fp then f e else e := by
  induction l with
  | nil => rfl
  | cons e l ih =>
    rw [List.map_cons, List.nodup_cons] at h
    rw [updateFirst, List.map_cons]
    split
    · next he =>
      have hrest : l.map (fun e => if e.request.is name fp then f e else e) = l := by
        refine (List.map_congr_left fun e' he' => ?_).trans (List.map_id l)
        have hne : ¬e'.request.is name fp = true := fun hc => h.1 (by
          rw [(e.is_iff name fp).mp he, ← (e'.is_iff name fp).mp hc]
          exact List.mem_map_of_mem he')
        exact if_neg hne
      rw [hrest]
    · rw [ih h.2]

/-- What the ledger has for each request after a refresh: the same listing. -/
theorem refresh (hi : PendingInv s) {name : String} {fp : Fingerprint} {addr : String}
    (hfresh : s.Fresh (name, fp)) :
    PendingInv { s with trust := (s.trust.notePending s.clock name fp addr).1,
                        serial := s.serial + 1, ledger := s.noted name fp addr } := by
  have hany := (hi.any_retained name fp).mpr hfresh
  have hdisp : s.trust.displaced s.clock name fp = none := if_pos hany
  have htold : (s.trust.notePending s.clock name fp addr).2 = none := by
    rw [TrustAt.notePending, if_pos hany]
  have hledger : ∀ k, s.noted name fp addr k
      = if k = (name, fp) then (s.ledger k).map fun st => { st with seen := s.clock }
        else s.ledger k := fun k => by
    rw [PendingRun.noted, htold, hdisp]
    rfl
  -- a refresh moves no entry and leaves every listing as it was
  have hlist : ∀ k, ∀ st ∈ s.noted name fp addr k, ∃ st' ∈ s.ledger k, st'.listed = st.listed := by
    intro k st hst
    rw [hledger] at hst
    split at hst
    · obtain ⟨st', hst', rfl⟩ := Option.map_eq_some_iff.mp hst
      exact ⟨st', hst', rfl⟩
    · exact ⟨st, hst, rfl⟩
  let upd : PendingAt → PendingAt := fun e => if e.request.is name fp then
    ⟨{ e.request with addr := addr, replaces := s.trust.trusted.get? name }, s.clock⟩ else e
  have hpending : (s.trust.notePending s.clock name fp addr).1.pending
      = (s.trust.retained s.clock).map upd := by
    rw [TrustAt.notePending, if_pos hany]
    exact updateFirst_eq_map (hi.distinct.sublist (List.filter_sublist.map _))
  have hkey : ∀ e, (upd e).key = e.key := fun e => by
    show PendingAt.key (if _ then _ else _) = _
    split <;> rfl
  refine ⟨fun e' he' => ?_, ?_, fun k hk => ?_, fun k st hst => ?_, ?_⟩
  · rw [hpending] at he'
    obtain ⟨e, he, rfl⟩ := List.mem_map.mp he'
    obtain ⟨st, hst, hseen⟩ := hi.listed e (List.mem_filter.mp he).1
    show ∃ st ∈ s.noted name fp addr (upd e).key, st.seen = (upd e).lastSeen
    rw [hledger, hkey]
    by_cases his : e.request.is name fp = true
    · rw [if_pos ((e.is_iff name fp).mp his), Option.mem_def.mp hst]
      exact ⟨_, rfl, by show s.clock = (if _ then _ else _ : PendingAt).lastSeen; rw [if_pos his]⟩
    · rw [if_neg fun h => his ((e.is_iff name fp).mpr h)]
      exact ⟨st, hst, by
        show st.seen = (if _ then _ else _ : PendingAt).lastSeen
        rw [if_neg his, hseen]⟩
  · show List.Pairwise _ (s.trust.notePending s.clock name fp addr).1.pending
    rw [hpending, List.pairwise_map]
    refine hi.retained_order.imp fun {e e'} hlt st hst st' hst' => ?_
    rw [hkey] at hst hst'
    obtain ⟨u, hu, hul⟩ := hlist _ st hst
    obtain ⟨u', hu', hul'⟩ := hlist _ st' hst'
    rw [← hul, ← hul']
    exact hlt u hu u' hu'
  · obtain ⟨st, hst, hlt⟩ := hk
    have hfr : s.Fresh k := by
      rw [show (PendingRun.mk _ _ _ _).ledger k = _ from hledger k] at hst
      split at hst
      · next h => exact h ▸ hfresh
      · exact ⟨st, hst, hlt⟩
    obtain ⟨e, he, rfl⟩ := (hi.mem_retained k).mpr hfr
    exact ⟨upd e, hpending ▸ List.mem_map_of_mem he, hkey e⟩
  · obtain ⟨u, hu, hul⟩ := hlist k st hst
    have hlt := hi.serial k u hu
    show st.listed < s.serial + 1
    omega
  · show (s.trust.notePending s.clock name fp addr).1.pending.length ≤ _
    rw [hpending, List.length_map]
    exact le_trans (List.length_filter_le _ _) hi.bounded

/-- What is left of the retained entries when a new request comes: those that are not displaced. -/
theorem mem_room (hi : PendingInv s) {name : String} {fp : Fingerprint}
    (hnot : ¬s.Fresh (name, fp)) {e : PendingAt} :
    (e ∈ if Trust.maxPending ≤ (s.trust.retained s.clock).length then
        (s.trust.retained s.clock).tail else s.trust.retained s.clock)
      ↔ e ∈ s.trust.retained s.clock
        ∧ (s.trust.displaced s.clock name fp).map PendingAt.key ≠ some e.key := by
  have hany : ¬(s.trust.retained s.clock).any (·.request.is name fp) = true :=
    fun h => hnot ((hi.any_retained name fp).mp h)
  rw [TrustAt.displaced, if_neg hany]
  have hdistinct := hi.distinct.sublist
    ((List.filter_sublist (p := PendingAt.alive s.clock)).map PendingAt.key)
  change ((s.trust.retained s.clock).map PendingAt.key).Nodup at hdistinct
  split
  · cases hr : s.trust.retained s.clock with
    | nil => simp
    | cons e₀ rest =>
      rw [hr, List.map_cons, List.nodup_cons] at hdistinct
      simp only [List.tail_cons, List.head?_cons, Option.map_some, ne_eq, Option.some.injEq,
        List.mem_cons]
      constructor
      · exact fun h => ⟨.inr h, fun hk => hdistinct.1 (hk ▸ List.mem_map_of_mem h)⟩
      · rintro ⟨rfl | h, hne⟩
        · exact absurd rfl hne
        · exact h
  · simp

/-- A request that was not pending is listed behind all that are, and one may make room. -/
theorem list (hi : PendingInv s) {name : String} {fp : Fingerprint} {addr : String}
    (hnot : ¬s.Fresh (name, fp)) :
    PendingInv { s with trust := (s.trust.notePending s.clock name fp addr).1,
                        serial := s.serial + 1, ledger := s.noted name fp addr } := by
  have hany : ¬(s.trust.retained s.clock).any (·.request.is name fp) = true :=
    fun h => hnot ((hi.any_retained name fp).mp h)
  have htold : (s.trust.notePending s.clock name fp addr).2.isSome = true := by
    rw [TrustAt.notePending, if_neg hany]; rfl
  have hledger : ∀ k, s.noted name fp addr k = if k = (name, fp) then some ⟨s.serial, s.clock⟩
      else if (s.trust.displaced s.clock name fp).map PendingAt.key = some k then none
      else s.ledger k := fun k => by
    rw [PendingRun.noted, if_pos htold]
  have hle : ∀ k, ∀ st ∈ s.noted name fp addr k, st = ⟨s.serial, s.clock⟩ ∨ st ∈ s.ledger k := by
    intro k st hst
    rw [hledger] at hst
    split at hst
    · exact .inl (Option.some.inj hst).symm
    · split at hst
      · cases hst
      · exact .inr hst
  let room := if Trust.maxPending ≤ (s.trust.retained s.clock).length then
    (s.trust.retained s.clock).tail else s.trust.retained s.clock
  let new : PendingAt := ⟨⟨name, fp, addr, s.trust.trusted.get? name⟩, s.clock⟩
  have hpending : (s.trust.notePending s.clock name fp addr).1.pending = room ++ [new] := by
    rw [TrustAt.notePending, if_neg hany]
  have hsub : room.Sublist (s.trust.retained s.clock) := by
    show List.Sublist (if _ then _ else _) _
    split
    · exact List.tail_sublist _
    · exact List.Sublist.refl _
  have hroom : ∀ e ∈ room, s.noted name fp addr e.key = s.ledger e.key := fun e he => by
    obtain ⟨hmem, hdisp⟩ := (hi.mem_room hnot).mp he
    have hfresh : s.Fresh e.key := (hi.mem_retained e.key).mp ⟨e, hmem, rfl⟩
    have hne : e.key ≠ (name, fp) := fun h => hnot (by rw [← h]; exact hfresh)
    rw [hledger, if_neg hne, if_neg hdisp]
  have hnew : s.noted name fp addr new.key = some ⟨s.serial, s.clock⟩ :=
    (hledger new.key).trans (if_pos rfl)
  refine ⟨fun e he => ?_, ?_, fun k hk => ?_, fun k st hst => ?_, ?_⟩
  · have he : e ∈ room ++ [new] := hpending ▸ he
    rcases List.mem_append.mp he with he | he
    · obtain ⟨st, hst, hseen⟩ := hi.listed e (List.mem_filter.mp (hsub.subset he)).1
      exact ⟨st, (hroom e he).trans hst, hseen⟩
    · rw [List.mem_singleton.mp he]
      exact ⟨_, hnew, rfl⟩
  · show List.Pairwise _ (s.trust.notePending s.clock name fp addr).1.pending
    rw [hpending, List.pairwise_append]
    refine ⟨(hi.retained_order.sublist hsub).imp_of_mem fun {e e'} he he' hlt => ?_,
      List.pairwise_singleton _ _, fun e he e' he' => ?_⟩
    · show ∀ st ∈ s.noted name fp addr e.key, ∀ st' ∈ s.noted name fp addr e'.key, _
      rw [hroom e he, hroom e' he']
      exact hlt
    · -- what is listed now comes after all that was listed before
      rw [List.mem_singleton.mp he']
      show ∀ st ∈ s.noted name fp addr e.key, ∀ st' ∈ s.noted name fp addr new.key, _
      rw [hroom e he, hnew]
      intro st hst st' hst'
      rw [← Option.some.inj hst']
      exact hi.serial _ st hst
  · obtain ⟨st, hst, hlt⟩ := hk
    rw [show (PendingRun.mk _ _ _ _).ledger k = _ from hledger k] at hst
    show ∃ e ∈ (s.trust.notePending s.clock name fp addr).1.pending, e.key = k
    rw [hpending]
    by_cases hkey : k = (name, fp)
    · exact ⟨new, List.mem_append_right _ List.mem_cons_self, hkey.symm⟩
    · rw [if_neg hkey] at hst
      split at hst
      · cases hst
      · next hdisp =>
        obtain ⟨e, he, rfl⟩ := (hi.mem_retained k).mpr ⟨st, hst, hlt⟩
        exact ⟨e, List.mem_append_left _ ((hi.mem_room hnot).mpr ⟨he, hdisp⟩), rfl⟩
  · show st.listed < s.serial + 1
    rcases hle k st hst with rfl | hst
    · exact Nat.lt_succ_self _
    · have := hi.serial k st hst
      omega
  · have hlen : (s.trust.retained s.clock).length ≤ Trust.maxPending :=
      le_trans (List.length_filter_le _ _) hi.bounded
    show (s.trust.notePending s.clock name fp addr).1.pending.length ≤ _
    rw [hpending, List.length_append, List.length_singleton]
    show (if _ then _ else _ : List PendingAt).length + 1 ≤ _
    split
    · rw [List.length_tail]
      have : 0 < Trust.maxPending := by decide
      omega
    · omega

/-- **Every step keeps the list in step with its ledger.** -/
theorem step (hi : PendingInv s) {s' : PendingRun} {l : PendingLabel}
    (h : PendingRun.step s l = some s') : PendingInv s' := by
  cases l with
  | wait nanos => cases h; exact hi.wait nanos
  | note name fp addr =>
    cases h
    by_cases hfresh : s.Fresh (name, fp)
    · exact hi.refresh hfresh
    · exact hi.list hfresh
  | pending => cases h; exact hi.pending
  | approve name fp => cases h; exact hi.approve name fp
  | dismiss name fp => cases h; exact hi.dismiss name fp
  | revoke name => cases h; exact ⟨hi.listed, hi.order, hi.kept, hi.serial, hi.bounded⟩
  | restore name fp =>
    cases h
    cases fp <;> exact ⟨hi.listed, hi.order, hi.kept, hi.serial, hi.bounded⟩

end PendingInv

/-- **The pending list at any time.** -/
theorem pending_kept {s : PendingRun} (hs : pendingRuns.Reachable s) : PendingKept s := by
  refine PendingInv.keeps (hs.invariant (fun s h => ?_) fun s l s' _ hi _ hl => hi.step hl)
  obtain ⟨trusted, rfl⟩ := h
  refine ⟨fun e he => (by cases he), List.Pairwise.nil, fun k hk => ?_, fun k st hst => (by cases hst),
    Nat.zero_le _⟩
  obtain ⟨st, hst, -⟩ := hk
  cases hst

/-! ## A full list -/

/-- Sixteen requests, a second apart, and then the first once more. -/
def sixteenAndRefresh : List PendingLabel :=
  ((List.range 16).flatMap fun n => [.note s!"screen{n}" ⟨BitVec.ofNat 256 n⟩ "192.0.2.1:4000",
    .wait (10 ^ 9)]) ++ [.note "screen0" ⟨0⟩ "192.0.2.1:4001", .wait (10 ^ 9)]

/-- The server with nothing trusted and nothing pending. -/
def PendingRun.start : PendingRun := { trust := {} }

/-- Sixteen requests, and the first one again. -/
theorem pending_kept_full :
    ∃ s, pendingRuns.run .start sixteenAndRefresh = some s ∧ s.trust.pending.length = 16
      ∧ PendingKept s :=
  have hfin : ((pendingRuns.run .start sixteenAndRefresh).map fun s => s.trust.pending.length)
      = some 16 := by decide +kernel
  match h : pendingRuns.run .start sixteenAndRefresh, hfin with
  | some s, hfin =>
    ⟨s, rfl, Option.some.inj hfin, pending_kept (Lts.reachable_of_run ⟨∅, rfl⟩ h)⟩

/-- A new request displaces the first, which was heard of last: every other one has been without
activity for longer. -/
theorem refreshed_request_is_displaced :
    ∃ s, pendingRuns.Reachable s
      ∧ (s.trust.displaced s.clock "screen16" ⟨16⟩).map (fun e => (e.key, e.lastSeen))
        = some (("screen0", ⟨0⟩), 16 * 10 ^ 9)
      ∧ ∃ e ∈ s.trust.pending, e.lastSeen < 16 * 10 ^ 9 :=
  have hfin : ((pendingRuns.run .start sixteenAndRefresh).map fun s =>
      ((s.trust.displaced s.clock "screen16" ⟨16⟩).map fun e => (e.key, e.lastSeen),
        s.trust.pending.any fun e => decide (e.lastSeen < 16 * 10 ^ 9)))
        = some (some (("screen0", ⟨0⟩), 16 * 10 ^ 9), true) := by decide +kernel
  match h : pendingRuns.run .start sixteenAndRefresh, hfin with
  | some s, hfin => by
    simp only [Option.map_some, Option.some.injEq, Prod.mk.injEq, List.any_eq_true,
      decide_eq_true_eq] at hfin
    exact ⟨s, Lts.reachable_of_run ⟨∅, rfl⟩ h, hfin.1, hfin.2⟩

end GeserDesk
