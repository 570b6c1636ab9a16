import Mathlib.Data.List.Forall2
import GeserDesk.Lib.Transition
import GeserDesk.Proto.Clipboard

/-!
# Messages as frames on a byte stream

`send` and `recv` of `MessageStream` in `geserdesk-proto/src/codec.rs`. A frame is the length of
its payload, four bytes, and the payload. `recv` keeps what it has read and not yet used in the
stream itself, so that its future can be dropped while it waits for a read.

* **`framing`**: however the bytes of a list of messages arrive, and whichever futures are
  dropped, `recv` returns these messages in order and then says how the stream ended, one result for
  each call that is not dropped, and all of them if it is called often enough; and of a frame that
  is too large no more is ever held than came with one read.
* **`one_read_brings_whole_frame`**: that may be all of it; and with frames from `2 ^ 32` bytes
  allowed, the length of one does not fit its four bytes.
-/

namespace GeserDesk

inductive CodecError where
  /-- `UnexpectedEof`: the stream ended inside a frame. -/
  | io
  | closed
  | frameTooLarge (size max : Nat)
  | encode
  | decode
deriving DecidableEq, Repr

/-- What postcard does to the messages of one type. -/
structure Format (α : Type) where
  encode : α → Option Bytes
  decode : Bytes → Option α

/-- `u32::to_le_bytes`. A larger number loses its upper digits, as by `as u32`. -/
def u32ToLeBytes (n : Nat) : Bytes :=
  [UInt8.ofNat (n % 256), UInt8.ofNat (n / 256 % 256), UInt8.ofNat (n / 65536 % 256),
    UInt8.ofNat (n / 16777216 % 256)]

def u32FromLeBytes (a b c d : UInt8) : Nat :=
  a.toNat + 256 * b.toNat + 65536 * c.toNat + 16777216 * d.toNat

/-- The bytes `send` writes. -/
def send {α : Type} (format : Format α) (maxFrame : Nat) (msg : α) : Except CodecError Bytes :=
  match format.encode msg with
  | none => .error .encode
  | some payload =>
    if maxFrame < payload.length then .error (.frameTooLarge payload.length maxFrame)
    else .ok (u32ToLeBytes payload.length ++ payload)

/-- What `recv` makes of the front of its buffer, with what is left of the buffer; nothing as
long as it has to read on. A header that is refused stays where it is. -/
def recvFront {α : Type} (format : Format α) (maxFrame : Nat) (rbuf : Bytes) :
    Option (Except CodecError α × Bytes) :=
  match rbuf with
  | a :: b :: c :: d :: rest =>
    let len := u32FromLeBytes a b c d
    if maxFrame < len then some (.error (.frameTooLarge len maxFrame), rbuf)
    else if len ≤ rest.length then
      match format.decode (rest.take len) with
      | some msg => some (.ok msg, rest.drop len)
      | none => some (.error .decode, rest.drop len)
    else none
  | _ => none

/-! ## A receiver and its reads

A receiver that is called to `recv`: it takes a message off the front of its buffer, or reads on
when there is none. A read brings any number of bytes. -/

/-- A stream at its receiving end. -/
structure Receiving (α : Type) where
  /-- Sent and not read yet; the stream ends after it. -/
  left : Bytes
  rbuf : Bytes := []
  /-- A `recv` future is at its read. -/
  waiting : Bool := false
  returned : List (Except CodecError α) := []
  /-- What the last read brought (bookkeeping only). -/
  lastRead : Bytes := []

inductive RecvLabel where
  | call
  | read (n : Nat)
  | eof
  | drop
deriving DecidableEq, Repr

section

variable {α : Type} (format : Format α) (maxFrame : Nat)

/-- The loop of `recv` up to its next read, or its end. -/
def Receiving.advance (s : Receiving α) : Receiving α :=
  match recvFront format maxFrame s.rbuf with
  | some (result, rest) =>
    { s with rbuf := rest, waiting := false, returned := s.returned ++ [result] }
  | none => { s with waiting := true }

def Receiving.step (s : Receiving α) : RecvLabel → Option (Receiving α)
  | .call => if s.waiting then none else some (s.advance format maxFrame)
  | .read n =>
    if s.waiting ∧ 0 < n ∧ n ≤ s.left.length then
      some ({ s with left := s.left.drop n, rbuf := s.rbuf ++ s.left.take n
                     lastRead := s.left.take n }.advance format maxFrame)
    else none
  | .eof =>
    if s.waiting ∧ s.left = [] then
      some { s with
        waiting := false
        returned := s.returned ++ [.error (if s.rbuf.isEmpty then .closed else .io)] }
    else none
  -- the future goes, the buffer is the stream's
  | .drop => if s.waiting then some { s with waiting := false } else none

/-- All runs of a receiver on a stream of these bytes. -/
def recvLts (stream : Bytes) : Lts (Receiving α) RecvLabel where
  init s := s = { left := stream }
  step s l := s.step format maxFrame l

end

/-! ## The front of the buffer

What stands at the front: too little, a frame that is too large, or a whole message. -/

section

variable {α : Type} {format : Format α} {maxFrame : Nat}

/-- A length below 2^32 is read back from its four bytes. -/
theorem u32FromLeBytes_toLeBytes {n : Nat} (h : n < 2 ^ 32) :
    u32FromLeBytes (UInt8.ofNat (n % 256)) (UInt8.ofNat (n / 256 % 256))
      (UInt8.ofNat (n / 65536 % 256)) (UInt8.ofNat (n / 16777216 % 256)) = n := by
  unfold u32FromLeBytes
  -- each digit is below 256, so nothing is cut off
  simp only [UInt8.toNat_ofNat']
  omega

/-- What was sent is a header that says the length, and the payload. -/
theorem send_eq_ok {msg : α} {wire : Bytes} (h : send format maxFrame msg = .ok wire) :
    ∃ payload, format.encode msg = some payload ∧ payload.length ≤ maxFrame
      ∧ wire = u32ToLeBytes payload.length ++ payload := by
  unfold send at h
  cases hencode : format.encode msg with
  | none =>
    rw [hencode] at h
    cases h
  | some payload =>
    rw [hencode] at h
    have h : (if maxFrame < payload.length then Except.error (CodecError.frameTooLarge _ _)
      else .ok (u32ToLeBytes payload.length ++ payload)) = .ok wire := h
    split at h
    · cases h
    · next hlen => exact ⟨payload, rfl, Nat.le_of_not_lt hlen, (Except.ok.inj h).symm⟩

/-- At the front of a buffer that goes on as a frame: the message once all of the frame is there,
and nothing before. -/
theorem recvFront_sent (hmax : maxFrame < 2 ^ 32)
    (hformat : ∀ msg payload, format.encode msg = some payload →
      format.decode payload = some msg)
    {msg : α} {wire rbuf more rest : Bytes} (hsend : send format maxFrame msg = .ok wire)
    (hbuf : rbuf ++ more = wire ++ rest) :
    recvFront format maxFrame rbuf
      = if wire.length ≤ rbuf.length then some (.ok msg, rbuf.drop wire.length) else none := by
  obtain ⟨payload, hencode, hlen, rfl⟩ := send_eq_ok hsend
  have hwire : (u32ToLeBytes payload.length ++ payload).length = payload.length + 4 := by
    rw [List.length_append, Nat.add_comm]
    rfl
  rw [hwire]
  match rbuf, hbuf with
  | a :: b :: c :: d :: body, hbuf =>
    -- the header is all there
    unfold u32ToLeBytes at hbuf
    simp only [List.cons_append, List.nil_append, List.cons.injEq] at hbuf
    obtain ⟨rfl, rfl, rfl, rfl, hbody⟩ := hbuf
    -- a frame that `send` lets through has a length that four bytes hold
    have hheader := u32FromLeBytes_toLeBytes (n := payload.length) (by omega)
    unfold recvFront
    simp only [hheader, if_neg (Nat.not_lt.mpr hlen)]
    by_cases hall : payload.length ≤ body.length
    · have htake : body.take payload.length = payload := by
        have := congrArg (List.take payload.length) hbody
        rwa [List.take_append_of_le_length hall, List.take_left] at this
      rw [if_pos hall, htake, hformat msg payload hencode, if_pos (by simpa using hall)]
      rfl
    · rw [if_neg hall, if_neg (by simpa using hall)]
  -- part of the header is still to come
  | [], _ | [_], _ | [_, _], _ | [_, _, _], _ =>
    unfold recvFront
    simp

/-- The length that the header at the front announces, once its four bytes are there. -/
def announces : Bytes → Option Nat
  | a :: b :: c :: d :: _ => some (u32FromLeBytes a b c d)
  | _ => none

/-- A buffer that is read on to is short of what its header announces, which is allowed. -/
theorem recvFront_eq_none_iff {rbuf : Bytes} :
    recvFront format maxFrame rbuf = none ↔
      ∀ n, announces rbuf = some n → n ≤ maxFrame ∧ rbuf.length < 4 + n := by
  match rbuf with
  | a :: b :: c :: d :: body =>
    unfold recvFront announces
    simp only [Option.some.injEq, forall_eq', List.length_cons]
    split
    · simp
      omega
    · split
      · split
        · simp
          omega
        · simp
          omega
      · simp only [true_iff]
        omega
  | [] | [_] | [_, _] | [_, _, _] =>
    unfold recvFront announces
    simp

/-- A frame that is too large is refused, and stays. -/
theorem recvFront_tooLarge {rbuf : Bytes} {n : Nat} (h : announces rbuf = some n)
    (hn : maxFrame < n) :
    recvFront format maxFrame rbuf = some (.error (.frameTooLarge n maxFrame), rbuf) := by
  match rbuf, h with
  | a :: b :: c :: d :: body, h =>
    obtain rfl := Option.some.inj h
    exact if_pos hn

/-- `recv` takes a whole frame off the buffer or leaves it as it is. -/
theorem recvFront_eq_some {rbuf rest : Bytes} {result : Except CodecError α}
    (h : recvFront format maxFrame rbuf = some (result, rest)) :
    rest = rbuf ∨ ∃ n, announces rbuf = some n ∧ rest = rbuf.drop (4 + n) := by
  match rbuf, h with
  | a :: b :: c :: d :: body, h =>
    unfold recvFront at h
    simp only at h
    split at h
    · exact .inl (Prod.ext_iff.mp (Option.some.inj h)).2.symm
    · refine .inr ⟨_, rfl, ?_⟩
      rw [Nat.add_comm]
      show rest = body.drop _
      split at h
      · split at h
        · exact (Prod.ext_iff.mp (Option.some.inj h)).2.symm
        · exact (Prod.ext_iff.mp (Option.some.inj h)).2.symm
      · cases h

/-- A header at the front stays there when more is read. -/
theorem announces_append {kept : Bytes} {n : Nat} (more : Bytes) (h : announces kept = some n) :
    announces (kept ++ more) = some n := by
  match kept, h with
  | _ :: _ :: _ :: _ :: _, h => exact h

/-- Four bytes are a header. -/
theorem announces_of_length {kept : Bytes} (h : 4 ≤ kept.length) : ∃ n, announces kept = some n := by
  match kept, h with
  | _ :: _ :: _ :: _ :: _, _ => exact ⟨_, rfl⟩

end

/-! ## What is held, whatever is sent

No more than one largest frame and one read is ever held, for any bytes from the other side. -/

section

variable {α : Type} {format : Format α} {maxFrame : Nat} {stream : Bytes}

/-- The buffer is something that was read on to, and after it the end of the last read. -/
def Receiving.Held (format : Format α) (maxFrame : Nat) (s : Receiving α) : Prop :=
  (∃ kept more, s.rbuf = kept ++ more ∧ more <:+ s.lastRead
    ∧ recvFront format maxFrame kept = none)
  ∧ (s.waiting = true → recvFront format maxFrame s.rbuf = none)

/-- What the loop takes off the front reaches beyond what was read on to. -/
theorem Receiving.held_advance {s : Receiving α} {kept more : Bytes} (hbuf : s.rbuf = kept ++ more)
    (hmore : more <:+ s.lastRead) (hkept : recvFront format maxFrame kept = none) :
    (s.advance format maxFrame).Held format maxFrame := by
  unfold Receiving.advance
  cases hfront : recvFront format maxFrame s.rbuf with
  | none => exact ⟨⟨kept, more, hbuf, hmore, hkept⟩, fun _ => hfront⟩
  | some out =>
    obtain ⟨result, rest⟩ := out
    refine ⟨?_, nofun⟩
    rcases recvFront_eq_some hfront with rfl | ⟨n, hn, rfl⟩
    · exact ⟨kept, more, hbuf, hmore, hkept⟩
    -- all of `kept` is gone with the frame, and the rest came with the last read
    · refine ⟨[], s.rbuf.drop (4 + n), rfl, ?_, rfl⟩
      have hlen : kept.length ≤ 4 + n := by
        by_cases hfour : 4 ≤ kept.length
        · obtain ⟨m, hm⟩ := announces_of_length hfour
          have hsame := announces_append more hm
          rw [← hbuf, hn] at hsame
          obtain rfl := Option.some.inj hsame
          have := (recvFront_eq_none_iff.mp hkept _ hm).2
          omega
        · omega
      show s.rbuf.drop (4 + n) <:+ s.lastRead
      rw [hbuf, List.drop_append, List.drop_of_length_le hlen, List.nil_append]
      exact (List.drop_suffix _ _).trans hmore

/-- What one step of a receiver can be. -/
theorem Receiving.step_cases {s s' : Receiving α} {l : RecvLabel}
    (h : s.step format maxFrame l = some s') :
    (l = .call ∧ s.waiting = false ∧ s' = s.advance format maxFrame)
    ∨ (∃ n, l = .read n ∧ s.waiting = true ∧ 0 < n ∧ n ≤ s.left.length
      ∧ s' = { s with left := s.left.drop n, rbuf := s.rbuf ++ s.left.take n
                      lastRead := s.left.take n }.advance format maxFrame)
    ∨ (l = .eof ∧ s.waiting = true ∧ s.left = [] ∧ s' = { s with
        waiting := false
        returned := s.returned ++ [.error (if s.rbuf.isEmpty then .closed else .io)] })
    ∨ l = .drop ∧ s.waiting = true ∧ s' = { s with waiting := false } := by
  cases l with
  | call =>
    have h : (if s.waiting then none else some (s.advance format maxFrame)) = some s' := h
    cases hw : s.waiting with
    | true => simp [hw] at h
    | false => exact .inl ⟨rfl, rfl, by simpa [hw] using h.symm⟩
  | read n =>
    obtain ⟨⟨hw, hpos, hn⟩, h⟩ := Option.ite_none_right_eq_some.mp h
    exact .inr (.inl ⟨n, rfl, hw, hpos, hn, (Option.some.inj h).symm⟩)
  | eof =>
    obtain ⟨⟨hw, hleft⟩, h⟩ := Option.ite_none_right_eq_some.mp h
    exact .inr (.inr (.inl ⟨rfl, hw, hleft, (Option.some.inj h).symm⟩))
  | drop =>
    obtain ⟨hw, h⟩ := Option.ite_none_right_eq_some.mp h
    exact .inr (.inr (.inr ⟨rfl, hw, (Option.some.inj h).symm⟩))

/-- No step lets the buffer grow past the frame that is announced, the last read apart. -/
theorem Receiving.held_step {s s' : Receiving α} {l : RecvLabel}
    (h : s.Held format maxFrame) (hl : s.step format maxFrame l = some s') :
    s'.Held format maxFrame := by
  obtain ⟨⟨kept, more, hbuf, hmore, hkept⟩, hwait⟩ := h
  rcases step_cases hl with ⟨_, _, rfl⟩ | ⟨n, _, hw, _, _, rfl⟩ | ⟨_, _, _, rfl⟩ | ⟨_, _, rfl⟩
  · exact held_advance hbuf hmore hkept
  -- the buffer so far is what is read on to
  · exact held_advance rfl (List.suffix_refl _) (hwait hw)
  · exact ⟨⟨kept, more, hbuf, hmore, hkept⟩, nofun⟩
  · exact ⟨⟨kept, more, hbuf, hmore, hkept⟩, nofun⟩

/-- The invariant holds in every state reached. -/
theorem Receiving.held {s : Receiving α} (hs : (recvLts format maxFrame stream).Reachable s) :
    s.Held format maxFrame := by
  refine hs.invariant (P := Receiving.Held format maxFrame) (fun s h => ?_)
    fun s l s' _ h _ hl => held_step h hl
  obtain rfl : s = _ := h
  exact ⟨⟨[], [], rfl, List.suffix_refl _, rfl⟩, nofun⟩

/-- What a limit on frames comes to, in a state of the receiver. -/
structure Receiving.Guarded (format : Format α) (maxFrame : Nat) (s : Receiving α) : Prop where
  /-- It only reads on to a header that is allowed, and to less than the frame. -/
  reads_on : s.waiting = true → ∀ n, announces s.rbuf = some n →
    n ≤ maxFrame ∧ s.rbuf.length < 4 + n
  /-- A header that is not allowed is refused at once, now and later, and what is there of its
  frame came with one read. -/
  refused : ∀ n, announces s.rbuf = some n → maxFrame < n →
    s.step format maxFrame .call
        = some { s with returned := s.returned ++ [.error (.frameTooLarge n maxFrame)] }
      ∧ s.rbuf.drop 4 <:+ s.lastRead
  bounded : s.rbuf.length < 4 + maxFrame + s.lastRead.length

/-- A buffer that holds no frame too long is guarded: an announcement above the limit ends the
reading. -/
theorem Receiving.Held.guarded {s : Receiving α} (h : s.Held format maxFrame) :
    s.Guarded format maxFrame := by
  obtain ⟨⟨kept, more, hbuf, hmore, hkept⟩, hwait⟩ := h
  have hkept := recvFront_eq_none_iff.mp hkept
  refine ⟨fun hw => recvFront_eq_none_iff.mp (hwait hw), fun n hn hlarge => ⟨?_, ?_⟩, ?_⟩
  -- it does not wait for more of a frame that is too large
  · have hidle : s.waiting = false := by
      by_contra hw
      have := (recvFront_eq_none_iff.mp (hwait (by simpa using hw)) n hn).1
      omega
    unfold Receiving.step Receiving.advance
    rw [hidle, if_neg Bool.false_ne_true, recvFront_tooLarge hn hlarge]
  · -- the header was not all there before the last read
    have hshort : kept.length < 4 := by
      by_contra hfour
      obtain ⟨m, hm⟩ := announces_of_length (Nat.le_of_not_lt hfour)
      have hsame := announces_append more hm
      rw [← hbuf, hn] at hsame
      have := (hkept m hm).1
      have := Option.some.inj hsame
      omega
    rw [hbuf, List.drop_append, List.drop_of_length_le (Nat.le_of_lt hshort), List.nil_append]
    exact (List.drop_suffix _ _).trans hmore
  · have hlen : kept.length < 4 + maxFrame := by
      by_cases hfour : 4 ≤ kept.length
      · obtain ⟨m, hm⟩ := announces_of_length hfour
        have := hkept m hm
        omega
      · omega
    have := hmore.length_le
    rw [hbuf, List.length_append]
    omega

end

/-! ## What was sent

Where the other side sends whole frames, what has been returned, what is held and what is still to
be read make up what was sent. -/

section

variable {α : Type} {format : Format α} {maxFrame : Nat}

/-- What follows the last whole frame: nothing, or a part of one more frame. -/
def Tail (format : Format α) (maxFrame : Nat) (tail : Bytes) : Prop :=
  tail = [] ∨ ∃ msg wire, send format maxFrame msg = .ok wire ∧ tail <+: wire ∧ tail ≠ wire

/-- How a stream that ends with `tail` after its frames is said to end. -/
def endOf (tail : Bytes) : CodecError := if tail.isEmpty then .closed else .io

/-- Some of the messages were returned, the frames of the others are in the buffer and still to
be read, and nothing but the end was returned after the last of them. -/
structure Receiving.InOrder (format : Format α) (maxFrame : Nat) (msgs : List α)
    (frames : List Bytes) (tail : Bytes) (k j : Nat) (s : Receiving α) : Prop where
  count : k ≤ msgs.length
  returned : s.returned
    = (msgs.take k).map Except.ok ++ List.replicate j (Except.error (endOf tail))
  bytes : s.rbuf ++ s.left = (frames.drop k).flatten ++ tail
  ended : 0 < j → k = msgs.length ∧ s.left = []
  waiting : s.waiting = true → recvFront format maxFrame s.rbuf = none

/-- The tail is never a frame. -/
theorem recvFront_tail (hmax : maxFrame < 2 ^ 32)
    (hformat : ∀ msg payload, format.encode msg = some payload →
      format.decode payload = some msg)
    {tail rbuf left : Bytes} (htail : Tail format maxFrame tail) (hbuf : rbuf ++ left = tail) :
    recvFront format maxFrame rbuf = none := by
  rcases htail with rfl | ⟨msg, wire, hsend, ⟨more, hmore⟩, hne⟩
  · rw [(List.append_eq_nil_iff.mp hbuf).1]
    rfl
  · have hwhole : rbuf ++ (left ++ more) = wire ++ [] := by
      rw [← List.append_assoc, hbuf, hmore, List.append_nil]
    rw [recvFront_sent hmax hformat hsend hwhole]
    refine if_neg fun hlen => hne ?_
    -- otherwise the tail is as long as the frame
    have hsum := congrArg List.length hmore
    have hsum' := congrArg List.length hbuf
    rw [List.length_append] at hsum hsum'
    have hnil : more = [] := List.length_eq_zero_iff.mp (by omega)
    rw [← hmore, hnil, List.append_nil]

section

variable (hmax : maxFrame < 2 ^ 32) (hformat : ∀ msg payload, format.encode msg = some payload →
  format.decode payload = some msg) {msgs : List α} {frames : List Bytes} {tail : Bytes}
  (hsent : List.Forall₂ (fun msg wire => send format maxFrame msg = .ok wire) msgs frames)
  (htail : Tail format maxFrame tail)

include hmax hformat hsent htail

/-- The loop returns the next message, once it is all there. -/
theorem Receiving.inOrder_advance {s : Receiving α} {k j : Nat}
    (h : (⟨s.left, s.rbuf, false, s.returned, s.lastRead⟩ : Receiving α).InOrder format maxFrame
      msgs frames tail k j) :
    ∃ k' j', (s.advance format maxFrame).InOrder format maxFrame msgs frames tail k' j' := by
  have hlen := hsent.length_eq
  have hbytes : s.rbuf ++ s.left = (frames.drop k).flatten ++ tail := h.bytes
  unfold Receiving.advance
  -- the next frame is at the front, as far as it is there
  by_cases hk : k < msgs.length
  · have hk' : k < frames.length := hlen ▸ hk
    have hdrop : frames.drop k = frames[k] :: frames.drop (k + 1) := List.drop_eq_getElem_cons hk'
    rw [hdrop, List.flatten_cons, List.append_assoc] at hbytes
    have hsend : send format maxFrame msgs[k] = .ok frames[k] := List.Forall₂.get hsent hk hk'
    rw [recvFront_sent hmax hformat hsend hbytes]
    -- nothing but messages was returned so far
    have hj : j = 0 := by
      by_contra hj
      have := (h.ended (Nat.pos_of_ne_zero hj)).1
      omega
    subst hj
    by_cases hall : frames[k].length ≤ s.rbuf.length
    · rw [if_pos hall]
      refine ⟨k + 1, 0, hk, ?_, ?_, nofun, nofun⟩
      · show s.returned ++ [.ok msgs[k]] = _
        have hreturned : s.returned = (msgs.take k).map Except.ok ++ [] := h.returned
        rw [hreturned, List.take_add_one, List.getElem?_eq_getElem hk, List.map_append]
        simp
      · have := congrArg (List.drop frames[k].length) hbytes
        rwa [List.drop_append_of_le_length hall, List.drop_left] at this
    · rw [if_neg hall]
      exact ⟨k, 0, h.count, h.returned, h.bytes, nofun, fun _ => by
        show recvFront format maxFrame s.rbuf = none
        rw [recvFront_sent hmax hformat hsend hbytes, if_neg hall]⟩
  -- no frame is left, and the tail is none
  · have hdrop : frames.drop k = [] := List.drop_eq_nil_of_le (by omega)
    rw [hdrop] at hbytes
    have hnone := recvFront_tail hmax hformat htail hbytes
    rw [hnone]
    exact ⟨k, j, h.count, h.returned, h.bytes, h.ended, fun _ => hnone⟩

/-- A step goes on to the next message, the next read, or the end. -/
theorem Receiving.inOrder_step {s s' : Receiving α} {l : RecvLabel} {k j : Nat}
    (h : s.InOrder format maxFrame msgs frames tail k j)
    (hl : s.step format maxFrame l = some s') :
    ∃ k' j', s'.InOrder format maxFrame msgs frames tail k' j' := by
  rcases step_cases hl with
    ⟨_, _, rfl⟩ | ⟨n, _, hw, hpos, hn, rfl⟩ | ⟨_, hw, hleft, rfl⟩ | ⟨_, _, rfl⟩
  · exact inOrder_advance hmax hformat hsent htail
      ⟨h.count, h.returned, h.bytes, h.ended, nofun⟩
  · refine inOrder_advance hmax hformat hsent htail (k := k) (j := j)
      ⟨h.count, h.returned, ?_, fun hj => ?_, nofun⟩
    · show s.rbuf ++ s.left.take n ++ s.left.drop n = _
      rw [List.append_assoc, List.take_append_drop, h.bytes]
    -- the end was returned already, so there is nothing to read
    · have := (h.ended hj).2
      rw [this] at hn
      exact absurd hn (by simpa using Nat.pos_iff_ne_zero.mp hpos)
  · -- nothing is left to read, and the buffer is no frame: every message was returned
    have hbytes := h.bytes
    rw [hleft, List.append_nil] at hbytes
    have hk : k = msgs.length := by
      by_contra hne
      have hk : k < msgs.length := Nat.lt_of_le_of_ne h.count hne
      have hk' : k < frames.length := hsent.length_eq ▸ hk
      rw [List.drop_eq_getElem_cons hk', List.flatten_cons, List.append_assoc] at hbytes
      have hsend : send format maxFrame msgs[k] = .ok frames[k] := List.Forall₂.get hsent hk hk'
      have hfront := h.waiting hw
      have hbuf : s.rbuf ++ [] = frames[k] ++ ((frames.drop (k + 1)).flatten ++ tail) := by
        rw [List.append_nil, hbytes]
      rw [recvFront_sent hmax hformat hsend hbuf, if_pos] at hfront
      · cases hfront
      · rw [hbytes, List.length_append]
        omega
    have htailBuf : s.rbuf = tail := by
      have hdrop : frames.drop k = [] := by
        have := hsent.length_eq
        exact List.drop_eq_nil_of_le (by omega)
      rw [hbytes, hdrop]
      rfl
    refine ⟨k, j + 1, h.count, ?_, h.bytes, fun _ => ⟨hk, hleft⟩, nofun⟩
    show s.returned ++ [.error (endOf s.rbuf)] = _
    rw [h.returned, htailBuf, List.replicate_succ', List.append_assoc]
  · exact ⟨k, j, h.count, h.returned, h.bytes, h.ended, nofun⟩

/-- **In every state reached the messages returned are those sent, in order, and the buffer is what
comes next.** -/
theorem Receiving.inOrder {s : Receiving α}
    (hs : (recvLts format maxFrame (frames.flatten ++ tail)).Reachable s) :
    ∃ k j, s.InOrder format maxFrame msgs frames tail k j := by
  refine hs.invariant (P := fun s => ∃ k j, s.InOrder format maxFrame msgs frames tail k j)
    (fun s h => ?_) fun s l s' _ h _ hl => ?_
  · obtain rfl : s = _ := h
    exact ⟨0, 0, Nat.zero_le _, rfl, rfl, nofun, nofun⟩
  · obtain ⟨k, j, h⟩ := h
    exact inOrder_step hmax hformat hsent htail h hl

end

/-- Going on takes nothing from the stream. -/
theorem Receiving.advance_left (s : Receiving α) : (s.advance format maxFrame).left = s.left := by
  unfold Receiving.advance
  split <;> rfl

/-- A call that is not dropped ends, at the latest when every byte left was read alone. -/
theorem Receiving.call_ends {stream : Bytes} {s s' : Receiving α} {ls : List RecvLabel}
    (hls : ∀ l ∈ ls, l ≠ .call ∧ l ≠ .drop)
    (h : (recvLts format maxFrame stream).run s ls = some s') :
    ls.length ≤ if s.waiting then s.left.length + 1 else 0 := by
  induction ls generalizing s with
  | nil => exact Nat.zero_le _
  | cons l ls ih =>
    rw [List.forall_mem_cons] at hls
    rw [Lts.run] at h
    cases hl : (recvLts format maxFrame stream).step s l with
    | none =>
      rw [hl] at h
      cases h
    | some t =>
      rw [hl] at h
      have hrest := ih hls.2 h
      rw [List.length_cons]
      rcases step_cases hl with ⟨rfl, _⟩ | ⟨n, _, hw, hpos, hn, rfl⟩ | ⟨_, hw, _, rfl⟩ | ⟨rfl, _⟩
      -- a read that brings no result leaves less to read
      · exact absurd rfl hls.1.1
      · rw [advance_left, List.length_drop] at hrest
        rw [if_pos hw]
        split at hrest <;> omega
      · have hnone : ls.length ≤ 0 := hrest
        rw [if_pos hw]
        omega
      · exact absurd rfl hls.1.2

/-- However many results there are by now, they are the messages sent, in order, and then the end of
the stream. -/
theorem Receiving.in_order_of_reachable (hmax : maxFrame < 2 ^ 32)
    (hformat : ∀ msg payload, format.encode msg = some payload →
      format.decode payload = some msg) {msgs : List α} {frames : List Bytes} {tail : Bytes}
    (hsent : List.Forall₂ (fun msg wire => send format maxFrame msg = .ok wire) msgs frames)
    (htail : Tail format maxFrame tail) {s : Receiving α}
    (hs : (recvLts format maxFrame (frames.flatten ++ tail)).Reachable s) :
    s.returned = (msgs.map Except.ok
      ++ List.replicate s.returned.length (Except.error (endOf tail))).take s.returned.length := by
  obtain ⟨k, j, h⟩ := Receiving.inOrder hmax hformat hsent htail hs
  have hlen : s.returned.length = k + j := by
    rw [h.returned, List.length_append, List.length_map, List.length_take, List.length_replicate,
      Nat.min_eq_left h.count]
  -- the end came after the last message, or not yet
  rcases Nat.eq_zero_or_pos j with rfl | hj
  · have hle : k ≤ (msgs.map (Except.ok (ε := CodecError))).length := by
      rw [List.length_map]
      exact h.count
    rw [hlen, Nat.add_zero, List.take_append_of_le_length hle, h.returned, ← List.map_take]
    simp
  · obtain ⟨rfl, _⟩ := h.ended hj
    have htake : (msgs.map (Except.ok (ε := CodecError))).length ≤ msgs.length + j := by simp
    rw [hlen, List.take_append, List.take_of_length_le htake, List.length_map,
      Nat.add_sub_cancel_left, List.take_replicate, Nat.min_eq_left (Nat.le_add_left _ _),
      h.returned, List.take_length]

/-! ## Every call has its result

A call that waits can read on while there is something to read, and every call that ended has
added one result. -/

namespace Receiving

/-- One while a call is at its read. -/
def pending (s : Receiving α) : Nat := if s.waiting then 1 else 0

variable (format maxFrame) in
/-- The loop goes on waiting, or returns one result. -/
theorem returned_advance (s : Receiving α) :
    (s.advance format maxFrame).returned.length + (s.advance format maxFrame).pending
      = s.returned.length + 1 := by
  unfold advance
  split <;> simp [pending]

/-- A call adds one to the calls that are due a result, a result and a drop each take one away. -/
theorem returned_step {s s' : Receiving α} {l : RecvLabel}
    (h : s.step format maxFrame l = some s') :
    s'.returned.length + s'.pending + [l].count .drop
      = s.returned.length + s.pending + [l].count .call := by
  have hadvance := returned_advance format maxFrame
  rcases step_cases h with ⟨rfl, hw, rfl⟩ | ⟨n, rfl, hw, -, -, rfl⟩ | ⟨rfl, hw, -, rfl⟩ |
    ⟨rfl, hw, rfl⟩
  · have hone := hadvance s
    simp only [pending, hw] at hone ⊢
    simpa using hone
  · have hone := hadvance { s with
      left := s.left.drop n, rbuf := s.rbuf ++ s.left.take n, lastRead := s.left.take n }
    simp only [pending, hw] at hone ⊢
    simpa using hone
  · simp [pending, hw]
  · simp [pending, hw]

/-- Every call of a run was dropped, has returned one result, or is at its read. -/
theorem returned_run {stream : Bytes} {s s' : Receiving α} {ls : List RecvLabel}
    (h : (recvLts format maxFrame stream).run s ls = some s') :
    s'.returned.length + s'.pending + ls.count .drop
      = s.returned.length + s.pending + ls.count .call := by
  induction ls generalizing s with
  | nil =>
    obtain rfl : s = s' := Option.some.inj h
    rfl
  | cons l ls ih =>
    rw [Lts.run] at h
    cases hl : (recvLts format maxFrame stream).step s l with
    | none =>
      rw [hl] at h
      cases h
    | some t =>
      rw [hl] at h
      have hrest := ih h
      have hfirst := returned_step hl
      rw [show l :: ls = [l] ++ ls from rfl, List.count_append, List.count_append]
      omega

/-- What can happen in a state: a call if none is under way, and at the read of one any part of
what is left, or the end. -/
structure CanGoOn (format : Format α) (maxFrame : Nat) (s : Receiving α) : Prop where
  call : s.waiting = false → (s.step format maxFrame .call).isSome
  read : s.waiting = true → ∀ n, 0 < n → n ≤ s.left.length →
    (s.step format maxFrame (.read n)).isSome
  eof : s.waiting = true → s.left = [] → (s.step format maxFrame .eof).isSome

/-- Whatever happened before, a call that waits can be brought on. -/
theorem canGoOn (s : Receiving α) : s.CanGoOn format maxFrame := by
  refine ⟨fun hw => ?_, fun hw n hpos hn => ?_, fun hw hleft => ?_⟩
  · simp [step, hw]
  · simp [step, hw, hpos, hn]
  · simp [step, hw, hleft]

/-- A call at its read can be brought to its result: by a read of all that is left, and then the end
if that is not enough. -/
theorem waiting_ends (stream : Bytes) {s : Receiving α} (hw : s.waiting = true) :
    ∃ ls s', (recvLts format maxFrame stream).run s ls = some s'
      ∧ .call ∉ ls ∧ .drop ∉ ls ∧ s'.waiting = false := by
  have heof : ∀ t : Receiving α, t.waiting = true → t.left = [] → ∃ u,
      (recvLts format maxFrame stream).step t .eof = some u ∧ u.waiting = false := by
    exact fun t hw hleft => ⟨{ t with
      waiting := false
      returned := t.returned ++ [.error (if t.rbuf.isEmpty then .closed else .io)] },
      if_pos ⟨hw, hleft⟩, rfl⟩
  by_cases hleft : s.left = []
  · obtain ⟨u, hu, hidle⟩ := heof s hw hleft
    exact ⟨[.eof], u, Lts.run_cons hu [], by simp, by simp, hidle⟩
  · have hread : (recvLts format maxFrame stream).step s (.read s.left.length) = some _ :=
      if_pos ⟨hw, List.length_pos_iff.mpr hleft, Nat.le_refl _⟩
    generalize hall : Receiving.advance format maxFrame { s with
      left := s.left.drop s.left.length, rbuf := s.rbuf ++ s.left.take s.left.length
      lastRead := s.left.take s.left.length } = t at hread
    have hnone : t.left = [] := by
      rw [← hall, advance_left]
      exact List.drop_length
    cases hidle : t.waiting with
    | false => exact ⟨_, t, Lts.run_cons hread [], by simp, by simp, hidle⟩
    | true =>
      obtain ⟨u, hu, hidle⟩ := heof t hidle hnone
      exact ⟨[.read s.left.length, .eof], u, by rw [Lts.run_cons hread, Lts.run_cons hu]; rfl,
        by simp, by simp, hidle⟩

variable (format maxFrame) in
/-- As many calls as one likes have a result each. -/
theorem calls_return (stream : Bytes) (s : Receiving α) (k : Nat) :
    ∃ ls s', (recvLts format maxFrame stream).run s ls = some s' ∧ .drop ∉ ls
      ∧ s'.waiting = false ∧ s'.returned.length = s.returned.length + s.pending + k := by
  induction k with
  | zero =>
    cases hw : s.waiting with
    | false => exact ⟨[], s, rfl, List.not_mem_nil, hw, by simp [pending, hw]⟩
    | true =>
      obtain ⟨ls, t, hrun, hnocall, hnodrop, hidle⟩ := waiting_ends stream hw
      have hcount := returned_run hrun
      rw [List.count_eq_zero.mpr hnocall, List.count_eq_zero.mpr hnodrop] at hcount
      refine ⟨ls, t, hrun, hnodrop, hidle, ?_⟩
      rw [← hcount]
      simp [pending, hidle]
  | succ k ih =>
    obtain ⟨ls, t, hrun, hdrop, hidle', hlen⟩ := ih
    have hcall : (recvLts format maxFrame stream).step t .call = some (t.advance format maxFrame) :=
      if_neg (by simp [hidle'])
    obtain ⟨more, u, hmore, hnocall, hnodrop, hw⟩ : ∃ more u,
        (recvLts format maxFrame stream).run (t.advance format maxFrame) more = some u
          ∧ .call ∉ more ∧ .drop ∉ more ∧ u.waiting = false := by
      cases hw : (t.advance format maxFrame).waiting with
      | false => exact ⟨[], _, rfl, List.not_mem_nil, List.not_mem_nil, hw⟩
      | true => exact waiting_ends stream hw
    have hwhole : (recvLts format maxFrame stream).run t (.call :: more) = some u := by
      rw [Lts.run_cons hcall, hmore]
    refine ⟨ls ++ .call :: more, u, by rw [Lts.run_append hrun, hwhole], by simp [hdrop, hnodrop],
      hw, ?_⟩
    have hcount := returned_run hwhole
    simp only [pending, hidle', hw, Bool.false_eq_true, if_false, List.count_cons_self,
      List.count_eq_zero.mpr hnocall, List.count_cons_of_ne (show RecvLabel.call ≠ .drop by decide),
      List.count_eq_zero.mpr hnodrop] at hcount
    omega

end Receiving

/-! ## Framing

All of it together, for every run of calls and reads. -/

/-- What `recv` has done in a run and can do from there, on a stream of these messages that ends with
`tail`. -/
structure Receiving.Framed (format : Format α) (maxFrame : Nat) (stream : Bytes) (msgs : List α)
    (tail : Bytes) (ls : List RecvLabel) (s : Receiving α) : Prop where
  /-- However many results there are by now, they are the messages sent, in order, and then the end
  of the stream. -/
  in_order : s.returned = (msgs.map Except.ok
      ++ List.replicate s.returned.length (Except.error (endOf tail))).take s.returned.length
  /-- Every call was dropped, has returned one of them, or is at its read. -/
  each_call : ls.count .call = s.returned.length + ls.count .drop + s.pending
  /-- It goes on however the bytes come, and ends. -/
  goes_on : s.CanGoOn format maxFrame
  ends : ∀ more s', (∀ l ∈ more, l ≠ .call ∧ l ≠ .drop) →
    (recvLts format maxFrame stream).run s more = some s' →
      more.length ≤ if s.waiting then s.left.length + 1 else 0
  /-- Called often enough it returns all the messages, and how the stream ended. -/
  all : s.returned.length + s.pending ≤ msgs.length + 1 →
    ∃ more s', (recvLts format maxFrame stream).run s more = some s' ∧ .drop ∉ more
      ∧ s'.returned = msgs.map Except.ok ++ [.error (endOf tail)]

/-- **Framing.** Over any stream of messages, in every run, `recv` returns what is due, one result a
call, and goes on to the last of it; and whatever the stream is, no more than one read is held of a
frame that is too large. -/
theorem framing (hmax : maxFrame < 2 ^ 32)
    (hformat : ∀ msg payload, format.encode msg = some payload →
      format.decode payload = some msg) :
    (∀ (msgs : List α) (frames : List Bytes) (tail : Bytes),
      List.Forall₂ (fun msg wire => send format maxFrame msg = .ok wire) msgs frames →
      Tail format maxFrame tail →
      ∀ ls s, (recvLts format maxFrame (frames.flatten ++ tail)).run
          { left := frames.flatten ++ tail } ls = some s →
        s.Framed format maxFrame (frames.flatten ++ tail) msgs tail ls)
    ∧ ∀ stream s, (recvLts format maxFrame stream).Reachable s → s.Guarded format maxFrame := by
  refine ⟨fun msgs frames tail hsent htail ls s hrun => ?_,
    fun stream s hs => (Receiving.held hs).guarded⟩
  -- what was returned is the first part of the messages and the end, repeated
  have horder : ∀ ls s, (recvLts format maxFrame (frames.flatten ++ tail)).run
      { left := frames.flatten ++ tail } ls = some s →
      s.returned = (msgs.map Except.ok
        ++ List.replicate s.returned.length (Except.error (endOf tail))).take s.returned.length :=
    fun ls s hrun => Receiving.in_order_of_reachable hmax hformat hsent htail
      (Lts.reachable_of_run rfl hrun)
  refine ⟨horder ls s hrun, ?_, s.canGoOn, fun more s' hmore h => Receiving.call_ends hmore h,
    fun hle => ?_⟩
  -- a call adds one result, and one that waits will
  · have hcount := Receiving.returned_run hrun
    have hstart : (Receiving.pending ({ left := frames.flatten ++ tail } : Receiving α)) = 0 := rfl
    rw [hstart, List.length_nil] at hcount
    omega
  -- let every call that is missing come and end
  · obtain ⟨more, s', hmore, hdrop, -, hlen⟩ := Receiving.calls_return format
      maxFrame (frames.flatten ++ tail) s
      (msgs.length + 1 - (s.returned.length + s.pending))
    refine ⟨more, s', hmore, hdrop, ?_⟩
    have hall := horder (ls ++ more) s' (by rw [Lts.run_append hrun, hmore])
    have hlen : s'.returned.length = msgs.length + 1 := by omega
    rw [hlen] at hall
    rw [hall, List.take_append, List.length_map, List.take_of_length_le (by simp),
      List.take_replicate, Nat.add_sub_cancel_left, Nat.min_eq_left (by omega)]
    rfl

end

/-! ### Frames that came with one read, and lengths beyond four bytes -/

/-- Messages that are their own encoding. -/
def Format.raw : Format Bytes := ⟨some, some⟩

/-- A frame of three bytes where two are allowed; and a stream that ends inside its second frame, one
future being dropped inside the header of the first. -/
theorem framing_three_bytes :
    Receiving.Guarded Format.raw 2 ⟨[], [3, 0, 0, 0, 7, 7, 7], false,
        [.error (.frameTooLarge 3 2)], [3, 0, 0, 0, 7, 7, 7]⟩
      ∧ Receiving.Framed Format.raw 2 [1, 0, 0, 0, 7, 1, 0] [[7]] [1, 0]
        [.call, .read 3, .drop, .call, .read 2, .call, .read 2, .eof]
        ⟨[], [1, 0], false, [.ok [7], .error .io], [1, 0]⟩ := by
  have hformat : ∀ msg payload, Format.raw.encode msg = some payload →
      Format.raw.decode payload = some msg := fun _ _ h => Eq.symm h
  constructor
  -- a header above the limit comes with its whole frame
  · have hrun : (recvLts Format.raw 2 [3, 0, 0, 0, 7, 7, 7]).run
        { left := [3, 0, 0, 0, 7, 7, 7] } [.call, .read 7] = some _ := rfl
    exact (framing (by decide) hformat).2 _ _ (Lts.reachable_of_run rfl hrun)
  -- a message in two reads, a dropped call between them, and the beginning of another
  · have hrun : (recvLts Format.raw 2 ([[1, 0, 0, 0, 7]].flatten ++ [1, 0])).run
        { left := [[1, 0, 0, 0, 7]].flatten ++ [1, 0] }
        [.call, .read 3, .drop, .call, .read 2, .call, .read 2, .eof]
        = some ⟨[], [1, 0], false, [.ok [7], .error .io], [1, 0]⟩ := rfl
    have hpart : Tail Format.raw 2 [1, 0] :=
      .inr ⟨[7], [1, 0, 0, 0, 7], rfl, ⟨[0, 0, 7], rfl⟩, by decide⟩
    exact (framing (by decide) hformat).1 [[7]] [[1, 0, 0, 0, 7]] [1, 0] (.cons rfl .nil) hpart _ _
      hrun

/-- With frames of two bytes allowed, a read of seven bytes brings all of a frame of three, and
there it stays; and with frames of `2 ^ 32` bytes allowed, one of that size is announced as empty
and received so. -/
theorem one_read_brings_whole_frame :
    (∃ s, (recvLts Format.raw 2 [3, 0, 0, 0, 7, 7, 7]).Reachable s
      ∧ s.rbuf = u32ToLeBytes 3 ++ [7, 7, 7])
    ∧ ∃ msg wire s, send Format.raw (2 ^ 32) msg = .ok wire
      ∧ (recvLts Format.raw (2 ^ 32) wire).Reachable s ∧ s.returned = [.ok []] ∧ msg ≠ [] := by
  constructor
  -- one read brings a frame of three bytes, where two are allowed
  · have hrun : (recvLts Format.raw 2 [3, 0, 0, 0, 7, 7, 7]).run
        { left := [3, 0, 0, 0, 7, 7, 7] } [.call, .read 7] = some _ := rfl
    exact ⟨_, Lts.reachable_of_run rfl hrun, rfl⟩
  -- a length of 2 ^ 32 is written as zero
  · obtain ⟨msg, hlen⟩ : ∃ msg : Bytes, msg.length = 2 ^ 32 :=
      ⟨List.replicate (2 ^ 32) 0, List.length_replicate⟩
    have hsend : send Format.raw (2 ^ 32) msg = .ok ([0, 0, 0, 0] ++ msg) := by
      show (if 2 ^ 32 < msg.length then _ else Except.ok (u32ToLeBytes msg.length ++ msg)) = _
      rw [hlen]
      rfl
    have hrun : (recvLts Format.raw (2 ^ 32) ([0, 0, 0, 0] ++ msg)).run
        { left := [0, 0, 0, 0] ++ msg } [.call, .read 4]
        = some ⟨msg, [], false, [.ok []], [0, 0, 0, 0]⟩ := by
      simp [Lts.run, recvLts, Receiving.step, Receiving.advance, recvFront, u32FromLeBytes,
        Format.raw]
    refine ⟨msg, _, _, hsend, Lts.reachable_of_run rfl hrun, rfl, ?_⟩
    rintro rfl
    simp at hlen

end GeserDesk
