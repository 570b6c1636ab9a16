import GeserDesk.Clipboard.Transfer
import Mathlib.Data.List.Induction

/-!
# What the assembler and `Inbound` accept

`ChunkAssembler` takes `Start Data* End` apart from what it refuses, and a refused chunk changes
nothing; `Inbound` drops the assembler at the first one.

* `push_completes_iff`: a chunk completes a stream exactly when, with it, the chunks that were not
  refused are a stream within the limit.
* `delivers_iff`: `Inbound` delivers contents exactly when the chunks of the latest grab's
  transfer since that grab, whatever came between, are a stream of them.
-/

namespace GeserDesk

/-- `Start Data* End`, of `bytes`: the total declared, if any, is their number, and they keep to the
limit. -/
def Streams (limit : Nat) (chunks : List Chunk) (bytes : Bytes) : Prop :=
  ∃ (total : Nat) (datas : List Bytes), chunks = .start total :: (datas.map .data ++ [.end])
    ∧ bytes = datas.flatten ∧ (total = 0 ∨ total = bytes.length)
    ∧ ∀ k, limit = 0 ∨ (datas.take k).flatten.length ≤ limit

namespace ChunkAssembler

/-- Push chunks, whatever comes of each. -/
def after (a : ChunkAssembler) (chunks : List Chunk) : ChunkAssembler :=
  chunks.foldl (fun a c => (a.push c).1) a

/-- What comes of each. -/
def outcomes : ChunkAssembler → List Chunk → List (Except ChunkError (Option Bytes))
  | _, [] => []
  | a, c :: cs => (a.push c).2 :: outcomes (a.push c).1 cs

/-- The chunks that are not refused. -/
def accepted : ChunkAssembler → List Chunk → List Chunk
  | _, [] => []
  | a, c :: cs =>
    match a.push c with
    | (a, .ok _) => c :: accepted a cs
    | (a, .error _) => accepted a cs

/-- Push chunks up to one that is refused or completes the stream. -/
def feedOpen : ChunkAssembler → List Chunk → Option ChunkAssembler
  | a, [] => some a
  | a, c :: cs =>
    match a.push c with
    | (a, .ok none) => feedOpen a cs
    | _ => none

/-- Feeding two stretches is feeding one after the other. -/
theorem feedOpen_append (a : ChunkAssembler) (xs ys : List Chunk) :
    a.feedOpen (xs ++ ys) = (a.feedOpen xs).bind fun a => a.feedOpen ys := by
  induction xs generalizing a with
  | nil => rfl
  | cons c xs ih =>
    rw [List.cons_append, feedOpen, feedOpen]
    split
    · next a' _ => exact ih a'
    · rfl

/-! ## One chunk -/

/-- A refused chunk changes nothing. -/
theorem push_error {a : ChunkAssembler} {c : Chunk} {e : ChunkError}
    (h : (a.push c).2 = .error e) : (a.push c).1 = a := by
  unfold push at h ⊢
  cases c <;> dsimp only at h ⊢ <;> split_ifs at h ⊢ <;> rfl

/-- More is expected after a chunk exactly if the stream is not over with it. -/
theorem push_none {a : ChunkAssembler} {c : Chunk} (h : (a.push c).2 = .ok none) :
    a.finished = false ∧ (a.push c).1.finished = false := by
  unfold push at h ⊢
  cases c <;> dsimp only at h ⊢ <;> split_ifs at h ⊢ with hdone <;>
    first | exact ⟨Bool.eq_false_iff.mpr hdone, Bool.eq_false_iff.mpr hdone⟩ | cases h

/-- A chunk that completes a push finishes it. -/
theorem push_some {a : ChunkAssembler} {c : Chunk} {b : Bytes} (h : (a.push c).2 = .ok (some b)) :
    a.finished = false ∧ (a.push c).1.finished = true := by
  unfold push at h ⊢
  cases c <;> dsimp only at h ⊢ <;> split_ifs at h ⊢ with hdone <;>
    first | exact ⟨Bool.eq_false_iff.mpr hdone, rfl⟩ | cases h

/-- After the end every chunk is refused. -/
theorem push_finished {a : ChunkAssembler} (h : a.finished = true) (c : Chunk) :
    a.push c = (a, .error .afterEnd) := by
  unfold push
  rw [if_pos h]

/-! ## Pushing many

The chunks an assembler accepts: a start, data within the limit, and an end where the length is
the one announced. Both directions are shown, so this is the grammar of a transfer. -/

/-- After the end nothing more is accepted. -/
theorem after_finished {a : ChunkAssembler} (h : a.finished = true) (cs : List Chunk) :
    a.after cs = a ∧ a.accepted cs = [] := by
  induction cs with
  | nil => exact ⟨rfl, rfl⟩
  | cons c cs ih =>
    have hpush := push_finished h c
    refine ⟨?_, ?_⟩
    · show (a.push c).1.after cs = a
      rw [hpush]
      exact ih.1
    · rw [accepted, hpush]
      exact ih.2

/-- What is pushed comes to the same without what is refused. -/
theorem after_accepted {a : ChunkAssembler} (h : a.finished = false) (cs : List Chunk) :
    ((a.after cs).finished = false ∧ a.feedOpen (a.accepted cs) = some (a.after cs))
      ∨ ((a.after cs).finished = true ∧ a.feedOpen (a.accepted cs) = none) := by
  induction cs generalizing a with
  | nil => exact .inl ⟨h, rfl⟩
  | cons c cs ih =>
    have hafter : a.after (c :: cs) = (a.push c).1.after cs := rfl
    rw [hafter, accepted]
    cases hpush : a.push c with
    | mk a' out =>
      dsimp only
      cases out with
      | error e =>
        have hsame : a' = a := by
          have := push_error (e := e) (congrArg Prod.snd hpush)
          rwa [hpush] at this
        rw [hsame]
        exact ih h
      | ok done =>
        dsimp only
        rw [feedOpen, hpush]
        cases done with
        | none =>
          have hopen := (push_none (congrArg Prod.snd hpush)).2
          rw [hpush] at hopen
          exact ih hopen
        | some b =>
          have hdone := (push_some (congrArg Prod.snd hpush)).2
          rw [hpush] at hdone
          rw [(after_finished hdone cs).1]
          exact .inr ⟨hdone, rfl⟩

/-- With the stream begun. -/
def opened (limit total : Nat) (buf : Bytes) : ChunkAssembler :=
  { limit := limit, started := true, expected := total, buf := buf }

/-- An open push takes data up to the limit. -/
theorem opened_data (limit total : Nat) (buf d : Bytes) :
    (opened limit total buf).push (.data d) = if 0 < limit ∧ limit < buf.length + d.length
      then (opened limit total buf, .error (.tooLarge limit))
      else (opened limit total (buf ++ d), .ok none) := rfl

/-- An open push takes an end that agrees with the length announced, if one was. -/
theorem opened_end (limit total : Nat) (buf : Bytes) :
    (opened limit total buf).push .end = if total ≠ 0 ∧ total ≠ buf.length
      then (opened limit total buf, .error (.lengthMismatch total buf.length))
      else ({ opened limit total [] with finished := true }, .ok (some buf)) := rfl

/-- A fresh push takes the announcement, up to the limit. -/
theorem fresh_start (limit total : Nat) :
    (withLimit limit).push (.start total) = if 0 < limit ∧ limit < total
      then (withLimit limit, .error (.tooLarge limit))
      else (opened limit total [], .ok none) := rfl

/-- What an open push has taken are data that fit, one after another, and nothing else. -/
theorem feedOpen_data {limit total : Nat} {cs : List Chunk} {buf : Bytes} {a : ChunkAssembler} :
    (opened limit total buf).feedOpen cs = some a ↔
      ∃ datas : List Bytes, cs = datas.map .data
      ∧ a = opened limit total (buf ++ datas.flatten)
      ∧ ∀ k, 0 < k → k ≤ datas.length →
        limit = 0 ∨ (buf ++ (datas.take k).flatten).length ≤ limit := by
  -- on the chunks, with what is gathered so far
  induction cs generalizing buf with
  | nil =>
    rw [feedOpen]
    constructor
    · intro h
      cases h
      exact ⟨[], rfl, by rw [List.flatten_nil, List.append_nil], fun k hk hle => by
        rw [List.length_nil] at hle
        omega⟩
    · rintro ⟨datas, hnil, rfl, -⟩
      rw [List.map_eq_nil_iff.mp hnil.symm, List.flatten_nil, List.append_nil]
  | cons c cs ih =>
    rw [feedOpen]
    cases c with
    -- a second start is refused while one is open
    | start t =>
      constructor
      · intro h
        cases h
      · rintro ⟨datas, hmap, -⟩
        cases datas <;> cases hmap
    -- an end closes the transfer, so it cannot be among those fed
    | «end» =>
      constructor
      · intro h
        rw [opened_end] at h
        split_ifs at h
      · rintro ⟨datas, hmap, -⟩
        cases datas <;> cases hmap
    | data d =>
      rw [opened_data]
      -- too much: the very first chunk is over the limit
      split_ifs with hover
      · refine ⟨fun h => (by cases h), ?_⟩
        rintro ⟨datas, hmap, -, hlimit⟩
        cases datas with
        | nil => cases hmap
        | cons d' datas =>
          cases hmap
          have hfirst := hlimit 1 Nat.one_pos (by rw [List.length_cons]; omega)
          rw [List.take_succ_cons, List.take_zero, List.flatten_cons, List.flatten_nil,
            List.append_nil, List.length_append] at hfirst
          omega
      · dsimp only
        rw [ih]
        -- it fits, and the bound of the rest is the bound from here on
        constructor
        · rintro ⟨datas, rfl, rfl, hlimit⟩
          refine ⟨d :: datas, rfl, by rw [List.flatten_cons, List.append_assoc], ?_⟩
          intro k hk hle
          obtain ⟨k, rfl⟩ := Nat.exists_eq_succ_of_ne_zero (Nat.pos_iff_ne_zero.mp hk)
          rw [List.take_succ_cons, List.flatten_cons, ← List.append_assoc]
          rcases Nat.eq_zero_or_pos k with rfl | hpos
          · rw [List.take_zero, List.flatten_nil, List.append_nil, List.length_append]
            omega
          · rw [List.length_cons] at hle
            exact hlimit k hpos (by omega)
        · rintro ⟨datas, hmap, rfl, hlimit⟩
          cases datas with
          | nil => cases hmap
          | cons d' datas =>
            cases hmap
            refine ⟨datas, rfl, by rw [List.flatten_cons, List.append_assoc], ?_⟩
            intro k hk hle
            have hnext := hlimit (k + 1) (by omega) (by rw [List.length_cons]; omega)
            rwa [List.take_succ_cons, List.flatten_cons, ← List.append_assoc] at hnext

/-- What an assembler has come to when nothing was refused and nothing is over. -/
theorem feedOpen_fresh {limit : Nat} {cs : List Chunk} {a : ChunkAssembler} (hne : cs ≠ []) :
    (withLimit limit).feedOpen cs = some a ↔
      ∃ (total : Nat) (datas : List Bytes), cs = .start total :: datas.map .data
        ∧ a = opened limit total datas.flatten ∧ (limit = 0 ∨ total ≤ limit)
        ∧ ∀ k, limit = 0 ∨ (datas.take k).flatten.length ≤ limit := by
  cases cs with
  | nil => exact absurd rfl hne
  | cons c cs =>
    rw [feedOpen]
    cases c with
    -- only a start can come first
    | data d =>
      refine ⟨fun h => (by cases h), ?_⟩
      rintro ⟨total, datas, hcs, -⟩
      cases hcs
    | «end» =>
      refine ⟨fun h => (by cases h), ?_⟩
      rintro ⟨total, datas, hcs, -⟩
      cases hcs
    | start total =>
      rw [fresh_start]
      -- a start over the limit is refused at once
      split_ifs with hover
      · refine ⟨fun h => (by cases h), ?_⟩
        rintro ⟨total', datas, hcs, -, hlimit, -⟩
        cases hcs
        omega
      -- the data that follows, by the lemma for an open transfer
      · dsimp only
        rw [feedOpen_data]
        constructor
        · rintro ⟨datas, rfl, rfl, hlimit⟩
          refine ⟨total, datas, rfl, rfl, by omega, fun k => ?_⟩
          -- the bound at zero chunks, at some, and at more than there are
          rcases Nat.eq_zero_or_pos k with rfl | hpos
          · exact .inr (Nat.zero_le _)
          · rcases Nat.le_total k datas.length with hle | hge
            · exact hlimit k hpos hle
            · rw [List.take_of_length_le hge]
              rcases Nat.eq_zero_or_pos datas.length with hzero | hlen
              · rw [List.length_eq_zero_iff.mp hzero]
                exact .inr (Nat.zero_le _)
              · have hall := hlimit datas.length hlen (Nat.le_refl _)
                rwa [List.take_length] at hall
        · rintro ⟨total', datas, hcs, rfl, -, hlimit⟩
          cases hcs
          exact ⟨datas, rfl, rfl, fun k _ _ => hlimit k⟩

/-- Only `End` completes a stream, and then it is one. -/
theorem streams_iff {limit : Nat} {cs : List Chunk} {c : Chunk} {b : Bytes} :
    Streams limit (cs ++ [c]) b ↔
      ∃ a, (withLimit limit).feedOpen cs = some a ∧ (a.push c).2 = .ok (some b) := by
  -- an end completes a transfer exactly when the length is the one announced
  have hend : ∀ total (datas : List Bytes),
      ((opened limit total datas.flatten).push .end).2 = .ok (some b) ↔
        b = datas.flatten ∧ (total = 0 ∨ total = b.length) := by
    intro total datas
    rw [opened_end]
    split_ifs with hlength
    · refine ⟨fun h => (by cases h), ?_⟩
      rintro ⟨rfl, htotal⟩
      omega
    · constructor
      · intro h
        cases h
        exact ⟨rfl, by omega⟩
      · rintro ⟨rfl, -⟩
        rfl
  -- the grammar leaves the assembler open with all the data in it
  constructor
  · rintro ⟨total, datas, hcs, hb, htotal, hlimit⟩
    rw [← List.cons_append] at hcs
    obtain ⟨rfl, hc⟩ := List.append_inj' hcs rfl
    cases hc
    refine ⟨opened limit total datas.flatten, ?_, (hend total datas).mpr ⟨hb, htotal⟩⟩
    refine (feedOpen_fresh (List.cons_ne_nil _ _)).mpr ⟨total, datas, rfl, rfl, ?_, hlimit⟩
    have hall := hlimit datas.length
    rw [List.take_length, ← hb] at hall
    omega
  -- the other way, only an end can complete anything
  · rintro ⟨a, hfeed, hpush⟩
    by_cases hne : cs = []
    · rw [hne, feedOpen] at hfeed
      cases hfeed
      cases c with
      | start t =>
        rw [fresh_start] at hpush
        split_ifs at hpush; cases hpush
      | data d => cases hpush
      | «end» => cases hpush
    -- the chunks before it were a start and data
    · obtain ⟨total, datas, rfl, rfl, -, hlimit⟩ := (feedOpen_fresh hne).mp hfeed
      cases c with
      | start t => cases hpush
      | data d =>
        rw [opened_data] at hpush
        split_ifs at hpush; cases hpush
      | «end» =>
        obtain ⟨hb, htotal⟩ := (hend total datas).mp hpush
        exact ⟨total, datas, rfl, hb, htotal, hlimit⟩

/-- **A chunk completes exactly a stream**, apart from what was refused on the way. -/
theorem push_completes_iff (limit : Nat) (cs : List Chunk) (c : Chunk) (b : Bytes) :
    (((withLimit limit).after cs).push c).2 = .ok (some b) ↔
      Streams limit ((withLimit limit).accepted cs ++ [c]) b := by
  rw [streams_iff]
  rcases after_accepted (a := withLimit limit) rfl cs with ⟨-, hfeed⟩ | ⟨hdone, hfeed⟩
  · rw [hfeed]
    constructor
    · exact fun h => ⟨_, rfl, h⟩
    · rintro ⟨a, ha, h⟩
      cases ha
      exact h
  · rw [hfeed, push_finished hdone]
    constructor
    · intro h
      cases h
    · rintro ⟨a, ha, -⟩
      cases ha

/-- **The buffer keeps to the limit**, whatever is pushed. -/
theorem buffer_le (limit : Nat) (cs : List Chunk) :
    limit = 0 ∨ ((withLimit limit).after cs).buf.length ≤ limit := by
  have hpush : ∀ a : ChunkAssembler, a.limit = limit → (limit = 0 ∨ a.buf.length ≤ limit) →
      ∀ c, (a.push c).1.limit = limit ∧ (limit = 0 ∨ (a.push c).1.buf.length ≤ limit) := by
    intro a hlimit hbuf c
    cases c with
    | start total =>
      unfold push
      dsimp only
      split_ifs <;> exact ⟨hlimit, hbuf⟩
    | data d =>
      unfold push
      dsimp only
      split_ifs with hdone hstart hover
      · exact ⟨hlimit, hbuf⟩
      · exact ⟨hlimit, hbuf⟩
      · exact ⟨hlimit, hbuf⟩
      · refine ⟨hlimit, ?_⟩
        rw [List.length_append]
        rw [hlimit] at hover
        omega
    | «end» =>
      unfold push
      dsimp only
      split_ifs
      · exact ⟨hlimit, hbuf⟩
      · exact ⟨hlimit, hbuf⟩
      · exact ⟨hlimit, hbuf⟩
      · exact ⟨hlimit, .inr (Nat.zero_le _)⟩
  suffices hall : ∀ a : ChunkAssembler, a.limit = limit → (limit = 0 ∨ a.buf.length ≤ limit) →
      limit = 0 ∨ (a.after cs).buf.length ≤ limit from hall _ rfl (.inr (Nat.zero_le _))
  induction cs with
  | nil => exact fun _ _ hbuf => hbuf
  | cons c cs ih =>
    intro a hlimit hbuf
    obtain ⟨hlimit', hbuf'⟩ := hpush a hlimit hbuf c
    exact ih _ hlimit' hbuf'

/-- While a push is open every chunk so far was taken without completing it. -/
theorem outcomes_concat {a a' : ChunkAssembler} {cs : List Chunk} (h : a.feedOpen cs = some a')
    (c : Chunk) :
    a.outcomes (cs ++ [c]) = List.replicate cs.length (.ok none) ++ [(a'.push c).2] := by
  induction cs generalizing a with
  | nil =>
    cases h
    rfl
  | cons x cs ih =>
    rw [feedOpen] at h
    split at h
    · next a₁ hpush =>
      rw [List.cons_append, outcomes, hpush, ih h]
      rfl
    · cases h

/-- **What is cut up comes out whole** at its end, and nothing before. -/
theorem outcomes_stream {limit : Nat} {bytes : Bytes} (h : limit = 0 ∨ bytes.length ≤ limit) :
    (withLimit limit).outcomes (Chunk.stream bytes)
      = List.replicate ((Chunk.stream bytes).length - 1) (.ok none) ++ [.ok (some bytes)] := by
  have hcut : (chunksOf CHUNK_SIZE bytes.length bytes).flatten = bytes :=
    flatten_chunksOf (by decide) (Nat.le_refl _)
  have hsplit : Chunk.stream bytes = (.start bytes.length
      :: (chunksOf CHUNK_SIZE bytes.length bytes).map .data) ++ [.end] := rfl
  have hstreams : Streams limit (Chunk.stream bytes) bytes := by
    refine ⟨bytes.length, chunksOf CHUNK_SIZE bytes.length bytes, rfl, hcut.symm, .inr rfl,
      fun k => h.imp_right fun hle => ?_⟩
    have hwhole := congrArg (fun l => l.flatten.length)
      (List.take_append_drop k (chunksOf CHUNK_SIZE bytes.length bytes))
    simp only [List.flatten_append, List.length_append, hcut] at hwhole
    omega
  rw [hsplit] at hstreams ⊢
  obtain ⟨a, hfeed, hpush⟩ := streams_iff.mp hstreams
  rw [outcomes_concat hfeed, hpush, List.length_append, List.length_singleton, Nat.add_sub_cancel]

end ChunkAssembler

/-! ## Inbound

What a receiver has open is what the events say was announced last, with the chunks that came
under it. A content is delivered exactly when those chunks and the one at hand make a whole
transfer. -/

/-- What reaches the receiving side. -/
inductive InboundEvent where
  | grab (id : ClipboardId) (seq maxBytes : Nat)
  | data (id : ClipboardId) (seq : Nat) (chunk : Chunk)
deriving DecidableEq, Repr

namespace Inbound

variable {cd : Codec}

def react (cd : Codec) (i : Inbound) :
    InboundEvent → Inbound × Except InboundError (Option ClipboardContent)
  | .grab id seq maxBytes => (i.grab id seq maxBytes, .ok none)
  | .data id seq chunk => i.data cd id seq chunk

/-- From new. -/
def reached (cd : Codec) (events : List InboundEvent) : Inbound :=
  events.foldl (fun i ev => (i.react cd ev).1) {}

/-- The latest grab, unless it is for the primary selection, and the chunks of its transfer since
then. -/
def latest (events : List InboundEvent) : Option (Nat × Nat × List Chunk) :=
  events.foldl (fun now ev =>
    match ev, now with
    | .grab .clipboard seq maxBytes, _ => some (seq, maxBytes, [])
    | .grab .primary _ _, _ => none
    | .data .clipboard seq chunk, some (current, maxBytes, chunks) =>
      if seq = current then some (current, maxBytes, chunks ++ [chunk])
      else some (current, maxBytes, chunks)
    | .data _ _ _, now => now) none

/-- The assembler has what was not refused, if nothing was and nothing is over. -/
def Follows (i : Inbound) : Option (Nat × Nat × List Chunk) → Prop
  | none => i.current = none
  | some (seq, maxBytes, chunks) =>
    i.current = ((ChunkAssembler.withLimit (maxBytes + encodingSlack)).feedOpen chunks).map
      fun asm => ⟨seq, maxBytes, asm⟩

/-- What a chunk of the transfer under way comes to. -/
theorem data_current {t : Transfer} {chunk : Chunk} :
    (Inbound.data cd ⟨some t⟩ .clipboard t.seq chunk).1.current
        = (t.asm.feedOpen [chunk]).map (fun asm => { t with asm := asm })
      ∧ ∀ content, (Inbound.data cd ⟨some t⟩ .clipboard t.seq chunk).2 = .ok (some content) ↔
        ∃ bytes, (t.asm.push chunk).2 = .ok (some bytes) ∧ cd.decode bytes = some content
          ∧ content.dataLen ≤ t.maxBytes := by
  have hkept : ¬((ClipboardId.clipboard ≠ .clipboard) ∨ t.seq ≠ t.seq) := by simp
  simp only [Inbound.data, if_neg hkept, ChunkAssembler.feedOpen]
  -- what the assembler makes of the chunk: refused, gathered, or complete
  cases t.asm.push chunk with
  | mk asm out =>
    cases out with
    | error e => simp
    | ok done =>
      cases done with
      | none => simp
      | some bytes =>
        -- complete bytes may not decode, or decode to more than was announced
        cases hdecode : cd.decode bytes with
        | none => simp [hdecode]
        | some content =>
          by_cases hlong : t.maxBytes < content.dataLen
          · simp only [hdecode, if_pos hlong, Option.map_none, true_and]
            intro content'
            constructor
            · intro h
              cases h
            · rintro ⟨bytes', hbytes, hcontent, hle⟩
              cases hbytes
              rw [hdecode] at hcontent
              cases hcontent
              omega
          · simp only [hdecode, if_neg hlong, Option.map_none, true_and]
            intro content'
            constructor
            · intro h
              cases h
              exact ⟨bytes, rfl, hdecode, Nat.not_lt.mp hlong⟩
            · rintro ⟨bytes', hbytes, hcontent, -⟩
              cases hbytes
              rw [hdecode] at hcontent
              cases hcontent
              rfl

/-- What has been reached is what the latest events say. -/
theorem follows_reached (events : List InboundEvent) :
    (reached cd events).Follows (latest events) := by
  -- on the events from the end, as `latest` reads them
  induction events using List.reverseRecOn with
  | nil => rfl
  | append_singleton events ev ih =>
    unfold reached latest at ih ⊢
    rw [List.foldl_append, List.foldl_append, List.foldl_cons, List.foldl_cons, List.foldl_nil,
      List.foldl_nil]
    generalize events.foldl (fun (i : Inbound) ev => (i.react cd ev).1) {} = i at ih ⊢
    obtain ⟨current⟩ := i
    generalize List.foldl _ none events = now at ih ⊢
    -- a new announcement begins anew, and the primary selection is never followed
    cases ev with
    | grab id seq maxBytes => cases id <;> rfl
    | data id seq chunk =>
      cases now with
      | none =>
        obtain rfl : current = none := ih
        cases id <;> rfl
      | some under =>
        obtain ⟨now, maxBytes, chunks⟩ := under
        have ih : current = _ := ih
        -- a chunk of the primary selection changes nothing
        cases id with
        | primary =>
          show ((⟨current⟩ : Inbound).data cd .primary seq chunk).1.current = _
          rw [ih]
          cases (ChunkAssembler.withLimit (maxBytes + encodingSlack)).feedOpen chunks <;> rfl
        | clipboard =>
          dsimp only
          -- the number decides whether the chunk is fed
          split_ifs with hseq
          · show ((⟨current⟩ : Inbound).data cd .clipboard seq chunk).1.current = _
            rw [ChunkAssembler.feedOpen_append]
            cases hfeed : (ChunkAssembler.withLimit (maxBytes + encodingSlack)).feedOpen chunks with
            | none =>
              rw [hfeed] at ih
              rw [ih]
              rfl
            | some asm =>
              rw [hfeed] at ih
              rw [ih, hseq]
              exact data_current.1
          · show ((⟨current⟩ : Inbound).data cd .clipboard seq chunk).1.current = _
            rw [ih]
            cases (ChunkAssembler.withLimit (maxBytes + encodingSlack)).feedOpen chunks with
            | none => rfl
            | some asm => simp [Inbound.data, hseq]

/-- **Contents are delivered exactly for the latest grab**, when the chunks of its transfer since
then are a stream of them and they keep to its limit. -/
theorem delivers_iff (events : List InboundEvent) (id : ClipboardId) (seq : Nat) (chunk : Chunk)
    (content : ClipboardContent) :
    ((reached cd events).data cd id seq chunk).2 = .ok (some content) ↔
      ∃ maxBytes chunks bytes, id = .clipboard ∧ latest events = some (seq, maxBytes, chunks)
        ∧ Streams (maxBytes + encodingSlack) (chunks ++ [chunk]) bytes
        ∧ cd.decode bytes = some content ∧ content.dataLen ≤ maxBytes := by
  have hfollows : (reached cd events).Follows (latest events) := follows_reached events
  generalize reached cd events = i at hfollows ⊢
  obtain ⟨current⟩ := i
  -- whether anything was announced before the chunk
  cases hlatest : latest events with
  | none =>
    rw [hlatest] at hfollows
    obtain rfl : current = none := hfollows
    refine ⟨fun h => (by cases h), ?_⟩
    rintro ⟨maxBytes, chunks, bytes, -, hnone, -⟩
    cases hnone
  | some under =>
    obtain ⟨now, maxBytes, chunks⟩ := under
    rw [hlatest] at hfollows
    have hcurrent : current = _ := hfollows
    -- a chunk of the announced content is fed to its assembler
    by_cases hours : id = .clipboard ∧ seq = now
    · obtain ⟨rfl, rfl⟩ := hours
      constructor
      · intro h
        -- one refused before is refused for good
        cases hfeed : (ChunkAssembler.withLimit (maxBytes + encodingSlack)).feedOpen chunks with
        | none =>
          rw [hcurrent, hfeed] at h
          cases h
        | some asm =>
          rw [hcurrent, hfeed] at h
          obtain ⟨bytes, hpush, hdecode, hle⟩ := (data_current.2 content).mp h
          exact ⟨maxBytes, chunks, bytes, rfl, rfl,
            ChunkAssembler.streams_iff.mpr ⟨asm, hfeed, hpush⟩, hdecode, hle⟩
      · rintro ⟨maxBytes', chunks', bytes, -, hsame, hstreams, hdecode, hle⟩
        cases hsame
        obtain ⟨asm, hfeed, hpush⟩ := ChunkAssembler.streams_iff.mp hstreams
        rw [hcurrent, hfeed]
        exact (data_current.2 content).mpr ⟨bytes, hpush, hdecode, hle⟩
    -- a chunk of any other content leaves no content whole
    · constructor
      · intro h
        rw [hcurrent] at h
        cases hfeed : (ChunkAssembler.withLimit (maxBytes + encodingSlack)).feedOpen chunks with
        | none =>
          rw [hfeed] at h
          cases h
        | some asm =>
          rw [hfeed] at h
          have hother : id ≠ .clipboard ∨ seq ≠ now := by
            by_contra hboth
            rw [not_or, not_not, not_not] at hboth
            exact hours hboth
          simp only [Option.map_some, Inbound.data, if_pos hother] at h
          cases h
      · rintro ⟨maxBytes', chunks', bytes, hid, hsame, -⟩
        cases hsame
        exact absurd ⟨hid, rfl⟩ hours

/-- An error leaves the receiving side as new. -/
theorem data_error {i : Inbound} {id : ClipboardId} {seq : Nat} {chunk : Chunk} {e : InboundError}
    (h : (i.data cd id seq chunk).2 = .error e) : (i.data cd id seq chunk).1 = {} := by
  revert h
  unfold Inbound.data
  split
  · exact nofun
  · split
    · exact nofun
    · split
      · exact nofun
      · split
        · exact fun _ => rfl
        · split
          · exact fun _ => rfl
          · exact nofun
      · exact fun _ => rfl

end Inbound

/-- **Chunks are put together exactly as they were cut up.** A stream comes out whole at its end;
a chunk completes one exactly when the chunks not refused are one; the buffer keeps to the limit;
and the receiving side delivers exactly what the latest grab's transfer is a stream of, is as new
after an error, and takes any push that fits from wherever it is. -/
theorem reassembly (cd : Codec) :
    (∀ limit bytes, limit = 0 ∨ bytes.length ≤ limit →
      (ChunkAssembler.withLimit limit).outcomes (Chunk.stream bytes)
        = List.replicate ((Chunk.stream bytes).length - 1) (.ok none) ++ [.ok (some bytes)])
    ∧ (∀ limit cs c bytes,
      (((ChunkAssembler.withLimit limit).after cs).push c).2 = .ok (some bytes) ↔
        Streams limit ((ChunkAssembler.withLimit limit).accepted cs ++ [c]) bytes)
    ∧ (∀ limit cs, limit = 0 ∨ ((ChunkAssembler.withLimit limit).after cs).buf.length ≤ limit)
    ∧ ∀ events,
      (∀ id seq chunk content,
        ((Inbound.reached cd events).data cd id seq chunk).2 = .ok (some content) ↔
          ∃ maxBytes chunks bytes, id = .clipboard
            ∧ Inbound.latest events = some (seq, maxBytes, chunks)
            ∧ Streams (maxBytes + encodingSlack) (chunks ++ [chunk]) bytes
            ∧ cd.decode bytes = some content ∧ content.dataLen ≤ maxBytes)
      ∧ (∀ id seq chunk e, ((Inbound.reached cd events).data cd id seq chunk).2 = .error e →
        ((Inbound.reached cd events).data cd id seq chunk).1 = {})
      ∧ ∀ seq maxBytes content, Fits cd maxBytes content →
        (feed (Inbound.take cd maxBytes) (Inbound.reached cd events) (pushes cd seq content)).2
          = [(seq, content)] := by
  refine ⟨fun _ _ h => ChunkAssembler.outcomes_stream h, ChunkAssembler.push_completes_iff,
    ChunkAssembler.buffer_le, fun events => ⟨Inbound.delivers_iff events,
      fun _ _ _ _ h => Inbound.data_error h, fun seq maxBytes content hfits => ?_⟩⟩
  -- the announcement opens the transfer, and its chunks fit
  rw [feed_pushes, if_pos hfits]

/-- A second `Start` is refused, and the stream is completed after it all the same. -/
theorem completes_after_refusal : ¬ ∀ limit cs c bytes,
    (((ChunkAssembler.withLimit limit).after cs).push c).2 = .ok (some bytes) ↔
      Streams limit (cs ++ [c]) bytes := by
  intro hall
  obtain ⟨total, datas, hcs, -⟩ := (hall 0 [.start 0, .start 0] .end []).mp rfl
  cases datas <;> cases hcs

end GeserDesk
