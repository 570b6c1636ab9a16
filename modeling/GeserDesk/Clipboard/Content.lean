import GeserDesk.Clipboard.Sharing

/-!
# What is on a clipboard, and what of it is sent

The formats of `geserdesk-proto/src/clipboard.rs`, and `fit` of `geserdesk-clipboard/src/lib.rs`: of
a copy that is too large the style goes first, then the picture.

* **`encode_length_le`**: encoding the formats of a clipboard adds less than the slack the receiver
  allows for.
-/

namespace GeserDesk

def MIME_TEXT : String := "text/plain"
def MIME_HTML : String := "text/html"
def MIME_IMAGE : String := "image/png"

/-- The bytes of a text. -/
def textBytes (s : String) : Bytes := s.toByteArray.data.toList

namespace ClipboardContent

/-- One format, if there is something in it. -/
def item (mime : String) (s : Option String) : Option ClipboardItem :=
  (s.filter (· ≠ "")).map fun s => ⟨mime, textBytes s⟩

/-- Text and HTML, either of which may be missing. Empty ones are left out. -/
def new (text html : Option String) : ClipboardContent :=
  ⟨[item MIME_TEXT text, item MIME_HTML html].filterMap id⟩

def string (c : ClipboardContent) (mime : String) : Option String :=
  match c.items.find? (·.mime == mime) with
  | some item => String.fromUTF8? ⟨item.data.toArray⟩
  | none => none

def text (c : ClipboardContent) : Option String := c.string MIME_TEXT

def html (c : ClipboardContent) : Option String := c.string MIME_HTML

/-- The PNG bytes of a picture, if there is one. -/
def image (c : ClipboardContent) : Option Bytes :=
  (c.items.find? (·.mime == MIME_IMAGE)).map (·.data)

/-- The same contents with a picture added (replacing any there was). -/
def withImage (c : ClipboardContent) (png : Bytes) : ClipboardContent :=
  ⟨c.items.filter (·.mime ≠ MIME_IMAGE) ++ if png.isEmpty then [] else [⟨MIME_IMAGE, png⟩]⟩

/-- The same contents without their HTML. -/
def withoutHtml (c : ClipboardContent) : ClipboardContent := ⟨c.items.filter (·.mime ≠ MIME_HTML)⟩

/-- Only the plain text. -/
def textOnly (c : ClipboardContent) : ClipboardContent := new c.text none

/-- Whether there is nothing a clipboard here could hold. -/
def isEmpty (cd : Codec) (c : ClipboardContent) : Bool :=
  c.text.isNone && c.html.isNone && c.image.isNone && (c.files cd).isNone

/-- What a size limit lets through: all of it, or without its HTML, or just its plain text, or
nothing when even the text would not fit. -/
def fit (cd : Codec) (c : ClipboardContent) (maxBytes : Nat) : Option ClipboardContent :=
  [c, c.withoutHtml, c.textOnly].find? fun c => !c.isEmpty cd && decide (c.dataLen ≤ maxBytes)

/-- Made of the formats shared today, each at most once. -/
def Plain (c : ClipboardContent) : Prop :=
  c.items.length ≤ 3 ∧ ∀ i ∈ c.items, i.mime = MIME_TEXT ∨ i.mime = MIME_HTML ∨ i.mime = MIME_IMAGE

/-- An item has the type it is made for. -/
theorem mime_of_item {mime : String} {s : Option String} {i : ClipboardItem}
    (h : item mime s = some i) : i.mime = mime := by
  obtain ⟨_, -, rfl⟩ := Option.map_eq_some_iff.mp h
  rfl

/-- Text and HTML are the only types of a new content. -/
theorem mem_new {text html : Option String} {i : ClipboardItem} (h : i ∈ (new text html).items) :
    i.mime = MIME_TEXT ∨ i.mime = MIME_HTML := by
  simp only [new, List.mem_filterMap, List.mem_cons, List.not_mem_nil, or_false, id] at h
  obtain ⟨_, rfl | rfl, hi⟩ := h
  · exact .inl (mime_of_item hi)
  · exact .inr (mime_of_item hi)

/-- A new content is plain. -/
theorem plain_new (text html : Option String) : (new text html).Plain := by
  refine ⟨?_, fun i hi => (mem_new hi).imp id .inl⟩
  exact Nat.le_trans (List.length_filterMap_le _ _) (Nat.le_succ 2)

/-- A content with a picture is plain as well. -/
theorem plain_withImage (text html : Option String) (png : Bytes) :
    ((new text html).withImage png).Plain := by
  constructor
  · have hold : (new text html).items.length ≤ 2 := List.length_filterMap_le _ _
    have hkept := List.length_filter_le (fun i : ClipboardItem => decide (i.mime ≠ MIME_IMAGE))
      (new text html).items
    rw [withImage, List.length_append]
    split
    · rw [List.length_nil]; omega
    · rw [List.length_singleton]; omega
  · intro i hi
    rcases List.mem_append.mp hi with hi | hi
    · exact (mem_new (List.mem_of_mem_filter hi)).imp id .inl
    · split at hi
      · cases hi
      · rw [List.mem_singleton.mp hi]
        exact .inr (.inr rfl)

/-- A plain content is plain without its HTML. -/
theorem Plain.withoutHtml {c : ClipboardContent} (h : c.Plain) : c.withoutHtml.Plain :=
  ⟨Nat.le_trans (List.length_filter_le _ _) h.1, fun i hi => h.2 i (List.mem_of_mem_filter hi)⟩

/-- What `fit` leaves is plain and within the limit. -/
theorem fit_spec {cd : Codec} {c c' : ClipboardContent} {maxBytes : Nat} (hc : c.Plain)
    (h : c.fit cd maxBytes = some c') : c'.Plain ∧ c'.dataLen ≤ maxBytes := by
  have hfits := List.find?_some h
  rw [Bool.and_eq_true, decide_eq_true_eq] at hfits
  refine ⟨?_, hfits.2⟩
  have hmem := List.mem_of_find?_eq_some h
  simp only [List.mem_cons, List.not_mem_nil, or_false] at hmem
  rcases hmem with rfl | rfl | rfl
  · exact hc
  · exact hc.withoutHtml
  · exact plain_new _ _

/-- A plain copy is not of files. -/
theorem Plain.files {cd : Codec} {c : ClipboardContent} (h : c.Plain) : c.files cd = none := by
  have hnone : c.items.find? (·.mime == MIME_FILES) = none := by
    refine List.find?_eq_none.mpr fun i hi => ?_
    rcases h.2 i hi with he | he | he <;> rw [he] <;> decide
  rw [ClipboardContent.files, hnone]

end ClipboardContent

/-! ## How long an encoding is

An encoding is longer than its data by a bounded amount, which the sender allows for. -/

/-- A number below 128^k takes k bytes at most. -/
theorem Postcard.length_writeDigits_le {fuel n k : Nat} (h : n < 128 ^ k) (hk : 0 < k) :
    (Postcard.writeDigits fuel n).length ≤ k := by
  induction fuel generalizing n k with
  | zero => exact Nat.zero_le _
  | succ fuel ih =>
    unfold Postcard.writeDigits
    split
    · exact hk
    · next hlong =>
      obtain ⟨k, rfl⟩ : ∃ k', k = k' + 1 := ⟨k - 1, by omega⟩
      have hk' : 0 < k := by
        rcases Nat.eq_zero_or_pos k with rfl | hpos
        · omega
        · exact hpos
      have hrest : n / 128 < 128 ^ k := by
        rw [Nat.div_lt_iff_lt_mul (by decide), ← Nat.pow_succ]
        exact h
      exact Nat.succ_le_succ (ih hrest hk')

/-- What a byte string takes: its length first. -/
theorem length_writeBytes_le {bs : Bytes} {k : Nat} (h : bs.length < 128 ^ k) (hk : 0 < k) :
    (Postcard.Wire.bytes.write bs).length ≤ k + bs.length := by
  show (Postcard.writeDigits (bs.length + 1) bs.length ++ bs.flatMap fun b => [b]).length ≤ _
  rw [List.length_append, List.flatMap_singleton']
  exact Nat.add_le_add_right (Postcard.length_writeDigits_le h hk) _

/-- The name of a format is short. -/
def ClipboardItem.Short (i : ClipboardItem) : Prop :=
  (textBytes i.mime).length < 128 ∧ i.data.length < 128 ^ 4

/-- The encoding of a content of three short items adds no more than the slack. -/
theorem encode_length_le {c : ClipboardContent} (hitems : c.items.length ≤ 3)
    (hshort : ∀ i ∈ c.items, i.Short) :
    (Codec.postcard.encode c).length ≤ c.dataLen + encodingSlack := by
  let item : Postcard.Wire ClipboardItem :=
    (Postcard.Wire.text.pair .bytes).via (fun i => (i.mime, i.data)) (fun i => some ⟨i.1, i.2⟩)
      fun _ => rfl
  have hone : ∀ i : ClipboardItem, i.Short → (item.write i).length ≤ i.data.length + 133 := by
    intro i ⟨hmime, hdata⟩
    have hm := length_writeBytes_le (k := 1) hmime (by decide)
    have hd := length_writeBytes_le (k := 4) hdata (by decide)
    show (Postcard.Wire.bytes.write (textBytes i.mime)
      ++ Postcard.Wire.bytes.write i.data).length ≤ _
    rw [List.length_append]
    omega
  have hall : ∀ items : List ClipboardItem, (∀ i ∈ items, i.Short) →
      (items.flatMap item.write).length ≤ (items.map (·.data.length)).sum + 133 * items.length := by
    intro items
    induction items with
    | nil => intro _; exact Nat.zero_le _
    | cons i items ih =>
      intro h
      have hi := hone i (h i List.mem_cons_self)
      have hrest := ih fun j hj => h j (List.mem_cons_of_mem i hj)
      rw [List.flatMap_cons, List.length_append, List.map_cons, List.sum_cons, List.length_cons]
      omega
  have hcount : (Postcard.writeDigits (c.items.length + 1) c.items.length).length ≤ 1 :=
    Postcard.length_writeDigits_le (by omega) (by decide)
  have hbody := hall c.items hshort
  show (Postcard.writeDigits (c.items.length + 1) c.items.length
    ++ c.items.flatMap item.write).length ≤ _
  rw [List.length_append]
  unfold ClipboardContent.dataLen encodingSlack
  omega

end GeserDesk
