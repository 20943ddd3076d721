import McapCatalog.Versions

/-!
# The range readers

`S3RangeReader` and `GCSRangeReader`: a seekable view of an object of which each read fetches one range, with an inclusive
end.  A read near the start of an S3 object stops at the header window, so it can be shorter than the buffer although more
bytes follow.  The store answers every request here, so `retry_with` returns its first answer.

* `Reader`, `seek` — the position of a reader and the size it was opened with;
* `s3Request`, `gcsRequest`, `readinto` — the range a read asks for, and the read;
* `bytesIoRead` — the same on an in-memory stream;
* `Delivers` — some of the bytes at the position, none only at the end;
* `readUntilEmpty_eq` — reads that deliver come to the rest of the object, whatever the sizes of the buffers;
* `readers_refine` — **both readers refine the stream**, by ranges of the object;
* `readinto_version` — the reads of a version that the parser makes are such reads.
-/

namespace McapCatalog.RangeReaders

open McapCatalog.Varint (Bytes)
open McapCatalog.Storage (headerWindow S3Version getRange)

/-- A range of an object; `last` is inclusive. -/
structure Range where
  first : ℤ
  last : ℤ

/-- `_size` and `_pos`. -/
structure Reader where
  size : ℤ
  pos : ℤ

/-- The `whence` of a seek. -/
inductive Whence where
  | set
  | cur
  | fromEnd

/-- A reader of an object, opened. -/
def Reader.opened (content : Bytes) : Reader := ⟨content.length, 0⟩

/-- Where a seek counts from. -/
def Reader.base (r : Reader) : Whence → ℤ
  | .set => 0
  | .cur => r.pos
  | .fromEnd => r.size

/-- `seek`. -/
def Reader.seek (r : Reader) (offset : ℤ) (whence : Whence) : Reader := { r with pos := r.base whence + offset }

/-- `tell`. -/
def Reader.tell (r : Reader) : ℤ := r.pos

/-- The range that `S3RangeReader.readinto` asks for, into a buffer of the given size. -/
def s3Request (r : Reader) (len : ℕ) : Option Range :=
  if len = 0 then none
  else if r.size ≤ r.pos then none
  else
    let endExcl := r.pos + len
    let endExcl : ℤ := if r.pos < headerWindow ∧ headerWindow < endExcl then headerWindow else endExcl
    some ⟨r.pos, min endExcl r.size - 1⟩

/-- The range that `GCSRangeReader.readinto` asks for. -/
def gcsRequest (r : Reader) (len : ℕ) : Option Range :=
  if r.size ≤ r.pos then none
  else some ⟨r.pos, min (r.pos + len) r.size - 1⟩

/-- `readinto`: what is delivered, and the reader after it. -/
def readinto (request : Reader → ℕ → Option Range) (get : Range → Bytes) (r : Reader) (len : ℕ) : Bytes × Reader :=
  match request r len with
  | none => ([], r)
  | some range =>
    let body := get range
    (body, { r with pos := r.pos + body.length })

/-- The `readinto` of an in-memory stream. -/
def bytesIoRead (content : Bytes) (r : Reader) (len : ℕ) : Bytes × Reader :=
  let body := (content.drop r.pos.toNat).take len
  (body, { r with pos := r.pos + body.length })

/-- Reads in a row, the k-th into a buffer of `lens k` bytes, until one is empty; `none` if it did not come to that. -/
def readUntilEmpty (read : Reader → ℕ → Bytes × Reader) (lens : ℕ → ℕ) : ℕ → ℕ → Reader → Option Bytes
  | 0, _, _ => none
  | fuel + 1, k, r =>
    match read r (lens k) with
    | ([], _) => some []
    | (byte :: body, r') => (readUntilEmpty read lens fuel (k + 1) r').map fun rest => byte :: body ++ rest

/-- The readers that seeks to non-negative positions and reads into non-empty buffers lead to. -/
inductive Session (content : Bytes) (read : Reader → ℕ → Bytes × Reader) : Reader → Prop where
  | opened : Session content read (Reader.opened content)
  | seek {r : Reader} (h : Session content read r) (offset : ℤ) (whence : Whence) (hpos : 0 ≤ r.base whence + offset) :
      Session content read (r.seek offset whence)
  | read {r : Reader} (h : Session content read r) (len : ℕ) (hlen : 0 < len) : Session content read (read r len).2

/-! ### Reads that deliver -/

/-- What a read into a buffer delivers: a prefix of what the stream delivers at the position, empty only at the end; and the
position is advanced by it. -/
structure Delivers (content : Bytes) (read : Reader → ℕ → Bytes × Reader) (r : Reader) (len : ℕ) : Prop where
  isPrefix : (read r len).1 <+: (bytesIoRead content r len).1
  isEmpty : (read r len).1 = [] ↔ (content.length : ℤ) ≤ r.pos
  advances : (read r len).2 = { r with pos := r.pos + (read r len).1.length }

/-- The positions a session leads to. -/
structure Within (content : Bytes) (r : Reader) : Prop where
  size : r.size = content.length
  nonneg : 0 ≤ r.pos

variable {content : Bytes} {read : Reader → ℕ → Bytes × Reader}

theorem Session.within (hread : ∀ r len, Within content r → 0 < len → Delivers content read r len) {r : Reader}
    (h : Session content read r) : Within content r := by
  induction h with
  | opened => exact ⟨rfl, Int.le_refl 0⟩
  | seek _ offset whence hpos ih => exact ⟨ih.size, hpos⟩
  | read _ len hlen ih =>
      rw [(hread _ len ih hlen).advances]
      have hnonneg := ih.nonneg
      exact ⟨ih.size, by simp only; omega⟩

/-- What is left after a prefix of the rest was delivered. -/
theorem drop_of_prefix {r : Reader} (hnonneg : 0 ≤ r.pos) {len : ℕ} {body : Bytes}
    (h : body <+: (bytesIoRead content r len).1) :
    content.drop r.pos.toNat = body ++ content.drop (r.pos + body.length).toNat := by
  have hprefix : body <+: content.drop r.pos.toNat := h.trans (List.take_prefix _ _)
  have hpos : (r.pos + body.length).toNat = r.pos.toNat + body.length := by omega
  obtain ⟨rest, hrest⟩ := hprefix
  rw [hpos, ← List.drop_drop, ← hrest, List.drop_left]

/-- **Reads that deliver come to the rest of the object.** -/
theorem readUntilEmpty_eq (hread : ∀ r len, Within content r → 0 < len → Delivers content read r len)
    {lens : ℕ → ℕ} (hlens : ∀ k, 0 < lens k) {fuel : ℕ} (k : ℕ) {r : Reader} (hr : Within content r)
    (hfuel : (content.drop r.pos.toNat).length < fuel) :
    readUntilEmpty read lens fuel k r = some (content.drop r.pos.toNat) := by
  induction fuel generalizing k r with
  | zero => omega
  | succ fuel ih =>
      have hd := hread r (lens k) hr (hlens k)
      rw [readUntilEmpty]
      rcases hbody : read r (lens k) with ⟨_ | ⟨byte, body⟩, r'⟩
      · have hend : (content.length : ℤ) ≤ r.pos := hd.isEmpty.mp (by rw [hbody])
        have hnil : content.drop r.pos.toNat = [] := List.drop_eq_nil_of_le (by omega)
        rw [hnil]
      · have hadvanced : r' = { r with pos := r.pos + (byte :: body).length } := by
          have h := hd.advances
          rwa [hbody] at h
        have hprefix : byte :: body <+: (bytesIoRead content r (lens k)).1 := by
          have h := hd.isPrefix
          rwa [hbody] at h
        have hsplit := drop_of_prefix hr.nonneg hprefix
        have hpos : r'.pos = r.pos + (byte :: body).length := congrArg Reader.pos hadvanced
        have hr' : Within content r' := by
          have hnonneg := hr.nonneg
          exact ⟨(congrArg Reader.size hadvanced).trans hr.size, by omega⟩
        rw [← hpos] at hsplit
        have hshorter : (content.drop r'.pos.toNat).length < fuel := by
          rw [hsplit, List.length_append, List.length_cons] at hfuel
          omega
        show (readUntilEmpty read lens fuel (k + 1) r').map _ = _
        rw [ih (k + 1) hr' hshorter, hsplit]
        rfl

/-! ### The three readers -/

/-- A store that returns the requested range of the object, if there is one. -/
def Serves (content : Bytes) (get : Range → Bytes) : Prop :=
  ∀ range : Range, 0 ≤ range.first → range.first ≤ range.last → range.last < content.length →
    get range = (content.drop range.first.toNat).take (range.last - range.first + 1).toNat

/-- A range inside the object. -/
structure Range.Inside (range : Range) (content : Bytes) : Prop where
  nonneg : 0 ≤ range.first
  ordered : range.first ≤ range.last
  bounded : range.last < content.length

variable {get : Range → Bytes} {r : Reader} {len : ℕ}

theorem bytesIoRead_delivers (hr : Within content r) (hlen : 0 < len) : Delivers content (bytesIoRead content) r len where
  isPrefix := List.prefix_refl _
  isEmpty := by
    have hnonneg := hr.nonneg
    show (content.drop r.pos.toNat).take len = [] ↔ _
    rw [List.take_eq_nil_iff, or_iff_right (Nat.ne_of_gt hlen), List.drop_eq_nil_iff]
    omega
  advances := rfl

/-- **A request inside the object is answered with a prefix** of what the stream delivers. -/
theorem readinto_delivers {request : Reader → ℕ → Option Range} (hget : Serves content get)
    (hnone : request r len = none → (content.length : ℤ) ≤ r.pos)
    (hsome : ∀ range, request r len = some range → range.Inside content ∧ range.first = r.pos ∧ range.last < r.pos + len) :
    Delivers content (readinto request get) r len := by
  cases hrequest : request r len with
  | none =>
      have hend := hnone hrequest
      have hread : readinto request get r len = ([], r) := by rw [readinto, hrequest]
      refine ⟨?_, ?_, ?_⟩ <;> rw [hread]
      · exact List.nil_prefix
      · exact iff_of_true rfl hend
      · show r = { r with pos := r.pos + 0 }
        rw [Int.add_zero]
  | some range =>
      obtain ⟨⟨hnonneg, hordered, hbounded⟩, hfirst, hlast⟩ := hsome range hrequest
      have hread : readinto request get r len = (get range, { r with pos := r.pos + (get range).length }) := by
        rw [readinto, hrequest]
      have hbody := hget range hnonneg hordered hbounded
      rw [hfirst] at hbody hordered
      refine ⟨?_, ?_, ?_⟩ <;> rw [hread]
      · show get range <+: (content.drop r.pos.toNat).take len
        rw [hbody]
        exact List.take_prefix_take_left (by omega)
      · show get range = [] ↔ _
        rw [hbody, List.take_eq_nil_iff, List.drop_eq_nil_iff]
        omega

theorem s3Request_inside (hr : Within content r) {range : Range} (h : s3Request r len = some range) :
    (range.Inside content ∧ range.first = r.pos ∧ range.last < r.pos + len) ∧
      (range.first < headerWindow → range.last < headerWindow) := by
  have hsize := hr.size
  have hnonneg := hr.nonneg
  rw [s3Request] at h
  split at h
  · cases h
  · split at h
    · cases h
    · cases h
      refine ⟨⟨⟨hnonneg, ?_, ?_⟩, rfl, ?_⟩, ?_⟩ <;> dsimp only <;> split <;> omega

theorem s3Request_none (hr : Within content r) (hlen : 0 < len) (h : s3Request r len = none) :
    (content.length : ℤ) ≤ r.pos := by
  have hsize := hr.size
  rw [s3Request, if_neg (Nat.ne_of_gt hlen)] at h
  split at h
  · omega
  · cases h

theorem gcsRequest_inside (hr : Within content r) (hlen : 0 < len) {range : Range} (h : gcsRequest r len = some range) :
    range.Inside content ∧ range.first = r.pos ∧ range.last < r.pos + len := by
  have hsize := hr.size
  have hnonneg := hr.nonneg
  rw [gcsRequest] at h
  split at h
  · cases h
  · cases h
    exact ⟨⟨hnonneg, by dsimp only; omega, by dsimp only; omega⟩, rfl, by dsimp only; omega⟩

theorem gcsRequest_none (hr : Within content r) (h : gcsRequest r len = none) : (content.length : ℤ) ≤ r.pos := by
  have hsize := hr.size
  rw [gcsRequest] at h
  split at h
  · omega
  · cases h

theorem s3Read_delivers (hget : Serves content get) (hr : Within content r) (hlen : 0 < len) :
    Delivers content (readinto s3Request get) r len :=
  readinto_delivers hget (s3Request_none hr hlen) fun _ h => (s3Request_inside hr h).1

theorem gcsRead_delivers (hget : Serves content get) (hr : Within content r) (hlen : 0 < len) :
    Delivers content (readinto gcsRequest get) r len :=
  readinto_delivers hget (gcsRequest_none hr) fun _ h => gcsRequest_inside hr hlen h

/-- A reader refines the in-memory stream: wherever seeks and reads have led it, a read delivers, it asks for a range of the
object, and reads until one is empty come to what the stream comes to. -/
structure Refines (content : Bytes) (request : Reader → ℕ → Option Range) (get : Range → Bytes) : Prop where
  delivers : ∀ r, Session content (readinto request get) r → ∀ len, 0 < len →
    Delivers content (readinto request get) r len ∧ ∀ range, request r len = some range → range.Inside content
  untilEmpty : ∀ r, Session content (readinto request get) r → ∀ lens lens' : ℕ → ℕ, (∀ k, 0 < lens k) → (∀ k, 0 < lens' k) →
    ∀ fuel, content.length < fuel →
      readUntilEmpty (readinto request get) lens fuel 0 r = some (content.drop r.pos.toNat) ∧
      readUntilEmpty (bytesIoRead content) lens' fuel 0 r = some (content.drop r.pos.toNat)

theorem refines_of_delivers {request : Reader → ℕ → Option Range}
    (hread : ∀ r len, Within content r → 0 < len → Delivers content (readinto request get) r len)
    (hinside : ∀ r len, Within content r → 0 < len → ∀ range, request r len = some range → range.Inside content) :
    Refines content request get where
  delivers r h len hlen := ⟨hread r len (h.within hread) hlen, hinside r len (h.within hread) hlen⟩
  untilEmpty r h lens lens' hlens hlens' fuel hfuel := by
    have hr := h.within hread
    have hleft : (content.drop r.pos.toNat).length < fuel := by
      rw [List.length_drop]
      omega
    exact ⟨readUntilEmpty_eq hread hlens 0 hr hleft,
      readUntilEmpty_eq (fun _ _ hr hlen => bytesIoRead_delivers hr hlen) hlens' 0 hr hleft⟩

/-- **The range readers refine an in-memory stream**, and no S3 request that starts below the header window reaches
beyond it. -/
theorem readers_refine (hget : Serves content get) :
    Refines content s3Request get ∧ Refines content gcsRequest get ∧
      ∀ r, Session content (readinto s3Request get) r → ∀ len range, s3Request r len = some range →
        range.first < headerWindow → range.last < headerWindow := by
  have hs3 : ∀ r len, Within content r → 0 < len → Delivers content (readinto s3Request get) r len :=
    fun _ _ hr hlen => s3Read_delivers hget hr hlen
  refine ⟨refines_of_delivers hs3 fun _ _ hr _ _ h => (s3Request_inside hr h).1.1,
    refines_of_delivers (fun _ _ hr hlen => gcsRead_delivers hget hr hlen) fun _ _ hr hlen _ h => (gcsRequest_inside hr hlen h).1,
    fun r h len range hrange => (s3Request_inside (h.within hs3) hrange).2⟩

/-- A store of one object. -/
def storeOf (content : Bytes) (range : Range) : Bytes :=
  (content.drop range.first.toNat).take (range.last - range.first + 1).toNat

theorem serves_storeOf (content : Bytes) : Serves content (storeOf content) := fun _ _ _ _ => rfl

/-- **The parser's reads of a version that stays are reads of this reader.** -/
theorem readinto_version (v : S3Version) (pos len : ℕ) : Storage.readinto (.ok (some v)) v.body.length pos len =
    .ok (readinto s3Request (storeOf v.body) ⟨v.body.length, pos⟩ len).1 := by
  rw [Storage.readinto, readinto, s3Request]
  by_cases hlen : len = 0
  · rw [if_pos hlen, if_pos hlen]
  · rw [if_neg hlen, if_neg hlen]
    by_cases hend : (v.body.length : ℤ) ≤ pos
    · rw [if_pos hend, if_pos hend]
    · rw [if_neg hend, if_neg hend]
      have hbound : pos < v.body.length := by omega
      simp only [getRange, if_pos hbound]
      show Except.ok ((v.body.drop pos).take _) = Except.ok ((v.body.drop pos).take _)
      refine congrArg (fun k => Except.ok ((v.body.drop pos).take k)) ?_
      have hwindow : ((pos : ℤ) < headerWindow ∧ (headerWindow : ℤ) < pos + len) ↔
          (pos < headerWindow ∧ headerWindow < pos + len) := by omega
      simp only [hwindow]
      split <;> omega

/-- An object that goes on after the header window. -/
def straddling : Bytes := List.replicate 70000 0

theorem request_straddling :
    s3Request ((Reader.opened straddling).seek 60000 .set) 10000 = some ⟨60000, 65535⟩ := by
  have hlen : (straddling.length : ℤ) = 70000 := congrArg Nat.cast List.length_replicate
  rw [s3Request, Reader.opened, hlen]
  rfl

/-- A read across the end of the window stops there. -/
theorem readers_refine_straddling : Refines straddling s3Request (storeOf straddling) ∧
    Refines straddling gcsRequest (storeOf straddling) ∧
      ∃ range, s3Request ((Reader.opened straddling).seek 60000 .set) 10000 = some range ∧ range.last < headerWindow := by
  obtain ⟨hs3, hgcs, hwindow⟩ := readers_refine (serves_storeOf straddling)
  have hsession : Session straddling (readinto s3Request (storeOf straddling))
      ((Reader.opened straddling).seek 60000 .set) := .seek .opened 60000 .set (by decide)
  exact ⟨hs3, hgcs, _, request_straddling, hwindow _ hsession 10000 _ request_straddling (by decide)⟩

end McapCatalog.RangeReaders
