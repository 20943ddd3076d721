import McapCatalog.Varint
import McapCatalog.PyError

/-!
# The varint codec on positions

`varint.py` with its loops: an accumulator of bytes, a position in the blob, shifts and masks, and the exceptions.

* `encodeVarint`, `decodeVarint`, `encodeCountsBlob`, `decodeCountsBlob` — the four functions;
* `encodeLoop_eq`, `decodeLoop_eq` — the loops compute the codec on the bytes that are left;
* `roundTrip` — **what was encoded is decoded, between any bytes**, and a negative value is not encoded;
* `groups`, `littleEndian` — a blob cut after each byte without the high bit, and the value of a group;
* `decodeCountsBlob_decodes` — **what decoding an arbitrary blob comes to, and when encoding gives the blob back**.
-/

namespace McapCatalog.VarintCodec

open McapCatalog.PyText McapCatalog.PyError
open McapCatalog.Varint (Bytes)

theorem shiftRight_lt {n : ℕ} (h : n >>> 7 ≠ 0) : n >>> 7 < n := by
  rw [Nat.shiftRight_eq_div_pow] at h ⊢
  omega

/-- The loop of `encode_varint`. -/
def encodeLoop (n : ℕ) (out : Bytes) : Bytes :=
  let byte := n &&& 0x7F
  let rest := n >>> 7
  if rest ≠ 0 then encodeLoop rest (out ++ [UInt8.ofNat (byte ||| 0x80)])
  else out ++ [UInt8.ofNat byte]
termination_by n
decreasing_by exact shiftRight_lt ‹_›

/-- `encode_varint`. -/
def encodeVarint (n : ℤ) : Except PyErr Bytes :=
  if n < 0 then .error (.valueError (py "varint cannot encode negative value: " ++ decimalInt n))
  else .ok (encodeLoop n.toNat [])

/-- What a varint that breaks off raises. -/
def truncated : PyErr := .valueError (py "truncated varint")

/-- The loop of `decode_varint`. -/
def decodeLoop (data : Bytes) (pos result shift : ℕ) : Except PyErr (ℕ × ℕ) :=
  if h : data.length ≤ pos then .error truncated
  else
    let byte := data[pos].toNat
    let result := result ||| (byte &&& 0x7F) <<< shift
    if byte &&& 0x80 = 0 then .ok (result, pos + 1)
    else decodeLoop data (pos + 1) result (shift + 7)
termination_by data.length - pos

/-- `decode_varint`: the value and the position after it. -/
def decodeVarint (data : Bytes) (pos : ℕ) : Except PyErr (ℕ × ℕ) := decodeLoop data pos 0 0

/-- `encode_counts_blob`. -/
def encodeCountsBlob (counts : List ℤ) : Except PyErr Bytes := (counts.mapM encodeVarint).map List.flatten

theorem decodeLoop_advances {data : Bytes} {pos result shift value pos' : ℕ}
    (h : decodeLoop data pos result shift = .ok (value, pos')) : pos < pos' := by
  fun_induction decodeLoop data pos result shift with
  | case1 => cases h
  | case2 pos result shift hlt byte result' hlast =>
      have hpos : pos + 1 = pos' := congrArg Prod.snd (Except.ok.inj h)
      omega
  | case3 pos result shift hlt byte result' hmore ih => exact Nat.lt_trans (Nat.lt_succ_self pos) (ih h)

/-- The loop of `decode_counts_blob`. -/
def decodeCountsLoop (blob : Bytes) (counts : List ℕ) (pos : ℕ) : Except PyErr (List ℕ) :=
  if pos < blob.length then
    match _hd : decodeVarint blob pos with
    | .error e => .error e
    | .ok (value, pos') => decodeCountsLoop blob (counts ++ [value]) pos'
  else .ok counts
termination_by blob.length - pos
decreasing_by
  have hlt := decodeLoop_advances _hd
  omega

/-- `decode_counts_blob`. -/
def decodeCountsBlob (blob : Bytes) : Except PyErr (List ℕ) := decodeCountsLoop blob [] 0

/-! ### Bytes -/

/-- The high bit, which says that another byte of the value follows. -/
def continues (byte : UInt8) : Bool := byte.toNat &&& 0x80 ≠ 0

theorem continues_iff (byte : UInt8) : continues byte = true ↔ 128 ≤ byte.toNat := by
  have htable : ∀ n : Fin 256, n.val &&& 128 ≠ 0 ↔ 128 ≤ n.val := by decide +kernel
  rw [continues, decide_eq_true_iff]
  exact htable ⟨byte.toNat, byte.toNat_lt⟩

theorem continues_eq_false_iff (byte : UInt8) : continues byte = false ↔ byte.toNat < 128 := by
  rw [← Bool.not_eq_true, continues_iff]
  omega

theorem and_high_eq_zero_iff (byte : UInt8) : byte.toNat &&& 0x80 = 0 ↔ byte.toNat < 128 := by
  rw [← continues_eq_false_iff, continues, decide_eq_false_iff_not, not_not]

/-- The seven bits of a value that a byte carries. -/
theorem and_low (n : ℕ) : n &&& 0x7F = n % 128 := Nat.and_two_pow_sub_one_eq_mod n 7

theorem or_high {n : ℕ} (h : n < 128) : n ||| 0x80 = n + 128 := by
  rw [Nat.or_comm]
  exact ((Nat.two_pow_add_eq_or_of_lt (i := 7) h 1).symm).trans (Nat.add_comm _ _)

/-- New bits above the accumulated ones. -/
theorem or_shiftLeft {result shift : ℕ} (h : result < 2 ^ shift) (n : ℕ) :
    result ||| n <<< shift = result + n * 2 ^ shift := by
  rw [Nat.shiftLeft_eq, Nat.or_comm, Nat.mul_comm n, ← Nat.two_pow_add_eq_or_of_lt h]
  exact Nat.add_comm _ _

/-! ### The loops -/

theorem encodeLoop_eq (n : ℕ) (out : Bytes) : encodeLoop n out = out ++ Varint.encodeVarint n := by
  induction n using Nat.strongRecOn generalizing out with
  | _ n ih =>
      have hlow : n % 128 < 128 := Nat.mod_lt _ (by decide)
      have hrest : n >>> 7 = n / 128 := Nat.shiftRight_eq_div_pow n 7
      rw [encodeLoop, Varint.encodeVarint, and_low, or_high hlow, hrest]
      by_cases hn : n / 128 = 0
      · rw [if_neg (not_not.mpr hn), if_pos hn]
      · rw [if_pos hn, if_neg hn, ih (n / 128) (by omega), List.append_assoc]
        rfl

/-- **Encoding a non-negative value.** -/
theorem encodeVarint_ofNat (n : ℕ) : encodeVarint n = .ok (Varint.encodeVarint n) := by
  rw [encodeVarint, if_neg (Int.not_lt.mpr (Int.natCast_nonneg n)), Int.toNat_natCast, encodeLoop_eq, List.nil_append]

theorem encodeVarint_neg {n : ℤ} (h : n < 0) :
    encodeVarint n = .error (.valueError (py "varint cannot encode negative value: " ++ decimalInt n)) := if_pos h

theorem encodeCountsBlob_ofNat (counts : List ℕ) :
    encodeCountsBlob (counts.map ((↑) : ℕ → ℤ)) = .ok (Varint.encodeCountsBlob counts) := by
  have hall : (counts.map ((↑) : ℕ → ℤ)).mapM encodeVarint = .ok (counts.map Varint.encodeVarint) := by
    induction counts with
    | nil => rfl
    | cons n counts ih =>
        rw [List.map_cons, List.mapM_cons, encodeVarint_ofNat, ih]
        rfl
  rw [encodeCountsBlob, hall, Varint.encodeCountsBlob]
  exact congrArg Except.ok (List.flatMap_def.symm)

/-- What the loop on positions comes to, from what the loop on the bytes that are left does. -/
def located (data : Bytes) : Option (ℕ × Bytes) → Except PyErr (ℕ × ℕ)
  | none => .error truncated
  | some (value, rest) => .ok (value, data.length - rest.length)

theorem decodeLoop_eq (data : Bytes) (pos result shift : ℕ) (h : result < 2 ^ shift) :
    decodeLoop data pos result shift = located data (Varint.decodeLoop result shift (data.drop pos)) := by
  fun_induction decodeLoop data pos result shift with
  | case1 pos result shift hend =>
      rw [List.drop_eq_nil_of_le hend]
      rfl
  | case2 pos result shift hlt byte result' hlast =>
      have hbyte : byte < 128 := (and_high_eq_zero_iff _).mp hlast
      have hvalue : result' = result + byte * 2 ^ shift := by
        show result ||| (byte &&& 0x7F) <<< shift = _
        rw [or_shiftLeft h, and_low, Nat.mod_eq_of_lt hbyte]
      rw [List.drop_eq_getElem_cons (Nat.lt_of_not_le hlt), Varint.decodeLoop, if_pos hbyte, hvalue, located,
        List.length_drop]
      have hpos : pos + 1 = data.length - (data.length - (pos + 1)) := by omega
      exact congrArg (fun k => Except.ok (_, k)) hpos
  | case3 pos result shift hlt byte result' hmore ih =>
      have hlarge : ¬byte < 128 := fun hbyte => hmore ((and_high_eq_zero_iff _).mpr hbyte)
      have hlow : byte % 128 = byte - 128 := by
        have := data[pos].toNat_lt
        omega
      have hvalue : result' = result + (byte - 128) * 2 ^ shift := by
        show result ||| (byte &&& 0x7F) <<< shift = _
        rw [or_shiftLeft h, and_low, hlow]
      have hfits : result' < 2 ^ (shift + 7) := by
        have hseven : byte - 128 < 128 := by
          have := data[pos].toNat_lt
          omega
        have hscaled : (byte - 128 + 1) * 2 ^ shift ≤ 128 * 2 ^ shift := Nat.mul_le_mul_right _ hseven
        rw [Nat.add_mul, Nat.one_mul] at hscaled
        rw [hvalue, pow_add, Nat.mul_comm (2 ^ shift)]
        omega
      rw [ih hfits, List.drop_eq_getElem_cons (Nat.lt_of_not_le hlt), Varint.decodeLoop, if_neg hlarge, hvalue]

theorem decodeVarint_eq (data : Bytes) (pos : ℕ) :
    decodeVarint data pos = located data (Varint.decodeVarint (data.drop pos)) :=
  decodeLoop_eq data pos 0 0 (by decide)

/-! ### Blobs -/

/-- What the loop over a blob comes to. -/
def packed (counts : List ℕ) : Option (List ℕ) → Except PyErr (List ℕ)
  | none => .error truncated
  | some more => .ok (counts ++ more)

theorem suffix_of_decodeLoop {result shift value : ℕ} {data rest : Bytes}
    (h : Varint.decodeLoop result shift data = some (value, rest)) : rest <:+ data := by
  induction data generalizing result shift with
  | nil => cases h
  | cons byte data ih =>
      rw [Varint.decodeLoop] at h
      split at h
      · cases h
        exact List.suffix_cons byte _
      · exact (ih h).trans (List.suffix_cons byte _)

theorem decodeCountsBlob_of_some {data rest : Bytes} {value : ℕ} (h : Varint.decodeVarint data = some (value, rest)) :
    Varint.decodeCountsBlob data = (Varint.decodeCountsBlob rest).map (value :: ·) := by
  cases data with
  | nil => cases h
  | cons byte data =>
      rw [Varint.decodeCountsBlob]
      split
      · rename_i hnone
        rw [h] at hnone
        cases hnone
      · rename_i value' rest' hsome
        rw [h] at hsome
        cases hsome
        rfl

theorem decodeCountsBlob_of_none {data : Bytes} (hne : data ≠ []) (h : Varint.decodeVarint data = none) :
    Varint.decodeCountsBlob data = none := by
  cases data with
  | nil => exact absurd rfl hne
  | cons byte data =>
      rw [Varint.decodeCountsBlob]
      split
      · rfl
      · rename_i value' rest' hsome
        rw [h] at hsome
        cases hsome

theorem decodeCountsLoop_eq (blob : Bytes) (counts : List ℕ) (pos : ℕ) :
    decodeCountsLoop blob counts pos = packed counts (Varint.decodeCountsBlob (blob.drop pos)) := by
  fun_induction decodeCountsLoop blob counts pos with
  | case1 counts pos hlt e hdecode =>
      rw [decodeVarint_eq] at hdecode
      cases hleft : Varint.decodeVarint (blob.drop pos) with
      | some out =>
          rw [hleft] at hdecode
          cases hdecode
      | none =>
          rw [hleft] at hdecode
          cases hdecode
          have hne : blob.drop pos ≠ [] := by
            rw [Ne, List.drop_eq_nil_iff]
            omega
          rw [decodeCountsBlob_of_none hne hleft]
          rfl
  | case2 counts pos hlt value pos' hdecode ih =>
      rw [decodeVarint_eq] at hdecode
      cases hleft : Varint.decodeVarint (blob.drop pos) with
      | none =>
          rw [hleft] at hdecode
          cases hdecode
      | some out =>
          obtain ⟨value', rest⟩ := out
          rw [hleft] at hdecode
          cases hdecode
          have hrest : blob.drop (blob.length - rest.length) = rest :=
            (List.suffix_iff_eq_drop.mp ((suffix_of_decodeLoop hleft).trans (List.drop_suffix pos blob))).symm
          rw [ih, hrest, decodeCountsBlob_of_some hleft]
          cases Varint.decodeCountsBlob rest with
          | none => rfl
          | some more => exact congrArg Except.ok (List.append_assoc counts [value] more)
  | case3 counts pos hend =>
      rw [List.drop_eq_nil_of_le (Nat.le_of_not_lt hend), Varint.decodeCountsBlob, packed, List.append_nil]

theorem decodeCountsBlob_eq (blob : Bytes) : decodeCountsBlob blob = packed [] (Varint.decodeCountsBlob blob) :=
  decodeCountsLoop_eq blob [] 0

/-- The value, between any bytes, is decoded as itself. -/
def RoundTrips (n : ℤ) (p s : Bytes) : Prop :=
  ∃ bytes, encodeVarint n = .ok bytes ∧
    ∃ value : ℕ, value = n ∧ decodeVarint (p ++ bytes ++ s) p.length = .ok (value, p.length + bytes.length)

theorem roundTrips_ofNat (n : ℕ) (p s : Bytes) : RoundTrips n p s := by
  refine ⟨_, encodeVarint_ofNat n, n, rfl, ?_⟩
  rw [decodeVarint_eq, List.append_assoc, List.drop_left, Varint.decodeVarint_encodeVarint, located]
  refine congrArg (fun k => Except.ok (n, k)) ?_
  simp only [List.length_append]
  omega

/-- **What is refused, and how.** -/
theorem encodeVarint_eq_error_iff (n : ℤ) (e : PyErr) : encodeVarint n = .error e ↔
    n < 0 ∧ e = .valueError (py "varint cannot encode negative value: " ++ decimalInt n) := by
  constructor
  · intro he
    by_cases hneg : n < 0
    · rw [encodeVarint_neg hneg] at he
      exact ⟨hneg, (Except.error.inj he).symm⟩
    · rw [encodeVarint, if_neg hneg] at he
      cases he
  · rintro ⟨hneg, rfl⟩
    exact encodeVarint_neg hneg

theorem decodeCountsBlob_encode (counts : List ℕ) : decodeCountsBlob (Varint.encodeCountsBlob counts) = .ok counts := by
  rw [decodeCountsBlob_eq, Varint.decodeCountsBlob_encodeCountsBlob]
  rfl

/-- Only lists of non-negative values are encoded. -/
theorem nat_of_encodeCountsBlob {counts : List ℤ} {blob : Bytes} (h : encodeCountsBlob counts = .ok blob) :
    ∃ ns : List ℕ, counts = ns.map ((↑) : ℕ → ℤ) ∧ blob = Varint.encodeCountsBlob ns := by
  have hall : ∀ counts : List ℤ, ∀ parts, counts.mapM encodeVarint = .ok parts →
      ∃ ns : List ℕ, counts = ns.map ((↑) : ℕ → ℤ) := by
    intro counts
    induction counts with
    | nil => exact fun _ _ => ⟨[], rfl⟩
    | cons n counts ih =>
        intro parts hparts
        rw [List.mapM_cons] at hparts
        cases hn : encodeVarint n with
        | error e =>
            rw [hn] at hparts
            cases hparts
        | ok bytes =>
            have hnonneg : 0 ≤ n := by
              by_contra hneg
              rw [encodeVarint_neg (by omega)] at hn
              cases hn
            rw [hn] at hparts
            cases hrest : counts.mapM encodeVarint with
            | error e =>
                rw [hrest] at hparts
                cases hparts
            | ok rest =>
                obtain ⟨ns, rfl⟩ := ih rest hrest
                exact ⟨n.toNat :: ns, by rw [List.map_cons, Int.toNat_of_nonneg hnonneg]⟩
  rw [encodeCountsBlob] at h
  cases hparts : counts.mapM encodeVarint with
  | error e =>
      rw [hparts] at h
      cases h
  | ok parts =>
      obtain ⟨ns, rfl⟩ := hall counts parts hparts
      refine ⟨ns, rfl, ?_⟩
      rw [← encodeCountsBlob, encodeCountsBlob_ofNat] at h
      exact (Except.ok.inj h).symm

/-- **The round trips.**  A list of counts comes back from its blob, and no other list has it; each value comes back from
where its bytes stand; exactly the negative ones are refused, with a `ValueError`. -/
theorem roundTrip (counts : List ℕ) (n : ℕ) (p s : Bytes) :
    (∃ blob, decodeCountsBlob blob = .ok counts ∧
      ∀ others : List ℤ, encodeCountsBlob others = .ok blob ↔ others = counts.map ((↑) : ℕ → ℤ)) ∧
    RoundTrips n p s ∧ ∀ (m : ℤ) (e : PyErr), encodeVarint m = .error e ↔
      m < 0 ∧ e = .valueError (py "varint cannot encode negative value: " ++ decimalInt m) := by
  refine ⟨⟨_, decodeCountsBlob_encode counts, fun others => ⟨fun hothers => ?_, fun heq => ?_⟩⟩, roundTrips_ofNat n p s,
    encodeVarint_eq_error_iff⟩
  · obtain ⟨ns, rfl, hblob⟩ := nat_of_encodeCountsBlob hothers
    have hback := decodeCountsBlob_encode ns
    rw [← hblob, decodeCountsBlob_encode] at hback
    rw [Except.ok.inj hback]
  · rw [heq]
    exact encodeCountsBlob_ofNat counts

/-- A negative value has no bytes. -/
theorem negative_not_roundTrips : ¬RoundTrips (-1) [] [] := by
  rintro ⟨bytes, hbytes, _⟩
  rw [encodeVarint_neg (by decide)] at hbytes
  cases hbytes

/-! ### Arbitrary blobs -/

/-- The value of a group: seven bits a byte, the low ones first. -/
def littleEndian : Bytes → ℕ
  | [] => 0
  | byte :: group => byte.toNat % 128 + 128 * littleEndian group

/-- A blob cut after each byte without the high bit: the groups, and the bytes after the last of them. -/
def cut : Bytes → List Bytes × Bytes
  | [] => ([], [])
  | byte :: blob =>
    if continues byte then
      match cut blob with
      | ([], tail) => ([], byte :: tail)
      | (group :: groups, tail) => ((byte :: group) :: groups, tail)
    else ([byte] :: (cut blob).1, (cut blob).2)

/-- The high bit on every byte but the last. -/
def CompleteGroup : Bytes → Prop
  | [] => False
  | [byte] => continues byte = false
  | byte :: group => continues byte = true ∧ CompleteGroup group

/-- No zero byte that another one precedes. -/
def Minimal (group : Bytes) : Prop := 1 < group.length → group.getLast? ≠ some 0

theorem complete_cons {byte : UInt8} {group : Bytes} (h : continues byte = true) (hg : CompleteGroup group) :
    CompleteGroup (byte :: group) := by
  cases group with
  | nil => exact absurd hg id
  | cons byte' group => exact ⟨h, hg⟩

/-- **A cut blob**: its groups are complete, and every byte after them has the high bit. -/
theorem cut_spec (blob : Bytes) : blob = (cut blob).1.flatten ++ (cut blob).2 ∧ (∀ group ∈ (cut blob).1, CompleteGroup group) ∧
    ∀ byte ∈ (cut blob).2, continues byte = true := by
  induction blob with
  | nil => exact ⟨rfl, fun _ h => absurd h List.not_mem_nil, fun _ h => absurd h List.not_mem_nil⟩
  | cons byte blob ih =>
      obtain ⟨hblob, hgroups, htail⟩ := ih
      rw [cut]
      by_cases hmore : continues byte = true
      · rw [if_pos hmore]
        rcases hcut : cut blob with ⟨_ | ⟨group, groups⟩, tail⟩
        · rw [hcut] at hblob htail
          refine ⟨congrArg (byte :: ·) hblob, fun _ h => absurd h List.not_mem_nil, fun b hb => ?_⟩
          cases List.mem_cons.mp hb with
          | inl heq => rw [heq]; exact hmore
          | inr hold => exact htail b hold
        · rw [hcut] at hblob hgroups htail
          refine ⟨congrArg (byte :: ·) hblob, fun g hg => ?_, htail⟩
          cases List.mem_cons.mp hg with
          | inl heq =>
              rw [heq]
              exact complete_cons hmore (hgroups group List.mem_cons_self)
          | inr hold => exact hgroups g (List.mem_cons_of_mem _ hold)
      · rw [if_neg hmore]
        refine ⟨congrArg (byte :: ·) hblob, fun g hg => ?_, htail⟩
        cases List.mem_cons.mp hg with
        | inl heq =>
            rw [heq]
            exact (Bool.not_eq_true _).mp hmore
        | inr hold => exact hgroups g hold

theorem decodeLoop_complete {group : Bytes} (h : CompleteGroup group) (result shift : ℕ) (rest : Bytes) :
    Varint.decodeLoop result shift (group ++ rest) = some (result + littleEndian group * 2 ^ shift, rest) := by
  induction group generalizing result shift with
  | nil => exact absurd h id
  | cons byte group ih =>
      cases group with
      | nil =>
          have hbyte : byte.toNat < 128 := (continues_eq_false_iff byte).mp h
          rw [List.singleton_append, Varint.decodeLoop, if_pos hbyte, littleEndian, littleEndian, Nat.mod_eq_of_lt hbyte]
          rfl
      | cons byte' group =>
          obtain ⟨hmore, hrest⟩ := h
          have hlarge : 128 ≤ byte.toNat := (continues_iff byte).mp hmore
          have hlow : byte.toNat % 128 = byte.toNat - 128 := by
            have := byte.toNat_lt
            omega
          have hvalue : littleEndian (byte :: byte' :: group) = byte.toNat % 128 + 128 * littleEndian (byte' :: group) := rfl
          rw [List.cons_append, Varint.decodeLoop, if_neg (by omega), ih hrest, hvalue, hlow]
          refine congrArg (fun k => some (k, rest)) ?_
          ring

theorem decodeLoop_open {tail : Bytes} (h : ∀ byte ∈ tail, continues byte = true) (result shift : ℕ) :
    Varint.decodeLoop result shift tail = none := by
  induction tail generalizing result shift with
  | nil => rfl
  | cons byte tail ih =>
      have hlarge : 128 ≤ byte.toNat := (continues_iff byte).mp (h byte List.mem_cons_self)
      rw [Varint.decodeLoop, if_neg (by omega)]
      exact ih (fun b hb => h b (List.mem_cons_of_mem _ hb)) _ _

theorem decodeCountsBlob_groups {groups : List Bytes} (hgroups : ∀ group ∈ groups, CompleteGroup group) {tail : Bytes}
    (htail : ∀ byte ∈ tail, continues byte = true) :
    Varint.decodeCountsBlob (groups.flatten ++ tail) = if tail = [] then some (groups.map littleEndian) else none := by
  induction groups with
  | nil =>
      rw [List.flatten_nil, List.nil_append]
      split
      · rename_i hnil
        rw [hnil, Varint.decodeCountsBlob]
        rfl
      · rename_i hne
        exact decodeCountsBlob_of_none hne (decodeLoop_open htail 0 0)
  | cons group groups ih =>
      have hfirst : Varint.decodeVarint (group ++ (groups.flatten ++ tail)) =
          some (littleEndian group, groups.flatten ++ tail) := by
        rw [Varint.decodeVarint, decodeLoop_complete (hgroups group List.mem_cons_self), Nat.zero_add, pow_zero, Nat.mul_one]
      rw [List.flatten_cons, List.append_assoc, decodeCountsBlob_of_some hfirst,
        ih fun g hg => hgroups g (List.mem_cons_of_mem _ hg)]
      split <;> rfl

theorem ne_nil_of_complete {group : Bytes} (h : CompleteGroup group) : group ≠ [] := by
  rintro rfl
  exact h

theorem last_of_complete {group : Bytes} (h : CompleteGroup group) :
    ∃ last, group.getLast? = some last ∧ continues last = false := by
  induction group with
  | nil => exact absurd h id
  | cons byte group ih =>
      cases group with
      | nil => exact ⟨byte, rfl, h⟩
      | cons byte' group => exact ih h.2

theorem countP_of_complete {group : Bytes} (h : CompleteGroup group) : group.countP (fun byte => !continues byte) = 1 := by
  induction group with
  | nil => exact absurd h id
  | cons byte group ih =>
      cases group with
      | nil =>
          have hlast : continues byte = false := h
          rw [List.countP_singleton, hlast]
          rfl
      | cons byte' group => rw [List.countP_cons, ih h.2, h.1]; rfl

theorem countP_flatten {groups : List Bytes} (h : ∀ group ∈ groups, CompleteGroup group) :
    groups.flatten.countP (fun byte => !continues byte) = groups.length := by
  induction groups with
  | nil => rfl
  | cons group groups ih =>
      rw [List.flatten_cons, List.countP_append, countP_of_complete (h group List.mem_cons_self),
        ih fun g hg => h g (List.mem_cons_of_mem _ hg), List.length_cons, Nat.add_comm]

/-- A blob breaks off exactly if its last byte has the high bit. -/
theorem tail_ne_nil_iff (blob : Bytes) : (cut blob).2 ≠ [] ↔ ∃ last, blob.getLast? = some last ∧ continues last = true := by
  obtain ⟨hblob, hgroups, htail⟩ := cut_spec blob
  constructor
  · intro hne
    refine ⟨(cut blob).2.getLast hne, ?_, htail _ (List.getLast_mem hne)⟩
    have hend := congrArg List.getLast? hblob
    rwa [List.getLast?_append_of_ne_nil _ hne, List.getLast?_eq_some_getLast hne] at hend
  · rintro ⟨last, hlast, hmore⟩ hnil
    rw [hblob, hnil, List.append_nil] at hlast
    rcases List.eq_nil_or_concat (cut blob).1 with hnone | ⟨groups, group, hgroup⟩
    · rw [hnone] at hlast
      cases hlast
    · have hcomplete : CompleteGroup group := hgroups group (by rw [hgroup]; simp)
      obtain ⟨byte, hbyte, hend⟩ := last_of_complete hcomplete
      rw [hgroup, List.concat_eq_append, List.flatten_append, List.flatten_singleton,
        List.getLast?_append_of_ne_nil _ (ne_nil_of_complete hcomplete), hbyte] at hlast
      rw [Option.some.inj hlast, hmore] at hend
      cases hend

/-! ### Encoding again -/

theorem littleEndian_cons {byte : UInt8} {group : Bytes} (hmore : continues byte = true) :
    Varint.encodeVarint (littleEndian (byte :: group)) =
      if littleEndian group = 0 then [UInt8.ofNat (byte.toNat % 128)]
      else byte :: Varint.encodeVarint (littleEndian group) := by
  have hlarge : 128 ≤ byte.toNat := (continues_iff byte).mp hmore
  have hlt := byte.toNat_lt
  have hlow : byte.toNat % 128 + 128 = byte.toNat := by omega
  have hrest : (byte.toNat % 128 + 128 * littleEndian group) / 128 = littleEndian group := by omega
  have hfirst : (byte.toNat % 128 + 128 * littleEndian group) % 128 = byte.toNat % 128 := by omega
  rw [littleEndian, Varint.encodeVarint, hrest, hfirst, hlow, UInt8.ofNat_toNat]

theorem littleEndian_eq_zero {group : Bytes} (h : CompleteGroup group) (hzero : littleEndian group = 0) :
    group.getLast? = some 0 := by
  induction group with
  | nil => exact absurd h id
  | cons byte group ih =>
      rw [littleEndian] at hzero
      cases group with
      | nil =>
          have hbyte : byte.toNat < 128 := (continues_eq_false_iff byte).mp h
          have hval : byte.toNat = (0 : UInt8).toNat := by
            show byte.toNat = 0
            omega
          rw [UInt8.toNat_inj.mp hval]
          rfl
      | cons byte' group =>
          rw [List.getLast?_cons_cons]
          exact ih h.2 (by omega)

theorem minimal_cons {byte : UInt8} {group : Bytes} (h : CompleteGroup group) (hne : littleEndian group ≠ 0) :
    Minimal (byte :: group) ↔ Minimal group := by
  cases group with
  | nil => exact absurd h id
  | cons byte' group =>
      rw [Minimal, Minimal, List.getLast?_cons_cons]
      refine ⟨fun hmin _ => hmin (by simp), fun hmin _ => ?_⟩
      cases group with
      | nil =>
          have hbyte : byte'.toNat < 128 := (continues_eq_false_iff byte').mp h
          intro hzero
          rw [List.getLast?_singleton] at hzero
          rw [Option.some.inj hzero] at hne
          exact hne rfl
      | cons byte'' group => exact hmin (by simp)

/-- **A group encodes to itself if it is minimal**, and to fewer bytes otherwise. -/
theorem encodeVarint_littleEndian {group : Bytes} (h : CompleteGroup group) :
    (Minimal group → Varint.encodeVarint (littleEndian group) = group) ∧
      (¬Minimal group → (Varint.encodeVarint (littleEndian group)).length < group.length) := by
  induction group with
  | nil => exact absurd h id
  | cons byte group ih =>
      cases group with
      | nil =>
          have hbyte : byte.toNat < 128 := (continues_eq_false_iff byte).mp h
          refine ⟨fun _ => ?_, fun hnot => absurd (fun hlong => absurd hlong (Nat.lt_irrefl 1)) hnot⟩
          have hself : littleEndian [byte] = byte.toNat := Nat.mod_eq_of_lt hbyte
          rw [hself, Varint.encodeVarint, if_pos (Nat.div_eq_of_lt hbyte), Nat.mod_eq_of_lt hbyte, UInt8.ofNat_toNat]
      | cons byte' group =>
          obtain ⟨hmore, hrest⟩ := h
          obtain ⟨hsame, hshorter⟩ := ih hrest
          rw [littleEndian_cons hmore]
          by_cases hzero : littleEndian (byte' :: group) = 0
          · rw [if_pos hzero]
            refine ⟨fun hmin => absurd (hmin (by simp)) (not_not.mpr ?_), fun _ => by simp⟩
            rw [List.getLast?_cons_cons]
            exact littleEndian_eq_zero hrest hzero
          · rw [if_neg hzero, minimal_cons hrest hzero]
            exact ⟨fun hmin => congrArg (byte :: ·) (hsame hmin), fun hnot => Nat.succ_lt_succ (hshorter hnot)⟩

theorem encodeCountsBlob_littleEndian {groups : List Bytes} (h : ∀ group ∈ groups, CompleteGroup group) :
    ((∀ group ∈ groups, Minimal group) → Varint.encodeCountsBlob (groups.map littleEndian) = groups.flatten) ∧
      (Varint.encodeCountsBlob (groups.map littleEndian)).length ≤ groups.flatten.length ∧
      ((∃ group ∈ groups, ¬Minimal group) →
        (Varint.encodeCountsBlob (groups.map littleEndian)).length < groups.flatten.length) := by
  induction groups with
  | nil => exact ⟨fun _ => rfl, Nat.le_refl _, fun hex => absurd hex (by simp)⟩
  | cons group groups ih =>
      obtain ⟨hsame, hle, hshorter⟩ := ih fun g hg => h g (List.mem_cons_of_mem _ hg)
      obtain ⟨hself, hless⟩ := encodeVarint_littleEndian (h group List.mem_cons_self)
      have hblob : Varint.encodeCountsBlob ((group :: groups).map littleEndian) =
          Varint.encodeVarint (littleEndian group) ++ Varint.encodeCountsBlob (groups.map littleEndian) := rfl
      have hfirst : (Varint.encodeVarint (littleEndian group)).length ≤ group.length := by
        by_cases hmin : Minimal group
        · rw [hself hmin]
        · exact Nat.le_of_lt (hless hmin)
      rw [hblob, List.flatten_cons, List.length_append, List.length_append]
      refine ⟨fun hmin => ?_, by omega, fun hex => ?_⟩
      · rw [hself (hmin group List.mem_cons_self), hsame fun g hg => hmin g (List.mem_cons_of_mem _ hg)]
      · obtain ⟨g, hg, hnot⟩ := hex
        cases List.mem_cons.mp hg with
        | inl heq =>
            rw [heq] at hnot
            have := hless hnot
            omega
        | inr hold =>
            have := hshorter ⟨g, hold, hnot⟩
            omega

/-- **Decoding an arbitrary blob** raises, and then a `ValueError`, exactly if the last byte has the high bit.  Otherwise
there is a count for each byte without it, the value of its group; and the counts encode to the blob again exactly if every
group is minimal, and to fewer bytes otherwise. -/
theorem decodeCountsBlob_decodes (blob : Bytes) :
    ((∃ e, decodeCountsBlob blob = .error e) ↔ ∃ last, blob.getLast? = some last ∧ continues last = true) ∧
    (∀ e, decodeCountsBlob blob = .error e → e = truncated) ∧
    ∀ counts, decodeCountsBlob blob = .ok counts →
      counts.length = blob.countP (fun byte => !continues byte) ∧ counts = (cut blob).1.map littleEndian ∧
      ∃ again, encodeCountsBlob (counts.map ((↑) : ℕ → ℤ)) = .ok again ∧
        (again = blob ↔ ∀ group ∈ (cut blob).1, Minimal group) ∧ (again ≠ blob → again.length < blob.length) := by
  obtain ⟨hblob, hgroups, htail⟩ := cut_spec blob
  have hdecode : decodeCountsBlob blob =
      packed [] (if (cut blob).2 = [] then some ((cut blob).1.map littleEndian) else none) := by
    rw [decodeCountsBlob_eq, ← decodeCountsBlob_groups hgroups htail, ← hblob]
  rw [← tail_ne_nil_iff, hdecode]
  by_cases hnil : (cut blob).2 = []
  · rw [if_pos hnil]
    have hreturns : ∀ e, packed [] (some ((cut blob).1.map littleEndian)) ≠ .error e := by
      intro e he
      cases he
    refine ⟨iff_of_false (fun hex => ?_) (not_not.mpr hnil), fun e he => absurd he (hreturns e), fun counts hcounts => ?_⟩
    · obtain ⟨e, he⟩ := hex
      exact hreturns e he
    have hvalues : (cut blob).1.map littleEndian = counts := Except.ok.inj hcounts
    have hflat : blob = (cut blob).1.flatten := by
      rw [hnil, List.append_nil] at hblob
      exact hblob
    obtain ⟨hsame, _, hshorter⟩ := encodeCountsBlob_littleEndian hgroups
    have hshort : ¬(∀ group ∈ (cut blob).1, Minimal group) →
        (Varint.encodeCountsBlob ((cut blob).1.map littleEndian)).length < blob.length := by
      intro hnot
      rw [congrArg List.length hflat]
      refine hshorter ?_
      by_contra hnone
      exact hnot fun group hgroup => by_contra fun hmin => hnone ⟨group, hgroup, hmin⟩
    rw [← hvalues]
    refine ⟨?_, rfl, _, encodeCountsBlob_ofNat _, ⟨fun heq => ?_, fun hmin => (hsame hmin).trans hflat.symm⟩, fun hne => ?_⟩
    · rw [congrArg (List.countP fun byte => !continues byte) hflat, countP_flatten hgroups, List.length_map]
    · by_contra hnot
      have hless := hshort hnot
      rw [heq] at hless
      exact Nat.lt_irrefl _ hless
    · exact hshort fun hmin => hne ((hsame hmin).trans hflat.symm)
  · rw [if_neg hnil]
    refine ⟨iff_of_true ⟨truncated, rfl⟩ hnil, fun e he => (Except.error.inj he).symm, fun counts hcounts => ?_⟩
    cases hcounts

end McapCatalog.VarintCodec
