import McapCatalog.PyText

/-!
# The packed topic counts

`varint.py`: `files.topic_counts` holds one unsigned LEB128 varint per topic-set member.

* `encodeVarint`, `decodeVarint` — the codec of one value, on the bytes that are left;
* `encodeCountsBlob`, `decodeCountsBlob` — the packed list;
* `decodeVarint_encodeVarint`, `decodeCountsBlob_encodeCountsBlob` — the round trips.
-/

namespace McapCatalog.Varint

/-- A Python `bytes`. -/
abbrev Bytes : Type := List UInt8

/-- `encode_varint` on a non-negative value: seven bits a byte, the low ones first, the high bit set on every
byte but the last. -/
def encodeVarint (n : ℕ) : Bytes :=
  if n / 128 = 0 then [UInt8.ofNat (n % 128)]
  else UInt8.ofNat (n % 128 + 128) :: encodeVarint (n / 128)
termination_by n
decreasing_by omega

/-- The loop of `decode_varint` from `(result, shift)`; `none` is the truncated input. -/
def decodeLoop (result shift : ℕ) : Bytes → Option (ℕ × Bytes)
  | [] => none
  | byte :: data =>
    if byte.toNat < 128 then some (result + byte.toNat * 2 ^ shift, data)
    else decodeLoop (result + (byte.toNat - 128) * 2 ^ shift) (shift + 7) data

/-- `decode_varint`: the value and the bytes after it. -/
def decodeVarint (data : Bytes) : Option (ℕ × Bytes) := decodeLoop 0 0 data

/-- `encode_counts_blob`. -/
def encodeCountsBlob (counts : List ℕ) : Bytes := counts.flatMap encodeVarint

theorem decodeLoop_length {result shift n : ℕ} {data rest : Bytes}
    (h : decodeLoop result shift data = some (n, rest)) : rest.length < data.length := by
  induction data generalizing result shift with
  | nil => exact absurd h (by simp [decodeLoop])
  | cons byte data ih =>
      unfold decodeLoop at h
      split at h
      · cases h; exact Nat.lt_succ_self _
      · exact Nat.lt_succ_of_lt (ih h)

/-- `decode_counts_blob`; `none` when the last varint is truncated. -/
def decodeCountsBlob (blob : Bytes) : Option (List ℕ) :=
  match blob with
  | [] => some []
  | byte :: data =>
    match _hd : decodeVarint (byte :: data) with
    | none => none
    | some (value, rest) => (decodeCountsBlob rest).map (value :: ·)
termination_by blob.length
decreasing_by exact decodeLoop_length _hd

/-! ### Round trips -/

theorem encodeVarint_ne_nil (n : ℕ) : encodeVarint n ≠ [] := by
  rw [encodeVarint]
  split <;> simp

theorem toNat_ofNat_of_lt {n : ℕ} (h : n < 256) : (UInt8.ofNat n).toNat = n := by
  rw [UInt8.toNat_ofNat']
  exact Nat.mod_eq_of_lt h

theorem decodeLoop_encodeVarint (n result shift : ℕ) (rest : Bytes) :
    decodeLoop result shift (encodeVarint n ++ rest) = some (result + n * 2 ^ shift, rest) := by
  induction n using Nat.strongRecOn generalizing result shift with
  | _ n ih =>
      have hlow : n % 128 < 128 := Nat.mod_lt _ (by decide)
      rw [encodeVarint]
      by_cases hn : n / 128 = 0
      · have hself : n % 128 = n := Nat.mod_eq_of_lt (by omega)
        rw [if_pos hn, List.singleton_append, decodeLoop, toNat_ofNat_of_lt (by omega), if_pos hlow, hself]
      · have hrec := ih (n / 128) (by omega)
        rw [if_neg hn, List.cons_append, decodeLoop, toNat_ofNat_of_lt (by omega), if_neg (by omega), hrec]
        have hsplit : n = n % 128 + 128 * (n / 128) := (Nat.mod_add_div n 128).symm
        have hval : result + (n % 128 + 128 - 128) * 2 ^ shift + n / 128 * 2 ^ (shift + 7) =
            result + n * 2 ^ shift := by
          conv_rhs => rw [hsplit]
          rw [Nat.add_sub_cancel]
          ring
        rw [hval]

/-- **One value.**  Decoding reads back exactly what was encoded and leaves the rest. -/
theorem decodeVarint_encodeVarint (n : ℕ) (rest : Bytes) :
    decodeVarint (encodeVarint n ++ rest) = some (n, rest) := by
  rw [decodeVarint, decodeLoop_encodeVarint, pow_zero, Nat.mul_one, Nat.zero_add]

/-- **The blob.** -/
theorem decodeCountsBlob_encodeCountsBlob (counts : List ℕ) :
    decodeCountsBlob (encodeCountsBlob counts) = some counts := by
  induction counts with
  | nil => rw [encodeCountsBlob, List.flatMap_nil, decodeCountsBlob]
  | cons n counts ih =>
      have hd := decodeVarint_encodeVarint n (encodeCountsBlob counts)
      rw [encodeCountsBlob, List.flatMap_cons] at *
      obtain ⟨byte, data, hcons⟩ := List.exists_cons_of_ne_nil (encodeVarint_ne_nil n)
      rw [hcons, List.cons_append] at hd ⊢
      rw [decodeCountsBlob]
      split
      · rename_i hnone
        rw [hd] at hnone
        cases hnone
      · rename_i value rest hsome
        rw [hd] at hsome
        cases hsome
        rw [ih, Option.map_some]

end McapCatalog.Varint
