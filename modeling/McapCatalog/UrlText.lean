import McapCatalog.Varint
import Mathlib.Data.List.SplitBy

/-!
# Percent-encoded text

`urllib.parse.unquote_plus`, which the notification producer applies to object keys.

* `unquoteToBytes` — `%xx` escapes of an ASCII run; a `%` without two hexadecimal digits stays;
* `decodeUtf8` — `bytes.decode("utf-8", "replace")`: the longest start of a character that cannot be completed
  becomes one `U+FFFD`, and decoding goes on with the byte that broke it;
* `unquotePlus` — the whole function;
* `unquotePlus_percentEncode` — **every key that has a UTF-8 encoding has an escaped form that decodes to it.**
-/

namespace McapCatalog.UrlText

open McapCatalog.PyText McapCatalog.Varint

/-! ### Escapes -/

/-- The value of a hexadecimal digit. -/
def hexValue (c : CodePoint) : Option ℕ :=
  if 48 ≤ c.val ∧ c.val ≤ 57 then some (c.val - 48)
  else if 65 ≤ c.val ∧ c.val ≤ 70 then some (c.val - 55)
  else if 97 ≤ c.val ∧ c.val ≤ 102 then some (c.val - 87)
  else none

/-- `_hextobyte`, for the two characters after a percent sign. -/
def hexToByte (high low : CodePoint) : Option UInt8 :=
  match hexValue high, hexValue low with
  | some h, some l => some (UInt8.ofNat (h * 16 + l))
  | _, _ => none

/-- `unquote_to_bytes` of an ASCII string. -/
def unquoteToBytes : PyStr → Bytes
  | [] => []
  | c :: high :: low :: s =>
    match (if c = cp '%' then hexToByte high low else none) with
    | some byte => byte :: unquoteToBytes s
    | none => UInt8.ofNat c.val :: unquoteToBytes (high :: low :: s)
  | c :: s => UInt8.ofNat c.val :: unquoteToBytes s

/-! ### UTF-8 -/

/-- `U+FFFD`. -/
def replacement : CodePoint := ⟨0xFFFD, by decide⟩

/-- A character under way: its value so far, the range of its next byte, the ranges after that. -/
structure Partial where
  value : ℕ
  next : ℕ × ℕ
  owed : List (ℕ × ℕ)

/-- The range of a continuation byte. -/
def tail : ℕ × ℕ := (0x80, 0xBF)

/-- What a first byte contributes, and the ranges of the bytes it asks for; `none` where no character starts. -/
def lead (b : ℕ) : Option (ℕ × List (ℕ × ℕ)) :=
  if b < 0x80 then some (b, [])
  else if 0xC2 ≤ b ∧ b ≤ 0xDF then some (b - 0xC0, [tail])
  else if b = 0xE0 then some (0, [(0xA0, 0xBF), tail])
  else if b = 0xED then some (0xD, [(0x80, 0x9F), tail])
  else if 0xE1 ≤ b ∧ b ≤ 0xEF then some (b - 0xE0, [tail, tail])
  else if b = 0xF0 then some (0, [(0x90, 0xBF), tail, tail])
  else if 0xF1 ≤ b ∧ b ≤ 0xF3 then some (b - 0xF0, [tail, tail, tail])
  else if b = 0xF4 then some (4, [(0x80, 0x8F), tail, tail])
  else none

/-- A character that owes nothing more is emitted. -/
def settle (value : ℕ) : List (ℕ × ℕ) → PyStr × Option Partial
  | [] => ([Fin.ofNat 0x110000 value], none)
  | range :: ranges => ([], some ⟨value, range, ranges⟩)

/-- A byte between characters. -/
def startChar (b : ℕ) : PyStr × Option Partial :=
  match lead b with
  | none => ([replacement], none)
  | some (value, ranges) => settle value ranges

/-- The decoder, with the character under way. -/
def decodeFrom : Option Partial → Bytes → PyStr
  | none, [] => []
  | some _, [] => [replacement]
  | none, byte :: data => (startChar byte.toNat).1 ++ decodeFrom (startChar byte.toNat).2 data
  | some p, byte :: data =>
    if p.next.1 ≤ byte.toNat ∧ byte.toNat ≤ p.next.2 then
      let more := settle (p.value * 64 + (byte.toNat - 0x80)) p.owed
      more.1 ++ decodeFrom more.2 data
    else replacement :: ((startChar byte.toNat).1 ++ decodeFrom (startChar byte.toNat).2 data)

/-- `data.decode("utf-8", "replace")`. -/
def decodeUtf8 (data : Bytes) : PyStr := decodeFrom none data

/-- `s.encode("utf-8")` of one character. -/
def encodeChar (c : CodePoint) : Bytes :=
  if c.val < 0x80 then [UInt8.ofNat c.val]
  else if c.val < 0x800 then [UInt8.ofNat (0xC0 + c.val / 64), UInt8.ofNat (0x80 + c.val % 64)]
  else if c.val < 0x10000 then
    [UInt8.ofNat (0xE0 + c.val / 4096), UInt8.ofNat (0x80 + c.val / 64 % 64), UInt8.ofNat (0x80 + c.val % 64)]
  else
    [UInt8.ofNat (0xF0 + c.val / 262144), UInt8.ofNat (0x80 + c.val / 4096 % 64),
      UInt8.ofNat (0x80 + c.val / 64 % 64), UInt8.ofNat (0x80 + c.val % 64)]

/-- `s.encode("utf-8")`. -/
def encodeUtf8 (s : PyStr) : Bytes := s.flatMap encodeChar

/-- The values of the decoder's bytes. -/
theorem decodeFrom_none_cons {b : ℕ} (h : b < 256) (data : Bytes) :
    decodeFrom none (UInt8.ofNat b :: data) = (startChar b).1 ++ decodeFrom (startChar b).2 data := by
  have hb : (UInt8.ofNat b).toNat = b := by
    rw [UInt8.toNat_ofNat']
    omega
  rw [decodeFrom, hb]

/-- A continuation byte in its range. -/
theorem decodeFrom_some_cons {value b : ℕ} {next : ℕ × ℕ} {owed : List (ℕ × ℕ)} (h : b < 256)
    (hlo : next.1 ≤ b) (hhi : b ≤ next.2) (data : Bytes) :
    decodeFrom (some ⟨value, next, owed⟩) (UInt8.ofNat b :: data) =
      (settle (value * 64 + (b - 0x80)) owed).1 ++ decodeFrom (settle (value * 64 + (b - 0x80)) owed).2 data := by
  have hb : (UInt8.ofNat b).toNat = b := by
    rw [UInt8.toNat_ofNat']
    omega
  rw [decodeFrom, hb, if_pos ⟨hlo, hhi⟩]

/-- **A character is read back**, whatever follows it. -/
theorem decodeFrom_encodeChar {c : CodePoint} (h : isSurrogate c = false) (data : Bytes) :
    decodeFrom none (encodeChar c ++ data) = c :: decodeFrom none data := by
  have hc := c.isLt
  have hsur : ¬(0xD800 ≤ c.val ∧ c.val ≤ 0xDFFF) := by
    intro hboth
    have : isSurrogate c = true := by
      simp only [isSurrogate, Bool.and_eq_true, decide_eq_true_eq]
      exact hboth
    rw [h] at this
    cases this
  have hemit : ∀ n, n = c.val → (Fin.ofNat 0x110000 n : CodePoint) = c := by
    intro n hn
    subst hn
    exact Fin.ext (Nat.mod_eq_of_lt hc)
  unfold encodeChar
  split
  · rename_i h1
    show decodeFrom none (UInt8.ofNat c.val :: data) = _
    rw [decodeFrom_none_cons (by omega), startChar, lead, if_pos h1]
    show [Fin.ofNat 0x110000 c.val] ++ _ = _
    rw [hemit _ rfl]
    rfl
  split
  · rename_i h1 h2
    show decodeFrom none (UInt8.ofNat (0xC0 + c.val / 64) :: UInt8.ofNat (0x80 + c.val % 64) :: data) = _
    rw [decodeFrom_none_cons (by omega), startChar, lead, if_neg (by omega), if_pos (by omega)]
    show decodeFrom (some ⟨0xC0 + c.val / 64 - 0xC0, tail, []⟩) _ = _
    rw [decodeFrom_some_cons (by omega) (by simp only [tail]; omega) (by simp only [tail]; omega)]
    show [Fin.ofNat 0x110000 _] ++ _ = _
    rw [hemit _ (by omega)]
    rfl
  split
  · rename_i h1 h2 h3
    show decodeFrom none (UInt8.ofNat (0xE0 + c.val / 4096) :: UInt8.ofNat (0x80 + c.val / 64 % 64) ::
      UInt8.ofNat (0x80 + c.val % 64) :: data) = _
    rw [decodeFrom_none_cons (by omega)]
    have hlead : ∃ next : ℕ × ℕ, next.1 ≤ 0x80 + c.val / 64 % 64 ∧ 0x80 + c.val / 64 % 64 ≤ next.2 ∧
        startChar (0xE0 + c.val / 4096) = ([], some ⟨c.val / 4096, next, [tail]⟩) := by
      by_cases hlow : c.val / 4096 = 0
      · refine ⟨(0xA0, 0xBF), by dsimp only; omega, by dsimp only; omega, ?_⟩
        rw [hlow]
        rfl
      by_cases hed : c.val / 4096 = 0xD
      · refine ⟨(0x80, 0x9F), by dsimp only; omega, by dsimp only; omega, ?_⟩
        rw [hed]
        rfl
      refine ⟨tail, by simp only [tail]; omega, by simp only [tail]; omega, ?_⟩
      rw [startChar, lead, if_neg (by omega), if_neg (by omega), if_neg (by omega), if_neg (by omega),
        if_pos (by omega)]
      show (([] : PyStr), some (Partial.mk (0xE0 + c.val / 4096 - 0xE0) tail [tail])) = _
      rw [show 0xE0 + c.val / 4096 - 0xE0 = c.val / 4096 by omega]
    obtain ⟨next, hlo, hhi, hstart⟩ := hlead
    rw [hstart, List.nil_append, decodeFrom_some_cons (by omega) hlo hhi]
    show decodeFrom (some ⟨_, tail, []⟩) _ = _
    rw [decodeFrom_some_cons (by omega) (by simp only [tail]; omega) (by simp only [tail]; omega)]
    show [Fin.ofNat 0x110000 _] ++ _ = _
    rw [hemit _ (by omega)]
    rfl
  · rename_i h1 h2 h3
    show decodeFrom none (UInt8.ofNat (0xF0 + c.val / 262144) :: UInt8.ofNat (0x80 + c.val / 4096 % 64) ::
      UInt8.ofNat (0x80 + c.val / 64 % 64) :: UInt8.ofNat (0x80 + c.val % 64) :: data) = _
    rw [decodeFrom_none_cons (by omega)]
    have hlead : ∃ next : ℕ × ℕ, next.1 ≤ 0x80 + c.val / 4096 % 64 ∧ 0x80 + c.val / 4096 % 64 ≤ next.2 ∧
        startChar (0xF0 + c.val / 262144) = ([], some ⟨c.val / 262144, next, [tail, tail]⟩) := by
      by_cases hlow : c.val / 262144 = 0
      · refine ⟨(0x90, 0xBF), by dsimp only; omega, by dsimp only; omega, ?_⟩
        rw [hlow]
        rfl
      by_cases hf4 : c.val / 262144 = 4
      · refine ⟨(0x80, 0x8F), by dsimp only; omega, by dsimp only; omega, ?_⟩
        rw [hf4]
        rfl
      refine ⟨tail, by simp only [tail]; omega, by simp only [tail]; omega, ?_⟩
      rw [startChar, lead, if_neg (by omega), if_neg (by omega), if_neg (by omega), if_neg (by omega),
        if_neg (by omega), if_neg (by omega), if_pos (by omega)]
      show (([] : PyStr), some (Partial.mk (0xF0 + c.val / 262144 - 0xF0) tail [tail, tail])) = _
      rw [show 0xF0 + c.val / 262144 - 0xF0 = c.val / 262144 by omega]
    obtain ⟨next, hlo, hhi, hstart⟩ := hlead
    rw [hstart, List.nil_append, decodeFrom_some_cons (by omega) hlo hhi]
    show decodeFrom (some ⟨_, tail, [tail]⟩) _ = _
    rw [decodeFrom_some_cons (by omega) (by simp only [tail]; omega) (by simp only [tail]; omega)]
    show decodeFrom (some ⟨_, tail, []⟩) _ = _
    rw [decodeFrom_some_cons (by omega) (by simp only [tail]; omega) (by simp only [tail]; omega)]
    show [Fin.ofNat 0x110000 _] ++ _ = _
    rw [hemit _ (by omega)]
    rfl

/-- **The round trip of UTF-8.** -/
theorem decodeUtf8_encodeUtf8 {s : PyStr} (h : encodable s = true) : decodeUtf8 (encodeUtf8 s) = s := by
  rw [decodeUtf8, encodeUtf8]
  induction s with
  | nil => rfl
  | cons c s ih =>
      simp only [encodable, List.all_cons, Bool.and_eq_true, Bool.not_eq_true'] at h
      rw [List.flatMap_cons, decodeFrom_encodeChar h.1, ih h.2]

/-! ### The whole function -/

/-- `[\x00-\x7f]`. -/
def isAscii (c : CodePoint) : Bool := c.val < 0x80

/-- One part of `_generate_unquoted_parts`: an ASCII run is unescaped and decoded, the rest is kept. -/
def unquotePart (part : PyStr) : PyStr :=
  if part.all isAscii then decodeUtf8 (unquoteToBytes part) else part

/-- `unquote`. -/
def unquote (s : PyStr) : PyStr :=
  if cp '%' ∈ s then (s.splitBy fun a b => isAscii a == isAscii b).flatMap unquotePart else s

/-- `unquote_plus`. -/
def unquotePlus (s : PyStr) : PyStr := unquote (s.map fun c => if c = cp '+' then cp ' ' else c)

/-- The upper-case hexadecimal digit of a value. -/
def hexUpper (n : ℕ) : CodePoint := Fin.ofNat 0x110000 (if n < 10 then 48 + n else 55 + n)

/-- A key with every byte escaped. -/
def percentEncode (s : PyStr) : PyStr :=
  (encodeUtf8 s).flatMap fun b => [cp '%', hexUpper (b.toNat / 16), hexUpper (b.toNat % 16)]

theorem hexUpper_val {n : ℕ} (h : n < 16) : (hexUpper n).val = if n < 10 then 48 + n else 55 + n := by
  rw [hexUpper, Fin.val_ofNat]
  exact Nat.mod_eq_of_lt (by split <;> omega)

theorem hexValue_hexUpper {n : ℕ} (h : n < 16) : hexValue (hexUpper n) = some n := by
  rw [hexValue, hexUpper_val h]
  by_cases h10 : n < 10
  · rw [if_pos h10, if_pos (by omega)]
    congr 1
    omega
  · rw [if_neg h10, if_neg (by omega), if_pos (by omega)]
    congr 1
    omega

theorem unquoteToBytes_percent (data : Bytes) :
    unquoteToBytes (data.flatMap fun b => [cp '%', hexUpper (b.toNat / 16), hexUpper (b.toNat % 16)]) = data := by
  induction data with
  | nil => rfl
  | cons b data ih =>
      have hb : b.toNat < 256 := b.toNat_lt
      have hbyte : hexToByte (hexUpper (b.toNat / 16)) (hexUpper (b.toNat % 16)) = some b := by
        rw [hexToByte, hexValue_hexUpper (by omega), hexValue_hexUpper (by omega)]
        show some (UInt8.ofNat (b.toNat / 16 * 16 + b.toNat % 16)) = some b
        rw [Nat.div_add_mod', UInt8.ofNat_toNat]
      rw [List.flatMap_cons]
      show unquoteToBytes (_ :: _ :: _ :: _) = _
      rw [unquoteToBytes, if_pos rfl, hbyte]
      exact congrArg (b :: ·) ih

/-- The characters of an escaped key. -/
theorem mem_percentEncode {s : PyStr} {c : CodePoint} (h : c ∈ percentEncode s) :
    isAscii c = true ∧ c ≠ cp '+' := by
  have hhex : ∀ n, n < 16 → isAscii (hexUpper n) = true ∧ hexUpper n ≠ cp '+' := by
    intro n hn
    have hval := hexUpper_val hn
    refine ⟨?_, fun heq => ?_⟩
    · rw [isAscii, decide_eq_true_eq, hval]
      split <;> omega
    · have hplus : (cp '+').val = 43 := by decide
      rw [heq, hplus] at hval
      split at hval <;> omega
  obtain ⟨b, _, hc⟩ := List.mem_flatMap.mp h
  have hb : b.toNat < 256 := b.toNat_lt
  simp only [List.mem_cons, List.not_mem_nil, or_false] at hc
  rcases hc with rfl | rfl | rfl
  · decide
  · exact hhex _ (by omega)
  · exact hhex _ (by omega)

/-- **Every encodable key has an escaped form that decodes to it.** -/
theorem unquotePlus_percentEncode {s : PyStr} (h : encodable s = true) : unquotePlus (percentEncode s) = s := by
  have hplus : (percentEncode s).map (fun c => if c = cp '+' then cp ' ' else c) = percentEncode s := by
    refine (List.map_congr_left fun c hc => ?_).trans (List.map_id _)
    rw [if_neg (mem_percentEncode hc).2]
    rfl
  rw [unquotePlus, hplus, unquote]
  have hascii : ∀ c ∈ percentEncode s, isAscii c = true := fun c hc => (mem_percentEncode hc).1
  have hpart : unquotePart (percentEncode s) = s := by
    rw [unquotePart, if_pos (List.all_eq_true.mpr hascii), percentEncode, unquoteToBytes_percent,
      decodeUtf8_encodeUtf8 h]
  by_cases hs : percentEncode s = []
  · rw [hs] at hpart ⊢
    rw [if_neg List.not_mem_nil]
    exact hpart
  · have hchain : List.IsChain (fun a b => (isAscii a == isAscii b) = true) (percentEncode s) := by
      refine List.Pairwise.isChain (List.pairwise_of_forall_mem_list fun a ha b hb => ?_)
      rw [hascii a ha, hascii b hb]
      rfl
    have hpercent : cp '%' ∈ percentEncode s := by
      rw [percentEncode] at hs ⊢
      cases hbytes : encodeUtf8 s with
      | nil => rw [hbytes] at hs; exact absurd rfl hs
      | cons b data =>
          rw [List.flatMap_cons]
          exact List.mem_append_left _ List.mem_cons_self
    rw [if_pos hpercent, List.splitBy_of_isChain hs hchain, List.flatMap_cons, hpart]
    exact List.append_nil s

example : unquotePlus (py "customer%3Dacme/a+b%C3.mcap") = py "customer=acme/a b" ++ [replacement] ++ py ".mcap" := by
  decide +kernel

end McapCatalog.UrlText
