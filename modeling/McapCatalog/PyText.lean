import Mathlib.Data.List.Basic
import Mathlib.Data.Fin.Basic
import Mathlib.Data.Set.Function
import Mathlib.Tactic.Ring

/-!
# Python strings

A Python `str` is a sequence of code points, **lone surrogates included**: file names that are not UTF-8 and
JSON escapes both produce them, and `sqlite3` refuses to bind them.  So a string here is a list of code
points below `0x110000`, and being UTF-8 encodable is a property (`encodable`), not part of the type.

* `py` — string literals as code points;
* `lstrip`, `startsWith`, `endsWith`, `lower` — the string methods the catalog builder calls;
* `decimal`, `decimalInt` — `str(n)`, injective (`decimal_injective`) and self-delimiting before a
  non-digit (`decimal_append_inj`).
-/

namespace McapCatalog.PyText

/-- A Unicode code point. -/
abbrev CodePoint : Type := Fin 0x110000

instance neZero_codePoints : NeZero 0x110000 := ⟨by decide⟩

/-- A Python `str`. -/
abbrev PyStr : Type := List CodePoint

instance lawfulBEq_pyStr : LawfulBEq PyStr := inferInstance

/-- The code point of a Lean character. -/
def cp (c : Char) : CodePoint := ⟨c.toNat % 0x110000, Nat.mod_lt _ (by decide)⟩

/-- A string literal of the source. -/
def py (s : String) : PyStr := s.toList.map cp

/-- A surrogate code point, which UTF-8 cannot encode. -/
def isSurrogate (c : CodePoint) : Bool := 0xD800 ≤ c.val && c.val ≤ 0xDFFF

/-- Whether `str.encode()` succeeds. -/
def encodable (s : PyStr) : Bool := s.all fun c => !isSurrogate c

theorem encodable_append (s t : PyStr) : encodable (s ++ t) = (encodable s && encodable t) :=
  List.all_append

/-! ### The string methods in use -/

/-- `s.startswith(p)`. -/
def startsWith (s p : PyStr) : Bool := p.isPrefixOf s

/-- `s.endswith(p)`. -/
def endsWith (s p : PyStr) : Bool := p.isSuffixOf s

/-- `s.lstrip(c)` for a single character. -/
def lstrip (s : PyStr) (c : CodePoint) : PyStr := s.dropWhile fun x => x = c

/-- `s.lower()` on the ASCII letters.  No other code point lowers to an ASCII letter of the words the
catalog builder compares against (`true`, `yes`), so this decides the same memberships. -/
def lower (s : PyStr) : PyStr :=
  s.map fun c => if 65 ≤ c.val ∧ c.val ≤ 90 then Fin.ofNat 0x110000 (c.val + 32) else c

theorem lstrip_cons_self (c : CodePoint) (s : PyStr) : lstrip (c :: s) c = lstrip s c := by
  simp [lstrip]

theorem lstrip_cons_of_ne {c x : CodePoint} (h : x ≠ c) (s : PyStr) : lstrip (x :: s) c = x :: s := by
  simp [lstrip, h]

/-! ### Decimal numerals -/

/-- `str(n)` for a non-negative integer. -/
def decimal (n : ℕ) : PyStr := (Nat.toDigits 10 n).map cp

/-- `str(n)` for an integer. -/
def decimalInt : ℤ → PyStr
  | .ofNat n => decimal n
  | .negSucc n => py "-" ++ decimal (n + 1)

/-- The code points `0` to `9`. -/
def isDigit (c : CodePoint) : Bool := 48 ≤ c.val && c.val ≤ 57

theorem cp_injective : Function.Injective cp := by
  intro a b h
  have hlt : ∀ c : Char, c.toNat < 0x110000 := by
    intro c
    have hv := c.valid
    simp only [UInt32.isValidChar, Nat.isValidChar] at hv
    show c.val.toNat < 0x110000
    omega
  have hval := congrArg Fin.val h
  simp only [cp, Nat.mod_eq_of_lt (hlt _)] at hval
  exact Char.toNat_inj.mp hval

theorem decimal_injective : Function.Injective decimal := by
  intro a b h
  have hd : Nat.toDigits 10 a = Nat.toDigits 10 b := cp_injective.list_map h
  rw [← Nat.ofDigitChars_ten_toDigits (n := a), hd, Nat.ofDigitChars_ten_toDigits]

theorem isDigit_of_mem_decimal {n : ℕ} {c : CodePoint} (h : c ∈ decimal n) : isDigit c = true := by
  obtain ⟨d, hd, rfl⟩ := List.mem_map.mp h
  have hdig := Nat.isDigit_of_mem_toDigits (by decide) (by decide) hd
  simp only [Char.isDigit, Bool.and_eq_true, decide_eq_true_eq, ge_iff_le, UInt32.le_iff_toNat_le] at hdig
  have hlo : 48 ≤ d.toNat := hdig.1
  have hhi : d.toNat ≤ 57 := hdig.2
  have hmod : d.toNat % 0x110000 = d.toNat := Nat.mod_eq_of_lt (by omega)
  simp only [isDigit, cp, hmod, Bool.and_eq_true, decide_eq_true_eq]
  exact ⟨hlo, hhi⟩

/-- The leading run of digits of a numeral followed by a non-digit is the numeral. -/
theorem takeWhile_decimal (n : ℕ) {c : CodePoint} (hc : isDigit c = false) (s : PyStr) :
    (decimal n ++ c :: s).takeWhile isDigit = decimal n := by
  rw [List.takeWhile_append_of_pos fun x hx => isDigit_of_mem_decimal hx,
    List.takeWhile_cons_of_neg (by simp [hc]), List.append_nil]

/-- **Numerals delimit themselves** before a non-digit. -/
theorem decimal_append_inj {a b : ℕ} {c d : CodePoint} {s t : PyStr} (hc : isDigit c = false)
    (hd : isDigit d = false) (h : decimal a ++ c :: s = decimal b ++ d :: t) :
    a = b ∧ c :: s = d :: t := by
  have hrun := congrArg (List.takeWhile isDigit) h
  rw [takeWhile_decimal a hc, takeWhile_decimal b hd] at hrun
  refine ⟨decimal_injective hrun, ?_⟩
  rw [hrun] at h
  exact List.append_cancel_left h

end McapCatalog.PyText
