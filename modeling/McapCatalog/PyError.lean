import McapCatalog.PyText

/-!
# Exceptions

The exceptions the catalog builder's code meets, each with what `type(e).__name__` and `str(e)` say about it:
a quarantined recording's `error_text` is `f"{type(e).__name__}: {e}"` (`errorText`), so the texts are data of
the program.

* `PyErr` — the classes met here; `other` is any further exception of a storage backend or of the MCAP parser;
* `unicodeEncodeError` carries the offending string, and `str` computes the codec's message from it.
-/

namespace McapCatalog.PyError

open McapCatalog.PyText

/-- A raised exception. -/
inductive PyErr where
  | valueError (msg : PyStr)
  | typeError (msg : PyStr)
  | overflowError (msg : PyStr)
  | unicodeEncodeError (object : PyStr)
  | integrityError (msg : PyStr)
  | operationalError (msg : PyStr)
  | other (typeName msg : PyStr)
  deriving DecidableEq

/-- One lower-case hexadecimal digit. -/
def hexDigit (n : ℕ) : CodePoint := Fin.ofNat 0x110000 (if n % 16 < 10 then 48 + n % 16 else 87 + n % 16)

/-- The escape of a surrogate in a codec message, four hexadecimal digits. -/
def hexEscape (c : CodePoint) : PyStr :=
  py "\\u" ++ [hexDigit (c.val / 4096), hexDigit (c.val / 256), hexDigit (c.val / 16), hexDigit c.val]

/-- The message of the UTF-8 codec: it names the first run of surrogates. -/
def encodeMessage (object : PyStr) : PyStr :=
  let before := object.takeWhile fun c => !isSurrogate c
  let bad := (object.drop before.length).takeWhile isSurrogate
  match bad with
  | [c] =>
    py "'utf-8' codec can't encode character '" ++ hexEscape c ++ py "' in position " ++
      decimal before.length ++ py ": surrogates not allowed"
  | _ =>
    py "'utf-8' codec can't encode characters in position " ++ decimal before.length ++ py "-" ++
      decimal (before.length + bad.length - 1) ++ py ": surrogates not allowed"

namespace PyErr

/-- `type(e).__name__`. -/
def typeName : PyErr → PyStr
  | valueError _ => py "ValueError"
  | typeError _ => py "TypeError"
  | overflowError _ => py "OverflowError"
  | unicodeEncodeError _ => py "UnicodeEncodeError"
  | integrityError _ => py "IntegrityError"
  | operationalError _ => py "OperationalError"
  | other name _ => name

/-- `str(e)`. -/
def str : PyErr → PyStr
  | valueError msg => msg
  | typeError msg => msg
  | overflowError msg => msg
  | unicodeEncodeError object => encodeMessage object
  | integrityError msg => msg
  | operationalError msg => msg
  | other _ msg => msg

/-- `f"{type(e).__name__}: {e}"`. -/
def errorText (e : PyErr) : PyStr := e.typeName ++ py ": " ++ e.str

end PyErr

example : (PyErr.unicodeEncodeError (py "ab" ++ [⟨0xdc80, by decide⟩])).errorText =
    py "UnicodeEncodeError: 'utf-8' codec can't encode character '\\udc80' in position 2: surrogates not allowed" := by
  decide

/-! ### Codec messages are plain ASCII -/

theorem encodable_decimal (n : ℕ) : encodable (decimal n) = true := by
  rw [encodable, List.all_eq_true]
  intro c hc
  have hdig := isDigit_of_mem_decimal hc
  simp only [isDigit, Bool.and_eq_true, decide_eq_true_eq] at hdig
  simp only [isSurrogate, Bool.not_eq_true', Bool.and_eq_false_iff, decide_eq_false_iff_not]
  omega

theorem isSurrogate_hexDigit (n : ℕ) : isSurrogate (hexDigit n) = false := by
  have hlt : n % 16 < 16 := Nat.mod_lt _ (by decide)
  have hval : (hexDigit n).val = if n % 16 < 10 then 48 + n % 16 else 87 + n % 16 := by
    rw [hexDigit, Fin.val_ofNat]
    exact Nat.mod_eq_of_lt (by split <;> omega)
  have hlow : ¬0xD800 ≤ (hexDigit n).val := by
    rw [hval]
    split <;> omega
  rw [isSurrogate, decide_eq_false hlow, Bool.false_and]

theorem encodable_hexEscape (c : CodePoint) : encodable (hexEscape c) = true := by
  have hlit : encodable (py "\\u") = true := by decide
  rw [hexEscape, encodable_append, hlit, Bool.true_and]
  simp [encodable, isSurrogate_hexDigit]

/-- The codec's message can itself be encoded, whatever string it is about. -/
theorem encodable_encodeMessage (object : PyStr) : encodable (encodeMessage object) = true := by
  have h1 : encodable (py "'utf-8' codec can't encode character '") = true := by decide
  have h2 : encodable (py "' in position ") = true := by decide
  have h3 : encodable (py ": surrogates not allowed") = true := by decide
  have h4 : encodable (py "'utf-8' codec can't encode characters in position ") = true := by decide
  have h5 : encodable (py "-") = true := by decide
  unfold encodeMessage
  dsimp only
  split <;>
    simp only [encodable_append, h1, h2, h3, h4, h5, encodable_decimal, encodable_hexEscape, Bool.and_self]

end McapCatalog.PyError
