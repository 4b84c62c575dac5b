import Mathlib

/-!
# Texts which are read as integers

The constructor `int` of a text: white space around the literal is skipped, a
sign may stand before the digits, and single underscores between them. Digits
outside of ASCII are read by the Unicode tables, which are a parameter. A
literal with more digits than the interpreter converts is refused.
-/
namespace Vici.IntegerLiterals

/-- White space which may surround a literal. -/
def isSpace (c : Char) : Bool :=
  (9 ≤ c.toNat && c.toNat ≤ 13) || (0x2000 ≤ c.toNat && c.toNat ≤ 0x200A) ||
    c.toNat ∈ [0x20, 0x85, 0xA0, 0x1680, 0x2028, 0x2029, 0x202F, 0x205F, 0x3000]

def trim (cs : List Char) : List Char :=
  ((cs.dropWhile isSpace).reverse.dropWhile isSpace).reverse

section
variable (decimal : Char → Option ℕ)

/-- The value of a digit; `decimal` knows those outside of ASCII. -/
def digitValue (c : Char) : Option ℕ :=
  if c.isDigit then some (c.toNat - '0'.toNat) else if c.toNat < 128 then none else decimal c

/-- The value of the digits and their number; `separable` holds right after a digit. -/
def readDigits (value count : ℕ) (separable : Bool) : List Char → Option (ℕ × ℕ)
  | [] => if separable then some (value, count) else none
  | c :: cs =>
      if c = '_' then if separable then readDigits value count false cs else none
      else (digitValue decimal c).bind fun digit =>
        readDigits (10 * value + digit) (count + 1) true cs

/-- `sys.int_info.default_max_str_digits` -/
def maxStrDigits : ℕ := 4300

def readNat (cs : List Char) : Option ℕ :=
  (readDigits decimal 0 0 false cs).bind fun (value, count) =>
    if count ≤ maxStrDigits then some value else none

def parseInt (text : String) : Option ℤ :=
  match trim text.toList with
  | '+' :: cs => (readNat decimal cs).map Int.ofNat
  | '-' :: cs => (readNat decimal cs).map Int.negOfNat
  | cs => (readNat decimal cs).map Int.ofNat

end

example : parseInt (fun _ => none) " -1_000\n" = some (-1000) := by decide +kernel

section
variable {decimal : Char → Option ℕ} {cs : List Char} {c : Char} {n : ℕ}

theorem toNat_of_isDigit (h : c.isDigit = true) : 48 ≤ c.toNat ∧ c.toNat ≤ 57 := by
  simpa [Char.isDigit, UInt32.le_iff_toNat_le] using h

theorem isSpace_of_isDigit (h : c.isDigit = true) : isSpace c = false := by
  obtain ⟨hlow, hhigh⟩ := toNat_of_isDigit h
  simp [isSpace]
  omega

theorem ne_of_isDigit (h : c.isDigit = true) : c ≠ '+' ∧ c ≠ '-' ∧ c ≠ '_' := by
  refine ⟨?_, ?_, ?_⟩ <;>
    · rintro rfl
      simp at h

theorem trim_of_digits (h : ∀ c ∈ cs, c.isDigit = true) : trim cs = cs := by
  have hkept (l : List Char) (hl : ∀ c ∈ l, c.isDigit = true) : l.dropWhile isSpace = l := by
    cases l with
    | nil => rfl
    | cons c l =>
        rw [List.dropWhile_cons_of_neg]
        simp [isSpace_of_isDigit (hl c List.mem_cons_self)]
  rw [trim, hkept cs h, hkept cs.reverse fun c hc => h c (List.mem_reverse.mp hc),
    List.reverse_reverse]

/-- Plain digits are read as the numeral which they spell. -/
theorem readDigits_of_digits (h : ∀ c ∈ cs, c.isDigit = true) (value count : ℕ)
    (separable : Bool) (hsome : cs ≠ [] ∨ separable = true) :
    readDigits decimal value count separable cs =
      some (Nat.ofDigitChars 10 cs value, count + cs.length) := by
  induction cs generalizing value count separable with
  | nil =>
      obtain rfl : separable = true := hsome.resolve_left fun hne => hne rfl
      rfl
  | cons c cs ih =>
      obtain ⟨hc, hcs⟩ := List.forall_mem_cons.mp h
      rw [readDigits, if_neg (ne_of_isDigit hc).2.2, digitValue, if_pos hc, Option.bind_some,
        ih hcs _ _ _ (.inr rfl), Nat.ofDigitChars_cons, List.length_cons]
      congr 2
      omega

/-- A number is read back from its decimal text. -/
theorem parseInt_toString (h : n < 10 ^ maxStrDigits) :
    parseInt decimal (toString n) = some (n : ℤ) := by
  have hdigits : ∀ c ∈ Nat.toDigits 10 n, c.isDigit = true :=
    fun c hc => Nat.isDigit_of_mem_toDigits (by decide) (by decide) hc
  have hlength : (Nat.toDigits 10 n).length ≤ maxStrDigits :=
    (Nat.length_toDigits_le_iff (by decide) (by decide)).mpr h
  have hread : readNat decimal (Nat.toDigits 10 n) = some n := by
    rw [readNat, readDigits_of_digits hdigits _ _ _ (.inl Nat.toDigits_ne_nil),
      Option.bind_some, Nat.ofDigitChars_ten_toDigits, Nat.zero_add]
    exact if_pos hlength
  have htext : (toString n).toList = Nat.toDigits 10 n := by
    rw [Nat.toString_eq_repr, Nat.toList_repr]
  rw [parseInt, htext, trim_of_digits hdigits]
  cases hcs : Nat.toDigits 10 n with
  | nil => exact absurd hcs Nat.toDigits_ne_nil
  | cons c cs =>
      obtain ⟨hplus, hminus, _⟩ := ne_of_isDigit (hdigits c (hcs ▸ List.mem_cons_self))
      rw [hcs] at hread
      split
      · rename_i heq
        exact absurd (List.cons.inj heq).1 hplus
      · rename_i heq
        exact absurd (List.cons.inj heq).1 hminus
      · rw [hread]
        rfl

end

end Vici.IntegerLiterals
