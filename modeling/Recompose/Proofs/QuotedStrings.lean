import Recompose.Proofs.Boundary
import Recompose.Proofs.Script.LineEnds
import Recompose.Text.Identifier

/-!
# Quoted strings

`SpellsString` is the grammar of string literals between single quotes, with the code units
that they stand for. What a string is quoted as spells that string and no other, except that
a carriage return is left as it is, and no literal holds one (`isLiteral_quote_iff`). The
lexer then stops in front of it; any other quoted string it reads as one token
(`readToken_quote_iff`). No two strings are quoted alike, so no two names have the same key
or, behind one base, the same access.
-/

namespace Recompose.Script

/-! ## Code units -/

/-- What a code point is in UTF-16. -/
def codeUnits (code : Nat) : List Nat :=
  if code < 0x10000 then [code]
  else [0xd800 + (code - 0x10000) / 0x400, 0xdc00 + (code - 0x10000) % 0x400]

def utf16 (cs : List Char) : List Nat := cs.flatMap fun c => codeUnits c.toNat

theorem joinSurrogates?_toNat_cons (c : Char) (units : List Nat) :
    joinSurrogates? (c.toNat :: units) = (joinSurrogates? units).map (c :: ·) := by
  have hvalid : c.toNat < 0xd800 ∨ 0xdfff < c.toNat ∧ c.toNat < 0x110000 := c.valid
  have hwhole : ¬ (0xd800 ≤ c.toNat ∧ c.toNat ≤ 0xdfff) := by omega
  cases units with
  | nil => simp [joinSurrogates?, hwhole]
  | cons low rest =>
      have hhigh : ¬ (((0xd800 ≤ c.toNat ∧ c.toNat ≤ 0xdbff) ∧ 0xdc00 ≤ low) ∧ low ≤ 0xdfff) := by
        omega
      simp only [joinSurrogates?, Bool.and_eq_true, decide_eq_true_eq, if_neg hhigh, if_neg hwhole,
        Char.ofNat_toNat]

theorem joinSurrogates?_map_toNat (cs : List Char) :
    joinSurrogates? (cs.map Char.toNat) = some cs := by
  induction cs with
  | nil => rfl
  | cons c cs ih => rw [List.map_cons, joinSurrogates?_toNat_cons, ih, Option.map_some]

theorem joinSurrogates?_codeUnits_append (c : Char) (units : List Nat) :
    joinSurrogates? (codeUnits c.toNat ++ units) = (joinSurrogates? units).map (c :: ·) := by
  have hvalid : c.toNat < 0xd800 ∨ 0xdfff < c.toNat ∧ c.toNat < 0x110000 := c.valid
  rw [codeUnits]
  split
  · exact joinSurrogates?_toNat_cons c units
  · have hpair : ((0xd800 ≤ 0xd800 + (c.toNat - 0x10000) / 0x400 ∧
        0xd800 + (c.toNat - 0x10000) / 0x400 ≤ 0xdbff) ∧
        0xdc00 ≤ 0xdc00 + (c.toNat - 0x10000) % 0x400) ∧
        0xdc00 + (c.toNat - 0x10000) % 0x400 ≤ 0xdfff := by omega
    have hcode : 0x10000 + (0xd800 + (c.toNat - 0x10000) / 0x400 - 0xd800) * 0x400
        + (0xdc00 + (c.toNat - 0x10000) % 0x400 - 0xdc00) = c.toNat := by omega
    simp only [List.cons_append, List.nil_append, joinSurrogates?, Bool.and_eq_true,
      decide_eq_true_eq, if_pos hpair, hcode, Char.ofNat_toNat]

theorem joinSurrogates?_utf16 (cs : List Char) : joinSurrogates? (utf16 cs) = some cs := by
  induction cs with
  | nil => rfl
  | cons c cs ih =>
      rw [utf16, List.flatMap_cons, joinSurrogates?_codeUnits_append, ← utf16, ih, Option.map_some]

theorem utf16_injective : Function.Injective utf16 := fun cs ds h =>
  Option.some.inj (by rw [← joinSurrogates?_utf16, h, joinSurrogates?_utf16])

/-! ## Literals -/

/-- The letters that stand for control characters behind a backslash. -/
def controlEscapes : List (Char × Nat) :=
  [('b', 8), ('t', 9), ('n', 10), ('v', 11), ('f', 12), ('r', 13)]

/-- Between single quotes, the text spells a string of these code units. A character of
`barred` does not stand for itself. There are no octal escapes: modules have none. -/
inductive SpellsString (barred : List Char) : List Nat → List Char → Prop where
  | nil : SpellsString barred [] []
  | plain {c : Char} {units : List Nat} {cs : List Char} (hquote : c ≠ '\'')
      (hbackslash : c ≠ '\\') (hbarred : c ∉ barred) (h : SpellsString barred units cs) :
      SpellsString barred (codeUnits c.toNat ++ units) (c :: cs)
  | control {letter : Char} {unit : Nat} {units : List Nat} {cs : List Char}
      (hletter : (letter, unit) ∈ controlEscapes) (h : SpellsString barred units cs) :
      SpellsString barred (unit :: units) ('\\' :: letter :: cs)
  | itself {c : Char} {units : List Nat} {cs : List Char} (hletter : c ∉ "btnvfrxu".toList)
      (hdigit : c.isDigit = false) (hline : isLineEnd c = false)
      (h : SpellsString barred units cs) :
      SpellsString barred (codeUnits c.toNat ++ units) ('\\' :: c :: cs)
  | null {units : List Nat} {cs : List Char} (hnext : cs.head?.any Char.isDigit = false)
      (h : SpellsString barred units cs) : SpellsString barred (0 :: units) ('\\' :: '0' :: cs)
  | byte {digits : List Char} {units : List Nat} {cs : List Char} (hlength : digits.length = 2)
      (hdigits : digits.all isHexDigit = true) (h : SpellsString barred units cs) :
      SpellsString barred (digitsValue 16 digits :: units) ('\\' :: 'x' :: (digits ++ cs))
  | unit {digits : List Char} {units : List Nat} {cs : List Char} (hlength : digits.length = 4)
      (hdigits : digits.all isHexDigit = true) (h : SpellsString barred units cs) :
      SpellsString barred (digitsValue 16 digits :: units) ('\\' :: 'u' :: (digits ++ cs))
  | codePoint {digits : List Char} {units : List Nat} {cs : List Char} (hne : digits ≠ [])
      (hdigits : digits.all isHexDigit = true) (hle : digitsValue 16 digits ≤ 0x10ffff)
      (h : SpellsString barred units cs) :
      SpellsString barred (codeUnits (digitsValue 16 digits) ++ units)
        ('\\' :: 'u' :: '\x7b' :: (digits ++ '\x7d' :: cs))
  | lineEnd {c : Char} {units : List Nat} {cs : List Char} (hline : isLineEnd c = true)
      (hwhole : c = '\r' → cs.head? ≠ some '\n') (h : SpellsString barred units cs) :
      SpellsString barred units ('\\' :: c :: cs)
  | lineEndPair {units : List Nat} {cs : List Char} (h : SpellsString barred units cs) :
      SpellsString barred units ('\\' :: '\r' :: '\n' :: cs)

/-- A literal between single quotes for a string of these code units. What the language bars
from it are line feeds and carriage returns. -/
def IsLiteral (barred : List Char) (units : List Nat) (text : String) : Prop :=
  ∃ body, text.toList = '\'' :: (body ++ ['\'']) ∧ SpellsString barred units body

/-! ## Escapes -/

namespace SpellsString

variable {barred cs : List Char} {units : List Nat} {c letter : Char}

theorem of_plain (hc : c ≠ '\\') (h : SpellsString barred units (c :: cs)) :
    c ∉ barred ∧ ∃ units', units = codeUnits c.toNat ++ units' ∧ SpellsString barred units' cs := by
  cases h with
  | plain _ _ hbarred h => exact ⟨hbarred, _, rfl, h⟩
  | _ => exact absurd rfl hc

theorem of_escape (hc : (c, letter) ∈ quoteEscapes)
    (h : SpellsString barred units ('\\' :: letter :: cs)) :
    ∃ units', units = codeUnits c.toNat ++ units' ∧ SpellsString barred units' cs := by
  have hcontrol : ∀ p ∈ quoteEscapes, ∀ q ∈ controlEscapes,
      p.2 = q.1 → [q.2] = codeUnits p.1.toNat := by decide
  have hitself : ∀ p ∈ quoteEscapes, p.2 ∉ "btnvfrxu".toList → p.2 = p.1 := by decide
  have hmarker : ∀ p ∈ quoteEscapes, p.2 ∉ ['0', 'x', 'u'] := by decide
  have hline : ∀ p ∈ quoteEscapes, isLineEnd p.2 = false := by decide
  cases h with
  | plain _ hbackslash => exact absurd rfl hbackslash
  | control hletter h => exact ⟨_, congrArg (· ++ _) (hcontrol _ hc _ hletter rfl), h⟩
  | itself hletter _ _ h => exact ⟨_, congrArg (codeUnits ·.toNat ++ _) (hitself _ hc hletter), h⟩
  | null | byte | unit | codePoint => exact absurd (by simp) (hmarker _ hc)
  | lineEnd hend => exact Bool.noConfusion (hend.symm.trans (hline _ hc))
  | lineEndPair => exact Bool.noConfusion (hline _ hc)

theorem escape (hc : (c, letter) ∈ quoteEscapes) (h : SpellsString barred units cs) :
    SpellsString barred (codeUnits c.toNat ++ units) ('\\' :: letter :: cs) := by
  simp only [quoteEscapes, List.mem_cons, Prod.mk.injEq, List.not_mem_nil, or_false] at hc
  rcases hc with ⟨rfl, rfl⟩ | ⟨rfl, rfl⟩ | ⟨rfl, rfl⟩
  · exact .itself (by decide) (by decide) (by decide) h
  · exact .itself (by decide) (by decide) (by decide) h
  · exact .control (by decide) h

end SpellsString

/-- What a character is written as stands for the character, unless it is barred and not
escaped. -/
theorem spellsString_escapeChar_iff {barred cs : List Char} {units : List Nat} {c : Char} :
    SpellsString barred units (escapeChar c ++ cs) ↔
      (escapeChar c = [c] → c ∉ barred) ∧
        ∃ units', units = codeUnits c.toNat ++ units' ∧ SpellsString barred units' cs := by
  obtain ⟨letter, hc, hescape⟩ | ⟨⟨hquote, hbackslash, -⟩, hplain⟩ := escapeChar_cases c
  · rw [hescape]
    constructor
    · exact fun h => ⟨nofun, h.of_escape hc⟩
    · rintro ⟨-, units', rfl, h⟩
      exact .escape hc h
  · rw [hplain]
    constructor
    · intro h
      obtain ⟨hbarred, hrest⟩ := h.of_plain hbackslash
      exact ⟨fun _ => hbarred, hrest⟩
    · rintro ⟨hbarred, units', rfl, h⟩
      exact .plain hquote hbackslash (hbarred rfl) h

theorem spellsString_flatMap_iff {barred cs : List Char} {units : List Nat} :
    SpellsString barred units (cs.flatMap escapeChar) ↔
      units = utf16 cs ∧ ∀ c ∈ cs, escapeChar c = [c] → c ∉ barred := by
  induction cs generalizing units with
  | nil =>
      constructor
      · intro h
        cases h
        exact ⟨rfl, nofun⟩
      · rintro ⟨rfl, -⟩
        exact .nil
  | cons c cs ih =>
      rw [List.flatMap_cons, spellsString_escapeChar_iff, List.forall_mem_cons, utf16,
        List.flatMap_cons, ← utf16]
      constructor
      · rintro ⟨hc, units', rfl, h⟩
        obtain ⟨rfl, hcs⟩ := ih.mp h
        exact ⟨rfl, hc, hcs⟩
      · rintro ⟨rfl, hc, hcs⟩
        exact ⟨hc, _, rfl, ih.mpr ⟨rfl, hcs⟩⟩

theorem lineFeed_not_mem_quote (s : String) : '\n' ∉ (quote s).toList := by
  have hescape : ∀ c, '\n' ∉ escapeChar c := fun c => by
    obtain ⟨letter, hc, hescape⟩ | ⟨⟨-, -, hline⟩, hplain⟩ := escapeChar_cases c
    · have hletter : ∀ p ∈ quoteEscapes, '\n' ≠ p.2 := by decide
      simp [hescape, hletter _ hc]
    · simp [hplain, Ne.symm hline]
  simp [toList_quote, hescape]

theorem return_mem_quote_iff (s : String) : '\r' ∈ (quote s).toList ↔ '\r' ∈ s.toList := by
  have hescape : ∀ c, '\r' ∈ escapeChar c ↔ '\r' = c := fun c => by
    obtain ⟨letter, hc, hescape⟩ | ⟨-, hplain⟩ := escapeChar_cases c
    · have hletter : ∀ p ∈ quoteEscapes, '\r' ≠ p.1 ∧ '\r' ≠ p.2 := by decide
      simp [hescape, hletter _ hc]
    · rw [hplain, List.mem_singleton]
  simp [toList_quote, hescape]

/-- A quoted string is a literal for the string, unless it has a barred character that is
not escaped. -/
theorem isLiteral_quote_iff {barred : List Char} {units : List Nat} {s : String} :
    IsLiteral barred units (quote s) ↔
      units = utf16 s.toList ∧ ∀ c ∈ barred, escapeChar c = [c] → c ∉ s.toList := by
  have hspells : IsLiteral barred units (quote s)
      ↔ SpellsString barred units (s.toList.flatMap escapeChar) := by
    rw [IsLiteral, toList_quote]
    constructor
    · rintro ⟨body, htext, h⟩
      rw [List.cons_inj_right, List.append_left_inj] at htext
      exact htext ▸ h
    · exact fun h => ⟨_, rfl, h⟩
  rw [hspells, spellsString_flatMap_iff]
  refine and_congr_right fun _ => ⟨fun h c hc hplain hmem => ?_, fun h c hmem hplain hc => ?_⟩
  · exact h c hmem hplain hc
  · exact h c hc hplain hmem

/-! ## Reading a quoted string -/

theorem readEscape?_escape {c letter : Char} (hc : (c, letter) ∈ quoteEscapes) (cs : List Char) :
    readEscape? (letter :: cs) = some (some c.toNat, 1) := by
  simp only [quoteEscapes, List.mem_cons, Prod.mk.injEq, List.not_mem_nil, or_false] at hc
  rcases hc with ⟨rfl, rfl⟩ | ⟨rfl, rfl⟩ | ⟨rfl, rfl⟩ <;> rfl

theorem readString_escapeChar {c : Char} (hc : c ≠ '\r') (pos : Nat) (units : List Nat)
    (cs : List Char) :
    readString '\'' 0 pos units (escapeChar c ++ cs)
      = readString '\'' 0 (pos + byteSize (escapeChar c)) (c.toNat :: units) cs := by
  obtain ⟨letter, hmem, hescape⟩ | ⟨⟨hquote, hbackslash, hline⟩, hplain⟩ := escapeChar_cases c
  · rw [hescape]
    simp [readString, readEscape?_escape hmem, Nat.add_assoc]
  · rw [hplain]
    simp [readString, hquote, hbackslash, hline, hc]

theorem readString_flatMap_escapeChar {cs : List Char} (hcs : '\r' ∉ cs) (pos : Nat)
    (units : List Nat) (rest : List Char) :
    readString '\'' 0 pos units (cs.flatMap escapeChar ++ rest)
      = readString '\'' 0 (pos + byteSize (cs.flatMap escapeChar))
          ((cs.map Char.toNat).reverse ++ units) rest := by
  induction cs generalizing pos units with
  | nil => rfl
  | cons c cs ih =>
      rw [List.mem_cons, not_or] at hcs
      rw [List.flatMap_cons, List.append_assoc, readString_escapeChar (Ne.symm hcs.1), ih hcs.2,
        byteSize_append, Nat.add_assoc, List.map_cons, List.reverse_cons, List.append_assoc]
      rfl

/-- A quoted string is read as one token, up to its last quote, if no carriage return is
in it. -/
theorem readToken_quote_iff {s : String} {pos : Nat} {rest : List Char} :
    readToken pos ((quote s).toList ++ rest)
        = (.string (some s), pos + byteSize (quote s).toList, rest) ↔ '\r' ∉ s.toList := by
  rw [toList_quote, List.cons_append, readToken_string (.inr rfl), List.append_assoc]
  constructor
  · -- The lexer stops at the first carriage return.
    intro hread hmem
    obtain ⟨before, after, hs, hbefore⟩ := List.eq_append_cons_of_mem hmem
    have hreturn : ∀ pos units cs,
        readString '\'' 0 pos units ('\r' :: cs) = .ok (units, pos, '\r' :: cs) := by
      simp [readString]
    rw [hs, List.flatMap_append, List.append_assoc, readString_flatMap_escapeChar hbefore,
      List.flatMap_cons, show escapeChar '\r' = ['\r'] from rfl, List.append_assoc,
      List.singleton_append, hreturn] at hread
    have hlength := congrArg (·.2.2.length) hread
    simp only [List.length_cons, List.length_append] at hlength
    omega
  · intro hs
    have hquote : ∀ pos units cs,
        readString '\'' 0 pos units ('\'' :: cs) = .ok (units, pos + 1, cs) := by
      intro pos units cs
      rw [readString, if_pos rfl]
      rfl
    have hsize : byteSize ('\'' :: (s.toList.flatMap escapeChar ++ ['\'']))
        = 1 + byteSize (s.toList.flatMap escapeChar) + 1 := by
      rw [byteSize_cons, byteSize_append, Nat.add_assoc]
      rfl
    rw [readString_flatMap_escapeChar hs, List.singleton_append, hquote]
    simp only [List.append_nil, List.reverse_reverse, joinSurrogates?_map_toNat, Option.map_some,
      String.ofList_toList, hsize, Nat.add_assoc]

end Recompose.Script

namespace Recompose

open Script (IsLiteral utf16 isLiteral_quote_iff)

/-! ## Names are told apart -/

theorem quote_injective : Function.Injective quote := by
  intro s t h
  have hs : IsLiteral [] (utf16 s.toList) (quote s) := isLiteral_quote_iff.mpr ⟨rfl, by simp⟩
  rw [h, isLiteral_quote_iff] at hs
  exact String.toList_injective (Script.utf16_injective hs.1)

theorem quote_ne_of_isIdentifier {name : String} (h : isIdentifier name = true) (s : String) :
    name ≠ quote s := by
  rintro rfl
  rw [isIdentifier, toList_quote, isIdentifierChars,
    show isIdentifierStart '\'' = false by decide +kernel] at h
  cases h

theorem propertyKey_injective : Function.Injective propertyKey := by
  intro a b h
  unfold propertyKey at h
  split at h <;> split at h
  · exact h
  · exact absurd h (quote_ne_of_isIdentifier ‹_› b)
  · exact absurd h.symm (quote_ne_of_isIdentifier ‹_› a)
  · exact quote_injective h

theorem memberAccess_injective (base : String) : Function.Injective (memberAccess base) := by
  intro a b h
  have hmixed : ∀ a b, base ++ "." ++ a ≠ base ++ "[" ++ quote b ++ "]" := fun a b heq => by
    have hchars := congrArg String.toList heq
    simp at hchars
  unfold memberAccess at h
  split at h <;> split at h
  · exact String.append_right_inj _ |>.mp h
  · exact absurd h (hmixed a b)
  · exact absurd h.symm (hmixed b a)
  · exact quote_injective (by simpa using h)

/-- What a string is quoted as is a literal for that string and for no other, if it has no
carriage return; without that condition it is one as far as literals could hold carriage
returns. Line feeds are never left in it. The lexer reads it as one token, whatever follows,
on the same condition. And strings are told apart by what they are quoted as, as are names by
their keys and, behind one base, by the accesses to them. -/
theorem quote_isLiteral (s : String) :
    (∀ units, IsLiteral ['\n', '\r'] units (quote s)
      ↔ units = utf16 s.toList ∧ '\r' ∉ s.toList) ∧
    (∀ units, IsLiteral ['\n'] units (quote s) ↔ units = utf16 s.toList) ∧
    '\n' ∉ (quote s).toList ∧ ('\r' ∈ (quote s).toList ↔ '\r' ∈ s.toList) ∧
    (∀ pos rest, Script.readToken pos ((quote s).toList ++ rest)
      = (.string (some s), pos + byteSize (quote s).toList, rest) ↔ '\r' ∉ s.toList) ∧
    Function.Injective quote ∧ Function.Injective propertyKey ∧
    ∀ base, Function.Injective (memberAccess base) := by
  have hfeed : escapeChar '\n' ≠ ['\n'] := by decide
  have hreturn : escapeChar '\r' = ['\r'] := by decide
  refine ⟨fun units => ?_, fun units => ?_, Script.lineFeed_not_mem_quote s,
    Script.return_mem_quote_iff s, fun _ _ => Script.readToken_quote_iff, quote_injective,
    propertyKey_injective, memberAccess_injective⟩
  · simp [isLiteral_quote_iff, hfeed, hreturn]
  · simp [isLiteral_quote_iff, hfeed]

/-- A carriage return stays what it is, and what comes out is no literal. -/
theorem quote_isNoLiteral :
    quote "a\rb" = "'a\rb'" ∧ ∀ units, ¬ IsLiteral ['\n', '\r'] units (quote "a\rb") := by
  refine ⟨by decide +kernel, fun units h => ?_⟩
  exact (isLiteral_quote_iff.mp h).2 '\r' (by decide) rfl (by decide)

end Recompose
