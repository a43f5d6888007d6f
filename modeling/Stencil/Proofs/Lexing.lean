import Mathlib
import Stencil.Proofs.Integers
import Stencil.Proofs.Printing
import Stencil.Proofs.Markup

/-!
# Reading printed tokens

Tokens with single spaces between are read again as they were printed.
-/
namespace Stencil

namespace Token

open TokenKind (print printAll)

theorem takeWhile_stop {p : Char → Bool} {cs ds : List Char} (hcs : ∀ c ∈ cs, p c)
    (hds : ∀ c ∈ ds.head?, p c = false) :
    (cs ++ ds).takeWhile p = cs ∧ (cs ++ ds).dropWhile p = ds := by
  rw [List.takeWhile_append_of_pos hcs, List.dropWhile_append_of_pos hcs]
  cases ds with
  | nil => simp
  | cons d ds =>
    have hd : p d = false := hds d rfl
    simp [hd]

variable {afterOperand : Bool} {rest : List Char}

/-- A space, or nothing. -/
def Spaced (rest : List Char) : Prop := ∀ c ∈ rest.head?, c = ' '

theorem Spaced.cases (h : Spaced rest) : rest = [] ∨ ∃ later, rest = ' ' :: later := by
  cases rest with
  | nil => exact .inl rfl
  | cons c later => exact .inr ⟨later, by rw [h c rfl]⟩

theorem Spaced.stop (h : Spaced rest) {p : Char → Bool} (hp : p ' ' = false) :
    ∀ c ∈ rest.head?, p c = false := fun c hc => by rw [h c hc, hp]

/-- Nothing with which a name would go on. -/
def EndsName (rest : List Char) : Prop := ∀ c ∈ rest.head?, isNamePart c = false ∧ c ≠ '?'

/-- Neither a digit nor a point with a digit, with which a numeral would go on. -/
def EndsNumeral (rest : List Char) : Prop :=
  (∀ c ∈ rest.head?, c.isDigit = false) ∧ ∀ c later, rest = '.' :: c :: later → c.isDigit = false

theorem Spaced.endsName (h : Spaced rest) : EndsName rest := by
  intro c hc
  rw [h c hc]
  decide

theorem Spaced.endsNumeral (h : Spaced rest) : EndsNumeral rest := by
  refine ⟨h.stop (by decide), fun c later hrest => ?_⟩
  cases h '.' (by rw [hrest]; rfl)

theorem isDigit_eq_false_of_isNameStart {c : Char} (h : isNameStart c) : c.isDigit = false := by
  have hval : c.toNat = c.val.toNat := rfl
  have hstart : 65 ≤ c.toNat := by
    simp only [isNameStart, Char.isAlpha, Char.isUpper, Char.isLower, Bool.or_eq_true,
      Bool.and_eq_true, decide_eq_true_eq, UInt32.le_iff_toNat_le, ge_iff_le, ← hval] at h
    have hupper : 'A'.val.toNat = 65 := rfl
    have hlower : 'a'.val.toNat = 97 := rfl
    rcases h with (h | h) | rfl
    · omega
    · omega
    · decide
  have hnine : '9'.val.toNat = 57 := rfl
  simp only [Char.isDigit, Bool.and_eq_false_iff, decide_eq_false_iff_not,
    UInt32.le_iff_toNat_le, ge_iff_le, ← hval]
  omega

theorem lexeme_name {name : String} (hname : IsIdentifier name) (hrest : EndsName rest) :
    lexeme afterOperand (name.toList ++ rest) = .ok ⟨.ident name, name.toList, rest⟩ := by
  obtain ⟨first, parts, mark, htext, hfirst, hparts, hmark⟩ := hname
  have hdigit := isDigit_eq_false_of_isNameStart hfirst
  have hminus : first ≠ '-' := by
    rintro rfl
    revert hfirst
    decide
  have hnumber : startsNumber afterOperand (first :: (parts ++ mark ++ rest)) = false := by
    simp [startsNumber, hdigit, hminus]
  have hlexeme : nameLexeme (parts ++ mark ++ rest) = (parts ++ mark, rest) := by
    have hstop : ∀ c ∈ (mark ++ rest).head?, isNamePart c = false := by
      rcases hmark with rfl | rfl
      · exact fun c hc => (hrest c hc).1
      · simp [isNamePart]
    obtain ⟨htake, hdrop⟩ := takeWhile_stop hparts hstop
    rw [nameLexeme, List.append_assoc, htake, hdrop]
    rcases hmark with rfl | rfl
    · cases rest with
      | nil => simp
      | cons c later => simp [(hrest c rfl).2]
    · simp
  have hname : String.ofList (first :: (parts ++ mark)) = name := by
    rw [← String.ofList_toList (s := name), htext]
    rfl
  rw [htext, List.cons_append, List.cons_append, lexeme]
  simp only [hnumber, hfirst, hlexeme, hname, Bool.false_eq_true, if_false, if_true]

theorem number_toDigits (n : Nat) (h : (n : Int) ≤ Int64.maxValue.toInt) :
    number (Nat.toDigits 10 n) = .ok (.int (Int64.ofInt n)) := by
  have hpoint : '.' ∉ Nat.toDigits 10 n := fun hmem => by
    have := Decimal.isDigit_of_mem_digits hmem
    revert this
    decide
  have hread : Decimal.readInt? (String.ofList (Nat.toDigits 10 n)) = some (n : Int) :=
    Decimal.readInt?_digitText n
  have hrange : Decimal.inInt64 n := by
    have hmin : Int64.minValue.toInt ≤ 0 := by decide
    simp only [Decimal.inInt64, Bool.and_eq_true, decide_eq_true_eq]
    omega
  simp [number, hpoint, Decimal.readInt64?, hread, hrange]

theorem digitsLexeme_of_digits {text : List Char} (h : ∀ c ∈ text, c.isDigit)
    (hrest : EndsNumeral rest) : digitsLexeme (text ++ rest) = (text, rest) := by
  obtain ⟨htake, hdrop⟩ := takeWhile_stop h hrest.1
  rw [digitsLexeme, htake, hdrop]
  split
  · rename_i d later
    simp [hrest.2 d later rfl]
  · rfl

theorem toList_intText {n : Int64} (hn : 0 ≤ n) :
    (Json.intText n.toInt).toList = Nat.toDigits 10 n.toInt.natAbs := by
  have hpos : 0 ≤ n.toInt := by simpa using Int64.le_iff_toInt_le.mp hn
  simp [Json.intText, Decimal.digitText, Int.not_lt.mpr hpos]

theorem lexeme_int {n : Int64} (hn : 0 ≤ n) (hrest : EndsNumeral rest) :
    lexeme afterOperand ((Json.intText n.toInt).toList ++ rest)
      = .ok ⟨.int n, (Json.intText n.toInt).toList, rest⟩ := by
  have hpos : 0 ≤ n.toInt := by simpa using Int64.le_iff_toInt_le.mp hn
  have hcast : (n.toInt.natAbs : Int) = n.toInt := Int.natAbs_of_nonneg hpos
  have hnumber := number_toDigits n.toInt.natAbs (by rw [hcast]; exact n.toInt_le)
  rw [hcast, Int64.ofInt_toInt] at hnumber
  have hdigits : ∀ c ∈ Nat.toDigits 10 n.toInt.natAbs, c.isDigit := fun c hc =>
    Decimal.isDigit_of_mem_digits hc
  obtain ⟨c, cs, hcs⟩ := List.exists_cons_of_ne_nil
    (Nat.toDigits_ne_nil (n := n.toInt.natAbs) (b := 10))
  rw [hcs] at hnumber hdigits
  have hstarts : startsNumber afterOperand (c :: (cs ++ rest)) := by
    simp [startsNumber, hdigits c List.mem_cons_self]
  have hlexeme : digitsLexeme (cs ++ rest) = (cs, rest) :=
    digitsLexeme_of_digits (fun x hx => hdigits x (List.mem_cons_of_mem c hx)) hrest
  rw [toList_intText hn, hcs, List.cons_append, lexeme]
  simp only [hstarts, hlexeme, hnumber, if_true]

theorem lexeme_quoted {q : Char} {s : String} (hq : q = '"' ∨ q = '\'') (hs : q ∉ s.toList) :
    lexeme afterOperand (q :: s.toList ++ q :: rest)
      = .ok ⟨.str s, q :: s.toList ++ [q], rest⟩ := by
  have hbody : ∀ c ∈ s.toList, decide (c ≠ q) := fun c hc =>
    decide_eq_true fun hcq => hs (hcq ▸ hc)
  have hstop : ∀ c ∈ (q :: rest).head?, decide (c ≠ q) = false := by simp
  obtain ⟨htake, hdrop⟩ := takeWhile_stop hbody hstop
  have hnumber : startsNumber afterOperand (q :: (s.toList ++ q :: rest)) = false := by
    rcases hq with rfl | rfl <;> simp [startsNumber]
  have hstart : isNameStart q = false := by rcases hq with rfl | rfl <;> decide
  have hquote : (decide (q = '"') || decide (q = '\'')) = true := by simpa using hq
  rw [List.cons_append, lexeme]
  simp only [hnumber, hstart, hquote, hdrop, htake, Bool.false_eq_true, if_false, if_true,
    String.ofList_toList]

theorem lexeme_symbol (s : Symbol) (hrest : Spaced rest) :
    lexeme afterOperand (s.text.toList ++ rest) = .ok ⟨.symbol s, s.text.toList, rest⟩ := by
  rcases hrest.cases with rfl | ⟨later, rfl⟩
  · cases s <;> simp [Symbol.text, lexeme, startsNumber, isNameStart, symbolLexeme?]
  · cases s <;> simp [Symbol.text, lexeme, startsNumber, isNameStart, symbolLexeme?]

theorem lexeme_print {k : TokenKind} (hk : k.Printable) (hrest : Spaced rest) :
    lexeme afterOperand (k.print.toList ++ rest) = .ok ⟨k, k.print.toList, rest⟩ := by
  cases k with
  | ident name => exact lexeme_name hk hrest.endsName
  | int n => exact lexeme_int hk hrest.endsNumeral
  | str s =>
    rw [print]
    split
    · rename_i hdouble
      have hsingle : '\'' ∉ s.toList := hk.resolve_left fun h => h hdouble
      simpa using lexeme_quoted (.inr rfl) hsingle
    · rename_i hdouble
      simpa using lexeme_quoted (.inl rfl) hdouble
  | symbol s => exact lexeme_symbol s hrest
  | float x => cases hk
  | eof => cases hk

theorem isAsciiBlank_of_lexeme {c : Char} {cs : List Char} {l : Lexeme}
    (h : lexeme afterOperand (c :: cs) = .ok l) : Text.isAsciiBlank c = false := by
  by_contra hblank
  simp only [Text.isAsciiBlank, Bool.not_eq_false, Bool.or_eq_true, decide_eq_true_eq] at hblank
  rcases hblank with (((rfl | rfl) | rfl) | rfl) | rfl <;>
    simp [lexeme, startsNumber, isNameStart, symbolLexeme?] at h

theorem lexFrom_of_lexeme {pos : Nat} {c : Char} {cs : List Char} {l : Lexeme}
    {tokens : List Token} (hl : lexeme afterOperand (c :: cs) = .ok l)
    (hrest : lexFrom (pos + byteLength l.text) l.kind.endsOperand l.rest = .ok tokens) :
    lexFrom pos afterOperand (c :: cs)
      = .ok (⟨l.kind, ⟨pos, pos + byteLength l.text⟩⟩ :: tokens) := by
  rw [lexFrom, if_neg (by rw [isAsciiBlank_of_lexeme hl]; decide)]
  split
  · rename_i he
    rw [hl] at he
    cases he
  · rename_i l' hl'
    rw [hl] at hl'
    cases hl'
    simp only [hrest]
    rfl

/-- Printed tokens are read again, wherever they stand and whatever comes before them. -/
theorem lexFrom_printAll {kinds : List TokenKind} (hkinds : ∀ k ∈ kinds, k.Printable) (pos : Nat)
    (afterOperand : Bool) : ∃ tokens,
      lexFrom pos afterOperand (printAll kinds).toList = .ok tokens ∧ tokens.map kind = kinds := by
  induction kinds generalizing pos afterOperand with
  | nil => exact ⟨[], by rw [printAll]; simp [lexFrom], rfl⟩
  | cons k later ih =>
    obtain ⟨hk, hlater⟩ := List.forall_mem_cons.mp hkinds
    let rest : List Char := if later = [] then [] else ' ' :: (printAll later).toList
    have htext : (printAll (k :: later)).toList = k.print.toList ++ rest := by
      cases later with
      | nil => simp [printAll, rest]
      | cons k' later => simp [printAll, rest, String.intercalate_cons_cons]
    have hspaced : Spaced rest := by
      intro c hc
      simp only [rest] at hc
      split at hc
      · cases hc
      · cases hc
        rfl
    have hlexeme : lexeme afterOperand (k.print.toList ++ rest) = .ok ⟨k, k.print.toList, rest⟩ :=
      lexeme_print hk hspaced
    obtain ⟨tokens, htokens, hmap⟩ : ∃ tokens, lexFrom (pos + byteLength k.print.toList)
        k.endsOperand rest = .ok tokens ∧ tokens.map kind = later := by
      cases later with
      | nil => exact ⟨[], by simp [rest, lexFrom], rfl⟩
      | cons k' later =>
        obtain ⟨tokens, htokens, hmap⟩ := ih hlater (pos + byteLength k.print.toList + 1)
          k.endsOperand
        refine ⟨tokens, ?_, hmap⟩
        rw [← htokens]
        simp only [rest, reduceCtorEq, if_false]
        rw [lexFrom, if_pos (by decide)]
    obtain ⟨c, cs, hcs⟩ : ∃ c cs, k.print.toList ++ rest = c :: cs := by
      refine List.exists_cons_of_ne_nil fun hnil => ?_
      rw [hnil] at hlexeme
      have hkind : .eof = k := congrArg Lexeme.kind (Except.ok.inj hlexeme)
      rw [← hkind] at hk
      exact hk
    rw [htext]
    rw [hcs] at hlexeme ⊢
    exact ⟨_, lexFrom_of_lexeme hlexeme htokens, by rw [List.map_cons, hmap]⟩

/-- Printed tokens are the tokens of their text. -/
theorem lex_printAll {kinds : List TokenKind} (hkinds : ∀ k ∈ kinds, k.Printable) :
    ∃ tokens, lex (printAll kinds) = .ok tokens ∧ tokens.map kind = kinds :=
  lexFrom_printAll hkinds 0 false

end Token

end Stencil
